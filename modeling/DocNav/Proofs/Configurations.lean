import DocNav.Config
import DocNav.Proofs.PathComponents
/-!
# Where the data of a configuration lies

A configuration comes from the file that is named, from the nearest one found from the working directory upward, or from
no file. What it says is checked once its variables are replaced and its paths are joined to the directory they start at;
the data file of the command line takes its place after that. All of it is said by one structure (`Config.Site.Effective`)
of the machine, the file that is named and the data file of the command line, and exactly the configurations it describes
load. The check looks at the joined source, so a source that leads nowhere else takes the name of its directory for its
own (`FilePath.isData_join`).

Main result: `Config.Site.loads_what_is_effective`.
-/

namespace DocNav

open FilePath (IsData StaysPut LiesIn)

/-! ## Directories above -/

/-- The directory so many steps above a path, if there is one. -/
def FilePath.above? : (steps : Nat) → FilePath → Option FilePath
  | 0, p => some p
  | steps + 1, p => p.parent?.bind (above? steps)

namespace Config

/-- The directories that are looked in are those above, however many there are. -/
theorem getElem?_upwardIn {steps : Nat} {dir : FilePath} (h : dir.text.length ≤ steps) (k : Nat) :
    (upwardIn steps dir)[k]? = dir.above? k := by
  induction steps generalizing dir k with
  | zero =>
    have hnone : dir.parent? = none := by
      cases hparent : dir.parent? with
      | none => rfl
      | some above =>
        have := FilePath.length_parent? hparent
        omega
    cases k with
    | zero => rfl
    | succ k => simp [upwardIn, FilePath.above?, hnone]
  | succ steps ih =>
    rw [upwardIn]
    cases hparent : dir.parent? with
    | none => cases k <;> simp [FilePath.above?, hparent]
    | some above =>
      cases k with
      | zero => rfl
      | succ k =>
        have hlength := FilePath.length_parent? hparent
        rw [List.getElem?_cons_succ, ih (by omega), FilePath.above?, hparent]
        rfl

end Config

/-! ## Where the data lies -/

namespace Places

/-- The places for what a data section says, seen from a directory, with a data file of the command line. -/
structure Follow (dir : FilePath) (d : DataSection) (source : Option FilePath) (ps : Places) : Prop where
  source : ps.source = source.getD (dir.join ((d.source.map FilePath.mk).getD usualSource))
  fragmentsDir_set : ∀ f, d.fragmentsDir = some f → ps.fragmentsDir = dir.join ⟨f⟩
  fragmentsDir_unset : d.fragmentsDir = none → ps.fragmentsDir = ps.source.directory
  anchors : ps.anchors = d.anchors.map fun a => dir.join ⟨a⟩
  projectDir : ps.projectDir = dir.join projectName

theorem follow_resolve (dir : FilePath) (d : DataSection) : Follow dir d none (resolve dir d) where
  source := rfl
  fragmentsDir_set := fun f hf => by simp [resolve, hf]
  fragmentsDir_unset := fun hf => by simp [resolve, hf]
  anchors := rfl
  projectDir := rfl

theorem Follow.unique {dir : FilePath} {d : DataSection} {source : Option FilePath} {ps qs : Places}
    (hps : Follow dir d source ps) (hqs : Follow dir d source qs) : ps = qs := by
  have hsource := hps.source.trans hqs.source.symm
  have hfragments : ps.fragmentsDir = qs.fragmentsDir := by
    cases hd : d.fragmentsDir with
    | none => rw [hps.fragmentsDir_unset hd, hqs.fragmentsDir_unset hd, hsource]
    | some f => rw [hps.fragmentsDir_set f hd, hqs.fragmentsDir_set f hd]
  rw [Places.mk.injEq]
  exact ⟨hsource, hfragments, hps.anchors.trans hqs.anchors.symm, hps.projectDir.trans hqs.projectDir.symm⟩

theorem follow_none_iff {dir : FilePath} {d : DataSection} {ps : Places} :
    Follow dir d none ps ↔ ps = resolve dir d := by
  constructor
  · intro h
    exact h.unique (follow_resolve dir d)
  · rintro rfl
    exact follow_resolve dir d

end Places

namespace Config

theorem text_withSource (c : Config) (source : Option FilePath) : (c.withSource source).text = c.text := by
  cases source <;> rfl

theorem file_withSource (c : Config) (source : Option FilePath) : (c.withSource source).file = c.file := by
  cases source <;> rfl

/-- What the command line takes no part in. -/
def own (c : Config) : ConfigText × Option FilePath × Option FilePath × FilePath :=
  (c.text, c.file, c.places.anchors, c.places.projectDir)

theorem own_withSource (c : Config) (source : Option FilePath) : (c.withSource source).own = c.own := by
  cases source <;> rfl

/-- The data file of the command line comes in the place of the configured one. -/
theorem follow_withSource {c : Config} {dir : FilePath} (h : Places.Follow dir c.text.data none c.places)
    (source : Option FilePath) : Places.Follow dir c.text.data source (c.withSource source).places := by
  cases source with
  | none => exact h
  | some source =>
    unfold withSource
    exact ⟨rfl, fun f hf => by simp [hf, h.fragmentsDir_set f hf], fun hf => by simp [hf], h.anchors, h.projectDir⟩

end Config

/-! ## What is checked -/

theorem ConfigText.not_mem_expandable {text : ConfigText} {s : String} : s ∉ text.expandable ↔
    text.data.source ≠ some s ∧ text.data.fragmentsDir ≠ some s ∧ text.data.anchors ≠ some s ∧
      text.sync.onMessage ≠ some s ∧ text.sync.offMessage ≠ some s := by
  unfold expandable
  simp [eq_comm, not_or]

namespace Config

theorem checkSetting_eq_ok {setting : String} {v : Option String} {u : Unit} :
    checkSetting setting v = .ok u ↔ v ≠ some "" := by
  unfold checkSetting
  by_cases h : v = some "" <;> simp [h]

theorem bind_eq_ok {ε α β : Type} {x : Except ε α} {f : α → Except ε β} {b : β} :
    (x >>= f) = .ok b ↔ ∃ a, x = .ok a ∧ f a = .ok b := by
  cases x <;> simp [bind, Except.bind]

/-- What is checked, whatever the order. -/
theorem validate_eq_ok {c : Config} {u : Unit} :
    c.validate = .ok u ↔ "" ∉ c.text.expandable ∧ c.places.source.IsData := by
  rw [ConfigText.not_mem_expandable, FilePath.isData_iff]
  unfold validate
  by_cases hformat : c.places.source.extension? ≠ some "json" ∧ c.places.source.extension? ≠ some "js"
  · have hnot : ¬ (c.places.source.extension? = some "json" ∨ c.places.source.extension? = some "js") :=
      not_or.2 hformat
    simp only [if_pos hformat, bind_eq_ok, checkSetting_eq_ok, hnot, and_false, throw, throwThe, MonadExceptOf.throw]
    simp
  · have hdata := or_iff_not_and_not.2 hformat
    simp only [if_neg hformat, bind_eq_ok, checkSetting_eq_ok, exists_const, hdata, and_true]

/-- Without a source that is set there is nothing to refuse. -/
theorem isData_usualSource (dir : FilePath) : (dir.join Places.usualSource).IsData := by
  rw [FilePath.isData_join]
  left
  exact ⟨"navtreedata".toList, by simp, .inr (by rfl)⟩

/-- A text that loads from a directory: no setting is empty, and a source that is set is a data file, unless it leads
nowhere else from a directory that is named like one. -/
structure Accepted (dir : FilePath) (text : ConfigText) : Prop where
  present : "" ∉ text.expandable
  source : ∀ s, text.data.source = some s → IsData ⟨s⟩ ∨ StaysPut ⟨s⟩ ∧ dir.IsData

theorem accepted_empty (dir : FilePath) : Accepted dir {} where
  present := by decide
  source := by simp

theorem accepted_iff {dir : FilePath} {text : ConfigText} :
    Accepted dir text ↔ "" ∉ text.expandable ∧ (Places.resolve dir text.data).source.IsData := by
  have hsource : (∀ s, text.data.source = some s → IsData ⟨s⟩ ∨ StaysPut ⟨s⟩ ∧ dir.IsData) ↔
      (Places.resolve dir text.data).source.IsData := by
    show _ ↔ (dir.join ((text.data.source.map FilePath.mk).getD Places.usualSource)).IsData
    cases text.data.source with
    | none => simp [isData_usualSource]
    | some s => simp [FilePath.isData_join]
  rw [← hsource]
  exact ⟨fun h => ⟨h.present, h.source⟩, fun h => ⟨h.1, h.2⟩⟩

theorem ofFile_eq_ok {env : String → Option String} {file : FilePath} {written : ConfigText} {c : Config} :
    ofFile env file written = .ok c ↔ ∃ text, written.expand env = .ok text ∧
      Accepted (file.parent?.getD ⟨"."⟩) text ∧
      c = { text, places := .resolve (file.parent?.getD ⟨"."⟩) text.data, file := some file } := by
  unfold ofFile
  simp only [bind_eq_ok, validate_eq_ok, exists_const, ← accepted_iff, pure, Except.pure, Except.ok.injEq]
  exact exists_congr fun text => and_congr_right fun _ => and_congr_right fun _ => eq_comm

/-! ## Loading on a machine -/

/-- A machine that configurations are loaded on. -/
structure Site where
  files : FileTree
  workingDir : FilePath
  settings : List (String × String)

namespace Site

def isThere (a : Site) (p : FilePath) : Bool := a.files.isThere a.workingDir p

/-- What loading gives, with the file that is named and the data file of the command line. -/
def load (a : Site) (named source : Option FilePath) : Except ConfigError Config :=
  (Config.load (FileTree.host a.workingDir a.settings) named source a.files).1

/-- The file that a configuration comes from, if it comes from one: a file that is named and there; without a name, that
of the working directory or of the nearest directory above that has one. -/
inductive Origin (a : Site) : Option FilePath → Option FilePath → Prop
  | named {f : FilePath} : a.isThere f = true → Origin a (some f) (some f)
  | found {k : Nat} {dir : FilePath} : a.workingDir.above? k = some dir → a.isThere (dir.join fileName) = true →
      (∀ j < k, ∀ below, a.workingDir.above? j = some below → a.isThere (below.join fileName) = false) →
      Origin a none (some (dir.join fileName))
  | usual : (∀ k dir, a.workingDir.above? k = some dir → a.isThere (dir.join fileName) = false) → Origin a none none

/-- The directory that the paths of a configuration start at. -/
def base (a : Site) : Option FilePath → FilePath
  | none => a.workingDir
  | some file => file.parent?.getD ⟨"."⟩

/-- What a file says once its variables are replaced; without one, nothing. -/
def TextOf (a : Site) : Option FilePath → ConfigText → Prop
  | none, text => text = {}
  | some file, text => ∃ s written, a.files.readText a.workingDir file = .ok s ∧
      ConfigText.read? s.toList = some written ∧ written.expand (lookupVariable a.settings) = .ok text

theorem firstThere_eq (a : Site) (fs : List FilePath) :
    firstThere (FileTree.host a.workingDir a.settings) fs a.files = (fs.find? a.isThere, a.files) := by
  induction fs with
  | nil => rfl
  | cons f fs ih =>
    have hstep : firstThere (FileTree.host a.workingDir a.settings) (f :: fs) a.files =
        (if a.isThere f then (pure (some f) : StateM FileTree (Option FilePath))
          else firstThere (FileTree.host a.workingDir a.settings) fs) a.files := rfl
    rw [hstep, List.find?_cons]
    cases a.isThere f with
    | true => rfl
    | false => exact ih

/-- The file that is found without a name. -/
def discovered? (a : Site) : Option FilePath := ((upward a.workingDir).map (·.join fileName)).find? a.isThere

/-- What a file loads as. -/
def read (a : Site) (file : FilePath) : Except ConfigError Config :=
  match a.files.readText a.workingDir file with
  | .error fault => .error (.unreadable fault)
  | .ok s =>
    match ConfigText.read? s.toList with
    | none => .error .malformed
    | some written => ofFile (lookupVariable a.settings) file written

theorem loadFile_eq (a : Site) (file : FilePath) :
    loadFile (FileTree.host a.workingDir a.settings) file a.files = (a.read file, a.files) := by
  unfold loadFile read
  simp only [bind, StateT.bind, FileTree.host, MonadState.get, getThe, MonadStateOf.get, StateT.get, pure, StateT.pure]
  cases a.files.readText a.workingDir file with
  | error fault => rfl
  | ok s =>
    simp only
    cases ConfigText.read? s.toList <;> rfl

/-- What is loaded before the command line takes part. -/
def settled (a : Site) : Option FilePath → Except ConfigError Config
  | some f => if a.isThere f then a.read f else .error (.notFound f)
  | none =>
    match a.discovered? with
    | some f => a.read f
    | none => .ok (usual a.workingDir)

theorem load_eq (a : Site) (named source : Option FilePath) :
    a.load named source = (a.settled named).map (·.withSource source) := by
  unfold load settled Config.load
  cases named with
  | some f =>
    have hthere : (FileTree.host a.workingDir a.settings).isThere f a.files = (a.isThere f, a.files) := rfl
    simp only [bind, StateT.bind, hthere]
    cases a.isThere f with
    | true =>
      simp only [if_true, StateT.bind, loadFile_eq]
      rfl
    | false => rfl
  | none =>
    have hdiscover : discover (FileTree.host a.workingDir a.settings) a.files = (a.discovered?, a.files) :=
      a.firstThere_eq _
    simp only [bind, StateT.bind, hdiscover]
    cases a.discovered? with
    | some f =>
      simp only [StateT.bind, loadFile_eq]
      rfl
    | none => rfl

/-! ## What is loaded -/

theorem read_eq_ok {a : Site} {file : FilePath} {c : Config} :
    a.read file = .ok c ↔ c.file = some file ∧ a.TextOf c.file c.text ∧ Accepted (a.base c.file) c.text ∧
      c.places = .resolve (a.base c.file) c.text.data := by
  unfold read
  constructor
  · intro h
    cases hread : a.files.readText a.workingDir file with
    | error fault => simp [hread] at h
    | ok s =>
      cases hwritten : ConfigText.read? s.toList with
      | none => simp [hread, hwritten] at h
      | some written =>
        simp only [hread, hwritten] at h
        obtain ⟨text, hexpand, haccepted, rfl⟩ := ofFile_eq_ok.1 h
        exact ⟨rfl, ⟨s, written, hread, hwritten, hexpand⟩, haccepted, rfl⟩
  · rintro ⟨hfile, htext, haccepted, hplaces⟩
    rw [hfile] at htext haccepted
    replace hplaces : c.places = .resolve (file.parent?.getD ⟨"."⟩) c.text.data := by rwa [hfile] at hplaces
    obtain ⟨s, written, hread, hwritten, hexpand⟩ := htext
    simp only [hread, hwritten]
    refine ofFile_eq_ok.2 ⟨c.text, hexpand, haccepted, ?_⟩
    rw [← hfile, ← hplaces]

/-- The search from the working directory upward ends at the nearest file. -/
theorem origin_none_iff {a : Site} {file : Option FilePath} : a.Origin none file ↔ file = a.discovered? := by
  have hupward (k : Nat) : (upward a.workingDir)[k]? = a.workingDir.above? k := getElem?_upwardIn le_rfl k
  rw [discovered?, List.find?_map]
  constructor
  · intro h
    cases h with
    | @found k dir hdir hthere hnearest =>
      obtain ⟨hk, hget⟩ := List.getElem?_eq_some_iff.1 ((hupward k).trans hdir)
      have hfind : (upward a.workingDir).find? (a.isThere ∘ (·.join fileName)) = some dir := by
        refine List.find?_eq_some_iff_getElem.2 ⟨hthere, k, hk, hget, fun j hj => ?_⟩
        have habsent := hnearest j hj _ ((hupward j).symm.trans (List.getElem?_eq_getElem (hj.trans hk)))
        rw [Function.comp_apply, habsent]
        rfl
      rw [hfind]
      rfl
    | usual hnowhere =>
      have hfind : (upward a.workingDir).find? (a.isThere ∘ (·.join fileName)) = none := by
        refine List.find?_eq_none.2 fun dir hdir => ?_
        obtain ⟨k, hk⟩ := List.getElem?_of_mem hdir
        simp [hnowhere k dir ((hupward k).symm.trans hk)]
      rw [hfind]
      rfl
  · rintro rfl
    cases hfind : (upward a.workingDir).find? (a.isThere ∘ (·.join fileName)) with
    | none =>
      refine .usual fun k dir hdir => ?_
      have habsent := List.find?_eq_none.1 hfind dir (List.mem_of_getElem? ((hupward k).trans hdir))
      simpa using habsent
    | some dir =>
      obtain ⟨hthere, k, hk, hget, hnearest⟩ := List.find?_eq_some_iff_getElem.1 hfind
      have hdir := (hupward k).symm.trans (List.getElem?_eq_some_iff.2 ⟨hk, hget⟩)
      refine .found hdir hthere fun j hj below hbelow => ?_
      obtain ⟨hj', rfl⟩ := List.getElem?_eq_some_iff.1 ((hupward j).trans hbelow)
      simpa using hnearest j hj

theorem origin_some_iff {a : Site} {f : FilePath} {file : Option FilePath} :
    a.Origin (some f) file ↔ file = some f ∧ a.isThere f = true := by
  constructor
  · intro h
    cases h with
    | named hthere => exact ⟨rfl, hthere⟩
  · rintro ⟨rfl, hthere⟩
    exact .named hthere

theorem settled_eq_ok {a : Site} {named : Option FilePath} {c : Config} :
    a.settled named = .ok c ↔ a.Origin named c.file ∧ a.TextOf c.file c.text ∧ Accepted (a.base c.file) c.text ∧
      c.places = .resolve (a.base c.file) c.text.data := by
  unfold settled
  cases named with
  | some f =>
    rw [origin_some_iff]
    by_cases hthere : a.isThere f = true
    · simp only [hthere, if_true, and_true]
      exact read_eq_ok
    · simp [hthere]
  | none =>
    rw [origin_none_iff]
    cases a.discovered? with
    | some f => exact read_eq_ok
    | none =>
      obtain ⟨text, places, file⟩ := c
      simp only [Except.ok.injEq, usual, Config.mk.injEq]
      constructor
      · rintro ⟨rfl, rfl, rfl⟩
        exact ⟨rfl, rfl, accepted_empty _, rfl⟩
      · rintro ⟨rfl, htext, -, hplaces⟩
        obtain rfl : text = {} := htext
        exact ⟨rfl, hplaces.symm, rfl⟩

/-- What a configuration that loads is: where it comes from, what it says and the places that follow. -/
structure Effective (a : Site) (named source : Option FilePath) (c : Config) : Prop where
  origin : a.Origin named c.file
  text : a.TextOf c.file c.text
  accepted : Accepted (a.base c.file) c.text
  places : Places.Follow (a.base c.file) c.text.data source c.places

theorem effective_of_settled {a : Site} {named : Option FilePath} {c : Config} (h : a.settled named = .ok c)
    (source : Option FilePath) : a.Effective named source (c.withSource source) := by
  obtain ⟨horigin, htext, haccepted, hplaces⟩ := settled_eq_ok.1 h
  have hfollow := follow_withSource (Places.follow_none_iff.2 hplaces) source
  cases source with
  | none => exact ⟨horigin, htext, haccepted, hfollow⟩
  | some source => exact ⟨horigin, htext, haccepted, hfollow⟩

/-- What was settled before the command line took part is not told by the places, but by the text. -/
theorem Effective.settled {a : Site} {named source : Option FilePath} {c : Config} (h : a.Effective named source c) :
    ∃ c', a.settled named = .ok c' ∧ c'.withSource source = c := by
  let c' : Config := { c with places := .resolve (a.base c.file) c.text.data }
  have hplaces : (c'.withSource source).places = c.places :=
    (follow_withSource (Places.follow_resolve _ _) source).unique h.places
  have htext : (c'.withSource source).text = c.text := text_withSource c' source
  have hfile : (c'.withSource source).file = c.file := file_withSource c' source
  refine ⟨c', settled_eq_ok.2 ⟨h.origin, h.text, h.accepted, rfl⟩, ?_⟩
  rw [Config.mk.injEq]
  exact ⟨htext, hplaces, hfile⟩

theorem load_eq_ok {a : Site} {named source : Option FilePath} {c : Config} :
    a.load named source = .ok c ↔ a.Effective named source c := by
  rw [load_eq]
  constructor
  · intro h
    cases hsettled : a.settled named with
    | error e => simp [hsettled, Except.map] at h
    | ok c' =>
      rw [hsettled] at h
      obtain rfl := Except.ok.inj h
      exact effective_of_settled hsettled source
  · intro h
    obtain ⟨c', hsettled, rfl⟩ := h.settled
    rw [hsettled]
    rfl

/-- Where the data lies. A configuration loads if and only if it is effective: it comes from the file that is named or
found, or from none; its text is that of the file with its variables replaced; no setting is empty then, and a source that
is set is a data file, unless it stays in a directory that is named like one; and its places follow from the text and the
data file of the command line. What else it says is the same with any data file, and fragments that no directory is set
for lie in the directory of the effective source. -/
theorem loads_what_is_effective (a : Site) (named source : Option FilePath) :
    (∀ c, a.load named source = .ok c ↔ a.Effective named source c) ∧
    (a.load named source).map Config.own = (a.load named none).map Config.own ∧
    ∀ c, a.load named source = .ok c → c.text.data.fragmentsDir = none →
      c.places.source.LiesIn c.places.fragmentsDir := by
  refine ⟨fun c => load_eq_ok, ?_, ?_⟩
  · rw [load_eq, load_eq]
    cases a.settled named with
    | error e => rfl
    | ok c => simp [Except.map, own_withSource]
  · intro c hload hunset
    rw [(load_eq_ok.1 hload).places.fragmentsDir_unset hunset]
    exact FilePath.liesIn_directory c.places.source

/-- The directory above has a file, whose source is replaced by a bare name. -/
theorem loads_from_above :
    let written := "[data]\nsource = \"$\x7bD\x7d/nav.js\"\nanchors = \"a.json\""
    let entries := [("sub", .directory []), ("navtree.toml", .file (.text written))]
    let a : Site := ⟨⟨.directory [("w", .directory entries)]⟩, ⟨"/w/sub"⟩, [("D", "x")]⟩
    let c : Config := {
      text := { data := { source := some "x/nav.js", anchors := some "a.json" } }
      places := ⟨⟨"b.json"⟩, ⟨"."⟩, some ⟨"/w/a.json"⟩, ⟨"/w/.navtree"⟩⟩
      file := some ⟨"/w/navtree.toml"⟩ }
    a.load none (some ⟨"b.json"⟩) = .ok c ∧ LiesIn ⟨"b.json"⟩ ⟨"."⟩ := by
  intro written entries a c
  have hlocate (p : FilePath) (ps : List (List Char)) (habsolute : p.text.toList.head? = some '/')
      (hpieces : FileTree.checkedPieces p = .ok ps) : a.files.locate a.workingDir p = a.files.walk [] ps :=
    FileTree.locate_of_startsAt hpieces (.inl ⟨(FilePath.isAbsolute_iff p).2 habsolute, rfl⟩)
  have hfound : a.files.locate a.workingDir ⟨"/w/navtree.toml"⟩ = .ok ["w", "navtree.toml"] := by
    rw [hlocate _ [[], "w".toList, "navtree.toml".toList] (by rfl) (by rfl)]
    rfl
  have hmissed : a.files.locate a.workingDir ⟨"/w/sub/navtree.toml"⟩ = .error .missing := by
    rw [hlocate _ [[], "w".toList, "sub".toList, "navtree.toml".toList] (by rfl) (by rfl)]
    rfl
  have habove : a.workingDir.above? 1 = some ⟨"/w"⟩ := by decide +kernel
  have hfile : (FilePath.mk "/w").join fileName = ⟨"/w/navtree.toml"⟩ := by decide +kernel
  have hother : (FilePath.mk "/w/sub").join fileName = ⟨"/w/sub/navtree.toml"⟩ := by decide +kernel
  have hbase : a.base c.file = ⟨"/w"⟩ := by decide +kernel
  have horigin : a.Origin none c.file := by
    have horigin := Origin.found habove
    rw [hfile] at horigin
    apply horigin
    · rw [isThere, FileTree.isThere, hfound]
      rfl
    · intro j hj below hbelow
      obtain rfl : j = 0 := by omega
      obtain rfl : (⟨"/w/sub"⟩ : FilePath) = below := Option.some.inj hbelow
      rw [hother, isThere, FileTree.isThere, hmissed]
      rfl
  have htext : a.TextOf c.file c.text := by
    refine ⟨written, { data := { source := some "$\x7bD\x7d/nav.js", anchors := some "a.json" } }, ?_, ?_, ?_⟩
    · rw [FileTree.readText, hfound]
      rfl
    · decide +kernel
    · decide +kernel
  have haccepted : Accepted (a.base c.file) c.text := by
    refine ⟨by decide, fun s hs => ?_⟩
    obtain rfl : "x/nav.js" = s := Option.some.inj hs
    exact .inl ⟨"nav".toList, by simp, .inr (by rfl)⟩
  have hplaces : Places.Follow (a.base c.file) c.text.data (some ⟨"b.json"⟩) c.places := by
    rw [hbase]
    refine ⟨rfl, fun f hf => ?_, fun _ => ?_, ?_, ?_⟩
    · cases hf
    · decide +kernel
    · decide +kernel
    · decide +kernel
  have hload := ((loads_what_is_effective a none (some ⟨"b.json"⟩)).1 c).2 ⟨horigin, htext, haccepted, hplaces⟩
  exact ⟨hload, (loads_what_is_effective a none (some ⟨"b.json"⟩)).2.2 c hload rfl⟩

/-- A source that is the directory again is taken for data where the directory is named like it. -/
theorem loads_a_directory :
    let written := "[data]\nsource = \".\""
    let a : Site := ⟨⟨.directory [("nav.json", .directory [("navtree.toml", .file (.text written))])]⟩, ⟨"/"⟩, []⟩
    ∃ c, a.load (some ⟨"nav.json/navtree.toml"⟩) none = .ok c ∧ c.text.data.source = some "." ∧
      (FilePath.mk ".").extension? = none := by
  intro written a
  have hlocate : a.files.locate ⟨"/"⟩ ⟨"nav.json/navtree.toml"⟩ = .ok ["nav.json", "navtree.toml"] := by
    have hpieces : FileTree.checkedPieces ⟨"nav.json/navtree.toml"⟩ =
        .ok ["nav.json".toList, "navtree.toml".toList] := by rfl
    have hrelative : (FilePath.mk "nav.json/navtree.toml").isAbsolute = false := by
      rw [Bool.eq_false_iff, ne_eq, FilePath.isAbsolute_iff]
      decide
    have hstart : a.files.StartsAt ⟨"/"⟩ ⟨"nav.json/navtree.toml"⟩ [] := .inr ⟨hrelative, by rfl⟩
    rw [FileTree.locate_of_startsAt hpieces hstart]
    rfl
  let c : Config := {
    text := { data := { source := some "." } }
    places := .resolve ⟨"nav.json"⟩ { source := some "." }
    file := some ⟨"nav.json/navtree.toml"⟩ }
  have hbase : a.base c.file = ⟨"nav.json"⟩ := by decide +kernel
  have horigin : a.Origin (some ⟨"nav.json/navtree.toml"⟩) c.file := by
    apply Origin.named
    rw [isThere, FileTree.isThere, hlocate]
    rfl
  have htext : a.TextOf c.file c.text := by
    refine ⟨written, { data := { source := some "." } }, ?_, ?_, ?_⟩
    · rw [FileTree.readText, hlocate]
      rfl
    · decide +kernel
    · decide +kernel
  have haccepted : Accepted (a.base c.file) c.text := by
    refine ⟨by decide, fun s hs => .inr ?_⟩
    obtain rfl : "." = s := Option.some.inj hs
    rw [hbase]
    exact ⟨⟨FilePath.not_isAbsolute_of_plain (by decide), by rfl⟩, "nav".toList, by simp, .inl (by rfl)⟩
  have hplaces : Places.Follow (a.base c.file) c.text.data none c.places := by
    rw [hbase]
    exact Places.follow_resolve _ _
  refine ⟨c, load_eq_ok.2 ⟨horigin, htext, haccepted, hplaces⟩, rfl, ?_⟩
  decide +kernel

end Site
end Config
end DocNav
