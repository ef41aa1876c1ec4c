import DocNav.Proofs.Formats
import DocNav.Proofs.StateFiles
import DocNav.Source.Folder
/-!
# The files of a fragment

A fragment is kept as the JSON text of an array, or as a script that assigns that text to a variable named as the handle.
Where the handle is a word both files have names that a directory can hold, and the text is cut out of the script as it
stands (`Script.listLiteral?_of_assigns`). A file that is not there is told from one that cannot be read
(`FileTree.Names.readText_absent`, `FileTree.readText_of_isThere`), so the script is only looked at where the JSON file is
not there.

Main result: `Folder.script_form_agrees`.
-/

namespace DocNav

/-! ## Handles that are words -/

/-- The key is a word: one or more letters, digits and underscores, all of them ASCII. -/
def Handle.IsWord (h : Handle) : Prop := h.key ≠ "" ∧ ∀ c ∈ h.key.toList, c.isAlphanum = true ∨ c = '_'

namespace FilePath

/-- A name that leads to an entry of a directory, however long it is. -/
structure EntryName (name : String) : Prop where
  separators : '/' ∉ name.toList
  present : name.toList ≠ []
  dot : name.toList ≠ ['.']
  dots : name.toList ≠ ['.', '.']

theorem EntryName.plainName {name : String} (h : EntryName name) (hsize : name.utf8ByteSize ≤ FileTree.nameLimit) :
    PlainName name where
  separators := h.separators
  present := h.present
  dot := h.dot
  dots := h.dots
  size := hsize

/-- With an extension, any name without separators is that of an entry. -/
theorem entryName_append {key extension : String} (hkey : '/' ∉ key.toList) (hextension : '/' ∉ extension.toList)
    (hpresent : 3 ≤ extension.toList.length) : EntryName (key ++ extension) := by
  have hlength : 3 ≤ (key ++ extension).toList.length := by
    rw [String.toList_append, List.length_append]
    omega
  constructor
  · rw [String.toList_append, List.mem_append, not_or]
    exact ⟨hkey, hextension⟩
  · intro hnil
    simp [hnil] at hlength
  · intro hdot
    simp [hdot] at hlength
  · intro hdots
    simp [hdots] at hlength

/-- Behind the same directory, a longer name makes a longer path. -/
theorem size_join_le (dir : FilePath) {name name' : String} (h : '/' ∉ name.toList) (h' : '/' ∉ name'.toList)
    (hle : name.utf8ByteSize ≤ name'.utf8ByteSize) :
    (dir.join ⟨name⟩).text.utf8ByteSize ≤ (dir.join ⟨name'⟩).text.utf8ByteSize := by
  have hjoin {n : String} (hn : '/' ∉ n.toList) : dir.join ⟨n⟩ =
      if dir.text.isEmpty || dir.text.endsWith "/" then ⟨dir.text ++ n⟩ else ⟨dir.text ++ "/" ++ n⟩ := by
    rw [join, if_neg (by simp [not_isAbsolute_of_plain hn])]
  rw [hjoin h, hjoin h']
  split
  · simp only [String.utf8ByteSize_append]
    omega
  · simp only [String.utf8ByteSize_append]
    omega

end FilePath

namespace Handle.IsWord

variable {h : Handle}

theorem isWord (hword : h.IsWord) : ∀ c ∈ h.key.toList, CharClass.isWord c = true := fun c hc =>
  CharClass.isWord_of_ascii (hword.2 c hc)

/-- What is no word character is not in the key. -/
theorem not_mem (hword : h.IsWord) {c : Char} (hc : CharClass.isWord c = false) : c ∉ h.key.toList := by
  intro hmem
  rw [hword.isWord c hmem] at hc
  cases hc

theorem isFileStem (hword : h.IsWord) : Folder.isFileStem h = true := by
  have hdot : h.key.toList.head? ≠ some '.' := fun hhead => hword.not_mem (by rfl) (List.mem_of_head? hhead)
  have hslash : '/' ∉ h.key.toList := hword.not_mem (by rfl)
  have hback : '\\' ∉ h.key.toList := hword.not_mem (by rfl)
  simp [Folder.isFileStem, hword.1, hslash, hback, hdot]

theorem nul_not_mem (hword : h.IsWord) {extension : String} (hnul : '\x00' ∉ extension.toList) :
    '\x00' ∉ (h.key ++ extension).toList := by
  rw [String.toList_append, List.mem_append, not_or]
  exact ⟨hword.not_mem (by rfl), hnul⟩

/-- With an extension, the key is a name that a directory can hold. -/
theorem plainName (hword : h.IsWord) (extension : String) (hpresent : 3 ≤ extension.toList.length)
    (hslash : '/' ∉ extension.toList) (hsize : (h.key ++ extension).utf8ByteSize ≤ FileTree.nameLimit) :
    FilePath.PlainName (h.key ++ extension) :=
  (FilePath.entryName_append (hword.not_mem (by rfl)) hslash hpresent).plainName hsize

end Handle.IsWord

namespace Script

/-- The text assigns the literal to the name: there may be any blanks around the parts, and any text behind the
literal. -/
inductive Sets (name literal : List Char) : List Char → Prop
  | mk {b b' s rest : List Char} : (∀ c ∈ b, CharClass.isBlank c = true) → (∀ c ∈ b', CharClass.isBlank c = true) →
      Assigns name s (b' ++ (literal ++ rest)) → Sets name literal (b ++ s)

theorem Sets.listLiteral? {name text s : List Char} {js : List Json} (h : Sets name text s)
    (hname : ∀ c ∈ name, CharClass.isWord c = true) (htext : Json.Text (.array js) text) :
    ∃ literal, Script.listLiteral? name s = some literal ∧ Json.read? literal = some (.array js) := by
  cases h with | mk hb hb' hassigns
  rw [listLiteral?_behind_blanks name hb]
  exact listLiteral?_of_assigns hname hassigns hb' htext

end Script

/-! ## Entries of a directory -/

namespace FileTree

open FilePath (PlainName pieces)

variable {t : FileTree} {workingDir p dir : FilePath} {name s : String} {place q : List String}
  {es : List (String × FileEntry)}

/-- The path leads to the place of a directory, where the empty path stands for the working directory. -/
def LeadsTo (t : FileTree) (workingDir dir : FilePath) (place : List String) : Prop :=
  t.locate workingDir dir = .ok place ∨
    dir.text = "" ∧ t.walk [] (pieces workingDir.text.toList) = .ok place

theorem eq_of_walk_empty (h : t.walk place [[]] = .ok q) : q = place := by
  rw [walk] at h
  split at h
  · cases h
  · cases h
  · rw [if_pos (.inl rfl), walk] at h
    cases h
    rfl

theorem nul_not_mem_join (hname : PlainName name) (hdir : '\x00' ∉ dir.text.toList) (hnul : '\x00' ∉ name.toList) :
    '\x00' ∉ (dir.join ⟨name⟩).text.toList := by
  rcases FilePath.join_cases dir hname.separators with ⟨-, hjoin⟩ | ⟨-, -, hjoin⟩ | ⟨-, hjoin⟩
  · rwa [hjoin]
  · rw [hjoin, String.toList_append, List.mem_append, not_or]
    exact ⟨hdir, hnul⟩
  · rw [hjoin, String.toList_append, String.toList_append, List.mem_append, List.mem_append, not_or, not_or]
    exact ⟨⟨hdir, by decide⟩, hnul⟩

theorem checkedPieces_join {above : List (List Char)} (hname : PlainName name) (hdir : '\x00' ∉ dir.text.toList)
    (hnul : '\x00' ∉ name.toList) (hsize : (dir.join ⟨name⟩).text.utf8ByteSize < pathLimit)
    (hpieces : pieces (dir.join ⟨name⟩).text.toList = above ++ [name.toList]) :
    checkedPieces (dir.join ⟨name⟩) = .ok (above ++ [name.toList]) := by
  refine checkedPieces_eq_ok.2 ⟨nul_not_mem_join hname hdir hnul, hsize, ?_, hpieces⟩
  intro hempty
  rw [hempty] at hpieces
  have hsingle : above ++ [name.toList] = [[]] := hpieces.symm
  have hlast : name.toList = [] := by simpa using congrArg List.getLast? hsingle
  exact hname.present hlast

/-- A name behind the path of a directory names an entry there. -/
theorem names_of_leadsTo (hname : PlainName name) (hnul : '\x00' ∉ name.toList)
    (hsize : (dir.join ⟨name⟩).text.utf8ByteSize < pathLimit) (hdir : t.LeadsTo workingDir dir place)
    (hplace : t.top.below? place = some (.directory es)) : t.Names workingDir (dir.join ⟨name⟩) place name := by
  obtain ⟨above, hjoin, hpieces⟩ := FilePath.pieces_join dir hname.separators
  have habsolute := FilePath.isAbsolute_join dir hname.separators
  rcases hdir with hlocate | ⟨hempty, hwalk⟩
  · obtain ⟨ps, start, hps, hstart, hwalk⟩ := startsAt_of_locate hlocate
    obtain ⟨hdirNul, -, hne, rfl⟩ := checkedPieces_eq_ok.1 hps
    refine ⟨above, start, es, checkedPieces_join hname hdirNul hnul hsize hjoin, ?_, ?_, hplace⟩
    · unfold StartsAt at hstart ⊢
      rwa [habsolute]
    · rcases hpieces with hempty | hpieces | hpieces
      · exact absurd hempty hne
      · rwa [hpieces] at hwalk
      · rw [hpieces, walk_append] at hwalk
        cases habove : t.walk start above with
        | error e =>
          rw [habove] at hwalk
          cases hwalk
        | ok d =>
          rw [habove] at hwalk
          rw [eq_of_walk_empty hwalk]
  · have htext : (dir.join ⟨name⟩).text = name := by
      rcases FilePath.join_cases dir hname.separators with ⟨-, htext⟩ | ⟨front, hfront, -⟩ | ⟨hne, -⟩
      · exact htext
      · simp [hempty] at hfront
      · exact absurd hempty hne
    have hdirNul : '\x00' ∉ dir.text.toList := by simp [hempty]
    refine ⟨[], place, es, checkedPieces_join hname hdirNul hnul hsize ?_, .inr ⟨?_, hwalk⟩, rfl, hplace⟩
    · rw [htext, FilePath.pieces_of_plain hname.separators, List.nil_append]
    · rw [FilePath.isAbsolute, htext]
      exact FilePath.not_isAbsolute_of_plain hname.separators

/-- A file that the directory has no entry for is missing. -/
theorem Names.readText_absent (h : t.Names workingDir p place name) (hname : PlainName name)
    (hplace : t.top.below? place = some (.directory es)) (habsent : es.lookup name = none) :
    t.readText workingDir p = .error .missing := by
  have hlocate : t.locate workingDir p = .error .missing := by
    rw [h.locate_eq hname hplace, habsent]
    rfl
  rw [readText, hlocate]
  rfl

theorem Names.readText_present (h : t.Names workingDir p place name) (hname : PlainName name)
    (hplace : t.top.below? place = some (.directory es)) (hpresent : es.lookup name = some (.file (.text s))) :
    t.readText workingDir p = .ok s := by
  have hholds : t.Holds workingDir p name s := by
    refine ⟨place, h, ?_⟩
    simp [FileEntry.below?_append, hplace, FileEntry.below?, FileEntry.entry?, hpresent]
  exact hholds.readText hname

/-- Pieces lead from a place that is there to one that is there. -/
theorem below?_of_walk {ps : List (List Char)} (hwalk : t.walk place ps = .ok q)
    (hplace : (t.top.below? place).isSome = true) : (t.top.below? q).isSome = true := by
  induction ps generalizing place with
  | nil =>
    cases hwalk
    exact hplace
  | cons piece ps ih =>
    rw [walk] at hwalk
    split at hwalk
    · cases hwalk
    · cases hwalk
    · rename_i es hes
      split at hwalk
      · exact ih hwalk hplace
      · split at hwalk
        · apply ih hwalk
          -- A place that is there has those above it.
          cases place using List.reverseRecOn with
          | nil => exact hplace
          | append_singleton above name =>
            rw [FileEntry.below?_append] at hplace
            rw [List.dropLast_concat]
            cases habove : t.top.below? above with
            | none =>
              rw [habove] at hplace
              cases hplace
            | some e => rfl
        · split at hwalk
          · cases hwalk
          · split at hwalk
            · cases hwalk
            · rename_i e he
              apply ih hwalk
              simp [FileEntry.below?_append, hes, FileEntry.below?, FileEntry.entry?, he]

/-- What a path leads to is there. -/
theorem below?_of_locate (h : t.locate workingDir p = .ok place) : (t.top.below? place).isSome = true := by
  obtain ⟨ps, start, -, hstart, hwalk⟩ := startsAt_of_locate h
  apply below?_of_walk hwalk
  rcases hstart with ⟨-, rfl⟩ | ⟨-, hstart⟩
  · rfl
  · exact below?_of_walk hstart rfl

/-- What is there, but cannot be read, is not told to be absent. -/
theorem readText_of_isThere (h : t.isThere workingDir p = true) {fault : FileFault}
    (hread : t.readText workingDir p = .error fault) : fault.kind ≠ .absent := by
  unfold isThere at h
  cases hlocate : t.locate workingDir p with
  | error e =>
    rw [hlocate] at h
    cases h
  | ok place =>
    obtain ⟨e, he⟩ := Option.isSome_iff_exists.1 (below?_of_locate hlocate)
    unfold readText at hread
    rw [hlocate] at hread
    simp only [bind, Except.bind, he] at hread
    split at hread
    · cases hread
    · cases hread
      decide
    · cases hread
      decide
    · rename_i hnone
      cases hnone

end FileTree

/-! ## Answers from a folder -/

namespace Folder

/-- Both answers give the same nodes, or both tell that the data are invalid. -/
inductive Agree : Answer → Answer → Prop
  | nodes (ns : List Node) : Agree (.ok ns) (.ok ns)
  | invalid {e f : SourceError} : e.kind = .invalidData → f.kind = .invalidData → Agree (.error e) (.error f)

theorem readFragment_congr {s t : List Char} (h : Json.read? s = Json.read? t) : readFragment s = readFragment t := by
  unfold readFragment
  rw [h]

theorem parseJson_agree {h : Handle} {p q : FilePath} {s t : List Char} (hst : Json.read? s = Json.read? t) :
    Agree (parseJson h p s) (parseJson h q t) := by
  unfold parseJson
  rw [readFragment_congr hst]
  cases readFragment t with
  | ok ns => exact .nodes ns
  | error e => exact .invalid rfl rfl

/-! ## Folders on a machine -/

/-- Where reading files changes nothing, a fragment is fetched as if all texts were at hand. -/
theorem fetch_asks {σ : Type} {read : FilePath → StateM σ (Except FileFault String)}
    {texts : FilePath → Except FileFault String} {s : σ} (hread : ∀ p, read p s = (texts p, s)) (dir : FilePath)
    (h : Handle) : fetch read dir h s = (fetch (m := Id) texts dir h, s) := by
  cases hstem : isFileStem h with
  | false => simp [fetch, hstem, pure, StateT.pure]
  | true =>
    simp only [fetch, hstem, Bool.not_true, Bool.false_eq_true, if_false, bind, StateT.bind, hread]
    cases readFile parseJson h (jsonFile dir h) (texts (jsonFile dir h)) with
    | some a => rfl
    | none =>
      simp only [bind, StateT.bind, hread]
      cases readFile parseScript h (scriptFile dir h) (texts (scriptFile dir h)) with
      | some a => rfl
      | none => rfl

/-- A folder on a machine, by its path as seen from the working directory. -/
structure Site where
  files : FileTree
  workingDir : FilePath
  settings : List (String × String)
  dir : FilePath

namespace Site

variable {a b : Site} {h : Handle} {script json : String}

def read (a : Site) (p : FilePath) : Except FileFault String := a.files.readText a.workingDir p

/-- Fetches the fragment of a handle, with the files as they are then. -/
def fetch (a : Site) (h : Handle) : Answer × FileTree :=
  Folder.fetch (FileTree.host a.workingDir a.settings).readText a.dir h a.files

/-- The folder is a directory with one entry, a file of this name that holds the text. -/
def HoldsOnly (a : Site) (name s : String) : Prop :=
  ∃ place, a.files.LeadsTo a.workingDir a.dir place ∧
    a.files.top.below? place = some (.directory [(name, .file (.text s))])

/-- The machine takes the path of the handle's JSON file: neither its name is too long nor the path itself. No directory
holds an entry whose name is too long, and what lies at a path that is too long cannot be read, whatever it is. -/
def Takes (a : Site) (h : Handle) : Prop :=
  (h.key ++ ".json").utf8ByteSize ≤ FileTree.nameLimit ∧
    (jsonFile a.dir h).text.utf8ByteSize < FileTree.pathLimit

instance (a : Site) (h : Handle) : Decidable (a.Takes h) := inferInstanceAs (Decidable (_ ∧ _))

theorem fetch_eq (a : Site) (h : Handle) : a.fetch h = (Folder.fetch (m := Id) a.read a.dir h, a.files) := by
  have hread (p : FilePath) :
      (FileTree.host a.workingDir a.settings).readText p a.files = (a.read p, a.files) := rfl
  exact fetch_asks hread a.dir h

theorem fetch_of_json {r : Except FileFault String} {answer : Answer} (hword : h.IsWord)
    (hread : a.read (jsonFile a.dir h) = r) (hanswer : readFile parseJson h (jsonFile a.dir h) r = some answer) :
    (a.fetch h).1 = answer := by
  rw [fetch_eq]
  simp [Folder.fetch, hword.isFileStem, bind, pure, hread, hanswer]

theorem fetch_of_script (hword : h.IsWord) (habsent : a.read (jsonFile a.dir h) = .error .missing)
    (hread : a.read (scriptFile a.dir h) = .ok script) :
    (a.fetch h).1 = parseScript h (scriptFile a.dir h) script.toList := by
  rw [fetch_eq]
  simp [Folder.fetch, hword.isFileStem, bind, pure, habsent, hread, readFile, FileFault.kind]

/-- What a folder of one entry says of a name that the machine takes. -/
theorem HoldsOnly.read {name name' s : String} (hholds : a.HoldsOnly name s) (hname : FilePath.PlainName name')
    (hnul : '\x00' ∉ name'.toList) (hsize : (a.dir.join ⟨name'⟩).text.utf8ByteSize < FileTree.pathLimit) :
    a.read (a.dir.join ⟨name'⟩) = if name' = name then .ok s else .error .missing := by
  obtain ⟨place, hleads, hplace⟩ := hholds
  have hnames := FileTree.names_of_leadsTo hname hnul hsize hleads hplace
  by_cases heq : name' = name
  · rw [if_pos heq]
    apply hnames.readText_present hname hplace
    rw [FileEntry.lookup_cons, if_pos heq]
  · rw [if_neg heq]
    apply hnames.readText_absent hname hplace
    rw [FileEntry.lookup_cons, if_neg heq]
    rfl

theorem Takes.read_json {name s : String} (htakes : a.Takes h) (hword : h.IsWord) (hholds : a.HoldsOnly name s) :
    a.read (jsonFile a.dir h) = if h.key ++ ".json" = name then .ok s else .error .missing :=
  hholds.read (hword.plainName ".json" (by decide) (by decide) htakes.1) (hword.nul_not_mem (by decide)) htakes.2

theorem Takes.read_script {name s : String} (htakes : a.Takes h) (hword : h.IsWord) (hholds : a.HoldsOnly name s) :
    a.read (scriptFile a.dir h) = if h.key ++ ".js" = name then .ok s else .error .missing := by
  have hshorter : (h.key ++ ".js").utf8ByteSize ≤ (h.key ++ ".json").utf8ByteSize := by
    simp only [String.utf8ByteSize_append]
    exact Nat.add_le_add_left (by decide) _
  have hjson := hword.plainName ".json" (by decide) (by decide) htakes.1
  have hjs := hword.plainName ".js" (by decide) (by decide) (hshorter.trans htakes.1)
  have hpath := FilePath.size_join_le a.dir hjs.separators hjson.separators hshorter
  exact hholds.read hjs (hword.nul_not_mem (by decide)) (hpath.trans_lt htakes.2)

end Site

/-! ## The two forms compared -/

/-- The script form of a fragment and its JSON form. Where the handle is a word, a folder that holds only a script which
assigns the text of an array to the handle, whatever strings are in it, whatever blanks stand around the parts and whatever
follows it, answers as a folder that holds only the text: with the same nodes, or both that the data are invalid. Where the
JSON file is there, what it says decides the answer, even if a script lies beside it: the nodes that its text describes or,
if it describes none, that the data are invalid. The files stay as they are.

It is supposed that the machine takes the path of the JSON file. Of a handle that is too long no directory can hold that
file, and where the folder's own path leaves no room for its name, both forms fail with what the machine says of the path,
which is not that the file is absent. -/
theorem script_form_agrees (h : Handle) (hword : h.IsWord) :
    (∀ (a b : Site) (js : List Json) (json script : String), a.Takes h → b.Takes h →
      Json.Text (.array js) json.toList → Script.Sets h.key.toList json.toList script.toList →
      a.HoldsOnly (h.key ++ ".js") script → b.HoldsOnly (h.key ++ ".json") json →
        Agree (a.fetch h).1 (b.fetch h).1) ∧
    (∀ a b : Site, a.files.isThere a.workingDir (jsonFile a.dir h) = true → b.dir = a.dir →
      b.read (jsonFile b.dir h) = a.read (jsonFile a.dir h) → (b.fetch h).1 = (a.fetch h).1) ∧
    (∀ (a : Site) (json : String), a.read (jsonFile a.dir h) = .ok json →
      match readFragment json.toList with
      | .ok ns => (a.fetch h).1 = .ok ns
      | .error _ => ∃ e, (a.fetch h).1 = .error e ∧ e.kind = .invalidData) ∧
    ∀ a : Site, (a.fetch h).2 = a.files := by
  refine ⟨?_, ?_, ?_, ?_⟩
  · intro a b js json script hta htb htext hsets ha hb
    have hne : h.key ++ ".json" ≠ h.key ++ ".js" := by
      intro heq
      have hsize := congrArg String.utf8ByteSize heq
      simp only [String.utf8ByteSize_append] at hsize
      exact absurd (Nat.add_left_cancel hsize) (by decide)
    have hjson : b.read (jsonFile b.dir h) = .ok json := by rw [htb.read_json hword hb, if_pos rfl]
    have habsent : a.read (jsonFile a.dir h) = .error .missing := by rw [hta.read_json hword ha, if_neg hne]
    have hscript : a.read (scriptFile a.dir h) = .ok script := by rw [hta.read_script hword ha, if_pos rfl]
    obtain ⟨literal, hliteral, hread⟩ := hsets.listLiteral? hword.isWord htext
    rw [Site.fetch_of_script hword habsent hscript, Site.fetch_of_json hword hjson rfl, parseScript, hliteral]
    exact parseJson_agree (hread.trans (Json.read?_eq_some_iff.2 htext).symm)
  · intro a b hthere hdir hsame
    obtain ⟨answer, hanswer⟩ : ∃ answer,
        readFile parseJson h (jsonFile a.dir h) (a.read (jsonFile a.dir h)) = some answer := by
      cases hread : a.read (jsonFile a.dir h) with
      | ok json => exact ⟨_, rfl⟩
      | error fault =>
        rw [readFile, if_neg (FileTree.readText_of_isThere hthere hread)]
        exact ⟨_, rfl⟩
    rw [Site.fetch_of_json hword rfl hanswer]
    apply Site.fetch_of_json hword hsame
    rwa [hdir]
  · intro a json hread
    rw [Site.fetch_of_json hword hread rfl, parseJson]
    cases readFragment json.toList with
    | ok ns => rfl
    | error e => exact ⟨_, rfl, rfl⟩
  · intro a
    rw [Site.fetch_eq]

/-- A label holds a bracket and a quote, blanks stand before the list, and behind it there is more of everything. -/
theorem script_with_text_behind :
    let h : Handle := ⟨"f_1"⟩
    let json := "[[\"a]'\",\"a.html\",null]]"
    let script := "\n var f_1 =\n[[\"a]'\",\"a.html\",null]] ];var f_1 = [];"
    let site (entries : List (String × FileEntry)) : Site :=
      ⟨⟨.directory [("nav", .directory entries)]⟩, ⟨"/"⟩, [], ⟨"nav"⟩⟩
    h.IsWord ∧
      ((site [("f_1.js", .file (.text script))]).fetch h).1 = .ok [.leaf "a]'" (some ⟨"a.html"⟩)] ∧
      ((site [("f_1.json", .file (.text json))]).fetch h).1 = .ok [.leaf "a]'" (some ⟨"a.html"⟩)] ∧
      ∃ e, ((site [("f_1.js", .file (.text script)), ("f_1.json", .file (.text "["))]).fetch h).1 = .error e ∧
        e.kind = .invalidData := by
  intro h json script site
  have hword : h.IsWord := by
    have hkey : "f_1".toList = ['f', '_', '1'] := by rfl
    refine ⟨by decide, ?_⟩
    rw [show h.key.toList = "f_1".toList from rfl, hkey]
    simp
  have htakes (es : List (String × FileEntry)) : (site es).Takes h :=
    (by decide +kernel : (Site.mk ⟨.directory []⟩ ⟨"/"⟩ [] ⟨"nav"⟩).Takes ⟨"f_1"⟩)
  have hleads (es : List (String × FileEntry)) :
      (site es).files.LeadsTo (site es).workingDir (site es).dir ["nav"] := by
    left
    have hpieces : FileTree.checkedPieces ⟨"nav"⟩ = .ok ["nav".toList] := by decide +kernel
    have hstart : (site es).files.StartsAt ⟨"/"⟩ ⟨"nav"⟩ [] :=
      .inr ⟨FilePath.not_isAbsolute_of_plain (by decide), by rfl⟩
    rw [FileTree.locate_of_startsAt hpieces hstart]
    rfl
  have htext : Json.Text (.array [.array [.string (some "a]'"), .string (some "a.html"), .null]]) json.toList :=
    Json.read?_eq_some_iff.1 (by cbv)
  have hblank {b : List Char} (hb : b.all CharClass.isBlank = true) : ∀ c ∈ b, CharClass.isBlank c = true :=
    List.all_eq_true.1 hb
  have hscript : script.toList = "\n ".toList ++ ("var".toList ++ ([' '] ++ (h.key.toList ++ ([' '] ++
      '=' :: (['\n'] ++ (json.toList ++ " ];var f_1 = [];".toList)))))) := by
    simp only [script, h, json]
    decide +kernel
  have hsets : Script.Sets h.key.toList json.toList script.toList := by
    rw [hscript]
    exact .mk (hblank (by rfl)) (hblank (by rfl)) (.mk (by decide) (hblank (by rfl)) (hblank (by rfl)))
  have hread : readFragment json.toList = .ok [.leaf "a]'" (some ⟨"a.html"⟩)] := by decide +kernel
  obtain ⟨hforms, -, hdecides, -⟩ := script_form_agrees h hword
  have hholds (name s : String) : (site [(name, .file (.text s))]).HoldsOnly name s := ⟨_, hleads _, by rfl⟩
  have hagree := hforms _ _ _ json script (htakes _) (htakes _) htext hsets (hholds _ _) (hholds _ _)
  have hjson := hdecides _ json (((htakes _).read_json hword (hholds "f_1.json" json)).trans (if_pos (by rfl)))
  rw [hread] at hjson
  refine ⟨hword, ?_, hjson, ?_⟩
  · rw [show h.key ++ ".json" = "f_1.json" by rfl, show h.key ++ ".js" = "f_1.js" by rfl, hjson] at hagree
    generalize ((site [("f_1.js", .file (.text script))]).fetch h).1 = answer at hagree
    cases hagree
    rfl
  · have hnames := FileTree.names_of_leadsTo (hword.plainName ".json" (by decide) (by decide)
      (htakes []).1) (hword.nul_not_mem (by decide)) (htakes []).2
      (hleads [("f_1.js", .file (.text script)), ("f_1.json", .file (.text "["))]) (by rfl)
    have hmalformed := hdecides (site [("f_1.js", .file (.text script)), ("f_1.json", .file (.text "["))]) "["
      (hnames.readText_present (hword.plainName ".json" (by decide) (by decide) (htakes []).1) (by rfl) (by rfl))
    rwa [show readFragment "[".toList = .error .malformed by decide +kernel] at hmalformed

end Folder
end DocNav
