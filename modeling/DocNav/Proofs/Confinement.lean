import DocNav.Proofs.FragmentFiles
/-!
# Fragments come from their folder alone

A handle that could lead out of the folder is refused before anything is read. Any other handle with an extension is the
name of a direct entry, so what is read of it depends on what stands at the path of the folder and on that entry
(`FileTree.readText_join`): not on what is above the folder, not on the other entries, and not on what is below an entry
that is a directory.

Main result: `Folder.stays_in_the_folder`.
-/

namespace DocNav

/-! ## What a reader sees of an entry -/

namespace FileEntry

/-- The content of a file, nothing of a directory. -/
def face : FileEntry → Option FileContent
  | file content => some content
  | directory _ => none

/-- What reading the entry gives. -/
def text : FileEntry → Except FileFault String
  | file (.text s) => .ok s
  | file .bytes => .error .notText
  | directory _ => .error .isDirectory

/-- What reading its direct entry of a name gives. -/
def textOf (name : String) : FileEntry → Except FileFault String
  | file _ => .error .notDirectory
  | directory es =>
    if FileTree.nameLimit < name.utf8ByteSize then .error .nameTooLong
    else
      match es.lookup name with
      | none => .error .missing
      | some e => e.text

theorem text_of_face {e e' : FileEntry} (h : e.face = e'.face) : e.text = e'.text := by
  cases e with
  | file c =>
    cases e' with
    | file c' =>
      cases h
      rfl
    | directory es => cases h
  | directory es =>
    cases e' with
    | file c => cases h
    | directory es' => rfl

/-- Of a directory, only what its entry of the name shows counts. -/
theorem textOf_directory {name : String} {es es' : List (String × FileEntry)}
    (h : (es.lookup name).map face = (es'.lookup name).map face) :
    (directory es).textOf name = (directory es').textOf name := by
  rw [textOf, textOf]
  split
  · rfl
  · cases hlookup : es.lookup name with
    | none =>
      rw [hlookup] at h
      rw [Option.map_eq_none_iff.1 h.symm]
    | some e =>
      rw [hlookup] at h
      obtain ⟨e', he', hface⟩ := Option.map_eq_some_iff.1 h.symm
      rw [he']
      exact text_of_face hface.symm

end FileEntry

namespace FileTree

open FilePath (EntryName pieces)

variable {t : FileTree} {workingDir p dir : FilePath} {name : String}

/-- The entry at a place. -/
def entryAt (t : FileTree) (place : List String) : Except FileFault FileEntry :=
  match t.top.below? place with
  | some e => .ok e
  | none => .error .missing

/-- What stands at the path of a folder, where the empty path is that of the working directory. -/
def folder (t : FileTree) (workingDir dir : FilePath) : Except FileFault FileEntry :=
  if dir.text = "" then (t.walk [] (pieces workingDir.text.toList)).bind t.entryAt
  else (t.locate workingDir dir).bind t.entryAt

/-- The folders look alike to one who reads entries of these names: the same fault is on the way to both, or both are
files, or both are directories, where each such entry is missing from both, or a directory in both, or the same file. -/
inductive Alike (names : List String) : Except FileFault FileEntry → Except FileFault FileEntry → Prop
  | unreached {fault : FileFault} : Alike names (.error fault) (.error fault)
  | files {c c' : FileContent} : Alike names (.ok (.file c)) (.ok (.file c'))
  | directories {es es' : List (String × FileEntry)} :
      (∀ n ∈ names, (es.lookup n).map FileEntry.face = (es'.lookup n).map FileEntry.face) →
      Alike names (.ok (.directory es)) (.ok (.directory es'))

theorem Alike.textOf {names : List String} {x y : Except FileFault FileEntry} (h : Alike names x y)
    (hname : name ∈ names) : x.bind (·.textOf name) = y.bind (·.textOf name) := by
  cases h with
  | unreached => rfl
  | files => rfl
  | directories hes => exact FileEntry.textOf_directory (hes name hname)

/-! ## Reading an entry of a folder -/

theorem readText_eq (t : FileTree) (workingDir p : FilePath) :
    t.readText workingDir p = ((t.locate workingDir p).bind t.entryAt).bind FileEntry.text := by
  unfold readText entryAt
  cases t.locate workingDir p with
  | error e => rfl
  | ok place =>
    simp only [bind, Except.bind]
    cases t.top.below? place with
    | none => rfl
    | some e =>
      cases e with
      | directory es => rfl
      | file c => cases c <;> rfl

/-- The place that a path starts from, if the working directory is there. -/
def startOf (t : FileTree) (workingDir p : FilePath) : Except FileFault (List String) :=
  if p.isAbsolute then .ok [] else t.walk [] (pieces workingDir.text.toList)

theorem locate_eq {ps : List (List Char)} (h : checkedPieces p = .ok ps) :
    t.locate workingDir p = (t.startOf workingDir p).bind (t.walk · ps) := by
  unfold locate startOf
  rw [h]
  cases p.isAbsolute <;> rfl

/-- Walking on by a name leads to the direct entry of that name. -/
theorem entryAt_walk_name (hname : EntryName name) (t : FileTree) (place : List String) :
    ((t.walk place [name.toList]).bind t.entryAt).bind FileEntry.text = (t.entryAt place).bind (·.textOf name) := by
  have hstays : ¬ (name.toList = [] ∨ name.toList = ['.']) := not_or.2 ⟨hname.present, hname.dot⟩
  rw [walk]
  unfold entryAt
  cases hplace : t.top.below? place with
  | none => rfl
  | some e =>
    cases e with
    | file c => rfl
    | directory es =>
      simp only [hstays, hname.dots, if_false, String.ofList_toList]
      by_cases hlong : nameLimit < name.utf8ByteSize
      · simp [Except.bind, FileEntry.textOf, hlong]
      · cases hlookup : es.lookup name with
        | none => simp [Except.bind, FileEntry.textOf, hlong, hlookup]
        | some e =>
          simp [Except.bind, FileEntry.textOf, hlong, hlookup, walk, FileEntry.below?_append, hplace,
            FileEntry.below?, FileEntry.entry?]

/-- An empty piece leads to the entry itself, which then has to be a directory. -/
theorem entryAt_walk_empty (t : FileTree) (place : List String) :
    ((t.walk place [[]]).bind t.entryAt).bind (·.textOf name) = (t.entryAt place).bind (·.textOf name) := by
  rw [walk]
  unfold entryAt
  cases hplace : t.top.below? place with
  | none => rfl
  | some e =>
    cases e with
    | file c => rfl
    | directory es => simp [walk, Except.bind, hplace]

/-- A name behind the path of a folder is read as the entry of that name in what stands there. -/
theorem readText_join (hname : EntryName name) {ps : List (List Char)}
    (hpieces : checkedPieces (dir.join ⟨name⟩) = .ok ps) :
    t.readText workingDir (dir.join ⟨name⟩) = (t.folder workingDir dir).bind (·.textOf name) := by
  obtain ⟨above, hjoin, hdir⟩ := FilePath.pieces_join dir hname.separators
  obtain ⟨hnul, hsize, -, rfl⟩ := checkedPieces_eq_ok.1 hpieces
  have hread : t.readText workingDir (dir.join ⟨name⟩) =
      (t.startOf workingDir dir).bind fun start => (t.walk start above).bind fun place =>
        (t.entryAt place).bind (·.textOf name) := by
    have hstart : t.startOf workingDir (dir.join ⟨name⟩) = t.startOf workingDir dir := by
      unfold startOf
      rw [FilePath.isAbsolute_join dir hname.separators]
    rw [readText_eq, locate_eq hpieces, hstart, hjoin]
    cases t.startOf workingDir dir with
    | error e => rfl
    | ok start =>
      simp only [Except.bind]
      rw [walk_append]
      cases t.walk start above with
      | error e => rfl
      | ok place => exact entryAt_walk_name hname t place
  rw [hread]
  by_cases hempty : dir.text = ""
  · have htext : (dir.join ⟨name⟩).text = name := by
      rcases FilePath.join_cases dir hname.separators with ⟨-, htext⟩ | ⟨front, hfront, -⟩ | ⟨hne, -⟩
      · exact htext
      · simp [hempty] at hfront
      · exact absurd hempty hne
    have habove : above = [] := by
      rw [htext, FilePath.pieces_of_plain hname.separators] at hjoin
      simpa using hjoin
    have hrelative : dir.isAbsolute = false := by
      rw [← FilePath.isAbsolute_join dir hname.separators, FilePath.isAbsolute, htext]
      exact FilePath.not_isAbsolute_of_plain hname.separators
    unfold folder startOf
    rw [if_pos hempty, hrelative, habove]
    cases t.walk [] (pieces workingDir.text.toList) <;> rfl
  · have hchecked : checkedPieces dir = .ok (pieces dir.text.toList) := by
      obtain ⟨tail, htail⟩ := FilePath.join_append dir hname.separators
      rw [htail] at hnul hsize
      rw [String.toList_append, List.mem_append, not_or] at hnul
      rw [String.utf8ByteSize_append] at hsize
      exact checkedPieces_eq_ok.2 ⟨hnul.1, by omega, hempty, rfl⟩
    unfold folder
    rw [if_neg hempty, locate_eq hchecked]
    cases t.startOf workingDir dir with
    | error e => rfl
    | ok start =>
      simp only [Except.bind]
      rcases hdir with hdir | hdir | hdir
      · exact absurd hdir hempty
      · rw [hdir]
        cases t.walk start above <;> rfl
      · rw [hdir, walk_append]
        cases t.walk start above with
        | error e => rfl
        | ok place => exact (entryAt_walk_empty t place).symm

/-- A path that no machine takes is read nowhere. -/
theorem readText_of_unchecked {fault : FileFault} (h : checkedPieces p = .error fault) :
    t.readText workingDir p = .error fault := by
  unfold readText locate
  rw [h]
  rfl

end FileTree

/-! ## Handles and their folder -/

/-- The handle could lead out of a folder, or to a hidden file. -/
def Handle.Strays (h : Handle) : Prop :=
  h.key = "" ∨ '/' ∈ h.key.toList ∨ '\\' ∈ h.key.toList ∨ h.key.toList.head? = some '.'

instance (h : Handle) : Decidable h.Strays := inferInstanceAs (Decidable (_ ∨ _ ∨ _ ∨ _))

namespace Folder

theorem isFileStem_iff {h : Handle} : isFileStem h = true ↔ ¬ h.Strays := by
  unfold isFileStem Handle.Strays
  simp only [Bool.and_eq_true, Bool.not_eq_true', decide_eq_true_eq, List.contains_eq_mem, decide_eq_false_iff_not,
    not_or, ne_eq]
  tauto

/-- Whatever goes wrong with a file, the handle is not to blame. -/
theorem kind_of_readFile {parse : Handle → FilePath → List Char → Answer} {h : Handle} {path : FilePath}
    {r : Except FileFault String} {e : SourceError}
    (hparse : ∀ text e, parse h path text = .error e → e.kind = .invalidData)
    (hread : readFile parse h path r = some (.error e)) : e.kind ≠ .invalidHandle := by
  cases r with
  | ok text =>
    rw [hparse text.toList e (Option.some.inj hread)]
    decide
  | error fault =>
    by_cases habsent : fault.kind = .absent
    · rw [readFile, if_pos habsent] at hread
      cases hread
    · rw [readFile, if_neg habsent] at hread
      cases hread
      unfold SourceError.ofFault
      cases fault.kind <;> simp

theorem kind_of_parseJson {h : Handle} {path : FilePath} {text : List Char} {e : SourceError}
    (hparse : parseJson h path text = .error e) : e.kind = .invalidData := by
  unfold parseJson at hparse
  cases hread : readFragment text with
  | ok ns =>
    rw [hread] at hparse
    cases hparse
  | error err =>
    rw [hread] at hparse
    cases hparse
    rfl

theorem kind_of_parseScript {h : Handle} {path : FilePath} {text : List Char} {e : SourceError}
    (hparse : parseScript h path text = .error e) : e.kind = .invalidData := by
  unfold parseScript at hparse
  split at hparse
  · cases hparse
    rfl
  · exact kind_of_parseJson hparse

namespace Site

variable {a b : Site} {h : Handle}

/-- What stands at the path of the folder. -/
def content (a : Site) : Except FileFault FileEntry := a.files.folder a.workingDir a.dir

/-- The two entries that the fragment of a handle can come from. -/
def entryNames (h : Handle) : List String := [h.key ++ ".json", h.key ++ ".js"]

theorem read_congr {name : String} {names : List String} (hname : FilePath.EntryName name) (hmem : name ∈ names)
    (hdir : a.dir = b.dir) (halike : FileTree.Alike names a.content b.content) :
    a.read (a.dir.join ⟨name⟩) = b.read (a.dir.join ⟨name⟩) := by
  unfold content at halike
  unfold read
  cases hpieces : FileTree.checkedPieces (a.dir.join ⟨name⟩) with
  | error fault => rw [FileTree.readText_of_unchecked hpieces, FileTree.readText_of_unchecked hpieces]
  | ok ps =>
    rw [FileTree.readText_join hname hpieces, hdir, FileTree.readText_join hname (hdir ▸ hpieces), ← hdir]
    rw [← hdir] at halike
    exact halike.textOf hmem

theorem fetch_of_strays (hstrays : h.Strays) (a : Site) :
    (a.fetch h).1 = .error { kind := .invalidHandle, handle := some h, backend := some backend } := by
  have hstem : isFileStem h = false := Bool.eq_false_iff.2 fun hstem => isFileStem_iff.1 hstem hstrays
  rw [fetch_eq]
  simp [Folder.fetch, hstem, pure]

/-- The answer for a handle that does not stray, from what is read of its two entries. -/
theorem fetch_of_stays (hstays : ¬ h.Strays) (a : Site) :
    (a.fetch h).1 =
      ((readFile parseJson h (jsonFile a.dir h) (a.read (jsonFile a.dir h))).orElse fun _ =>
        readFile parseScript h (scriptFile a.dir h) (a.read (scriptFile a.dir h))).getD
        (.error { kind := .notFound, handle := some h, path := some a.dir, backend := some backend }) := by
  rw [fetch_eq]
  simp only [Folder.fetch, isFileStem_iff.2 hstays, Bool.not_true, Bool.false_eq_true, if_false, bind, pure]
  cases readFile parseJson h (jsonFile a.dir h) (a.read (jsonFile a.dir h)) with
  | some answer => rfl
  | none => cases readFile parseScript h (scriptFile a.dir h) (a.read (scriptFile a.dir h)) <;> rfl

end Site

/-- A fragment is fetched from its folder alone. Where the handle is empty, holds a separator of either kind or starts with
a dot, it is refused on every machine. For any other handle the answer, with all that an error says, is the same on any two
machines whose folders have one path and look alike to a reader of the handle's two entries, and it is never that the
handle is refused. -/
theorem stays_in_the_folder (h : Handle) :
    (h.Strays → ∀ a : Site,
      (a.fetch h).1 = .error { kind := .invalidHandle, handle := some h, backend := some backend }) ∧
    (¬ h.Strays →
      (∀ a b : Site, a.dir = b.dir → FileTree.Alike (Site.entryNames h) a.content b.content →
        (a.fetch h).1 = (b.fetch h).1) ∧
      ∀ (a : Site) (e : SourceError), (a.fetch h).1 = .error e → e.kind ≠ .invalidHandle) := by
  refine ⟨Site.fetch_of_strays, fun hstays => ⟨?_, ?_⟩⟩
  · intro a b hdir halike
    have hslash : '/' ∉ h.key.toList := fun hmem => hstays (.inr (.inl hmem))
    have hjson : a.read (jsonFile a.dir h) = b.read (jsonFile a.dir h) :=
      Site.read_congr (FilePath.entryName_append hslash (by decide) (by decide)) (by simp [Site.entryNames]) hdir halike
    have hscript : a.read (scriptFile a.dir h) = b.read (scriptFile a.dir h) :=
      Site.read_congr (FilePath.entryName_append hslash (by decide) (by decide)) (by simp [Site.entryNames]) hdir halike
    rw [Site.fetch_of_stays hstays, Site.fetch_of_stays hstays, ← hdir, hjson, hscript]
  · intro a e herror
    rw [Site.fetch_of_stays hstays] at herror
    cases hjson : readFile parseJson h (jsonFile a.dir h) (a.read (jsonFile a.dir h)) with
    | some answer =>
      rw [hjson] at herror
      obtain rfl : answer = .error e := herror
      exact kind_of_readFile (fun _ _ => kind_of_parseJson) hjson
    | none =>
      cases hscript : readFile parseScript h (scriptFile a.dir h) (a.read (scriptFile a.dir h)) with
      | some answer =>
        rw [hjson, hscript] at herror
        obtain rfl : answer = .error e := herror
        exact kind_of_readFile (fun _ _ => kind_of_parseScript) hscript
      | none =>
        rw [hjson, hscript] at herror
        obtain rfl := Except.error.inj herror
        simp

/-- Above the folder, beside the fragment and below another entry there are files of the same name. -/
theorem fetched_beside_other_files :
    let h : Handle := ⟨"f"⟩
    let site (above inside : List (String × FileEntry)) : Site :=
      ⟨⟨.directory (("nav", .directory (("f.json", .file (.text "[]")) :: inside)) :: above)⟩, ⟨"/"⟩, [], ⟨"nav"⟩⟩
    let other := site [("f.json", .file .bytes)] [("F.json", .file .bytes), ("sub", .directory [("f.js", .file .bytes)])]
    ¬ h.Strays ∧ (other.fetch h).1 = ((site [] []).fetch h).1 ∧ Handle.Strays ⟨"../f"⟩ ∧
      (other.fetch ⟨"../f"⟩).1 = .error { kind := .invalidHandle, handle := some ⟨"../f"⟩, backend := some backend } := by
  intro h site other
  have hcontent (above inside : List (String × FileEntry)) :
      (site above inside).content = .ok (.directory (("f.json", .file (.text "[]")) :: inside)) := by
    have hpieces : FileTree.checkedPieces ⟨"nav"⟩ = .ok ["nav".toList] := by decide +kernel
    have hstart : (site above inside).files.StartsAt ⟨"/"⟩ ⟨"nav"⟩ [] :=
      .inr ⟨FilePath.not_isAbsolute_of_plain (by decide), by rfl⟩
    have hne : (FilePath.mk "nav").text ≠ "" := by decide
    unfold Site.content FileTree.folder
    rw [if_neg hne, FileTree.locate_of_startsAt hpieces hstart]
    rfl
  have hstays : ¬ h.Strays := by decide
  have hstrays : Handle.Strays ⟨"../f"⟩ := by decide
  refine ⟨hstays, ?_, hstrays, (stays_in_the_folder ⟨"../f"⟩).1 hstrays other⟩
  apply ((stays_in_the_folder h).2 hstays).1 other (site [] []) rfl
  rw [hcontent, hcontent]
  apply FileTree.Alike.directories
  intro n hn
  simp only [Site.entryNames, List.mem_cons, List.not_mem_nil, or_false] at hn
  rcases hn with rfl | rfl <;> rfl

end Folder
end DocNav
