import DocNav.Store
import Mathlib
/-!
# Files that are written and read again

What is written to a file of a file tree is read from it until it is written again, and a file that could be written
once can be written again. Everything follows from one relation: a write lets the tree grow (`FileTree.Grows`), and
where a path leads stays so in a tree that grows (`walk_of_grows`). Main result: `StateFolder.get_set`, which is this
for the state file.
-/

namespace DocNav

/-! ## Pieces of a path -/

namespace FilePath

/-- A name that an entry of a directory can have. -/
structure PlainName (name : String) : Prop where
  separators : '/' ∉ name.toList
  present : name.toList ≠ []
  dot : name.toList ≠ ['.']
  dots : name.toList ≠ ['.', '.']
  size : name.utf8ByteSize ≤ FileTree.nameLimit

theorem pieces_ne_nil (cs : List Char) : pieces cs ≠ [] := by
  cases cs with
  | nil => simp [pieces]
  | cons c cs =>
    rw [pieces]
    split
    · simp
    · split <;> simp

theorem pieces_append (xs ys : List Char) : pieces (xs ++ '/' :: ys) = pieces xs ++ pieces ys := by
  induction xs with
  | nil => rfl
  | cons c xs ih =>
    by_cases hc : c = '/'
    · simp [pieces, hc, ih]
    · obtain ⟨p, ps, hp⟩ := List.exists_cons_of_ne_nil (pieces_ne_nil xs)
      simp [pieces, hc, ih, hp]

theorem pieces_of_plain {cs : List Char} (h : '/' ∉ cs) : pieces cs = [cs] := by
  induction cs with
  | nil => rfl
  | cons c cs ih =>
    rw [List.mem_cons, not_or] at h
    simp [pieces, ih h.2, Ne.symm h.1]

theorem isAbsolute_iff (p : FilePath) : p.isAbsolute = true ↔ p.text.toList.head? = some '/' := by
  rw [isAbsolute, String.startsWith_string_iff]
  cases p.text.toList with
  | nil => simp
  | cons c cs => simp [eq_comm]

theorem endsWith_iff (p : FilePath) : p.text.endsWith "/" = true ↔ ['/'] <:+ p.text.toList := by
  rw [String.endsWith, String.Slice.endsWith_string_iff, String.copy_toSlice]
  rfl

variable {dir : FilePath} {name : String}

theorem not_isAbsolute_of_plain (h : '/' ∉ name.toList) : (FilePath.mk name).isAbsolute = false := by
  rw [Bool.eq_false_iff, ne_eq, isAbsolute_iff]
  intro hhead
  exact h (List.mem_of_head? hhead)

/-- The ways in which a path is put behind a directory. -/
theorem join_cases_of_relative (dir : FilePath) {p : FilePath} (h : p.isAbsolute = false) :
    dir.text = "" ∧ (dir.join p).text = p.text ∨
    (∃ front, dir.text.toList = front ++ ['/'] ∧ (dir.join p).text = dir.text ++ p.text) ∨
    dir.text ≠ "" ∧ (dir.join p).text = dir.text ++ "/" ++ p.text := by
  rw [join, if_neg (by simp [h])]
  by_cases hempty : dir.text = ""
  · left
    simp [hempty]
  · right
    by_cases hend : dir.text.endsWith "/" = true
    · left
      obtain ⟨front, hfront⟩ := (endsWith_iff dir).1 hend
      exact ⟨front, hfront.symm, by simp [hend]⟩
    · right
      simp [hempty, hend]

/-- Those in which a name is. -/
theorem join_cases (dir : FilePath) (h : '/' ∉ name.toList) :
    dir.text = "" ∧ (dir.join ⟨name⟩).text = name ∨
    (∃ front, dir.text.toList = front ++ ['/'] ∧ (dir.join ⟨name⟩).text = dir.text ++ name) ∨
    dir.text ≠ "" ∧ (dir.join ⟨name⟩).text = dir.text ++ "/" ++ name :=
  join_cases_of_relative dir (not_isAbsolute_of_plain h)

/-- The pieces of a name behind a directory: those of the directory, but for an empty one at their end, and the
name. -/
theorem pieces_join (dir : FilePath) (h : '/' ∉ name.toList) :
    ∃ above, pieces (dir.join ⟨name⟩).text.toList = above ++ [name.toList] ∧
      (dir.text = "" ∨ pieces dir.text.toList = above ∨ pieces dir.text.toList = above ++ [[]]) := by
  rcases join_cases dir h with ⟨hempty, hjoin⟩ | ⟨front, hfront, hjoin⟩ | ⟨-, hjoin⟩
  · exact ⟨[], by rw [hjoin, pieces_of_plain h]; rfl, .inl hempty⟩
  · refine ⟨pieces front, ?_, .inr (.inr ?_)⟩
    · rw [hjoin, String.toList_append, hfront, List.append_assoc, List.singleton_append, pieces_append,
        pieces_of_plain h]
    · rw [hfront, pieces_append]
      rfl
  · refine ⟨pieces dir.text.toList, ?_, .inr (.inl rfl)⟩
    have htext : (dir.join ⟨name⟩).text.toList = dir.text.toList ++ '/' :: name.toList := by simp [hjoin]
    rw [htext, pieces_append, pieces_of_plain h]

theorem isAbsolute_join (dir : FilePath) (h : '/' ∉ name.toList) : (dir.join ⟨name⟩).isAbsolute = dir.isAbsolute := by
  rw [Bool.eq_iff_iff, isAbsolute_iff, isAbsolute_iff]
  rcases join_cases dir h with ⟨hempty, hjoin⟩ | ⟨front, hfront, hjoin⟩ | ⟨hne, hjoin⟩
  · have := not_isAbsolute_of_plain h
    rw [Bool.eq_false_iff, ne_eq, isAbsolute_iff] at this
    simpa [hempty, hjoin] using this
  · rw [hjoin, String.toList_append, hfront]
    cases front <;> simp
  · obtain ⟨c, cs, hcs⟩ := List.exists_cons_of_ne_nil (l := dir.text.toList) (by simpa using hne)
    simp [hjoin, hcs]

theorem join_append (dir : FilePath) (h : '/' ∉ name.toList) :
    ∃ tail, (dir.join ⟨name⟩).text = dir.text ++ tail := by
  rcases join_cases dir h with ⟨hempty, hjoin⟩ | ⟨-, -, hjoin⟩ | ⟨-, hjoin⟩
  · exact ⟨name, by rw [hjoin, hempty, String.empty_append]⟩
  · exact ⟨name, hjoin⟩
  · exact ⟨"/" ++ name, by rw [hjoin, String.append_assoc]⟩

theorem not_endsWith_join (dir : FilePath) (h : PlainName name) : (dir.join ⟨name⟩).text.endsWith "/" = false := by
  rw [Bool.eq_false_iff, ne_eq, endsWith_iff]
  intro hend
  have hsuffix : name.toList <:+ (dir.join ⟨name⟩).text.toList := by
    rcases join_cases dir h.separators with ⟨-, hjoin⟩ | ⟨-, -, hjoin⟩ | ⟨-, hjoin⟩
    · simp [hjoin]
    · rw [hjoin, String.toList_append]
      exact List.suffix_append _ _
    · rw [hjoin, String.toList_append]
      exact List.suffix_append _ _
  have hlength : 1 ≤ name.toList.length := List.length_pos_iff.2 h.present
  exact h.separators ((List.suffix_of_suffix_length_le hend hsuffix hlength).subset (List.mem_singleton_self _))

end FilePath

/-! ## Entries below an entry -/

namespace FileEntry

variable {name n : String} {new e : FileEntry} {es : List (String × FileEntry)} {place q : List String}

theorem lookup_cons (n m : String) (e : FileEntry) (es : List (String × FileEntry)) :
    ((m, e) :: es).lookup n = if n = m then some e else es.lookup n := by
  by_cases h : n = m
  · simp [h]
  · simp [List.lookup_cons, h, beq_eq_false_iff_ne.2 h]

theorem lookup_setEntry (name n : String) (new : FileEntry) (es : List (String × FileEntry)) :
    (setEntry name new es).lookup n = if n = name then some new else es.lookup n := by
  induction es with
  | nil => simp [setEntry, lookup_cons]
  | cons p es ih =>
    obtain ⟨m, old⟩ := p
    rw [setEntry, lookup_cons]
    by_cases hm : m = name
    · rw [if_pos hm, lookup_cons, hm]
      by_cases h : n = name <;> simp [h]
    · rw [if_neg hm, lookup_cons, ih]
      by_cases h : n = m
      · simp [h, hm]
      · simp [h]

theorem below?_append (e : FileEntry) (p q : List String) :
    e.below? (p ++ q) = (e.below? p).bind (·.below? q) := by
  induction p generalizing e with
  | nil => rfl
  | cons n p ih =>
    rw [List.cons_append, below?, below?]
    cases e.entry? n with
    | none => rfl
    | some c => exact ih c

/-- What is set in a directory is there. -/
theorem below?_setBelow (name : String) (new : FileEntry) (h : e.below? place = some (directory es)) :
    (e.setBelow name new place).below? place = some (directory (setEntry name new es)) := by
  induction place generalizing e with
  | nil =>
    cases h
    rfl
  | cons n place ih =>
    cases e with
    | file c => simp [below?, entry?] at h
    | directory ds =>
      simp only [below?, entry?] at h
      cases hc : ds.lookup n with
      | none => simp [hc] at h
      | some c =>
        simp only [hc] at h
        simp [setBelow, hc, below?, entry?, lookup_setEntry, ih h]

/-- Setting an entry keeps the names. -/
theorem isSome_lookup_setEntry (name : String) (new : FileEntry) (h : (es.lookup n).isSome) :
    ((setEntry name new es).lookup n).isSome := by
  rw [lookup_setEntry]
  split
  · rfl
  · exact h

/-- Nothing is below a file. -/
theorem below?_file {c : FileContent} (h : (file c).below? q = some (directory es)) : False := by
  cases q with
  | nil => cases h
  | cons n q => simp [below?, entry?] at h

/-- Where the entry that is set takes no directory's place, directories stay and keep the names of their entries. -/
theorem below?_setBelow_of_directory {ds : List (String × FileEntry)} (name : String) (new : FileEntry)
    (hplace : e.below? place = some (directory es)) (hold : ∀ old, es.lookup name ≠ some (directory old))
    (hq : e.below? q = some (directory ds)) :
    ∃ ds', (e.setBelow name new place).below? q = some (directory ds') ∧
      ∀ n, (ds.lookup n).isSome → (ds'.lookup n).isSome := by
  induction place generalizing e q with
  | nil =>
    cases hplace
    cases q with
    | nil =>
      cases hq
      exact ⟨_, rfl, fun n hn => isSome_lookup_setEntry name new hn⟩
    | cons m q =>
      simp only [below?, entry?] at hq
      cases hc : es.lookup m with
      | none => simp [hc] at hq
      | some c =>
        rw [hc] at hq
        have hm : m ≠ name := by
          rintro rfl
          cases c with
          | file c => exact below?_file hq
          | directory old => exact hold old hc
        exact ⟨ds, by simp [setBelow, below?, entry?, lookup_setEntry, hm, hc, hq], fun n hn => hn⟩
  | cons n place ih =>
    cases e with
    | file c => exact (below?_file hplace).elim
    | directory tops =>
      simp only [below?, entry?] at hplace
      cases hc : tops.lookup n with
      | none => simp [hc] at hplace
      | some c =>
        rw [hc] at hplace
        cases q with
        | nil =>
          cases hq
          exact ⟨setEntry n (c.setBelow name new place) ds, by simp [setBelow, hc, below?], fun m hm =>
            isSome_lookup_setEntry n _ hm⟩
        | cons m q =>
          by_cases hm : m = n
          · subst hm
            simp only [below?, entry?, hc] at hq
            obtain ⟨ds', hds', hnames⟩ := ih hplace hq
            exact ⟨ds', by simp [setBelow, hc, below?, entry?, lookup_setEntry, hds'], hnames⟩
          · simp only [below?, entry?] at hq
            exact ⟨ds, by simp [setBelow, hc, below?, entry?, lookup_setEntry, hm, hq], fun m hm => hm⟩

end FileEntry

/-! ## Trees that grow -/

namespace FileTree

open FilePath (PlainName pieces)

variable {t t' : FileTree} {workingDir p dir : FilePath} {name s : String} {place start q : List String}

/-- Directories stay directories, and keep the names of their entries. -/
def Grows (t t' : FileTree) : Prop :=
  ∀ place es, t.top.below? place = some (.directory es) →
    ∃ es', t'.top.below? place = some (.directory es') ∧ ∀ n, (es.lookup n).isSome → (es'.lookup n).isSome

/-- Where pieces lead stays so. -/
theorem walk_of_grows (h : t.Grows t') {ps : List (List Char)} (hwalk : t.walk place ps = .ok q) :
    t'.walk place ps = .ok q := by
  induction ps generalizing place with
  | nil => exact hwalk
  | cons piece ps ih =>
    rw [walk] at hwalk ⊢
    cases hplace : t.top.below? place with
    | none => simp [hplace] at hwalk
    | some e =>
      cases e with
      | file c => simp [hplace] at hwalk
      | directory es =>
        obtain ⟨es', hplace', hnames⟩ := h place es hplace
        simp only [hplace, hplace'] at hwalk ⊢
        by_cases hstay : piece = [] ∨ piece = ['.']
        · rw [if_pos hstay] at hwalk ⊢
          exact ih hwalk
        · rw [if_neg hstay] at hwalk ⊢
          by_cases hup : piece = ['.', '.']
          · rw [if_pos hup] at hwalk ⊢
            exact ih hwalk
          · rw [if_neg hup] at hwalk ⊢
            by_cases hlong : nameLimit < (String.ofList piece).utf8ByteSize
            · rw [if_pos hlong] at hwalk
              cases hwalk
            · rw [if_neg hlong] at hwalk ⊢
              cases hc : es.lookup (String.ofList piece) with
              | none => simp [hc] at hwalk
              | some c =>
                obtain ⟨c', hc'⟩ := Option.isSome_iff_exists.1 (hnames _ (by rw [hc]; rfl))
                simp only [hc, hc'] at hwalk ⊢
                exact ih hwalk

theorem walk_append (t : FileTree) (place : List String) (xs ys : List (List Char)) :
    t.walk place (xs ++ ys) = (t.walk place xs).bind (t.walk · ys) := by
  induction xs generalizing place with
  | nil => rfl
  | cons piece xs ih =>
    rw [List.cons_append, walk, walk]
    cases t.top.below? place with
    | none => rfl
    | some e =>
      cases e with
      | file c => rfl
      | directory es =>
        simp only
        split
        · exact ih _
        · split
          · exact ih _
          · split
            · rfl
            · cases es.lookup (String.ofList piece) with
              | none => rfl
              | some c => exact ih _

/-! ## The entry that a path names -/

theorem checkedPieces_eq_ok {ps : List (List Char)} :
    checkedPieces p = .ok ps ↔
      '\x00' ∉ p.text.toList ∧ p.text.utf8ByteSize < pathLimit ∧ p.text ≠ "" ∧ pieces p.text.toList = ps := by
  unfold checkedPieces
  by_cases hnul : '\x00' ∈ p.text.toList
  · simp [hnul]
  · by_cases hlong : pathLimit ≤ p.text.utf8ByteSize
    · simp [hnul, hlong, Nat.not_lt.2 hlong]
    · rw [if_neg hnul, if_neg hlong]
      by_cases hempty : p.text = "" <;> simp [hnul, hempty, Nat.lt_of_not_le hlong]

/-- The place that a path starts from. -/
def StartsAt (t : FileTree) (workingDir p : FilePath) (start : List String) : Prop :=
  p.isAbsolute = true ∧ start = [] ∨
    p.isAbsolute = false ∧ t.walk [] (pieces workingDir.text.toList) = .ok start

theorem StartsAt.grows (h : t.StartsAt workingDir p start) (hgrows : t.Grows t') : t'.StartsAt workingDir p start := by
  rcases h with h | ⟨hrelative, hwalk⟩
  · exact .inl h
  · exact .inr ⟨hrelative, walk_of_grows hgrows hwalk⟩

theorem locate_of_startsAt {ps : List (List Char)} (hpieces : checkedPieces p = .ok ps)
    (hstart : t.StartsAt workingDir p start) : t.locate workingDir p = t.walk start ps := by
  rcases hstart with ⟨habs, rfl⟩ | ⟨hrelative, hwalk⟩
  · simp [locate, hpieces, habs, bind, Except.bind, pure, Except.pure]
  · simp [locate, hpieces, hrelative, hwalk, bind, Except.bind]

/-- A new entry of the name, if a directory is at the place. -/
def newEntryIn (t : FileTree) (name : String) (place : List String) : Except FileFault (List String × Option String) :=
  match t.top.below? place with
  | some (.directory _) => .ok (place, some name)
  | some (.file _) => .error .notDirectory
  | none => .error .missing

theorem newEntryIn_eq_ok {n : Option String} :
    t.newEntryIn name place = .ok (q, n) ↔
      (∃ es, t.top.below? place = some (.directory es)) ∧ q = place ∧ n = some name := by
  rw [newEntryIn]
  cases t.top.below? place with
  | none => simp
  | some e =>
    cases e with
    | file c => simp
    | directory es => simp [eq_comm]

/-- Where a path that ends in a name leads, as the directory and the name. -/
theorem locateNew_of_startsAt {above : List (List Char)} (hpieces : checkedPieces p = .ok (above ++ [name.toList]))
    (hstart : t.StartsAt workingDir p start) (hname : PlainName name) :
    t.locateNew workingDir p = (t.walk start above).bind (t.newEntryIn name) := by
  have hsize := Nat.not_lt.2 hname.size
  rcases hstart with ⟨habs, rfl⟩ | ⟨hrelative, hwalk⟩
  · simp [locateNew, hpieces, habs, hname.present, hname.dot, hname.dots, hsize, bind, Except.bind, pure, Except.pure]
    cases t.walk [] above <;> rfl
  · simp [locateNew, hpieces, hrelative, hwalk, hname.present, hname.dot, hname.dots, hsize, bind, Except.bind]
    cases t.walk start above <;> rfl

/-- The path leads to the directory at a place, and ends in the name. -/
def Names (t : FileTree) (workingDir p : FilePath) (place : List String) (name : String) : Prop :=
  ∃ above start es, checkedPieces p = .ok (above ++ [name.toList]) ∧ t.StartsAt workingDir p start ∧
    t.walk start above = .ok place ∧ t.top.below? place = some (.directory es)

theorem Names.grows (h : t.Names workingDir p place name) (hgrows : t.Grows t') :
    t'.Names workingDir p place name := by
  obtain ⟨above, start, es, hpieces, hstart, hwalk, hplace⟩ := h
  obtain ⟨es', hplace', -⟩ := hgrows place es hplace
  exact ⟨above, start, es', hpieces, hstart.grows hgrows, walk_of_grows hgrows hwalk, hplace'⟩

theorem Names.locateNew (h : t.Names workingDir p place name) (hname : PlainName name) :
    t.locateNew workingDir p = .ok (place, some name) := by
  obtain ⟨above, start, es, hpieces, hstart, hwalk, hplace⟩ := h
  rw [locateNew_of_startsAt hpieces hstart hname, hwalk]
  exact newEntryIn_eq_ok.2 ⟨⟨es, hplace⟩, rfl, rfl⟩

/-- An entry is found by its name if it is there, and is missing otherwise. -/
theorem Names.locate_eq {es : List (String × FileEntry)} (h : t.Names workingDir p place name)
    (hname : PlainName name) (hplace : t.top.below? place = some (.directory es)) :
    t.locate workingDir p = if (es.lookup name).isSome then .ok (place ++ [name]) else .error .missing := by
  obtain ⟨above, start, ds, hpieces, hstart, hwalk, -⟩ := h
  have hsize := Nat.not_lt.2 hname.size
  rw [locate_of_startsAt hpieces hstart, walk_append, hwalk]
  cases hlookup : es.lookup name with
  | none => simp [Except.bind, walk, hplace, hname.present, hname.dot, hname.dots, hsize, hlookup]
  | some e => simp [Except.bind, walk, hplace, hname.present, hname.dot, hname.dots, hsize, hlookup]

theorem Names.locate {e : FileEntry} (h : t.Names workingDir p place name) (hname : PlainName name)
    (he : t.top.below? (place ++ [name]) = some e) : t.locate workingDir p = .ok (place ++ [name]) := by
  have ⟨_, _, es, _, _, _, hplace⟩ := h
  have hpresent : (es.lookup name).isSome = true := by
    rw [FileEntry.below?_append, hplace] at he
    cases hlookup : es.lookup name with
    | none => simp [FileEntry.below?, FileEntry.entry?, hlookup] at he
    | some c => rfl
  rw [h.locate_eq hname hplace, if_pos hpresent]

theorem names_of_locateNew {above : List (List Char)} {n : Option String} (hname : PlainName name)
    (habove : pieces p.text.toList = above ++ [name.toList]) (h : t.locateNew workingDir p = .ok (place, n)) :
    n = some name ∧ t.Names workingDir p place name := by
  have hpieces : checkedPieces p = .ok (above ++ [name.toList]) := by
    cases hp : checkedPieces p with
    | error e => simp [FileTree.locateNew, hp, bind, Except.bind] at h
    | ok ps => rw [← (checkedPieces_eq_ok.1 hp).2.2.2, habove]
  have hstart : ∃ start, t.StartsAt workingDir p start := by
    cases habs : p.isAbsolute with
    | true => exact ⟨[], .inl ⟨habs, rfl⟩⟩
    | false =>
      cases hw : t.walk [] (pieces workingDir.text.toList) with
      | error e => simp [FileTree.locateNew, hpieces, habs, hw, bind, Except.bind] at h
      | ok start => exact ⟨start, .inr ⟨habs, hw⟩⟩
  obtain ⟨start, hstart⟩ := hstart
  rw [locateNew_of_startsAt hpieces hstart hname] at h
  cases hwalk : t.walk start above with
  | error e => simp [hwalk, Except.bind] at h
  | ok d =>
    rw [hwalk] at h
    obtain ⟨⟨es, hd⟩, rfl, rfl⟩ := newEntryIn_eq_ok.1 h
    exact ⟨rfl, above, start, es, hpieces, hstart, hwalk, hd⟩

/-! ## Writing and reading -/

/-- The file of a path holds a text. -/
def Holds (t : FileTree) (workingDir p : FilePath) (name s : String) : Prop :=
  ∃ place, t.Names workingDir p place name ∧ t.top.below? (place ++ [name]) = some (.file (.text s))

theorem Holds.isThere (h : t.Holds workingDir p name s) (hname : PlainName name) : t.isThere workingDir p = true := by
  obtain ⟨place, hnames, hfile⟩ := h
  simp [FileTree.isThere, hnames.locate hname hfile, Except.toOption]

theorem Holds.readText (h : t.Holds workingDir p name s) (hname : PlainName name) :
    t.readText workingDir p = .ok s := by
  obtain ⟨place, hnames, hfile⟩ := h
  simp [FileTree.readText, hnames.locate hname hfile, hfile, bind, Except.bind]

/-- A file that no directory is in the place of: what a path must lead to for its text to be set. -/
def Settable (t : FileTree) (workingDir p : FilePath) (place : List String) (name : String) : Prop :=
  t.Names workingDir p place name ∧ ∀ es, t.top.below? (place ++ [name]) ≠ some (.directory es)

theorem writeText_of_settable (h : t.Settable workingDir p place name) (hname : PlainName name)
    (hend : p.text.endsWith "/" = false) (s : String) :
    t.writeText workingDir p s = .ok ⟨t.top.setBelow name (.file (.text s)) place⟩ := by
  obtain ⟨hnames, hold⟩ := h
  cases he : t.top.below? (place ++ [name]) with
  | none => simp [writeText, hnames.locateNew hname, he, hend, bind, Except.bind]
  | some e =>
    cases e with
    | file c => simp [writeText, hnames.locateNew hname, he, hend, bind, Except.bind]
    | directory es => exact absurd he (hold es)

theorem settable_of_writeText {above : List (List Char)} (hname : PlainName name)
    (habove : pieces p.text.toList = above ++ [name.toList]) (h : t.writeText workingDir p s = .ok t') :
    ∃ place, t.Settable workingDir p place name := by
  cases hnew : t.locateNew workingDir p with
  | error e => simp [writeText, hnew, bind, Except.bind] at h
  | ok found =>
    obtain ⟨place, n⟩ := found
    obtain ⟨rfl, hnames⟩ := names_of_locateNew hname habove hnew
    refine ⟨place, hnames, fun es he => ?_⟩
    simp [writeText, hnew, he, bind, Except.bind] at h

theorem Settable.grows (h : t.Settable workingDir p place name) (s : String) :
    t.Grows ⟨t.top.setBelow name (.file (.text s)) place⟩ := by
  obtain ⟨⟨-, -, es, -, -, -, hplace⟩, hold⟩ := h
  intro q ds hq
  refine FileEntry.below?_setBelow_of_directory name _ hplace (fun old hc => hold old ?_) hq
  simp [FileEntry.below?_append, hplace, FileEntry.below?, FileEntry.entry?, hc]

/-- What is written is held. -/
theorem Settable.holds (h : t.Settable workingDir p place name) (s : String) :
    FileTree.Holds ⟨t.top.setBelow name (.file (.text s)) place⟩ workingDir p name s := by
  refine ⟨place, h.1.grows (h.grows s), ?_⟩
  obtain ⟨⟨-, -, es, -, -, -, hplace⟩, -⟩ := h
  simp [FileEntry.below?_append, FileEntry.below?_setBelow name _ hplace, FileEntry.below?, FileEntry.entry?,
    FileEntry.lookup_setEntry]

theorem Holds.settable (h : t.Holds workingDir p name s) : ∃ place, t.Settable workingDir p place name := by
  obtain ⟨place, hnames, hfile⟩ := h
  exact ⟨place, hnames, fun es he => by simp [hfile] at he⟩

/-! ## Directories that are there -/

/-- What holds an entry is found as a directory. -/
theorem locate_of_names (hne : dir.text ≠ "") (hname : PlainName name)
    (h : t.Names workingDir (dir.join ⟨name⟩) place name) : t.locate workingDir dir = .ok place := by
  obtain ⟨above, start, es, hpieces, hstart, hwalk, hplace⟩ := h
  obtain ⟨hnul, hsize, -, hjoin⟩ := checkedPieces_eq_ok.1 hpieces
  obtain ⟨above', hjoin', hdir⟩ := FilePath.pieces_join dir hname.separators
  obtain rfl : above' = above := List.append_cancel_right (hjoin'.symm.trans hjoin)
  obtain ⟨tail, htail⟩ := FilePath.join_append dir hname.separators
  have hdirPieces : checkedPieces dir = .ok (pieces dir.text.toList) := by
    refine checkedPieces_eq_ok.2 ⟨fun hmem => hnul ?_, ?_, hne, rfl⟩
    · rw [htail, String.toList_append]
      exact List.mem_append_left _ hmem
    · rw [htail, String.utf8ByteSize_append] at hsize
      omega
  have hdirStart : t.StartsAt workingDir dir start := by
    unfold StartsAt at hstart ⊢
    rwa [FilePath.isAbsolute_join dir hname.separators] at hstart
  rw [locate_of_startsAt hdirPieces hdirStart]
  rcases hdir with hempty | hdir | hdir
  · exact absurd hempty hne
  · rw [hdir, hwalk]
  · rw [hdir, walk_append, hwalk]
    simp [Except.bind, walk, hplace]

theorem startsAt_of_locate (h : t.locate workingDir p = .ok place) :
    ∃ ps start, checkedPieces p = .ok ps ∧ t.StartsAt workingDir p start ∧ t.walk start ps = .ok place := by
  cases hp : checkedPieces p with
  | error e => simp [locate, hp, bind, Except.bind] at h
  | ok ps =>
    cases habs : p.isAbsolute with
    | true =>
      refine ⟨ps, [], rfl, .inl ⟨habs, rfl⟩, ?_⟩
      rwa [locate_of_startsAt hp (.inl ⟨habs, rfl⟩)] at h
    | false =>
      cases hw : t.walk [] (pieces workingDir.text.toList) with
      | error e => simp [locate, hp, habs, hw, bind, Except.bind] at h
      | ok start =>
        refine ⟨ps, start, rfl, .inr ⟨habs, hw⟩, ?_⟩
        rwa [locate_of_startsAt hp (.inr ⟨habs, hw⟩)] at h

/-- The last piece of a path that is not empty, if there is one, stands before empty pieces. -/
theorem last_piece (ps : List (List Char)) :
    ps.reverse.dropWhile (· = []) = [] ∨
      ∃ above last blanks, ps = above ++ last :: blanks ∧ last ≠ [] ∧
        ps.reverse.dropWhile (· = []) = last :: above.reverse := by
  have hcut := List.takeWhile_append_dropWhile (p := fun piece : List Char => decide (piece = [])) (l := ps.reverse)
  rcases hrev : ps.reverse.dropWhile (fun piece => decide (piece = [])) with _ | ⟨last, above⟩
  · exact .inl rfl
  · refine .inr ⟨above.reverse, last, (ps.reverse.takeWhile (fun piece => decide (piece = []))).reverse, ?_, ?_, ?_⟩
    · rw [hrev] at hcut
      simpa using (congrArg List.reverse hcut).symm
    · have := List.head?_dropWhile_not (fun piece : List Char => decide (piece = [])) ps.reverse
      rw [hrev] at this
      simpa using this
    · rw [List.reverse_reverse]

/-- A piece that is walked through stands for a place in a directory, or it names an entry of it. -/
theorem walk_piece {piece : List Char} {rest : List (List Char)} (hpiece : piece ≠ [])
    (hwalk : t.walk place (piece :: rest) = .ok q) :
    ∃ es, t.top.below? place = some (.directory es) ∧ (piece = ['.'] ∨ piece = ['.', '.'] ∨
      (String.ofList piece).utf8ByteSize ≤ nameLimit ∧ ∃ e, es.lookup (String.ofList piece) = some e) := by
  rw [walk] at hwalk
  split at hwalk
  · cases hwalk
  · cases hwalk
  · rename_i es hplace
    refine ⟨es, hplace, ?_⟩
    by_cases hdot : piece = ['.']
    · exact .inl hdot
    · by_cases hdots : piece = ['.', '.']
      · exact .inr (.inl hdots)
      · simp only [hpiece, hdot, hdots, or_self, if_false] at hwalk
        split at hwalk
        · cases hwalk
        · rename_i hshort
          cases hc : es.lookup (String.ofList piece) with
          | none => simp [hc] at hwalk
          | some e => exact .inr (.inr ⟨Nat.not_lt.1 hshort, e, rfl⟩)

/-- A path that leads somewhere has no last name, or its last name is that of an entry. -/
theorem locateNew_of_walk {ps : List (List Char)} (hpieces : checkedPieces p = .ok ps)
    (hstart : t.StartsAt workingDir p start) (hwalk : t.walk start ps = .ok place) :
    (∃ d, t.locateNew workingDir p = .ok (d, none)) ∨
      ∃ d n e, t.locateNew workingDir p = .ok (d, some n) ∧ t.top.below? (d ++ [n]) = some e := by
  rcases last_piece ps with hrev | ⟨above, last, blanks, rfl, hlast, hrev⟩
  · left
    refine ⟨start, ?_⟩
    rcases hstart with ⟨habs, rfl⟩ | ⟨hrelative, hw⟩
    · simp [locateNew, hpieces, habs, hrev, bind, Except.bind, pure, Except.pure]
    · simp [locateNew, hpieces, hrelative, hw, hrev, bind, Except.bind]
  · rw [walk_append] at hwalk
    cases habove : t.walk start above with
    | error e => simp [habove, Except.bind] at hwalk
    | ok d =>
      rw [habove] at hwalk
      obtain ⟨es, hd, hname⟩ := walk_piece hlast hwalk
      have hnew : t.locateNew workingDir p =
          if last = ['.'] ∨ last = ['.', '.'] then .ok (d, none)
          else if nameLimit < (String.ofList last).utf8ByteSize then .error .nameTooLong
          else .ok (d, some (String.ofList last)) := by
        rcases hstart with ⟨habs, rfl⟩ | ⟨hrelative, hw⟩
        · simp only [locateNew, hpieces, habs, hrev, List.reverse_reverse, habove, hd, bind, Except.bind, pure,
            Except.pure, if_true]
        · simp only [locateNew, hpieces, hrelative, hw, hrev, List.reverse_reverse, habove, hd, bind, Except.bind,
            Bool.false_eq_true, if_false]
      by_cases hdots : last = ['.'] ∨ last = ['.', '.']
      · exact .inl ⟨d, by rw [hnew, if_pos hdots]⟩
      · obtain ⟨hsize, e, he⟩ := (hname.resolve_left (not_or.1 hdots).1).resolve_left (not_or.1 hdots).2
        refine .inr ⟨d, String.ofList last, e, ?_, ?_⟩
        · rw [hnew, if_neg hdots, if_neg (Nat.not_lt.2 hsize)]
        · simp [FileEntry.below?_append, hd, FileEntry.below?, FileEntry.entry?, he]

/-- What is there is not made again. -/
theorem makeDirectory_of_locate (h : t.locate workingDir p = .ok place) :
    t.makeDirectory workingDir p = .error .alreadyThere := by
  obtain ⟨ps, start, hpieces, hstart, hwalk⟩ := startsAt_of_locate h
  obtain hnew | ⟨d, n, e, hnew, he⟩ := locateNew_of_walk hpieces hstart hwalk
  · obtain ⟨d, hnew⟩ := hnew
    simp [makeDirectory, hnew, bind, Except.bind]
  · simp [makeDirectory, hnew, he, bind, Except.bind]

/-- A directory that holds an entry is not made again. -/
theorem makeDirectories_of_names (hname : PlainName name) (h : t.Names workingDir (dir.join ⟨name⟩) place name) :
    t.makeDirectories workingDir dir = .ok t := by
  unfold makeDirectories makeDirectoriesIn
  by_cases hne : dir.text = ""
  · rw [if_pos hne]
  · have hlocate := locate_of_names hne hname h
    obtain ⟨-, -, es, -, -, -, hplace⟩ := h
    have hdir : t.isDirectory workingDir dir = true := by
      simp [isDirectory, hlocate, hplace, FileEntry.isDirectory]
    simp [hne, makeDirectory_of_locate hlocate, hdir]

end FileTree

/-! ## The state file -/

namespace StateFolder

variable {workingDir dir : FilePath} {t : FileTree}

theorem plainName : FilePath.PlainName "sync.json" where
  separators := by decide
  present := by decide
  dot := by decide
  dots := by decide
  size := by decide

theorem parse_render (enabled : Bool) : parse (render enabled).toList = some enabled := by
  cases enabled <;> cbv

/-- The state directory can be made, or is there, and the state file in it can be written. -/
def Writable (workingDir dir : FilePath) (t : FileTree) : Prop :=
  ∃ made written enabled, t.makeDirectories workingDir dir = .ok made ∧
    made.writeText workingDir (file dir) (render enabled) = .ok written

/-- A state directory that is still to be made. -/
theorem writable_unmade :
    Writable ⟨"/"⟩ ⟨"state"⟩ ⟨.directory []⟩ ∧ (get (FileTree.host ⟨"/"⟩ []) ⟨"state"⟩ ⟨.directory []⟩).1 = none := by
  have hrelative : (FilePath.mk "state").isAbsolute = false := FilePath.not_isAbsolute_of_plain (by decide)
  have hpieces : FileTree.checkedPieces ⟨"state"⟩ = .ok ["state".toList] := by rfl
  have hmade : FileTree.makeDirectories ⟨.directory []⟩ ⟨"/"⟩ ⟨"state"⟩ =
      .ok ⟨.directory [("state", .directory [])]⟩ := by
    unfold FileTree.makeDirectories FileTree.makeDirectoriesIn
    simp only [FileTree.makeDirectory, FileTree.locateNew, hpieces, hrelative]
    rfl
  have hfile : file ⟨"state"⟩ = ⟨"state/sync.json"⟩ := by
    rcases FilePath.join_cases ⟨"state"⟩ plainName.separators with ⟨h, -⟩ | ⟨front, h, -⟩ | ⟨-, h⟩
    · exact absurd h (by decide)
    · simpa using congrArg List.getLast? h
    · exact congrArg FilePath.mk h
  have hfilePieces : FileTree.checkedPieces (file ⟨"state"⟩) = .ok ["state".toList, "sync.json".toList] := by
    rw [hfile]
    rfl
  have hfileRelative : (file ⟨"state"⟩).isAbsolute = false :=
    (FilePath.isAbsolute_join _ plainName.separators).trans hrelative
  constructor
  · have hset : FileTree.Settable ⟨.directory [("state", .directory [])]⟩ ⟨"/"⟩ (file ⟨"state"⟩) ["state"]
        "sync.json" := by
      refine ⟨⟨["state".toList], [], [], hfilePieces, .inr ⟨hfileRelative, by rfl⟩, by rfl, by rfl⟩, ?_⟩
      intro es h
      cases h
    exact ⟨_, _, true, hmade,
      FileTree.writeText_of_settable hset plainName (FilePath.not_endsWith_join _ plainName) _⟩
  · have hstart : FileTree.StartsAt ⟨.directory []⟩ ⟨"/"⟩ (file ⟨"state"⟩) [] := .inr ⟨hfileRelative, by rfl⟩
    have hlocate : FileTree.locate ⟨.directory []⟩ ⟨"/"⟩ (file ⟨"state"⟩) = .error .missing :=
      FileTree.locate_of_startsAt hfilePieces hstart
    have hthere : FileTree.isThere ⟨.directory []⟩ ⟨"/"⟩ (file ⟨"state"⟩) = false := by
      rw [FileTree.isThere, hlocate]
      rfl
    simp [get, FileTree.host, bind, StateT.bind, pure, StateT.pure, MonadState.get, getThe, MonadStateOf.get,
      StateT.get, hthere]

theorem set_eq {made written : FileTree} {enabled : Bool} (hmade : t.makeDirectories workingDir dir = .ok made)
    (hwritten : made.writeText workingDir (file dir) (render enabled) = .ok written) :
    (set (FileTree.host workingDir []) dir enabled t).2 = written := by
  simp [set, FileTree.host, FileTree.attempt, bind, StateT.bind, pure, StateT.pure, hmade, hwritten]

theorem get_of_holds {enabled : Bool} (h : t.Holds workingDir (file dir) "sync.json" (render enabled)) :
    (get (FileTree.host workingDir []) dir t).1 = some enabled := by
  simp [get, FileTree.host, bind, StateT.bind, pure, StateT.pure, MonadState.get, getThe, MonadStateOf.get, StateT.get,
    h.isThere plainName, h.readText plainName, parse_render]

/-- What is set where the state file can be written is remembered, and the file can be written again. -/
theorem get_set (h : Writable workingDir dir t) (enabled : Bool) :
    (get (FileTree.host workingDir []) dir (set (FileTree.host workingDir []) dir enabled t).2).1 = some enabled ∧
      Writable workingDir dir (set (FileTree.host workingDir []) dir enabled t).2 := by
  obtain ⟨made, written, other, hmade, hwritten⟩ := h
  obtain ⟨above, habove, -⟩ := FilePath.pieces_join dir plainName.separators
  obtain ⟨place, hset⟩ := FileTree.settable_of_writeText plainName habove hwritten
  have hend := FilePath.not_endsWith_join dir plainName
  have hheld := hset.holds (render enabled)
  rw [set_eq hmade (FileTree.writeText_of_settable hset plainName hend (render enabled))]
  refine ⟨get_of_holds hheld, ?_⟩
  obtain ⟨place', hset'⟩ := hheld.settable
  have hdirectories := FileTree.makeDirectories_of_names plainName hset'.1
  exact ⟨_, _, enabled, hdirectories, FileTree.writeText_of_settable hset' plainName hend _⟩

end StateFolder
end DocNav
