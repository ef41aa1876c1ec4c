import DocNav.Proofs.Lookups
import DocNav.Proofs.StateFiles
/-!
# What a listing shows

A listing of a directory has a line for each entry below it, with the names that lead there. In a tree where no
directory has two entries of one name these are the entries that names can be followed to: `mem_listing_iff` is the main
result.
What is made of such a tree by writing files and making directories is one again (`distinct_writeText`,
`distinct_makeDirectories`).
-/

namespace DocNav

namespace FileEntry

/-! ## Trees with distinct names -/

/-- No directory has two entries of one name. -/
inductive Distinct : FileEntry → Prop
  | file (c : FileContent) : Distinct (file c)
  | directory {es : List (String × FileEntry)} :
      (es.map Prod.fst).Nodup → (∀ x ∈ es, Distinct x.2) → Distinct (directory es)

variable {name : String} {e new x : FileEntry} {es : List (String × FileEntry)} {place : List String}

theorem mem_setEntry {y : String × FileEntry} (hy : y ∈ setEntry name new es) : y = (name, new) ∨ y ∈ es := by
  induction es with
  | nil => exact .inl (List.mem_singleton.1 hy)
  | cons z es ih =>
    obtain ⟨n, old⟩ := z
    unfold setEntry at hy
    split at hy
    · rename_i hn
      subst hn
      rcases List.mem_cons.1 hy with rfl | hy
      · exact .inl rfl
      · exact .inr (List.mem_cons_of_mem _ hy)
    · rcases List.mem_cons.1 hy with rfl | hy
      · exact .inr List.mem_cons_self
      · exact (ih hy).imp_right (List.mem_cons_of_mem _)

theorem nodup_setEntry (hes : (es.map Prod.fst).Nodup) : ((setEntry name new es).map Prod.fst).Nodup := by
  induction es with
  | nil => simp [setEntry]
  | cons z es ih =>
    obtain ⟨n, old⟩ := z
    obtain ⟨hn, hes'⟩ := List.nodup_cons.1 hes
    unfold setEntry
    split
    · exact hes
    · rename_i hne
      refine List.nodup_cons.2 ⟨fun hmem => ?_, ih hes'⟩
      obtain ⟨y, hy, hyn⟩ := List.mem_map.1 hmem
      rcases mem_setEntry hy with rfl | hy
      · exact hne hyn.symm
      · exact hn (hyn ▸ List.mem_map_of_mem hy)

theorem Distinct.setEntry (hnew : new.Distinct) (he : (FileEntry.directory es).Distinct) :
    (FileEntry.directory (FileEntry.setEntry name new es)).Distinct := by
  cases he with
  | directory hes hall =>
    refine .directory (nodup_setEntry hes) fun y hy => ?_
    rcases mem_setEntry hy with rfl | hy
    · exact hnew
    · exact hall y hy

theorem Distinct.setBelow (hnew : new.Distinct) (he : e.Distinct) (place : List String) :
    (e.setBelow name new place).Distinct := by
  induction place generalizing e with
  | nil =>
    cases e with
    | file c => exact he
    | directory es => exact hnew.setEntry he
  | cons n place ih =>
    cases e with
    | file c => exact he
    | directory es =>
      unfold FileEntry.setBelow
      split
      · exact he
      · rename_i d hd
        cases he with
        | directory hes hall => exact (ih (hall (n, d) ((lookup_eq_some_iff_mem hes).1 hd))).setEntry (.directory hes hall)

/-! ## Lines of a listing -/

/-- The path of a directory below another one. -/
def pathTo (path : String) : List String → String
  | [] => path
  | n :: ns => pathTo (path ++ n ++ "/") ns

/-- What a listing shows of an entry beside its path: the text of a file that is text. -/
def text? : FileEntry → Option String
  | file (.text s) => some s
  | file .bytes | directory _ => none

/-- The line of an entry, by the path of its directory and its name. -/
def line (path name : String) (e : FileEntry) : String × Option String :=
  (path ++ name ++ if e.isDirectory then "/" else "", e.text?)

/-- The listing of a directory is that of its entries, one after another. -/
theorem mem_listingAll {path : String} {l : String × Option String} :
    l ∈ listingAll path es ↔ ∃ x ∈ es, l = x.2.line path x.1 ∨
      ∃ below, x.2 = directory below ∧ l ∈ listingAll (path ++ x.1 ++ "/") below := by
  induction es with
  | nil => simp [listingAll]
  | cons x es ih =>
    obtain ⟨n, e⟩ := x
    cases e with
    | file c =>
      have hline : listing (path ++ n) (file c) = [line path n (file c)] := by
        cases c <;> simp [listing, line, isDirectory, text?]
      rw [listingAll, hline, List.mem_append, ih, List.mem_singleton, List.exists_mem_cons_iff]
      simp
    | directory below =>
      have hline : (path ++ n ++ "/", none) = line path n (directory below) := rfl
      rw [listingAll, hline, List.cons_append, List.mem_cons, List.mem_append, ih, List.exists_mem_cons_iff]
      simp [or_assoc]

/-- An entry that names lead to has its line. -/
theorem line_mem_listing {path : String} (h : (directory es).below? (place ++ [name]) = some x) :
    x.line (pathTo path place) name ∈ (directory es).listing path := by
  rw [listing]
  induction place generalizing es path with
  | nil =>
    simp only [List.nil_append, below?, entry?] at h
    cases hn : es.lookup name with
    | none => simp [hn] at h
    | some d =>
      rw [hn] at h
      cases h
      exact mem_listingAll.2 ⟨(name, x), mem_of_lookup hn, .inl rfl⟩
  | cons n place ih =>
    simp only [List.cons_append, below?, entry?] at h
    cases hn : es.lookup n with
    | none => simp [hn] at h
    | some d =>
      rw [hn] at h
      cases d with
      | file c => cases place <;> simp [below?, entry?] at h
      | directory below => exact mem_listingAll.2 ⟨(n, directory below), mem_of_lookup hn, .inr ⟨below, rfl, ih h⟩⟩

/-- Every line is that of an entry that names lead to, where names are distinct. -/
theorem exists_of_mem_listing {es : List (String × FileEntry)} (he : (directory es).Distinct) {path : String}
    {l : String × Option String} (h : l ∈ (directory es).listing path) :
    ∃ place name x, (directory es).below? (place ++ [name]) = some x ∧ l = x.line (pathTo path place) name := by
  rw [listing] at h
  obtain ⟨⟨n, d⟩, hx, hl⟩ := mem_listingAll.1 h
  cases he with
  | directory hes hall =>
    have hlookup := (lookup_eq_some_iff_mem hes).2 hx
    rcases hl with rfl | ⟨below, hd, hl⟩
    · exact ⟨[], n, d, by simp [below?, entry?, hlookup], rfl⟩
    · simp only at hd hl
      subst hd
      have hsmaller : sizeOf below < sizeOf es := by
        have := List.sizeOf_lt_of_mem hx
        simp only [Prod.mk.sizeOf_spec, directory.sizeOf_spec] at this
        omega
      have hbelow : l ∈ (directory below).listing (path ++ n ++ "/") := by rwa [listing]
      obtain ⟨place, name, x, hplace, rfl⟩ := exists_of_mem_listing (hall _ hx) hbelow
      exact ⟨n :: place, name, x, by simp [below?, entry?, hlookup, hplace], rfl⟩
termination_by sizeOf es

/-- A directory's listing has exactly the lines of the entries that names lead to from there. -/
theorem mem_listing_iff (he : (directory es).Distinct) {path : String} {l : String × Option String} :
    l ∈ (directory es).listing path ↔
      ∃ place name x, (directory es).below? (place ++ [name]) = some x ∧ l = x.line (pathTo path place) name := by
  constructor
  · exact exists_of_mem_listing he
  · rintro ⟨place, name, x, hplace, rfl⟩
    exact line_mem_listing hplace

end FileEntry

/-! ## Trees that are written to -/

namespace FileTree

open FileEntry

variable {t t' : FileTree} {workingDir p : FilePath}

theorem distinct_writeText (ht : t.top.Distinct) {s : String} (h : t.writeText workingDir p s = .ok t') :
    t'.top.Distinct := by
  unfold writeText at h
  cases hp : t.locateNew workingDir p with
  | error f => simp [hp, bind, Except.bind] at h
  | ok x =>
    obtain ⟨dir, _ | name⟩ := x
    all_goals simp only [hp, bind, Except.bind] at h
    · cases h
    · have hset : (t.top.setBelow name (.file (.text s)) dir).Distinct := (Distinct.file _).setBelow ht dir
      split at h
      · cases h
      · split at h
        · cases h
        · cases h
          exact hset
      · split at h
        · cases h
        · cases h
          exact hset

theorem distinct_makeDirectory (ht : t.top.Distinct) (h : t.makeDirectory workingDir p = .ok t') :
    t'.top.Distinct := by
  unfold makeDirectory at h
  cases hp : t.locateNew workingDir p with
  | error f => simp [hp, bind, Except.bind] at h
  | ok x =>
    obtain ⟨dir, _ | name⟩ := x
    all_goals simp only [hp, bind, Except.bind] at h
    · cases h
    · split at h
      · cases h
      · cases h
        have hnew : (FileEntry.directory []).Distinct := .directory .nil (by simp)
        exact hnew.setBelow ht dir

/-- What becomes of a tree in which a directory is made, with those above it made first where they are missing. -/
theorem makeDirectoriesIn_ok {steps : Nat} (h : makeDirectoriesIn steps t workingDir p = .ok t') :
    t' = t ∨ t.makeDirectory workingDir p = .ok t' ∨
      ∃ fewer above t₁, steps = fewer + 1 ∧ makeDirectoriesIn fewer t workingDir above = .ok t₁ ∧
        (t' = t₁ ∨ t₁.makeDirectory workingDir p = .ok t') := by
  unfold makeDirectoriesIn at h
  split at h
  · cases h
    exact .inl rfl
  · split at h
    · rename_i hmade
      cases h
      exact .inr (.inl hmade)
    · -- The directories above come first.
      split at h
      · cases h
      · split at h
        · cases h
        · rename_i habove
          refine .inr (.inr ⟨_, _, _, rfl, habove, ?_⟩)
          split at h
          · rename_i hmade
            cases h
            exact .inr hmade
          · split at h
            · cases h
              exact .inl rfl
            · cases h
    · split at h
      · cases h
        exact .inl rfl
      · cases h

theorem distinct_makeDirectoriesIn {steps : Nat} (ht : t.top.Distinct)
    (h : makeDirectoriesIn steps t workingDir p = .ok t') : t'.top.Distinct := by
  induction steps generalizing p t' with
  | zero =>
    obtain rfl | hmade | ⟨fewer, above, t₁, hsteps, -⟩ := makeDirectoriesIn_ok h
    · exact ht
    · exact distinct_makeDirectory ht hmade
    · cases hsteps
  | succ steps ih =>
    obtain rfl | hmade | ⟨fewer, above, t₁, hsteps, habove, hlast⟩ := makeDirectoriesIn_ok h
    · exact ht
    · exact distinct_makeDirectory ht hmade
    · obtain rfl := Nat.succ.inj hsteps
      rcases hlast with rfl | hmade
      · exact ih habove
      · exact distinct_makeDirectory (ih habove) hmade

theorem distinct_makeDirectories (ht : t.top.Distinct) (h : t.makeDirectories workingDir p = .ok t') :
    t'.top.Distinct := distinct_makeDirectoriesIn ht h

end FileTree
end DocNav
