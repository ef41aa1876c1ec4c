import DocNav.Proofs.StateFiles
/-!
# Components of a path

What a path is made of once everything is left out that counts for nothing, and what joining two paths, going up to the
directory and looking for an extension do to that.
-/

namespace DocNav
namespace FilePath

/-- The pieces of a text that count: those that are neither empty nor `.`. -/
def componentsOf (cs : List Char) : List (List Char) := (pieces cs).filter fun piece => piece ≠ [] ∧ piece ≠ ['.']

def components (p : FilePath) : List (List Char) := componentsOf p.text.toList

theorem componentsOf_append (xs ys : List Char) :
    componentsOf (xs ++ '/' :: ys) = componentsOf xs ++ componentsOf ys := by
  rw [componentsOf, pieces_append, List.filter_append]
  rfl

theorem componentsOf_slash (xs : List Char) : componentsOf (xs ++ ['/']) = componentsOf xs := by
  rw [componentsOf_append]
  exact List.append_nil _

theorem componentsOf_of_plain {cs : List Char} (h : '/' ∉ cs) :
    componentsOf cs = if cs = [] ∨ cs = ['.'] then [] else [cs] := by
  rw [componentsOf, pieces_of_plain h]
  by_cases hcs : cs = [] ∨ cs = ['.']
  · rcases hcs with rfl | rfl <;> rfl
  · rw [if_neg hcs]
    simpa [not_or] using hcs

/-! ## What is dropped at the end of a path -/

theorem componentsOf_trimReversed (cs : List Char) :
    componentsOf (trimReversed cs).reverse = componentsOf cs.reverse := by
  fun_induction trimReversed cs with
  | case1 => rfl
  | case2 rest _ ih => rw [ih, List.reverse_cons, componentsOf_slash]
  | case3 => rfl
  | case4 rest _ ih =>
    have hdot : componentsOf (rest.reverse ++ '/' :: ['.']) = componentsOf rest.reverse := by
      rw [componentsOf_append]
      exact List.append_nil _
    rw [ih, List.reverse_cons, componentsOf_slash, ← hdot]
    simp
  | case5 => rfl

theorem getLast?_trimReversed (cs : List Char) : (trimReversed cs).getLast? = cs.getLast? := by
  fun_induction trimReversed cs with
  | case1 => rfl
  | case2 rest hne ih =>
    have hrest : rest ≠ [] := fun h => hne (by rw [h])
    rw [ih, List.getLast?_cons_of_ne_nil hrest]
  | case3 => rfl
  | case4 rest _ ih => rw [ih, List.getLast?_cons_cons]
  | case5 => rfl

theorem trimReversed_suffix (cs : List Char) : trimReversed cs <:+ cs := by
  fun_induction trimReversed cs with
  | case1 => exact List.suffix_rfl
  | case2 rest _ ih => exact ih.trans (List.suffix_cons _ _)
  | case3 => exact List.suffix_cons _ _
  | case4 rest _ ih => exact ih.trans (List.suffix_cons _ _)
  | case5 => exact List.suffix_rfl

/-- What is left is nothing, the root, a single dot, or it has a last component that is no single dot. -/
theorem trimReversed_cases (cs : List Char) :
    trimReversed cs = [] ∨ trimReversed cs = ['/'] ∨ trimReversed cs = ['.'] ∨
      (trimReversed cs).takeWhile (· ≠ '/') ≠ [] ∧ (trimReversed cs).takeWhile (· ≠ '/') ≠ ['.'] := by
  fun_induction trimReversed cs with
  | case1 => simp
  | case2 rest _ ih => exact ih
  | case3 => simp
  | case4 rest _ ih => exact ih
  | case5 cs _ hslash _ hdot =>
    rcases cs with _ | ⟨c, rest⟩
    · exact .inl rfl
    · have hc : c ≠ '/' := fun h => hslash rest (by rw [h])
      have htake : (c :: rest).takeWhile (· ≠ '/') = c :: rest.takeWhile (· ≠ '/') :=
        List.takeWhile_cons_of_pos (by simpa using hc)
      by_cases hsingle : c :: rest = ['.']
      · exact .inr (.inr (.inl hsingle))
      · right; right; right
        rw [htake]
        refine ⟨List.cons_ne_nil _ _, fun h => ?_⟩
        obtain ⟨rfl, hrest⟩ := List.cons.inj h
        rcases rest with _ | ⟨d, rest⟩
        · exact hsingle rfl
        · by_cases hd : d = '/'
          · exact hdot rest (by rw [hd])
          · rw [List.takeWhile_cons_of_pos (by simpa using hd)] at hrest
            cases hrest

/-! ## The last component -/

/-- The reversed text of a path, less what is dropped, is a name and what stands before it. -/
structure Splits (p : FilePath) (name above : List Char) : Prop where
  separators : '/' ∉ name
  cut : above = [] ∨ ∃ rest, above = '/' :: rest
  text : trimReversed p.text.toList.reverse = name ++ above

theorem splits (p : FilePath) : p.Splits p.splitReversed.1 p.splitReversed.2 where
  separators := fun h => by simpa using List.mem_takeWhile_imp h
  cut := by
    have hhead := List.head?_dropWhile_not (· ≠ '/') (trimReversed p.text.toList.reverse)
    show (trimReversed p.text.toList.reverse).dropWhile (· ≠ '/') = [] ∨ _
    cases hdrop : (trimReversed p.text.toList.reverse).dropWhile (· ≠ '/') with
    | nil => exact .inl rfl
    | cons c rest =>
      rw [hdrop] at hhead
      have hslash : c = '/' := by simpa using hhead
      exact .inr ⟨rest, by rw [← hslash, ← hdrop]; rfl⟩
  text := List.takeWhile_append_dropWhile.symm

theorem Splits.components {p : FilePath} {name above : List Char} (h : p.Splits name above) :
    p.components = componentsOf above.reverse ++ componentsOf name.reverse := by
  have htext : p.components = componentsOf (name ++ above).reverse := by
    rw [← h.text, componentsOf_trimReversed, List.reverse_reverse]
    rfl
  rw [htext]
  rcases h.cut with rfl | ⟨rest, rfl⟩
  · simp [componentsOf, pieces]
  · rw [List.reverse_append, List.reverse_cons, componentsOf_slash, List.append_assoc, List.singleton_append,
      componentsOf_append]

/-- A path has no component where it is empty, the root, or a dot; else its last one is the name it is split at, and the
others are those of what stands before it. -/
theorem components_cases (p : FilePath) :
    p.components = [] ∧ (p.splitReversed.1 = [] ∨ p.splitReversed = (['.'], [])) ∨
      p.splitReversed.1 ≠ [] ∧ p.splitReversed.1 ≠ ['.'] ∧
        p.components = componentsOf p.splitReversed.2.reverse ++ [p.splitReversed.1.reverse] := by
  have hcut : p.splitReversed = ((trimReversed p.text.toList.reverse).takeWhile (· ≠ '/'),
    (trimReversed p.text.toList.reverse).dropWhile (· ≠ '/')) := rfl
  have hcomponents := p.splits.components
  rcases trimReversed_cases p.text.toList.reverse with h | h | h | ⟨hpresent, hdot⟩
  · rw [h] at hcut
    rw [hcut] at hcomponents ⊢
    exact .inl ⟨hcomponents, .inl rfl⟩
  · rw [h] at hcut
    rw [hcut] at hcomponents ⊢
    exact .inl ⟨hcomponents, .inl rfl⟩
  · rw [h] at hcut
    rw [hcut] at hcomponents ⊢
    exact .inl ⟨hcomponents, .inr rfl⟩
  · right
    refine ⟨hpresent, hdot, ?_⟩
    have hplain : '/' ∉ p.splitReversed.1.reverse := fun h => p.splits.separators (List.mem_reverse.1 h)
    rw [hcomponents, componentsOf_of_plain hplain, if_neg]
    rw [not_or, List.reverse_eq_nil_iff, List.reverse_eq_iff]
    exact ⟨hpresent, hdot⟩

theorem parent?_eq (p : FilePath) :
    p.parent? = if p.splitReversed.1 = [] then none
      else some ⟨String.ofList (trimReversed p.splitReversed.2).reverse⟩ := by
  unfold parent?
  split
  · rename_i above h
    rw [h, if_pos rfl]
  · rename_i name above hne h
    rw [h, if_neg hne]

/-- What is left without the last component is shorter. -/
theorem length_parent? {p q : FilePath} (h : p.parent? = some q) : q.text.length < p.text.length := by
  have hsplits := p.splits
  rw [parent?_eq] at h
  by_cases hname : p.splitReversed.1 = []
  · rw [if_pos hname] at h
    cases h
  · rw [if_neg hname] at h
    cases h
    have htext := congrArg List.length hsplits.text
    have hlength := (trimReversed_suffix p.text.toList.reverse).length_le
    have habove := (trimReversed_suffix p.splitReversed.2).length_le
    have hpos := List.length_pos_iff.2 hname
    simp only [List.length_append, List.length_reverse, String.length_toList] at htext hlength
    simp only [String.length_ofList, List.length_reverse]
    omega

/-! ## The directory of a path -/

/-- The directory of a path has its components but for the last, and stands where the path stands. -/
structure LiesIn (p dir : FilePath) : Prop where
  components : dir.components = p.components.dropLast
  isAbsolute : p.components ≠ [] → dir.isAbsolute = p.isAbsolute
  /-- A bare name lies where one is. -/
  bare : '/' ∉ p.text.toList → dir = ⟨"."⟩

theorem components_dot : components ⟨"."⟩ = [] := by rfl

theorem directory_eq (p : FilePath) :
    p.directory = if p.splitReversed.1 = [] ∨ trimReversed p.splitReversed.2 = [] then ⟨"."⟩
      else ⟨String.ofList (trimReversed p.splitReversed.2).reverse⟩ := by
  unfold directory
  rw [parent?_eq]
  by_cases hname : p.splitReversed.1 = []
  · simp [hname]
  · by_cases habove : trimReversed p.splitReversed.2 = []
    · simp [hname, habove]
    · simp [hname, habove]

theorem directory_of_nothing_above {p : FilePath} (h : p.splitReversed.2 = []) : p.directory = ⟨"."⟩ := by
  have htrim : trimReversed p.splitReversed.2 = [] := by rw [h, trimReversed] <;> simp
  rw [directory_eq, if_pos (.inr htrim)]

theorem directory_of_components_nil {p : FilePath} (h : p.components = []) : p.directory = ⟨"."⟩ := by
  rcases p.components_cases with ⟨-, hname | hname⟩ | ⟨-, -, hcomponents⟩
  · rw [directory_eq, if_pos (.inl hname)]
  · exact directory_of_nothing_above (by rw [hname])
  · simp [h] at hcomponents

/-- Whether a path is absolute is told by what stands before its name. -/
theorem isAbsolute_iff_above (p : FilePath) : p.isAbsolute = true ↔ p.splitReversed.2.getLast? = some '/' := by
  have hsplits := p.splits
  have hhead : p.text.toList.head? = (p.splitReversed.1 ++ p.splitReversed.2).getLast? := by
    rw [← hsplits.text, getLast?_trimReversed, List.getLast?_reverse]
  rw [isAbsolute_iff, hhead]
  by_cases habove : p.splitReversed.2 = []
  · have hname : p.splitReversed.1.getLast? ≠ some '/' := fun h => hsplits.separators (List.mem_of_getLast? h)
    simp [habove, hname]
  · rw [List.getLast?_append_of_ne_nil _ habove]

theorem liesIn_directory (p : FilePath) : p.LiesIn p.directory := by
  have hsplits := p.splits
  rcases p.components_cases with ⟨hnil, -⟩ | ⟨hpresent, -, hcomponents⟩
  · rw [directory_of_components_nil hnil]
    exact ⟨by rw [components_dot, hnil]; rfl, fun hne => absurd hnil hne, fun _ => rfl⟩
  · rcases hsplits.cut with habove | ⟨rest, habove⟩
    · rw [directory_of_nothing_above habove]
      refine ⟨?_, fun _ => ?_, fun _ => rfl⟩
      · rw [components_dot, hcomponents, habove]
        rfl
      · have hdot : isAbsolute ⟨"."⟩ = false := not_isAbsolute_of_plain (by decide)
        rw [hdot, eq_comm, Bool.eq_false_iff, ne_eq, isAbsolute_iff_above p, habove]
        simp
    · have hlast := getLast?_trimReversed p.splitReversed.2
      have htrim : trimReversed p.splitReversed.2 ≠ [] := by
        intro h
        rw [h, habove] at hlast
        exact absurd hlast.symm (by simp)
      rw [directory_eq, if_neg (not_or.2 ⟨hpresent, htrim⟩)]
      refine ⟨?_, fun _ => ?_, fun hbare => ?_⟩
      · rw [hcomponents, List.dropLast_concat, ← componentsOf_trimReversed]
        simp [FilePath.components]
      · rw [Bool.eq_iff_iff, isAbsolute_iff_above p, isAbsolute_iff, String.toList_ofList, List.head?_reverse, hlast]
      · -- What stands before the name has a separator, and it is all text of the path.
        have hmem : '/' ∈ trimReversed p.text.toList.reverse := by
          rw [hsplits.text, habove]
          simp
        exact absurd (List.mem_reverse.1 ((trimReversed_suffix _).subset hmem)) hbare

/-! ## Joined paths -/

theorem components_join (dir : FilePath) {p : FilePath} (h : p.isAbsolute = false) :
    (dir.join p).components = dir.components ++ p.components := by
  unfold components
  rcases join_cases_of_relative dir h with ⟨hempty, hjoin⟩ | ⟨front, hfront, hjoin⟩ | ⟨-, hjoin⟩
  · rw [hjoin, hempty]
    rfl
  · rw [hjoin, String.toList_append, hfront, List.append_assoc, List.singleton_append, componentsOf_append,
      componentsOf_slash]
  · have htext : (dir.join p).text.toList = dir.text.toList ++ '/' :: p.text.toList := by simp [hjoin]
    rw [htext, componentsOf_append]

theorem join_of_isAbsolute (dir : FilePath) {p : FilePath} (h : p.isAbsolute = true) : dir.join p = p := by
  rw [join, if_pos h]

/-! ## Extensions -/

/-- The file name is the last component, unless that leads up. -/
theorem fileName?_eq (p : FilePath) :
    p.fileName? = if p.components.getLast? = some ['.', '.'] then none else p.components.getLast?.map String.ofList := by
  unfold fileName?
  rcases p.components_cases with ⟨hcomponents, hname⟩ | ⟨hpresent, hdot, hcomponents⟩
  · rcases hname with hname | hname
    · simp [hcomponents, hname]
    · simp [hcomponents, hname]
  · have hlast : p.components.getLast? = some p.splitReversed.1.reverse := by rw [hcomponents, List.getLast?_concat]
    have hne (s : String) : String.ofList p.splitReversed.1.reverse = s ↔ p.splitReversed.1.reverse = s.toList := by
      rw [← String.toList_inj, String.toList_ofList]
    rw [hlast]
    simp [hne, hpresent, hdot]

/-- The extension of a name is what follows its last dot, where something precedes that. -/
theorem extension?_of_last {p : FilePath} {last : List Char} (hlast : p.components.getLast? = some last)
    (hup : last ≠ ['.', '.']) {extension : String} :
    p.extension? = some extension ↔ ∃ c stem, last.reverse.dropWhile (· ≠ '.') = '.' :: c :: stem ∧
      (last.reverse.takeWhile (· ≠ '.')).reverse = extension.toList := by
  have hname : p.fileName? = some (String.ofList last) := by
    rw [fileName?_eq, hlast, if_neg (by simpa using hup)]
    rfl
  rw [extension?, hname]
  simp only [String.toList_ofList]
  split
  · rename_i c stem hdrop
    rw [hdrop, Option.some.injEq, ← String.toList_inj, String.toList_ofList]
    simp
  · rename_i hdrop
    constructor
    · intro h
      cases h
    · rintro ⟨c, stem, hstem, -⟩
      exact absurd hstem (hdrop c stem)

theorem extension?_eq_some_iff {p : FilePath} {extension : String} (hpresent : extension ≠ "")
    (hdot : '.' ∉ extension.toList) :
    p.extension? = some extension ↔ ∃ stem ≠ [], p.components.getLast? = some (stem ++ '.' :: extension.toList) := by
  constructor
  · intro h
    cases hlast : p.components.getLast? with
    | none => simp [extension?, fileName?_eq, hlast] at h
    | some last =>
      have hup : last ≠ ['.', '.'] := by
        rintro rfl
        simp [extension?, fileName?_eq, hlast] at h
      obtain ⟨c, stem, hdrop, htake⟩ := (extension?_of_last hlast hup).1 h
      have hcut := List.takeWhile_append_dropWhile (p := (· ≠ '.')) (l := last.reverse)
      refine ⟨(c :: stem).reverse, by simp, congrArg some (List.reverse_inj.1 ?_)⟩
      rw [← hcut, hdrop, ← htake]
      simp
  · rintro ⟨stem, hstem, hlast⟩
    have hup : stem ++ '.' :: extension.toList ≠ ['.', '.'] := by
      intro h
      have hlength := congrArg List.length h
      have hpos := List.length_pos_iff.2 hstem
      have hpos' : 0 < extension.toList.length := List.length_pos_iff.2 (by simpa using hpresent)
      simp only [List.length_append, List.length_cons, List.length_nil] at hlength
      omega
    obtain ⟨c, rest, hrest⟩ := List.exists_cons_of_ne_nil (mt List.reverse_eq_nil_iff.1 hstem)
    have hreverse : (stem ++ '.' :: extension.toList).reverse = extension.toList.reverse ++ '.' :: c :: rest := by
      simp [← hrest]
    have hall : ∀ d ∈ extension.toList.reverse, decide (d ≠ '.') = true := by
      intro d hd
      rw [decide_eq_true_eq]
      rintro rfl
      exact hdot (List.mem_reverse.1 hd)
    rw [extension?_of_last hlast hup, hreverse, List.dropWhile_append_of_pos hall, List.takeWhile_append_of_pos hall]
    exact ⟨c, rest, by simp, by simp⟩

/-- The path ends in a name with the extension of one of the data formats, behind some other text. -/
def IsData (p : FilePath) : Prop :=
  ∃ stem ≠ [],
    p.components.getLast? = some (stem ++ ".json".toList) ∨ p.components.getLast? = some (stem ++ ".js".toList)

/-- The path leads nowhere else. -/
def StaysPut (p : FilePath) : Prop := p.isAbsolute = false ∧ p.components = []

theorem isData_iff (p : FilePath) : p.IsData ↔ p.extension? = some "json" ∨ p.extension? = some "js" := by
  rw [extension?_eq_some_iff (by decide) (by decide), extension?_eq_some_iff (by decide) (by decide), ← exists_or]
  unfold IsData
  refine exists_congr fun stem => ?_
  rw [and_or_left]
  rfl

/-- A path behind a directory is a data file if it is one itself, or if it is the directory again and that is named like
one. -/
theorem isData_join (dir p : FilePath) : (dir.join p).IsData ↔ p.IsData ∨ p.StaysPut ∧ dir.IsData := by
  unfold StaysPut
  cases h : p.isAbsolute with
  | true => simp [join_of_isAbsolute dir h]
  | false =>
    unfold IsData
    rw [components_join dir h]
    by_cases hcomponents : p.components = []
    · simp [hcomponents]
    · simp [hcomponents, List.getLast?_append_of_ne_nil _ hcomponents]

end FilePath
end DocNav
