import DocNav.PageRef
import Mathlib
/-!
# References by their characters

Which page a reference is on, and which handle its fragment has where the data names none, said by the characters of
its text: the page is what stands before the first `#`, and the handle is the page less one `.html` at its end.

The functions of a reference give just that (`bare?_eq`, `derivedFrom_iff`). Handles are put in order by their keys
(`sortDistinct_spec`).
-/

namespace DocNav

/-- What stands before the first `#`, where there is one. -/
def beforeHash? : List Char → Option (List Char)
  | [] => none
  | c :: cs => if c = '#' then some [] else (beforeHash? cs).map (c :: ·)

section
variable {text page : List Char}

theorem beforeHash?_eq_some_iff :
    beforeHash? text = some page ↔ '#' ∉ page ∧ ∃ fragment, text = page ++ '#' :: fragment := by
  induction text generalizing page with
  | nil => simp [beforeHash?]
  | cons c cs ih =>
    by_cases hc : c = '#'
    · subst hc
      rw [beforeHash?, if_pos rfl, Option.some_inj]
      constructor
      · rintro rfl
        exact ⟨List.not_mem_nil, cs, rfl⟩
      · rintro ⟨hpage, fragment, htext⟩
        cases page with
        | nil => rfl
        | cons d page =>
          cases htext
          exact absurd List.mem_cons_self hpage
    · rw [beforeHash?, if_neg hc, Option.map_eq_some_iff]
      constructor
      · rintro ⟨page', hpage', rfl⟩
        obtain ⟨hnot, fragment, rfl⟩ := ih.1 hpage'
        exact ⟨by simp [Ne.symm hc, hnot], fragment, rfl⟩
      · rintro ⟨hpage, fragment, htext⟩
        cases page with
        | nil =>
          cases htext
          exact absurd rfl hc
        | cons d page =>
          cases htext
          exact ⟨page, ih.2 ⟨fun h => hpage (List.mem_cons_of_mem _ h), fragment, rfl⟩, rfl⟩

theorem takeWhile_eq_self_iff_not_mem : text.takeWhile (· ≠ '#') = text ↔ '#' ∉ text := by
  rw [List.takeWhile_eq_self_iff]
  simp only [decide_eq_true_eq]
  exact List.forall_mem_ne'

theorem beforeHash?_eq_takeWhile (text : List Char) :
    beforeHash? text = if '#' ∈ text then some (text.takeWhile (· ≠ '#')) else none := by
  induction text with
  | nil => rfl
  | cons c cs ih =>
    by_cases hc : c = '#'
    · simp [beforeHash?, hc]
    · rw [beforeHash?, if_neg hc, ih]
      by_cases hmem : '#' ∈ cs <;> simp [hmem, hc, Ne.symm hc]

end

namespace PageRef

variable {r p : PageRef}

/-- The page of a reference into a page: the text before the first `#`. -/
def bare? (r : PageRef) : Option PageRef := (beforeHash? r.text.toList).map fun cs => ⟨String.ofList cs⟩

theorem bare?_eq_some_iff :
    r.bare? = some p ↔ '#' ∉ p.text.toList ∧ ∃ fragment, r.text.toList = p.text.toList ++ '#' :: fragment := by
  rw [bare?, Option.map_eq_some_iff]
  constructor
  · rintro ⟨page, hpage, rfl⟩
    rw [String.toList_ofList]
    exact beforeHash?_eq_some_iff.1 hpage
  · intro h
    exact ⟨p.text.toList, beforeHash?_eq_some_iff.2 h, by rw [String.ofList_toList]⟩

theorem fragment?_isSome : r.fragment?.isSome = true ↔ '#' ∈ r.text.toList := by
  have hnone : r.text.toList.dropWhile (· ≠ '#') = [] ↔ '#' ∉ r.text.toList := by
    rw [List.dropWhile_eq_nil_iff]
    simp only [decide_eq_true_eq]
    exact List.forall_mem_ne'
  unfold fragment?
  split
  next h => simpa using hnone.1 h
  next h =>
    refine iff_of_true rfl (by_contra fun hmem => ?_)
    rw [hnone.2 hmem] at h
    cases h

/-- A reference with a fragment is one into its page. -/
theorem bare?_eq (r : PageRef) : r.bare? = if r.fragment?.isSome then some r.withoutFragment else none := by
  rw [bare?, beforeHash?_eq_takeWhile]
  simp only [fragment?_isSome]
  split <;> rfl

end PageRef

/-! ## Handles that links give -/

/-- All of the text is a page where there is no `#` in it, or else what stands before the first. -/
def PageRef.OnPage (r : PageRef) (page : List Char) : Prop :=
  '#' ∉ page ∧ (r.text.toList = page ∨ ∃ fragment, r.text.toList = page ++ '#' :: fragment)

theorem PageRef.onPage_iff {r : PageRef} {page : List Char} : r.OnPage page ↔ r.page.toList = page := by
  rw [PageRef.page, String.toList_ofList]
  by_cases hmem : '#' ∈ r.text.toList
  · have hbefore : beforeHash? r.text.toList = some page ↔ r.text.toList.takeWhile (· ≠ '#') = page := by
      rw [beforeHash?_eq_takeWhile, if_pos hmem, Option.some_inj]
    rw [← hbefore, beforeHash?_eq_some_iff]
    refine and_congr_right fun hpage => or_iff_right ?_
    rintro rfl
    exact hpage hmem
  · rw [takeWhile_eq_self_iff_not_mem.2 hmem]
    constructor
    · rintro ⟨-, htext | ⟨fragment, htext⟩⟩
      · exact htext
      · exact absurd (by simp [htext]) hmem
    · rintro rfl
      exact ⟨hmem, .inl rfl⟩

/-- The handle is the page of the link less one `.html` at its end, if it ends so. -/
def Handle.DerivedFrom (h : Handle) (link : PageRef) : Prop :=
  ∃ page, link.OnPage page ∧
    (page = h.key.toList ++ ".html".toList ∨ h.key.toList = page ∧ ¬ ".html".toList <:+ page)

theorem Handle.toList_key_eq_iff {h : Handle} {key : List Char} : h.key.toList = key ↔ h = ⟨String.ofList key⟩ := by
  obtain ⟨k⟩ := h
  rw [Handle.mk.injEq]
  constructor
  · rintro rfl
    exact String.ofList_toList.symm
  · rintro rfl
    exact String.toList_ofList

theorem Handle.derivedFrom_iff {h : Handle} {link : PageRef} : h.DerivedFrom link ↔ h = .ofLink link := by
  have hpage : h.DerivedFrom link ↔ link.page.toList = h.key.toList ++ ".html".toList ∨
      h.key.toList = link.page.toList ∧ ¬ ".html".toList <:+ link.page.toList := by
    simp only [DerivedFrom, PageRef.onPage_iff, exists_eq_left']
  rw [hpage, ofLink]
  generalize link.page = page
  by_cases hsuffix : ".html".toList <:+ page.toList
  · obtain ⟨stem, hstem⟩ := hsuffix
    have hlength : page.toList.length - 5 = stem.length := by
      rw [← hstem, List.length_append]
      rfl
    rw [hlength, ← hstem, List.drop_left, if_pos rfl, List.take_left, List.append_cancel_right_eq, eq_comm,
      Handle.toList_key_eq_iff]
    exact or_iff_left fun hcopy => hcopy.2 ⟨stem, rfl⟩
  · have hdrop : page.toList.drop (page.toList.length - 5) ≠ ".html".toList := by
      intro hdrop
      exact hsuffix (hdrop ▸ List.drop_suffix _ _)
    have hlonger : page.toList ≠ h.key.toList ++ ".html".toList := fun hstem => hsuffix ⟨_, hstem.symm⟩
    rw [if_neg hdrop, or_iff_right hlonger, and_iff_left hsuffix, Handle.toList_key_eq_iff, String.ofList_toList]

/-! ## Handles in order -/

theorem Handle.key_lt_of_le {h k : Handle} (hle : h.key ≤ k.key) (hne : h ≠ k) : h.key < k.key := by
  refine lt_of_le_of_ne hle fun hkey => hne ?_
  cases h
  cases k
  exact congrArg Handle.mk hkey

/-- In a list in order the repetitions of a handle follow one another. -/
theorem Handle.eraseReps_loop {h : Handle} {handles : List Handle}
    (hle : (h :: handles).Pairwise fun a b => a.key ≤ b.key) (kept : List Handle) :
    ∃ distinct, List.eraseRepsBy.loop (· == ·) h handles kept = kept.reverse ++ distinct ∧
      (distinct.Pairwise fun a b => a.key < b.key) ∧ ∀ k, k ∈ distinct ↔ k ∈ h :: handles := by
  induction handles generalizing h kept with
  | nil => exact ⟨[h], by simp [List.eraseRepsBy.loop], List.pairwise_singleton _ _, fun _ => Iff.rfl⟩
  | cons k handles ih =>
    have hrest := (List.pairwise_cons.1 hle).2
    unfold List.eraseRepsBy.loop
    by_cases heq : h = k
    · subst heq
      obtain ⟨distinct, hloop, hlt, hmem⟩ := ih hrest kept
      rw [beq_self_eq_true]
      exact ⟨distinct, hloop, hlt, by simp [hmem]⟩
    · obtain ⟨distinct, hloop, hlt, hmem⟩ := ih hrest (h :: kept)
      rw [beq_false_of_ne heq]
      refine ⟨h :: distinct, ?_, ?_, ?_⟩
      · simp only [hloop, List.reverse_cons, List.append_assoc, List.singleton_append]
      · rw [List.pairwise_cons]
        refine ⟨fun b hb => ?_, hlt⟩
        -- All that follows is behind `k`, which is behind `h`.
        have hhk : h.key < k.key := Handle.key_lt_of_le ((List.pairwise_cons.1 hle).1 k List.mem_cons_self) heq
        rcases List.mem_cons.1 ((hmem b).1 hb) with rfl | hb
        · exact hhk
        · exact lt_of_lt_of_le hhk ((List.pairwise_cons.1 hrest).1 b hb)
      · simp [hmem]

/-- Each of the handles once, in the order of their keys. -/
theorem Handle.sortDistinct_spec (handles : List Handle) :
    ((Handle.sortDistinct handles).Pairwise fun a b => a.key < b.key) ∧
      ∀ h, h ∈ Handle.sortDistinct handles ↔ h ∈ handles := by
  have hsorted : (handles.mergeSort fun a b => decide (a.key ≤ b.key)).Pairwise fun a b => a.key ≤ b.key := by
    refine (List.pairwise_mergeSort ?_ ?_ handles).imp of_decide_eq_true
    · intro a b c hab hbc
      exact decide_eq_true (le_trans (of_decide_eq_true hab) (of_decide_eq_true hbc))
    · intro a b
      simpa using le_total a.key b.key
  have hperm := List.mergeSort_perm handles fun a b => decide (a.key ≤ b.key)
  unfold Handle.sortDistinct
  generalize handles.mergeSort _ = sorted at *
  cases sorted with
  | nil =>
    obtain rfl : handles = [] := hperm.symm.eq_nil
    simp [List.eraseReps, List.eraseRepsBy]
  | cons h sorted =>
    obtain ⟨distinct, hloop, hlt, hmem⟩ := Handle.eraseReps_loop hsorted []
    have hdistinct : (h :: sorted).eraseReps = distinct := hloop
    rw [hdistinct]
    exact ⟨hlt, fun k => (hmem k).trans hperm.mem_iff⟩

end DocNav
