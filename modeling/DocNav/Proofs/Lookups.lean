import Mathlib
/-!
# Lists of keys and values

The cache of a loader, the fields of an object, the entries of a directory and the index of anchors are lists of keys with
values. A key is looked up as its first occurrence; where no key occurs twice, what is looked up is what is in the list.
-/

namespace DocNav

section
variable {α β : Type} [DecidableEq α] {xs : List (α × β)} {a : α} {y : β}

theorem mem_of_lookup (h : xs.lookup a = some y) : (a, y) ∈ xs := by
  obtain ⟨before, behind, rfl, -⟩ := List.lookup_eq_some_iff.1 h
  exact List.mem_append_right _ List.mem_cons_self

theorem lookup_eq_some_iff_mem (hxs : (xs.map Prod.fst).Nodup) : xs.lookup a = some y ↔ (a, y) ∈ xs := by
  refine ⟨mem_of_lookup, fun hmem => ?_⟩
  obtain ⟨before, behind, rfl⟩ := List.append_of_mem hmem
  refine List.lookup_eq_some_iff.2 ⟨before, behind, rfl, fun x hx => ?_⟩
  rw [List.map_append, List.map_cons, List.nodup_append] at hxs
  have hne := hxs.2.2 x.1 (List.mem_map_of_mem hx) a List.mem_cons_self
  simpa using hne.symm

theorem lookup_filter_ne (xs : List (α × β)) (a b : α) :
    (xs.filter fun x => x.1 ≠ a).lookup b = if b = a then none else xs.lookup b := by
  induction xs with
  | nil => simp
  | cons x xs ih =>
    obtain ⟨c, y⟩ := x
    by_cases hc : c = a <;> by_cases hb : b = c <;> grind

theorem length_filter_ne (hxs : (xs.map Prod.fst).Nodup) (ha : (xs.lookup a).isSome) :
    (xs.filter fun x => x.1 ≠ a).length + 1 = xs.length := by
  induction xs with
  | nil => simp at ha
  | cons x xs ih =>
    obtain ⟨c, y⟩ := x
    obtain ⟨hc, hxs⟩ := List.nodup_cons.1 hxs
    by_cases hca : c = a
    · subst hca
      have hself : (xs.filter fun x => x.1 ≠ c) = xs := by
        rw [List.filter_eq_self]
        intro x hx
        have hmem : x.1 ∈ xs.map Prod.fst := List.mem_map_of_mem hx
        have hne : x.1 ≠ c := fun heq => hc (heq ▸ hmem)
        simpa using hne
      rw [List.filter_cons_of_neg (by simp), hself, List.length_cons]
    · rw [List.lookup_cons, beq_false_of_ne (Ne.symm hca)] at ha
      rw [List.filter_cons_of_pos (by simpa using hca), List.length_cons, List.length_cons, ih hxs ha]

end
end DocNav
