import DocNav.Tree
import Mathlib
/-!
# Paths of a tree

Paths are ordered as their nodes are in the document, and a path that goes on behind another is looked up from where that
one leads (`Node.at?_append`). A change at a path acts along that path alone. Below the path there is what the changed node
has (`at?_modifyAt_below`), above it the change is in the subtree (`at?_modifyAt_above`), and elsewhere nothing happens
(`at?_modifyAt_apart`). So changes at two paths commute when neither leads through the other (`modifyAt_comm`).
-/

namespace DocNav

/-! ## Document order -/

theorem TreePath.nil_le (p : TreePath) : ([] : TreePath) ≤ p := by
  rw [← not_lt]
  exact List.not_lt_nil p

theorem TreePath.cons_le_cons {i j : Nat} {p q : TreePath} :
    (i :: p : TreePath) ≤ j :: q ↔ i < j ∨ i = j ∧ p ≤ q := by
  rw [← not_lt, ← not_lt (a := q), List.cons_lt_cons_iff]
  obtain hij | rfl | hij := lt_trichotomy i j
  · simp [hij, hij.not_gt, hij.ne']
  · simp
  · simp [hij, hij.not_gt, hij.ne']

namespace Node

/-! ## Looking up paths -/

theorem at?_cons (n : Node) (i : Nat) (p : TreePath) : n.at? (i :: p) = (n.child? i).bind (·.at? p) := by
  rw [at?]
  cases n.child? i <;> rfl

theorem at?_append (n : Node) (p q : TreePath) : n.at? (p ++ q) = (n.at? p).bind (·.at? q) := by
  induction p generalizing n with
  | nil => rfl
  | cons i p ih =>
    rw [List.cons_append, at?_cons, at?_cons]
    cases n.child? i with
    | none => rfl
    | some c => exact ih c

/-! ## What is at a path after a change -/

section
variable {n c : Node} {p q : TreePath} {f g : Node → Node}

theorem children_modifyAt (n : Node) (f : Node → Node) (i : Nat) (p : TreePath) :
    (n.modifyAt f (i :: p)).children = n.children.modify i (modifyAt f p) := by
  cases n with
  | inline l k cs => rfl
  | leaf _ _ => cases i <;> rfl
  | deferred _ _ _ => cases i <;> rfl

theorem at?_modifyAt_cons (n : Node) (f : Node → Node) (i j : Nat) (p q : TreePath) :
    (n.modifyAt f (i :: p)).at? (j :: q) =
      (n.child? j).bind fun d => if i = j then (d.modifyAt f p).at? q else d.at? q := by
  rw [at?_cons, child?, child?, children_modifyAt, List.getElem?_modify]
  cases n.children[j]? with
  | none => rfl
  | some d => split <;> rfl

/-- Above the path, the change is in the subtree. -/
theorem at?_modifyAt_above (n : Node) (f : Node → Node) (q r : TreePath) :
    (n.modifyAt f (q ++ r)).at? q = (n.at? q).map (modifyAt f r) := by
  induction q generalizing n with
  | nil => rfl
  | cons i q ih =>
    rw [List.cons_append, at?_modifyAt_cons, at?_cons]
    cases n.child? i with
    | none => rfl
    | some d =>
      simp only [Option.bind_some, if_true]
      exact ih d

theorem at?_modifyAt (f : Node → Node) (h : n.at? p = some c) : (n.modifyAt f p).at? p = some (f c) := by
  have habove := at?_modifyAt_above n f p []
  rwa [List.append_nil, h] at habove

/-- Below the path, the tree is the changed node. -/
theorem at?_modifyAt_below (f : Node → Node) (h : n.at? p = some c) (r : TreePath) :
    (n.modifyAt f p).at? (p ++ r) = (f c).at? r := by
  rw [at?_append, at?_modifyAt f h, Option.bind_some]

/-- Elsewhere, nothing changes. -/
theorem at?_modifyAt_apart (hpq : ¬ p <+: q) (hqp : ¬ q <+: p) : (n.modifyAt f p).at? q = n.at? q := by
  induction p generalizing n q with
  | nil => exact absurd List.nil_prefix hpq
  | cons i p ih =>
    cases q with
    | nil => exact absurd List.nil_prefix hqp
    | cons j q =>
      rw [at?_modifyAt_cons, at?_cons]
      by_cases hij : i = j
      · subst hij
        rw [List.cons_prefix_cons, and_iff_right rfl] at hpq hqp
        simp only [if_true, ih hpq hqp]
      · simp only [if_neg hij]

/-! ## Changes compared -/

/-- Of a change to a list, only what it makes of the item there counts. -/
theorem modify_congr {cs : List Node} {i : Nat} (h : ∀ d, cs[i]? = some d → f d = g d) :
    cs.modify i f = cs.modify i g := by
  apply List.ext_getElem?
  intro j
  rw [List.getElem?_modify, List.getElem?_modify]
  by_cases hij : i = j
  · subst hij
    cases hd : cs[i]? with
    | none => rfl
    | some d => simp [h d hd]
  · simp [hij]

/-- Only what a change makes of the node at the path counts, if there is one. -/
theorem modifyAt_agree (h : ∀ c, n.at? p = some c → f c = g c) : n.modifyAt f p = n.modifyAt g p := by
  induction p generalizing n with
  | nil => exact h n rfl
  | cons i p ih =>
    cases n with
    | leaf _ _ => rfl
    | deferred _ _ _ => rfl
    | inline l k cs =>
      rw [modifyAt, modifyAt]
      congr 1
      apply modify_congr
      intro d hd
      apply ih
      intro c hc
      apply h
      rw [at?_cons, show (inline l k cs).child? i = some d from hd, Option.bind_some, hc]

theorem modifyAt_congr (h : n.at? p = some c) (hfg : f c = g c) : n.modifyAt f p = n.modifyAt g p := by
  apply modifyAt_agree
  intro d hd
  obtain rfl : c = d := Option.some.inj (h.symm.trans hd)
  exact hfg

theorem modifyAt_id (n : Node) (p : TreePath) : n.modifyAt id p = n := by
  induction p generalizing n with
  | nil => rfl
  | cons i p ih =>
    cases n with
    | leaf _ _ => rfl
    | deferred _ _ _ => rfl
    | inline l k cs =>
      have hid : modifyAt id p = id := funext ih
      rw [modifyAt, hid, List.modify_id]

/-- A change that leaves the node at the path as it is, if there is one, leaves the tree. -/
theorem modifyAt_of_fixed (h : ∀ c, n.at? p = some c → f c = c) : n.modifyAt f p = n :=
  (modifyAt_agree h).trans (modifyAt_id n p)

theorem modifyAt_of_eq (h : n.at? p = some c) (hf : f c = c) : n.modifyAt f p = n :=
  (modifyAt_congr h hf).trans (modifyAt_id n p)

theorem modifyAt_comm (n : Node) (hpq : ¬ p <+: q) (hqp : ¬ q <+: p) :
    (n.modifyAt f p).modifyAt g q = (n.modifyAt g q).modifyAt f p := by
  induction p generalizing n q with
  | nil => exact absurd List.nil_prefix hpq
  | cons i p ih =>
    cases q with
    | nil => exact absurd List.nil_prefix hqp
    | cons j q =>
      cases n with
      | leaf _ _ => rfl
      | deferred _ _ _ => rfl
      | inline l k cs =>
        simp only [modifyAt]
        congr 1
        by_cases hij : i = j
        · subst hij
          rw [List.cons_prefix_cons, and_iff_right rfl] at hpq hqp
          rw [List.modify_modify_eq, List.modify_modify_eq]
          apply modify_congr
          intro d _
          exact ih d hpq hqp
        · exact List.modify_modify_ne _ _ cs hij

end

end Node
end DocNav
