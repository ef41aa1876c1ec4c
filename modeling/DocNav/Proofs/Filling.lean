import DocNav.Proofs.Paths
/-!
# What putting a fragment in place changes

A deferred node has nothing below it, so paths to two of them never lead through each other, and the fragments of both
can be put in place in either order. The number of deferred nodes changes as it does at the path of a change
(`deferredCount_modifyAt`).

Main result: `Node.materialize_effect`, which says for every path of a tree what becomes of it when a fragment is put in
place, and when none can be.
-/

namespace DocNav

namespace Node

variable {n c : Node} {p q : TreePath}

/-! ## The number of deferred nodes -/

theorem deferredCountAll_eq (cs : List Node) : deferredCountAll cs = (cs.map deferredCount).sum := by
  induction cs with
  | nil => rfl
  | cons c cs ih => rw [deferredCountAll, ih, List.map_cons, List.sum_cons]

theorem deferredCountAll_modify {cs : List Node} {i : Nat} (g : Node → Node) (h : cs[i]? = some c) :
    deferredCountAll (cs.modify i g) + c.deferredCount = deferredCountAll cs + (g c).deferredCount := by
  induction cs generalizing i with
  | nil => cases h
  | cons d cs ih =>
    cases i with
    | zero =>
      cases h
      simp only [List.modify_zero_cons, deferredCountAll]
      omega
    | succ i =>
      have hrest := ih h
      simp only [List.modify_succ_cons, deferredCountAll]
      omega

theorem deferredCount_modifyAt (f : Node → Node) (h : n.at? p = some c) :
    (n.modifyAt f p).deferredCount + c.deferredCount = n.deferredCount + (f c).deferredCount := by
  induction p generalizing n with
  | nil =>
    cases h
    rw [modifyAt]
    omega
  | cons i p ih =>
    rw [at?_cons] at h
    obtain ⟨d, hd, hc⟩ := Option.bind_eq_some_iff.1 h
    cases n with
    | leaf _ _ => cases hd
    | deferred _ _ _ => cases hd
    | inline l k cs =>
      have hchildren := deferredCountAll_modify (modifyAt f p) hd
      have hchild := ih hc
      rw [modifyAt, deferredCount, deferredCount]
      simp only [children, inlineChildren?, Option.getD_some] at hchildren
      omega

theorem deferredCount_le_of_at? (h : n.at? p = some c) : c.deferredCount ≤ n.deferredCount := by
  have hcount := deferredCount_modifyAt (fun _ => leaf "" none) h
  rw [deferredCount] at hcount
  omega

/-! ## Deferred nodes -/

/-- Nothing is below a deferred node, so no path to a node leads through it. -/
theorem eq_of_prefix_of_deferred {d : Node} (hc : n.at? p = some c) (hdef : c.isDeferred = true)
    (hd : n.at? q = some d) (hpq : p <+: q) : p = q := by
  obtain ⟨r, rfl⟩ := hpq
  rw [at?_append, hc, Option.bind_some] at hd
  cases r with
  | nil => exact (List.append_nil p).symm
  | cons i r =>
    cases c with
    | deferred _ _ _ => cases hd
    | leaf _ _ => cases hdef
    | inline _ _ _ => cases hdef

theorem find_eq (n : Node) (p : TreePath) : n.find p = (n.at? p).elim (.error (.missing p)) .ok := by
  unfold find
  cases n.at? p <;> rfl

theorem materialize_of_deferred (h : n.at? p = some c) (hdef : c.isDeferred = true) (cs : List Node) :
    n.materialize p cs = .ok (n.modifyAt (fill cs) p) := by
  simp only [materialize, h, hdef, if_true]

theorem materialize_of_not_deferred (h : n.at? p = some c) (hdef : c.isDeferred = false) (cs : List Node) :
    n.materialize p cs = .error (.notDeferred p) := by
  simp only [materialize, h, hdef, Bool.false_eq_true, if_false]

/-! ## The effect of a fragment -/

/-- The second tree is the first with a fragment in place of what was deferred at the path, where the label and the
link are those of the node there. -/
structure Filled (n : Node) (p : TreePath) (label : String) (link : PageRef) (fragment : List Node) (n' : Node) :
    Prop where
  here : n'.find p = .ok (.inline label (some link) fragment)
  /-- Strictly below the path there is what the fragment has. -/
  below : ∀ i r, n'.find (p ++ i :: r) =
    (fragment[i]?.bind (·.at? r)).elim (.error (.missing (p ++ i :: r))) .ok
  /-- Strictly above it are inline nodes, with the labels and the links that they had. -/
  above : ∀ q i r, p = q ++ i :: r →
    ∃ l k cs cs', n.find q = .ok (.inline l k cs) ∧ n'.find q = .ok (.inline l k cs')
  elsewhere : ∀ q, ¬ p <+: q → ¬ q <+: p → n'.find q = n.find q
  present : 0 < n.deferredCount
  count : n'.deferredCount = n.deferredCount - 1 + (fragment.map deferredCount).sum

theorem filled_modifyAt {l : String} {k : PageRef} {h : Handle} (hc : n.at? p = some (.deferred l k h))
    (fragment : List Node) : n.Filled p l k fragment (n.modifyAt (fill fragment) p) where
  here := by
    rw [find_eq, at?_modifyAt _ hc]
    rfl
  below i r := by
    rw [find_eq, at?_modifyAt_below _ hc, fill, at?_cons]
    rfl
  above q i r hp := by
    subst hp
    rw [at?_append] at hc
    obtain ⟨d, hd, hbelow⟩ := Option.bind_eq_some_iff.1 hc
    rw [at?_cons] at hbelow
    obtain ⟨e, he, -⟩ := Option.bind_eq_some_iff.1 hbelow
    cases d with
    | leaf _ _ => cases he
    | deferred _ _ _ => cases he
    | inline l k cs =>
      refine ⟨l, k, cs, cs.modify i (modifyAt (fill fragment) r), ?_, ?_⟩
      · rw [find_eq, hd]
        rfl
      · rw [find_eq, at?_modifyAt_above, hd]
        rfl
  elsewhere q hpq hqp := by rw [find_eq, find_eq, at?_modifyAt_apart hpq hqp]
  present := deferredCount_le_of_at? hc
  count := by
    have hcount := deferredCount_modifyAt (fill fragment) hc
    have hpresent := deferredCount_le_of_at? hc
    simp only [fill, deferredCount, deferredCountAll_eq] at hcount hpresent
    omega

/-- Putting a fragment in place. At the path of a deferred node it succeeds: the node becomes inline with the fragment
for its children, what is below the path is that of the fragment, the nodes above keep their labels and links, and
every other path leads where it led, if anywhere. One deferred node is gone and those of the fragment have come, and
fragments that are put in place at two paths may be put there in either order. Where the node is not deferred, or none
is there, it fails with the path that was asked for, and there is nothing to change. -/
theorem materialize_effect (n : Node) (p : TreePath) (fragment : List Node) :
    match n.at? p with
    | none => n.materialize p fragment = .error (.missing p) ∧ n.modifyAt (fill fragment) p = n
    | some (.leaf _ _) | some (.inline _ _ _) =>
      n.materialize p fragment = .error (.notDeferred p) ∧ n.modifyAt (fill fragment) p = n
    | some (.deferred label link _) =>
      ∃ n', n.materialize p fragment = .ok n' ∧ n.Filled p label link fragment n' ∧
        ∀ q l k h other, q ≠ p → n.at? q = some (.deferred l k h) →
          ∃ n₁ n₂, n'.materialize q other = .ok n₂ ∧ n.materialize q other = .ok n₁ ∧
            n₁.materialize p fragment = .ok n₂ := by
  cases hc : n.at? p with
  | none => exact ⟨by simp only [materialize, hc], modifyAt_of_fixed (by simp [hc])⟩
  | some c =>
    cases c with
    | leaf l k => exact ⟨materialize_of_not_deferred hc rfl _, modifyAt_of_eq hc rfl⟩
    | inline l k cs => exact ⟨materialize_of_not_deferred hc rfl _, modifyAt_of_eq hc rfl⟩
    | deferred l k h =>
      refine ⟨_, materialize_of_deferred hc rfl fragment, filled_modifyAt hc fragment, ?_⟩
      intro q l' k' h' other hqp hq
      have hpq : ¬ p <+: q := fun hle => hqp (eq_of_prefix_of_deferred hc rfl hq hle).symm
      have hqp : ¬ q <+: p := fun hle => hqp (eq_of_prefix_of_deferred hq rfl hc hle)
      have hq' : (n.modifyAt (fill fragment) p).at? q = some (.deferred l' k' h') := by
        rw [at?_modifyAt_apart hpq hqp, hq]
      have hc' : (n.modifyAt (fill other) q).at? p = some (.deferred l k h) := by
        rw [at?_modifyAt_apart hqp hpq, hc]
      refine ⟨_, _, materialize_of_deferred hq' rfl other, materialize_of_deferred hq rfl other, ?_⟩
      rw [modifyAt_comm n hpq hqp]
      exact materialize_of_deferred hc' rfl fragment

end Node
end DocNav
