import DocNav.Plan
import DocNav.Proofs.Paths
import Mathlib
/-!
# Trees that unfold from a root

A root together with the fragments that are known stands for one hierarchy: the children of a deferred node
are its handle's fragment. `Node.atIn?` looks up a path there. A tree `Unfolds` from a root when it is the
root with some deferred nodes, recursively, replaced by inline nodes that hold their handle's fragment.

Main statements: unfolding is a preorder (`Unfolds.refl`, `Unfolds.trans`), a path of a tree leads to the same
node in every tree unfolded from it (`Unfolds.at?`) and in the hierarchy (`Unfolds.atIn?`), and putting a
fragment in place unfolds (`Unfolds.fill_self`, `Unfolds.modifyAt`).
-/

namespace DocNav

/-- The fragments known by their handles. -/
abbrev Fragments := Handle → Option (List Node)

/-- What one knows of fragments, the other knows too. -/
def Fragments.Sub (K K' : Fragments) : Prop := ∀ h fragment, K h = some fragment → K' h = some fragment

mutual
/-- The second node is the first with some deferred nodes, recursively, replaced by inline nodes of the same
label and link that hold their handle's fragment. -/
inductive Unfolds (K : Fragments) : Node → Node → Prop
  | leaf (l : String) (k : Option PageRef) : Unfolds K (.leaf l k) (.leaf l k)
  | inline (l : String) (k : Option PageRef) {cs ds : List Node} :
      UnfoldsAll K cs ds → Unfolds K (.inline l k cs) (.inline l k ds)
  | deferred (l : String) (k : PageRef) (h : Handle) : Unfolds K (.deferred l k h) (.deferred l k h)
  | filled (l : String) (k : PageRef) {h : Handle} {fragment ds : List Node} :
      K h = some fragment → UnfoldsAll K fragment ds → Unfolds K (.deferred l k h) (.inline l (some k) ds)

/-- Node by node. -/
inductive UnfoldsAll (K : Fragments) : List Node → List Node → Prop
  | nil : UnfoldsAll K [] []
  | cons {c d : Node} {cs ds : List Node} :
      Unfolds K c d → UnfoldsAll K cs ds → UnfoldsAll K (c :: cs) (d :: ds)
end

namespace Node

/-- The children of a node in the hierarchy. -/
def childrenIn (K : Fragments) : Node → List Node
  | leaf _ _ => []
  | inline _ _ cs => cs
  | deferred _ _ h => (K h).getD []

/-- The node that a path leads to in the hierarchy. -/
def atIn? (K : Fragments) (n : Node) : TreePath → Option Node
  | [] => some n
  | i :: p =>
    match (n.childrenIn K)[i]? with
    | none => none
    | some c => c.atIn? K p

/-! ## Looking up paths -/

theorem atIn?_cons (K : Fragments) (n : Node) (i : Nat) (p : TreePath) :
    n.atIn? K (i :: p) = ((n.childrenIn K)[i]?).bind (·.atIn? K p) := by
  rw [atIn?]
  cases (n.childrenIn K)[i]? <;> rfl

theorem atIn?_of_sub {K K' : Fragments} (hK : K.Sub K') {n m : Node} {p : TreePath} (h : n.atIn? K p = some m) :
    n.atIn? K' p = some m := by
  induction p generalizing n with
  | nil => exact h
  | cons i p ih =>
    rw [atIn?_cons] at h ⊢
    obtain ⟨c, hc, hp⟩ := Option.bind_eq_some_iff.1 h
    have hc' : (n.childrenIn K')[i]? = some c := by
      cases n with
      | leaf _ _ => exact hc
      | inline _ _ _ => exact hc
      | deferred l k h' =>
        simp only [childrenIn] at hc ⊢
        cases hh : K h' with
        | none => simp [hh] at hc
        | some fragment => rwa [hK h' fragment hh, ← hh]
    rw [hc']
    exact ih hp

/-! ## Deferred nodes -/

theorem isDeferred_eq_false {n : Node} : n.isDeferred = false ↔ n.handle? = none := by
  simp [isDeferred]

theorem fill_of_not_deferred {n : Node} (h : n.isDeferred = false) (fragment : List Node) :
    fill fragment n = n := by
  cases n with
  | deferred _ _ _ => cases h
  | _ => rfl

theorem isDeferred_fill (n : Node) (fragment : List Node) : (fill fragment n).isDeferred = false := by
  cases n <;> rfl

end Node

/-! ## Unfolding is a preorder -/

mutual
theorem Unfolds.refl (K : Fragments) : (n : Node) → Unfolds K n n
  | .leaf l k => .leaf l k
  | .inline l k cs => .inline l k (UnfoldsAll.refl K cs)
  | .deferred l k h => .deferred l k h

theorem UnfoldsAll.refl (K : Fragments) : (cs : List Node) → UnfoldsAll K cs cs
  | [] => .nil
  | c :: cs => .cons (Unfolds.refl K c) (UnfoldsAll.refl K cs)
end

mutual
theorem Unfolds.trans {K : Fragments} {a b c : Node} (hab : Unfolds K a b) (hbc : Unfolds K b c) :
    Unfolds K a c := by
  cases hab with
  | leaf _ _ | deferred _ _ _ => exact hbc
  | inline l k hs =>
    cases hbc with
    | inline _ _ ht => exact .inline l k (hs.trans ht)
  | filled l k hh hs =>
    cases hbc with
    | inline _ _ ht => exact .filled l k hh (hs.trans ht)

theorem UnfoldsAll.trans {K : Fragments} {as bs cs : List Node} (hab : UnfoldsAll K as bs)
    (hbc : UnfoldsAll K bs cs) : UnfoldsAll K as cs := by
  cases hab with
  | nil => exact hbc
  | cons h hs =>
    cases hbc with
    | cons h' hs' => exact .cons (h.trans h') (hs.trans hs')
end

mutual
theorem Unfolds.of_sub {K K' : Fragments} (hK : K.Sub K') {n m : Node} (h : Unfolds K n m) :
    Unfolds K' n m := by
  cases h with
  | leaf l k => exact .leaf l k
  | inline l k hs => exact .inline l k (hs.of_sub hK)
  | deferred l k h => exact .deferred l k h
  | filled l k hh hs => exact .filled l k (hK _ _ hh) (hs.of_sub hK)

theorem UnfoldsAll.of_sub {K K' : Fragments} (hK : K.Sub K') {cs ds : List Node} (h : UnfoldsAll K cs ds) :
    UnfoldsAll K' cs ds := by
  cases h with
  | nil => exact .nil
  | cons h hs => exact .cons (h.of_sub hK) (hs.of_sub hK)
end

/-! ## What a node has in common with one unfolded from it -/

variable {K : Fragments} {n m : Node}

theorem Unfolds.label_eq (h : Unfolds K n m) : m.label = n.label := by cases h <;> rfl

theorem Unfolds.link_eq (h : Unfolds K n m) : m.link = n.link := by cases h <;> rfl

/-- What unfolding leaves alone in a node it leaves alone in a list of nodes. -/
theorem UnfoldsAll.map_eq {α : Type} {f : Node → α} (hf : ∀ {c d : Node}, Unfolds K c d → f d = f c)
    {cs ds : List Node} (h : UnfoldsAll K cs ds) : ds.map f = cs.map f := by
  induction cs generalizing ds with
  | nil =>
    cases h
    rfl
  | cons c cs ih =>
    cases h with
    | cons hc hs => rw [List.map_cons, List.map_cons, hf hc, ih hs]

theorem UnfoldsAll.getElem? {cs ds : List Node} (h : UnfoldsAll K cs ds) {i : Nat} {c : Node}
    (hc : cs[i]? = some c) : ∃ d, ds[i]? = some d ∧ Unfolds K c d := by
  induction cs generalizing ds i with
  | nil => cases hc
  | cons _ cs ih =>
    cases h with
    | cons hcd hs =>
      cases i with
      | zero =>
        cases hc
        exact ⟨_, rfl, hcd⟩
      | succ i => exact ih hs hc

/-- Each node of the second list has its place in the first. -/
theorem UnfoldsAll.getElem?_back {cs ds : List Node} (h : UnfoldsAll K cs ds) {i : Nat} {d : Node}
    (hd : ds[i]? = some d) : ∃ c, cs[i]? = some c ∧ Unfolds K c d := by
  induction cs generalizing ds i with
  | nil =>
    cases h
    cases hd
  | cons _ cs ih =>
    cases h with
    | cons hcd hs =>
      cases i with
      | zero =>
        cases hd
        exact ⟨_, rfl, hcd⟩
      | succ i => exact ih hs hd

/-- A node that is still deferred is as it was. -/
theorem Unfolds.eq_of_deferred (h : Unfolds K n m) (hm : m.isDeferred = true) : m = n := by
  cases h with
  | deferred _ _ _ => rfl
  | _ => cases hm

theorem Unfolds.not_deferred (h : Unfolds K n m) (hn : n.isDeferred = false) : m.isDeferred = false := by
  cases h with
  | deferred _ _ _ => cases hn
  | _ => rfl

/-- A node that is not deferred shows its children in the hierarchy. -/
theorem Unfolds.children (h : Unfolds K n m) (hm : m.isDeferred = false) :
    UnfoldsAll K (n.childrenIn K) m.children := by
  cases h with
  | leaf _ _ => exact .nil
  | inline _ _ hs => exact hs
  | deferred _ _ _ => cases hm
  | filled l k hh hs =>
    simp only [Node.childrenIn, hh]
    exact hs

/-- A path of a tree leads to the same node in every tree unfolded from it. -/
theorem Unfolds.at? (h : Unfolds K n m) {p : TreePath} {c : Node} (hc : n.at? p = some c) :
    ∃ d, m.at? p = some d ∧ Unfolds K c d := by
  induction p generalizing n m with
  | nil =>
    cases hc
    exact ⟨m, rfl, h⟩
  | cons i p ih =>
    rw [Node.at?_cons] at hc
    obtain ⟨x, hx, hp⟩ := Option.bind_eq_some_iff.1 hc
    cases h with
    | leaf _ _ => cases hx
    | deferred _ _ _ => cases hx
    | filled _ _ _ _ => cases hx
    | @inline l k cs ds hs =>
      obtain ⟨y, hy, hxy⟩ := hs.getElem? (show cs[i]? = some x from hx)
      obtain ⟨d, hpd, hcd⟩ := ih hxy hp
      refine ⟨d, ?_, hcd⟩
      rw [Node.at?_cons]
      exact Option.bind_eq_some_iff.2 ⟨y, hy, hpd⟩

/-- A path of an unfolded tree leads to the same node in the hierarchy. -/
theorem Unfolds.atIn? (h : Unfolds K n m) {p : TreePath} {d : Node} (hd : m.at? p = some d) :
    ∃ c, n.atIn? K p = some c ∧ Unfolds K c d := by
  induction p generalizing n m with
  | nil =>
    cases hd
    exact ⟨n, rfl, h⟩
  | cons i p ih =>
    rw [Node.at?_cons] at hd
    obtain ⟨x, hx, hp⟩ := Option.bind_eq_some_iff.1 hd
    -- A node with a child is not deferred.
    have hm : m.isDeferred = false := by
      cases m with
      | deferred _ _ _ => cases hx
      | _ => rfl
    obtain ⟨y, hy, hyx⟩ := (h.children hm).getElem?_back hx
    obtain ⟨c, hpc, hcd⟩ := ih hyx hp
    refine ⟨c, ?_, hcd⟩
    rw [Node.atIn?_cons, hy]
    exact hpc

/-! ## Putting fragments in place unfolds -/

/-- A node that is no longer deferred got its handle's fragment. -/
theorem Unfolds.known (h : Unfolds K n m) (hm : m.isDeferred = false) {k : Handle} (hn : n.handle? = some k) :
    ∃ fragment, K k = some fragment := by
  cases h with
  | filled _ _ hh _ =>
    cases hn
    exact ⟨_, hh⟩
  | deferred _ _ _ => cases hm
  | _ => cases hn

/-- Putting its fragment in place unfolds a node, unless that was done before. -/
theorem Unfolds.fill_self (h : Unfolds K n m) {k : Handle} {fragment : List Node} (hn : n.handle? = some k)
    (hK : K k = some fragment) : Unfolds K m (m.fill fragment) := by
  cases hm : m.isDeferred with
  | false =>
    rw [Node.fill_of_not_deferred hm]
    exact .refl K m
  | true =>
    obtain rfl := h.eq_of_deferred hm
    cases m with
    | deferred l k' h' =>
      cases hn
      exact .filled l k' hK (.refl K fragment)
    | _ => cases hn

/-- It keeps up with a node unfolded further. -/
theorem Unfolds.fill_fill {m' : Node} (h : Unfolds K n m) (hm : Unfolds K m m') {k : Handle}
    {fragment : List Node} (hn : n.handle? = some k) (hK : K k = some fragment) :
    Unfolds K (m.fill fragment) (m'.fill fragment) := by
  cases hd : m.isDeferred with
  | false =>
    rw [Node.fill_of_not_deferred hd, Node.fill_of_not_deferred (hm.not_deferred hd)]
    exact hm
  | true =>
    obtain rfl := h.eq_of_deferred hd
    cases hm with
    | leaf _ _ => cases hn
    | inline _ _ _ => cases hn
    | deferred l k' h' => exact .inline l (some k') (.refl K fragment)
    | filled l k' hh hs =>
      cases hn
      rw [hK] at hh
      cases hh
      exact .inline l (some k') hs

theorem UnfoldsAll.modify {cs ds : List Node} (h : UnfoldsAll K cs ds) (i : Nat) {f g : Node → Node}
    (hfg : ∀ c d, cs[i]? = some c → ds[i]? = some d → Unfolds K c d → Unfolds K (f c) (g d)) :
    UnfoldsAll K (cs.modify i f) (ds.modify i g) := by
  induction cs generalizing ds i with
  | nil =>
    cases h
    simpa using UnfoldsAll.nil
  | cons c cs ih =>
    cases h with
    | cons hc hs =>
      cases i with
      | zero => exact .cons (hfg _ _ rfl rfl hc) hs
      | succ i => exact .cons hc (ih hs i fun x y hx hy => hfg x y hx hy)

/-- Changes that unfold the nodes at a path unfold the trees. -/
theorem Unfolds.modifyAt (h : Unfolds K n m) {p : TreePath} {c : Node} (hc : n.at? p = some c) {f g : Node → Node}
    (hfg : ∀ d, m.at? p = some d → Unfolds K c d → Unfolds K (f c) (g d)) :
    Unfolds K (n.modifyAt f p) (m.modifyAt g p) := by
  induction p generalizing n m with
  | nil =>
    cases hc
    exact hfg m rfl h
  | cons i p ih =>
    rw [Node.at?_cons] at hc
    obtain ⟨x, hx, hp⟩ := Option.bind_eq_some_iff.1 hc
    cases h with
    | leaf _ _ => cases hx
    | deferred _ _ _ => cases hx
    | filled _ _ _ _ => cases hx
    | @inline l k cs ds hs =>
      have hx' : cs[i]? = some x := hx
      refine .inline l k (hs.modify i fun y z hy hz hyz => ?_)
      rw [hx'] at hy
      cases hy
      refine ih hyz hp fun d hd => hfg d ?_
      rw [Node.at?_cons]
      exact Option.bind_eq_some_iff.2 ⟨z, hz, hd⟩

end DocNav
