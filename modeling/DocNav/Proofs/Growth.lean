import DocNav.Cli.Outline
import DocNav.Proofs.Opening
/-!
# Trees that grow round by round

The deferred nodes that an outline of a depth would open are the ones at `Outline.deferredPaths`. `Outline.grown`
opens them all in one pass over the tree.

Main results: `Outline.mem_deferredPaths`, and `Outline.openAll_deferredPaths`: opening the nodes at these paths one
after the other gives the grown tree.
-/

namespace DocNav

theorem Unfolds.opened (K : Fragments) (n : Node) : Unfolds K n (n.opened K) := by
  cases n with
  | leaf l k => exact .leaf l k
  | inline l k cs => exact .inline l k (.refl K cs)
  | deferred l k h =>
    simp only [Node.opened]
    cases hK : K h with
    | none => exact .deferred l k h
    | some fragment => exact .filled l k hK (.refl K fragment)

theorem Unfolds.openAt {K : Fragments} {n c : Node} {p : TreePath} (hc : n.at? p = some c) :
    Unfolds K n (n.openAt K p) := by
  have h := (Unfolds.refl K n).modifyAt (f := id) (g := Node.opened K) hc fun d hd _ => by
    rw [hc] at hd
    cases hd
    exact .opened K c
  rwa [Node.modifyAt_of_eq hc rfl] at h

namespace Node

variable {K : Fragments}

/-- The tree with the nodes at the paths opened, one after the other. -/
def openAll (K : Fragments) (ps : List TreePath) (n : Node) : Node := ps.foldl (fun t p => t.openAt K p) n

theorem openAll_append (K : Fragments) (ps qs : List TreePath) (n : Node) :
    n.openAll K (ps ++ qs) = (n.openAll K ps).openAll K qs := List.foldl_append

/-- Paths below one child change that child only. -/
theorem openAll_child (K : Fragments) (qs : List TreePath) (l : String) (k : Option PageRef)
    (before after : List Node) (c : Node) :
    (inline l k (before ++ c :: after)).openAll K (qs.map (before.length :: ·)) =
      inline l k (before ++ c.openAll K qs :: after) := by
  induction qs generalizing c with
  | nil => rfl
  | cons q qs ih =>
    have hq : (inline l k (before ++ c :: after)).openAt K (before.length :: q) =
        inline l k (before ++ c.openAt K q :: after) := by
      rw [openAt, modifyAt, List.modify_eq_take_cons_drop (by simp)]
      simp [openAt]
    rw [List.map_cons, openAll, List.foldl_cons, hq]
    exact ih (c.openAt K q)

end Node

namespace Outline

variable {depth : Option Nat}

theorem opens_of_le {level level' : Nat} (hle : level ≤ level') (h : opens depth level' = true) :
    opens depth level = true := by
  cases depth with
  | none => rfl
  | some d =>
    simp only [opens, Option.all_some, decide_eq_true_eq] at h ⊢
    omega

/-! ## The paths of a round -/

mutual
/-- The paths are those of the deferred nodes at the levels that the outline opens. -/
theorem mem_deferredPaths {p path : TreePath} : (n : Node) → p ∈ deferredPaths depth path n ↔
    opens depth p.length = true ∧ ∃ q m, p = path ++ q ∧ n.at? q = some m ∧ m.isDeferred = true
  | .leaf l k => by
    simp only [deferredPaths, List.not_mem_nil, false_iff, not_and, not_exists]
    rintro - q m - hm hdef
    cases q with
    | nil =>
      cases hm
      cases hdef
    | cons i q => cases hm
  | .deferred l k h => by
    constructor
    · intro hp
      simp only [deferredPaths] at hp
      split at hp
      next hopens =>
        obtain rfl := List.mem_singleton.1 hp
        exact ⟨hopens, [], _, (List.append_nil p).symm, rfl, rfl⟩
      next => cases hp
    · rintro ⟨hopens, q, m, rfl, hm, -⟩
      cases q with
      | nil => simpa [deferredPaths] using hopens
      | cons i q => cases hm
  | .inline l k cs => by
    have hall : p ∈ deferredPathsAll depth path 0 cs ↔ _ := mem_deferredPathsAll cs
    constructor
    · intro hp
      simp only [deferredPaths] at hp
      split at hp
      next =>
        obtain ⟨hopens, i, q, c, m, rfl, hc, hm, hdef⟩ := hall.1 hp
        refine ⟨hopens, i :: q, m, by rw [Nat.zero_add], ?_, hdef⟩
        rw [Node.at?_cons]
        exact Option.bind_eq_some_iff.2 ⟨c, hc, hm⟩
      next => cases hp
    · rintro ⟨hopens, q, m, rfl, hm, hdef⟩
      cases q with
      | nil =>
        cases hm
        cases hdef
      | cons i q =>
        rw [Node.at?_cons] at hm
        obtain ⟨c, hc, hm⟩ := Option.bind_eq_some_iff.1 hm
        have hpath : opens depth path.length = true := opens_of_le (by simp) hopens
        rw [deferredPaths, if_pos hpath]
        exact hall.2 ⟨hopens, i, q, c, m, by rw [Nat.zero_add], hc, hm, hdef⟩

theorem mem_deferredPathsAll {p path : TreePath} {index : Nat} : (cs : List Node) →
    (p ∈ deferredPathsAll depth path index cs ↔ opens depth p.length = true ∧
      ∃ i q c m, p = path ++ (index + i) :: q ∧ cs[i]? = some c ∧ c.at? q = some m ∧ m.isDeferred = true)
  | [] => by simp [deferredPathsAll]
  | c :: cs => by
    rw [deferredPathsAll, List.mem_append, mem_deferredPaths c, mem_deferredPathsAll cs]
    constructor
    · rintro (⟨hopens, q, m, rfl, hm, hdef⟩ | ⟨hopens, i, q, c', m, rfl, hc, hm, hdef⟩)
      · exact ⟨hopens, 0, q, c, m, by simp, rfl, hm, hdef⟩
      · exact ⟨hopens, i + 1, q, c', m, by rw [Nat.add_right_comm, Nat.add_assoc], hc, hm, hdef⟩
    · rintro ⟨hopens, i, q, c', m, rfl, hc, hm, hdef⟩
      cases i with
      | zero =>
        cases hc
        exact .inl ⟨hopens, q, m, by simp, hm, hdef⟩
      | succ i => exact .inr ⟨hopens, i, q, c', m, by rw [Nat.add_right_comm, Nat.add_assoc], hc, hm, hdef⟩
end

/-! ## The tree after a round -/

mutual
/-- The node with the deferred nodes that the outline opens, at its level and below, opened. -/
def grown (K : Fragments) (depth : Option Nat) (level : Nat) : Node → Node
  | .leaf l k => .leaf l k
  | .deferred l k h => if opens depth level then (Node.deferred l k h).opened K else .deferred l k h
  | .inline l k cs => .inline l k (if opens depth level then grownAll K depth (level + 1) cs else cs)

def grownAll (K : Fragments) (depth : Option Nat) (level : Nat) : List Node → List Node
  | [] => []
  | n :: ns => grown K depth level n :: grownAll K depth level ns
end

mutual
theorem unfolds_grown (K : Fragments) (depth : Option Nat) (level : Nat) : (n : Node) →
    Unfolds K n (grown K depth level n)
  | .leaf l k => .leaf l k
  | .deferred l k h => by
    rw [grown]
    split
    · exact .opened K _
    · exact .refl K _
  | .inline l k cs => by
    rw [grown]
    split
    · exact .inline l k (unfolds_grownAll K depth (level + 1) cs)
    · exact .refl K _

theorem unfolds_grownAll (K : Fragments) (depth : Option Nat) (level : Nat) : (cs : List Node) →
    UnfoldsAll K cs (grownAll K depth level cs)
  | [] => .nil
  | c :: cs => .cons (unfolds_grown K depth level c) (unfolds_grownAll K depth level cs)
end

mutual
theorem openAll_deferredPathsFrom (K : Fragments) (path : TreePath) : (n : Node) →
    ∃ qs, deferredPaths depth path n = qs.map (path ++ ·) ∧ n.openAll K qs = grown K depth path.length n
  | .leaf l k => ⟨[], rfl, rfl⟩
  | .deferred l k h => by
    rw [deferredPaths, grown]
    split
    · exact ⟨[[]], by simp, rfl⟩
    · exact ⟨[], rfl, rfl⟩
  | .inline l k cs => by
    rw [deferredPaths, grown]
    split
    · obtain ⟨qs, hqs, hgrown⟩ := openAll_deferredPathsAllFrom K path l k [] cs
      exact ⟨qs, hqs, hgrown⟩
    · exact ⟨[], rfl, rfl⟩

theorem openAll_deferredPathsAllFrom (K : Fragments) (path : TreePath) (l : String) (k : Option PageRef)
    (before : List Node) : (cs : List Node) →
    ∃ qs, deferredPathsAll depth path before.length cs = qs.map (path ++ ·) ∧
      (Node.inline l k (before ++ cs)).openAll K qs =
        .inline l k (before ++ grownAll K depth (path.length + 1) cs)
  | [] => ⟨[], rfl, rfl⟩
  | c :: cs => by
    obtain ⟨qs, hqs, hc⟩ := openAll_deferredPathsFrom K (path ++ [before.length]) c
    obtain ⟨rs, hrs, hcs⟩ :=
      openAll_deferredPathsAllFrom K path l k (before ++ [grown K depth (path.length + 1) c]) cs
    rw [List.length_append, List.length_singleton] at hrs hc
    refine ⟨qs.map (before.length :: ·) ++ rs, ?_, ?_⟩
    · rw [deferredPathsAll, hqs, hrs]
      simp [Function.comp_def]
    · rw [Node.openAll_append, Node.openAll_child, hc, ← List.singleton_append, ← List.append_assoc, hcs,
        List.append_assoc]
      rfl
end

/-- A round of loading, one node after the other, is one pass over the tree. -/
theorem openAll_deferredPaths (K : Fragments) (n : Node) :
    n.openAll K (deferredPaths depth [] n) = grown K depth 0 n := by
  obtain ⟨qs, hqs, hgrown⟩ : ∃ qs : List TreePath, deferredPaths depth [] n = qs.map ([] ++ ·) ∧ _ :=
    openAll_deferredPathsFrom K [] n
  rw [hqs]
  simpa using hgrown

end Outline
end DocNav
