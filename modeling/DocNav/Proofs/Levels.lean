import DocNav.Cli.Run
import DocNav.Proofs.Rounds
/-!
# Loading down to a depth

Loading down to a depth goes through the hierarchy of the source, level by level, and stops at the depth. So it ends
also where fragments come back to themselves.

After each round, the tree has all levels of the hierarchy down to that of the round, and what was tried is what the
tree has opened or what cannot be loaded (`Loaded.Swept`). What a round does to the tree does not depend on what was
tried, and as many of its passes as there are levels open all that lies above the depth (`iterate_grown`).

Main result: `Outline.prints_the_hierarchy`.
-/

namespace DocNav

/-! ## The hierarchy below an unfolded node -/

section
variable {K : Fragments} {n m c : Node}

theorem Unfolds.childrenIn (h : Unfolds K n m) : UnfoldsAll K (n.childrenIn K) (m.childrenIn K) := by
  cases h with
  | leaf l k => exact .nil
  | inline l k hcs => exact hcs
  | deferred l k h => exact .refl K _
  | filled l k hK hcs =>
    simp only [Node.childrenIn, hK, Option.getD_some]
    exact hcs

/-- What an unfolded tree does not have, it has in the hierarchy as the first tree has it there. -/
theorem Unfolds.atIn?_of_at?_none (h : Unfolds K n m) {p : TreePath} (hnone : m.at? p = none)
    (hc : m.atIn? K p = some c) : n.atIn? K p = some c := by
  induction p generalizing n m with
  | nil => cases hnone
  | cons i p ih =>
    cases hd : m.isDeferred with
    | true =>
      rw [← h.eq_of_deferred hd]
      exact hc
    | false =>
      rw [Node.atIn?_cons] at hc
      obtain ⟨f, hf, hfc⟩ := Option.bind_eq_some_iff.1 hc
      obtain ⟨e, he, hef⟩ := h.childrenIn.getElem?_back hf
      have hchild : m.child? i = some f := by
        cases m with
        | deferred l k h => cases hd
        | _ => exact hf
      rw [Node.at?_cons, hchild] at hnone
      rw [Node.atIn?_cons, he]
      exact ih hef hnone hfc

end

namespace Node

theorem atIn?_snoc {K : Fragments} {n c : Node} {p : TreePath} {i : Nat} :
    n.atIn? K (p ++ [i]) = some c ↔ ∃ m, n.atIn? K p = some m ∧ (m.childrenIn K)[i]? = some c := by
  induction p generalizing n with
  | nil =>
    rw [List.nil_append, atIn?_cons]
    cases h : (n.childrenIn K)[i]? <;> simp [atIn?, h]
  | cons j p ih =>
    rw [List.cons_append, atIn?_cons, atIn?_cons]
    cases (n.childrenIn K)[j]? with
    | none => simp
    | some e => exact ih

/-- The tree with every node above the depth opened, from the root down. -/
def unfoldTo (K : Fragments) : (depth : Nat) → Node → Node
  | 0, n => n
  | depth + 1, n =>
    match n.opened K with
    | inline l k cs => inline l k (cs.map (unfoldTo K depth))
    | m => m

end Node

namespace Outline

variable {K : Fragments} {depth : Option Nat} {d level : Nat}

/-! ## Paths in a round -/

theorem linesAll_eq (depth : Option Nat) (level : Nat) (cs : List Node) :
    linesAll depth level cs = cs.flatMap (lines depth level) := by
  induction cs with
  | nil => rfl
  | cons c cs ih => rw [linesAll, ih, List.flatMap_cons]

theorem grownAll_eq (K : Fragments) (depth : Option Nat) (level : Nat) (cs : List Node) :
    grownAll K depth level cs = cs.map (grown K depth level) := by
  induction cs with
  | nil => rfl
  | cons c cs ih => rw [grownAll, ih, List.map_cons]

mutual
theorem deferredPaths_nodup (depth : Option Nat) (path : TreePath) : (n : Node) → (deferredPaths depth path n).Nodup
  | .leaf l k => List.nodup_nil
  | .deferred l k h => by
    rw [deferredPaths]
    split
    · exact List.nodup_singleton path
    · exact List.nodup_nil
  | .inline l k cs => by
    rw [deferredPaths]
    split
    · exact deferredPathsAll_nodup depth path 0 cs
    · exact List.nodup_nil

theorem deferredPathsAll_nodup (depth : Option Nat) (path : TreePath) (index : Nat) :
    (cs : List Node) → (deferredPathsAll depth path index cs).Nodup
  | [] => List.nodup_nil
  | c :: cs => by
    rw [deferredPathsAll]
    refine List.nodup_append.2 ⟨deferredPaths_nodup depth _ c, deferredPathsAll_nodup depth path _ cs, ?_⟩
    rintro p hp _ hq rfl
    -- The paths below one child begin with its index.
    obtain ⟨-, q, m, hpath, -⟩ := (mem_deferredPaths c).1 hp
    obtain ⟨-, i, r, -, -, hpath', -⟩ := (mem_deferredPathsAll cs).1 hq
    rw [hpath, List.append_assoc, List.append_cancel_left_eq, List.singleton_append, List.cons.injEq] at hpath'
    omega
end

/-- A deferred node that the outline opens is opened. -/
theorem at?_grown_of_deferred {n c : Node} {p : TreePath} (hc : n.at? p = some c) (hd : c.isDeferred = true)
    (hopens : opens depth (level + p.length) = true) : (grown K depth level n).at? p = some (c.opened K) := by
  induction p generalizing n level with
  | nil =>
    cases hc
    cases c with
    | deferred l k h =>
      have hopens : opens depth level = true := hopens
      rw [grown, if_pos hopens]
      rfl
    | _ => cases hd
  | cons i p ih =>
    rw [Node.at?_cons] at hc
    obtain ⟨e, he, hec⟩ := Option.bind_eq_some_iff.1 hc
    obtain ⟨l, k, cs, rfl⟩ := Node.inline_of_child he
    have hei : cs[i]? = some e := he
    rw [grown, if_pos (opens_of_le (Nat.le_add_right _ _) hopens), grownAll_eq, Node.at?_cons]
    refine Option.bind_eq_some_iff.2 ⟨grown K depth (level + 1) e, ?_, ih hec ?_⟩
    · simp [Node.child?, Node.children, Node.inlineChildren?, hei]
    · rwa [Nat.add_assoc, Nat.add_comm 1]

/-- What a round adds to the tree is as the hierarchy has it. -/
theorem atIn?_of_at?_grown {n c : Node} {p : TreePath} (hnone : n.at? p = none)
    (hc : (grown K depth level n).at? p = some c) : n.atIn? K p = some c := by
  induction p generalizing n level with
  | nil => cases hnone
  | cons i p ih =>
    cases n with
    | leaf l k => cases hc
    | deferred l k h =>
      rw [grown] at hc
      split at hc
      · have hopened := Node.atIn?_of_at? (K := K) hc
        rwa [Node.atIn?_cons, ← Node.children_opened, Node.opened_opened, Node.children_opened,
          ← Node.atIn?_cons] at hopened
      · cases hc
    | inline l k cs =>
      rw [grown] at hc
      split at hc
      next =>
        rw [grownAll_eq, Node.at?_cons] at hc
        obtain ⟨e, he, hec⟩ := Option.bind_eq_some_iff.1 hc
        obtain ⟨f, hf, rfl⟩ : ∃ f, cs[i]? = some f ∧ grown K depth (level + 1) f = e := by
          simpa [Node.child?, Node.children, Node.inlineChildren?] using he
        have hfnone : f.at? p = none := by
          rw [Node.at?_cons, show (Node.inline l k cs).child? i = some f from hf] at hnone
          exact hnone
        rw [Node.atIn?_cons]
        exact Option.bind_eq_some_iff.2 ⟨f, hf, ih hfnone hec⟩
      next => rw [hc] at hnone; cases hnone

/-- The children of a node that is there come with it, or in this round. -/
theorem isSome_at?_grown {root T n : Node} {p : TreePath} {i : Nat} (hT : Unfolds K root T)
    (hp : (T.at? p).isSome = true) (hopens : opens depth p.length = true)
    (hn : root.atIn? K (p ++ [i]) = some n) : ((grown K depth 0 T).at? (p ++ [i])).isSome = true := by
  obtain ⟨m, hm, hmn⟩ := Node.atIn?_snoc.1 hn
  obtain ⟨c, hc⟩ := Option.isSome_iff_exists.1 hp
  obtain ⟨m', hm', hmc⟩ := hT.atIn? hc
  obtain rfl : m = m' := Option.some.inj (hm.symm.trans hm')
  cases hdef : c.isDeferred with
  | true =>
    obtain rfl := hmc.eq_of_deferred hdef
    have hopened : (grown K depth 0 T).at? p = some (c.opened K) :=
      at?_grown_of_deferred hc hdef (by rwa [Nat.zero_add])
    rw [Node.at?_append, hopened, Option.bind_some, Node.at?_cons, Node.child?, Node.children_opened, hmn]
    rfl
  | false =>
    obtain ⟨e, he, -⟩ := (hmc.children hdef).getElem? hmn
    refine (unfolds_grown K depth 0 T).isSome_at? ?_
    rw [Node.at?_append, hc, Option.bind_some, Node.at?_cons, Node.child?, he]
    rfl

/-! ## The tree after all rounds -/

theorem grown_zero (K : Fragments) (n : Node) : grown K (some 0) 0 n = n := by
  cases n <;> rfl

mutual
/-- A level less to go is a level deeper to stop. -/
theorem grown_succ (K : Fragments) (d level : Nat) : (n : Node) →
    grown K (some (d + 1)) (level + 1) n = grown K (some d) level n
  | .leaf l k => rfl
  | .deferred l k h => by simp [grown, opens]
  | .inline l k cs => by simp [grown, opens, grownAll_succ K d (level + 1) cs]

theorem grownAll_succ (K : Fragments) (d level : Nat) : (cs : List Node) →
    grownAll K (some (d + 1)) (level + 1) cs = grownAll K (some d) level cs
  | [] => rfl
  | c :: cs => by rw [grownAll, grownAll, grown_succ K d level c, grownAll_succ K d level cs]
end

theorem grown_inline (K : Fragments) (d : Nat) (l : String) (k : Option PageRef) (cs : List Node) :
    grown K (some (d + 1)) 0 (.inline l k cs) = .inline l k (cs.map (grown K (some d) 0)) := by
  rw [grown, if_pos (by simp [opens]), grownAll_succ, grownAll_eq]

theorem iterate_grown_inline (K : Fragments) (d rounds : Nat) (l : String) (k : Option PageRef) (cs : List Node) :
    (grown K (some (d + 1)) 0)^[rounds] (.inline l k cs) =
      .inline l k (cs.map (grown K (some d) 0)^[rounds]) := by
  induction rounds generalizing cs with
  | zero => simp
  | succ rounds ih =>
    rw [Function.iterate_succ_apply, grown_inline, ih, List.map_map, Function.iterate_succ]

/-- As many passes as there are levels open all that lies above the depth. -/
theorem iterate_grown {rounds : Nat} (hd : d ≤ rounds) (n : Node) :
    (grown K (some d) 0)^[rounds] n = n.unfoldTo K d := by
  induction d generalizing rounds n with
  | zero => exact Function.iterate_fixed (grown_zero K n) rounds
  | succ d ih =>
    have hchildren : ∀ {rounds}, d ≤ rounds → ∀ l k cs, (grown K (some (d + 1)) 0)^[rounds] (.inline l k cs) =
        .inline l k (cs.map (Node.unfoldTo K d)) := fun hd l k cs => by
      rw [iterate_grown_inline, List.map_congr_left fun c _ => ih hd c]
    cases n with
    | leaf l k => exact Function.iterate_fixed rfl rounds
    | inline l k cs => exact hchildren (by omega) l k cs
    | deferred l k h =>
      have hgrown : grown K (some (d + 1)) 0 (.deferred l k h) = (Node.deferred l k h).opened K := rfl
      cases hK : K h with
      | none =>
        have hopened : (Node.deferred l k h).opened K = .deferred l k h := by simp only [Node.opened, hK]
        rw [Function.iterate_fixed (hgrown.trans hopened), Node.unfoldTo, hopened]
      | some fragment =>
        have hopened : (Node.deferred l k h).opened K = .inline l (some k) fragment := by
          simp only [Node.opened, hK]
        obtain ⟨rest, rfl⟩ : ∃ rest, rounds = rest + 1 := ⟨rounds - 1, by omega⟩
        rw [Function.iterate_succ_apply, hgrown, hopened, hchildren (by omega), Node.unfoldTo, hopened]

/-! ## The outline of a hierarchy -/

/-- The nodes of the hierarchy from a path down to a depth, in document order, each with its path. Above the depth, a
deferred node has its handle's fragment in place if there is one. -/
def outlineTo (K : Fragments) : (depth : Nat) → TreePath → Node → List (TreePath × Node)
  | 0, p, n => [(p, n)]
  | depth + 1, p, n =>
    (p, n.opened K) :: ((n.childrenIn K).mapIdx fun i c => outlineTo K depth (p ++ [i]) c).flatten

theorem mem_outlineTo {p q : TreePath} {n m : Node} : (q, m) ∈ outlineTo K d p n ↔
    ∃ r c, q = p ++ r ∧ n.atIn? K r = some c ∧ r.length ≤ d ∧ m = if r.length < d then c.opened K else c := by
  induction d generalizing p n with
  | zero =>
    simp only [outlineTo, List.mem_singleton, Prod.mk.injEq]
    constructor
    · rintro ⟨rfl, rfl⟩
      exact ⟨[], m, (List.append_nil q).symm, rfl, le_rfl, rfl⟩
    · rintro ⟨r, c, rfl, hc, hr, rfl⟩
      obtain rfl := List.length_eq_zero_iff.1 (Nat.le_zero.1 hr)
      cases hc
      exact ⟨List.append_nil p, rfl⟩
  | succ d ih =>
    simp only [outlineTo, List.mem_cons, Prod.mk.injEq, List.mem_flatten, List.mem_mapIdx]
    constructor
    · rintro (⟨rfl, rfl⟩ | ⟨_, ⟨i, hi, rfl⟩, hmem⟩)
      · exact ⟨[], n, (List.append_nil q).symm, rfl, Nat.zero_le _, by simp⟩
      · obtain ⟨r, c, rfl, hc, hr, rfl⟩ := ih.1 hmem
        refine ⟨i :: r, c, by simp, ?_, by simpa using hr, by simp⟩
        rw [Node.atIn?_cons, List.getElem?_eq_getElem hi]
        exact hc
    · rintro ⟨r, c, rfl, hc, hr, rfl⟩
      cases r with
      | nil =>
        cases hc
        exact .inl ⟨List.append_nil p, by simp⟩
      | cons i r =>
        rw [Node.atIn?_cons] at hc
        obtain ⟨e, he, hec⟩ := Option.bind_eq_some_iff.1 hc
        obtain ⟨hi, rfl⟩ := List.getElem?_eq_some_iff.1 he
        refine .inr ⟨_, ⟨i, hi, rfl⟩, ih.2 ⟨r, c, by simp, hec, by simpa using hr, by simp⟩⟩

/-- The outline has the node at each path no longer than the depth. -/
theorem mem_outlineTo_nil {root : Node} : (p, n) ∈ outlineTo K d [] root ↔ p.length ≤ d ∧
    ∃ c, root.atIn? K p = some c ∧ n = if p.length < d then c.opened K else c := by
  simp [mem_outlineTo, and_left_comm]

/-- Above the depth, what the outline has as deferred is what stays deferred when it is opened. -/
theorem deferred_mem_outlineTo {root : Node} (hp : p.length < d) :
    (∃ label link h, (p, .deferred label link h) ∈ outlineTo K d [] root) ↔
      ∃ c, root.atIn? K p = some c ∧ (c.opened K).isDeferred = true := by
  constructor
  · rintro ⟨label, link, h, hmem⟩
    obtain ⟨-, c, hc, hn⟩ := mem_outlineTo_nil.1 hmem
    rw [if_pos hp] at hn
    exact ⟨c, hc, by rw [← hn]; rfl⟩
  · rintro ⟨c, hc, hdef⟩
    have hmem : (p, c.opened K) ∈ outlineTo K d [] root := mem_outlineTo_nil.2 ⟨hp.le, c, hc, by rw [if_pos hp]⟩
    cases hopened : c.opened K with
    | deferred label link h =>
      rw [hopened] at hmem
      exact ⟨label, link, h, hmem⟩
    | _ =>
      rw [hopened] at hdef
      cases hdef

/-- The outline is in document order: a node comes before what is below it, and before its later siblings. -/
theorem outlineTo_ascending (K : Fragments) (d : Nat) (p : TreePath) (n : Node) :
    (outlineTo K d p n).Pairwise fun x y => x.1 < y.1 := by
  induction d generalizing p n with
  | zero => exact List.pairwise_singleton _ _
  | succ d ih =>
    have hbelow : ∀ {i c} {x : TreePath × Node}, x ∈ outlineTo K d (p ++ [i]) c → ∃ r, x.1 = p ++ i :: r := by
      intro i c x hx
      obtain ⟨r, -, hr, -⟩ := mem_outlineTo.1 hx
      exact ⟨r, by rw [hr, List.append_assoc, List.singleton_append]⟩
    rw [outlineTo, List.pairwise_cons, List.pairwise_flatten]
    refine ⟨?_, ?_, ?_⟩
    · simp only [List.mem_flatten, List.mem_mapIdx]
      rintro x ⟨_, ⟨i, hi, rfl⟩, hx⟩
      obtain ⟨r, hr⟩ := hbelow hx
      simpa [hr] using List.append_left_lt (List.nil_lt_cons i r)
    · simp only [List.mem_mapIdx]
      rintro _ ⟨i, hi, rfl⟩
      exact ih _ _
    · rw [List.pairwise_iff_getElem]
      intro i j hi hj hij x hx y hy
      rw [List.getElem_mapIdx] at hx hy
      obtain ⟨r, hr⟩ := hbelow hx
      obtain ⟨s, hs⟩ := hbelow hy
      rw [hr, hs]
      exact List.append_left_lt (List.cons_lt_cons_iff.2 (.inl hij))

-- A fragment that has a deferred node of its own handle is opened once for each level above the depth.
example :
    let root : Node := .deferred "Files" ⟨"files.html"⟩ ⟨"files"⟩
    let files : Node := .inline "Files" (some ⟨"files.html"⟩) [root]
    outlineTo (fun _ => some [root]) 2 [] root = [([], files), ([0], files), ([0, 0], root)] := by rfl

/-- The lines of the tree that is opened down to the depth are those of the hierarchy's outline. -/
theorem lines_unfoldTo (n : Node) (p : TreePath) :
    lines (some (p.length + d)) p.length (n.unfoldTo K d) = (outlineTo K d p n).map fun x => line x.1.length x.2 := by
  induction d generalizing p n with
  | zero => cases n <;> simp [Node.unfoldTo, outlineTo, lines, opens]
  | succ d ih =>
    rw [Node.unfoldTo, outlineTo, ← Node.children_opened]
    cases n.opened K with
    | leaf l k => rfl
    | deferred l k h => rfl
    | inline l k cs =>
      have hopens : opens (some (p.length + (d + 1))) p.length = true := by simp [opens]
      have hchildren : (cs.map (Node.unfoldTo K d)).map (lines (some (p.length + (d + 1))) (p.length + 1)) =
          (cs.mapIdx fun i c => outlineTo K d (p ++ [i]) c).map (List.map fun x => line x.1.length x.2) := by
        refine List.ext_getElem (by simp) fun i hi _ => ?_
        have hi : i < cs.length := by simpa using hi
        have hlines := ih cs[i] (p ++ [i])
        rw [List.length_append, List.length_singleton, Nat.add_assoc, Nat.add_comm 1] at hlines
        simpa using hlines
      simp only [lines, if_pos hopens, linesAll_eq, List.flatMap, hchildren]
      rw [List.map_cons, List.map_flatten]
      rfl

/-! ## The text of a line -/

/-- A link in parentheses, behind a blank. -/
def spelledLink : Option PageRef → List Char
  | none => []
  | some link => " (".toList ++ link.text.toList ++ ")".toList

/-- The characters that stand for a node: two blanks for each level, its label, its link and, where its children are
deferred, their handle as `[+handle]`, behind a blank. -/
def spelled (level : Nat) : Node → List Char
  | .leaf label link | .inline label link _ => List.replicate (2 * level) ' ' ++ label.toList ++ spelledLink link
  | .deferred label link h =>
    List.replicate (2 * level) ' ' ++ label.toList ++ spelledLink (some link) ++
      (" [+".toList ++ h.key.toList ++ "]".toList)

theorem toList_pushn (s : String) (c : Char) (n : Nat) : (s.pushn c n).toList = s.toList ++ List.replicate n c := by
  rw [String.pushn_eq_repeat_push]
  induction n with
  | zero => simp [Nat.repeat]
  | succ n ih => rw [Nat.repeat, String.toList_push, ih, List.append_assoc, List.replicate_succ']

theorem toList_line (level : Nat) (n : Node) : (line level n).toList = spelled level n := by
  have hlink : ∀ k : Option PageRef, (k.elim "" fun k => " (" ++ k.text ++ ")").toList = spelledLink k := by
    intro k
    cases k with
    | none => rfl
    | some k => simp only [Option.elim_some, String.toList_append, spelledLink]
  simp only [line, String.toList_append, toList_pushn, hlink]
  cases n <;> simp [spelled, Node.label, Node.link, Node.handle?]

/-- What is printed of the tree that is opened down to the depth. -/
theorem spelled_lines_unfoldTo (K : Fragments) (d : Nat) (root : Node) :
    (lines (some d) 0 (root.unfoldTo K d)).map String.toList =
      (outlineTo K d [] root).map fun x => spelled x.1.length x.2 := by
  have hlines := @lines_unfoldTo K d root []
  rw [List.length_nil, Nat.zero_add] at hlines
  rw [hlines, List.map_map]
  exact List.map_congr_left fun x _ => toList_line _ _

/-! ## What is tried -/

section
variable {source : Handle → Answer} {root T : Node} {p : TreePath}

/-- Where the tree is deferred still, so is the hierarchy. -/
theorem deferred_of_mem (hT : Unfolds K root T) (hp : p ∈ deferredPaths depth [] T) :
    opens depth p.length = true ∧ ∃ n, root.atIn? K p = some n ∧ n.isDeferred = true ∧ T.at? p = some n := by
  obtain ⟨hopens, q, m, rfl, hm, hdef⟩ := (mem_deferredPaths T).1 hp
  obtain ⟨n, hn, hnm⟩ := hT.atIn? hm
  obtain rfl := hnm.eq_of_deferred hdef
  exact ⟨hopens, m, hn, hdef, hm⟩

/-- A node that stays deferred when it is opened is one that cannot be loaded. -/
theorem isDeferred_opened {n : Node} :
    (n.opened (.ofSource source)).isDeferred = true ↔ (n.loadError? source).isSome = true := by
  rw [Node.loadError?_isSome]
  cases n with
  | deferred l k h =>
    cases hK : Fragments.ofSource source h <;> simp [Node.opened, hK, Node.isDeferred, Node.handle?]
  | _ => simp [Node.opened, Node.isDeferred, Node.handle?]

end

namespace Loaded

variable {source : Handle → Answer} {root : Node} {x : Loaded} {ps : List TreePath} {rounds : Nat}

/-- The paths that are tried in so many rounds, in the order of trying. -/
def tried (source : Handle → Answer) (depth : Option Nat) (rounds : Nat) (x : Loaded) : List TreePath :=
  (List.range rounds).flatMap fun k => ((round source depth)^[k] x).pending depth

theorem tried_succ (source : Handle → Answer) (depth : Option Nat) (rounds : Nat) (x : Loaded) :
    x.tried source depth (rounds + 1) =
      x.tried source depth rounds ++ ((round source depth)^[rounds] x).pending depth := by
  rw [tried, List.range_succ, List.flatMap_append, List.flatMap_singleton]
  rfl

theorem tryAll_append (source : Handle → Answer) (x : Loaded) (ps qs : List TreePath) :
    x.tryAll (m := Id) source (ps ++ qs) = (x.tryAll (m := Id) source ps).tryAll (m := Id) source qs := by
  induction ps generalizing x with
  | nil => rfl
  | cons p ps ih =>
    rw [List.cons_append, tryAll_cons, tryAll_cons]
    split
    next => exact ih _
    next => exact ih _

/-- The rounds try these paths, one after the other. -/
theorem rounds_eq_tryAll (source : Handle → Answer) (depth : Option Nat) (rounds : Nat) (x : Loaded) :
    (round source depth)^[rounds] x = x.tryAll (m := Id) source (x.tried source depth rounds) := by
  induction rounds with
  | zero => rfl
  | succ rounds ih =>
    rw [Function.iterate_succ_apply', tried_succ, tryAll_append, ← ih]
    rfl

/-- Expanding on the answers of a source, where each path is written down. -/
def noting (source : Handle → Answer) (e : Engine) (p : TreePath) : StateM (List TreePath) (Engine × Ending) :=
  fun noted => (e.perform (m := Id) source (.expand p), noted ++ [p])

theorem expandAll_noting (source : Handle → Answer) (x : Loaded) (ps noted : List TreePath) :
    x.expandAll (noting source) ps noted = (x.tryAll (m := Id) source ps, noted ++ ps) := by
  induction ps generalizing x noted with
  | nil =>
    rw [List.append_nil]
    rfl
  | cons p ps ih =>
    rw [tryAll_cons, expandAll, List.append_cons]
    simp only [bind, StateT.bind, noting]
    generalize x.engine.perform (m := Id) source (.expand p) = result
    obtain ⟨engine, ending⟩ := result
    cases ending with
    | ok _ => exact ih { x with engine } (noted ++ [p])
    | error e => exact ih { engine, failed := x.failed ++ [(p, e)] } (noted ++ [p])

theorem tried_cons (source : Handle → Answer) (depth : Option Nat) (rounds : Nat) (x : Loaded) :
    x.tried source depth (rounds + 1) = x.pending depth ++ (x.round source depth).tried source depth rounds := by
  rw [tried, List.range_succ_eq_map, List.flatMap_cons, List.flatMap_map]
  rfl

/-- Where nothing is left to try, nothing is tried. -/
theorem tried_eq_nil (source : Handle → Answer) {depth : Option Nat} {x : Loaded} (h : x.pending depth = [])
    (rounds : Nat) : x.tried source depth rounds = [] := by
  have hround : x.round source depth = x := by
    rw [round, h]
    rfl
  induction rounds with
  | zero => rfl
  | succ rounds ih => rw [tried_cons, hround, h, ih, List.append_nil]

theorem tried_add (source : Handle → Answer) (depth : Option Nat) (rounds more : Nat) (x : Loaded) :
    x.tried source depth (rounds + more) =
      x.tried source depth rounds ++ ((round source depth)^[rounds] x).tried source depth more := by
  induction rounds generalizing x with
  | zero => rw [Nat.zero_add]; rfl
  | succ rounds ih =>
    rw [Nat.add_right_comm, tried_cons, tried_cons, ih, List.append_assoc]
    rfl

/-- What is written down are the paths that the rounds try. -/
theorem expandRounds_noting (source : Handle → Answer) (depth : Option Nat) (rounds : Nat) (x : Loaded)
    (noted : List TreePath) :
    expandRounds (noting source) depth rounds x noted =
      (load (m := Id) source depth rounds x, noted ++ x.tried source depth rounds) := by
  induction rounds generalizing x noted with
  | zero =>
    rw [show x.tried source depth 0 = [] from rfl, List.append_nil]
    rfl
  | succ rounds ih =>
    rw [expandRounds, load_succ]
    cases h : x.pending depth with
    | nil =>
      rw [tried_eq_nil source h, List.append_nil]
      rfl
    | cons p ps =>
      rw [tried_cons, h, ← List.append_assoc, round, h]
      simp only [bind, StateT.bind, expandAll_noting]
      exact ih _ _

/-- What holds after so many rounds, in which these paths were tried. -/
structure Swept (source : Handle → Answer) (root : Node) (d rounds : Nat) (x : Loaded) (ps : List TreePath) :
    Prop where
  kept : Kept source x
  tree : Unfolds (.ofSource source) root x.engine.tree
  /-- The tree has the levels down to that of the last round. -/
  there : ∀ p n, p.length ≤ rounds → p.length ≤ d → root.atIn? (.ofSource source) p = some n →
    (x.engine.tree.at? p).isSome = true
  /-- What was tried is opened, if it can be loaded. -/
  opened : ∀ p ∈ ps, p.length < d ∧ ∃ n c, root.atIn? (.ofSource source) p = some n ∧ n.isDeferred = true ∧
    x.engine.tree.at? p = some c ∧ Unfolds (.ofSource source) (n.opened (.ofSource source)) c
  /-- What is opened was tried. -/
  tried : ∀ p n c, p.length < d → root.atIn? (.ofSource source) p = some n → n.isDeferred = true →
    x.engine.tree.at? p = some c → c.isDeferred = false → p ∈ ps
  /-- Above the level of the last round, all was tried. -/
  all : ∀ p n, p.length < rounds → p.length < d → root.atIn? (.ofSource source) p = some n →
    n.isDeferred = true → p ∈ ps
  nodup : ps.Nodup
  failed : x.failed = ps.filterMap (failure? source x.engine.tree)

theorem swept_start (source : Handle → Answer) (data : NavData) (settings : Settings) (remembered : Option Bool)
    (d : Nat) : Swept source data.root d 0 { engine := .start data settings remembered } [] where
  kept := kept_start source rfl
  tree := .refl _ _
  there p n hp _ hn := by
    obtain rfl := List.length_eq_zero_iff.1 (Nat.le_zero.1 hp)
    rfl
  opened p hp := by cases hp
  tried p n c _ hn hdef hc hopen := by
    obtain rfl : c = n := Option.some.inj ((Node.atIn?_of_at? hc).symm.trans hn)
    rw [hdef] at hopen
    cases hopen
  all p n hp := absurd hp (Nat.not_lt_zero _)
  nodup := List.nodup_nil
  failed := rfl

/-- What was tried has failed as the hierarchy says. -/
theorem Swept.failure?_eq (hx : Swept source root d rounds x ps) (hp : p ∈ ps) {n : Node}
    (hn : root.atIn? (.ofSource source) p = some n) :
    failure? source x.engine.tree p = (n.loadError? source).map fun e => (p, .load e) := by
  obtain ⟨-, n', c, hn', -, hc, hnc⟩ := hx.opened p hp
  obtain rfl : n = n' := Option.some.inj (hn.symm.trans hn')
  rw [failure?, hc, Option.bind_some, ((Unfolds.opened _ n).trans hnc).loadError?_eq]

/-- What was tried and is deferred still has failed. -/
theorem Swept.failed_of_mem (hx : Swept source root d rounds x ps) (hp : p ∈ ps) {c : Node}
    (hc : x.engine.tree.at? p = some c) (hdef : c.isDeferred = true) : ∃ f ∈ x.failed, f.1 = p := by
  obtain ⟨-, n, c', hn, -, hc', hnc⟩ := hx.opened p hp
  obtain rfl : c = c' := Option.some.inj (hc.symm.trans hc')
  obtain rfl := hnc.eq_of_deferred hdef
  obtain ⟨e, he⟩ := Option.isSome_iff_exists.1 (isDeferred_opened.1 hdef)
  refine ⟨(p, .load e), ?_, rfl⟩
  rw [hx.failed]
  exact List.mem_filterMap.2 ⟨p, hp, by rw [hx.failure?_eq hp hn, he]; rfl⟩

/-- What the next round tries was not tried before. -/
theorem Swept.not_mem (hx : Swept source root d rounds x ps) (hp : p ∈ x.pending (some d)) : p ∉ ps := by
  intro hmem
  obtain ⟨hdeferred, hnot⟩ := mem_pending.1 hp
  obtain ⟨-, n, -, hdef, hn⟩ := deferred_of_mem hx.tree hdeferred
  obtain ⟨f, hf, hfp⟩ := hx.failed_of_mem hmem hn hdef
  exact hnot f hf hfp

/-- A deferred node above the depth was tried, or the next round tries it. -/
theorem Swept.mem_or (hx : Swept source root d rounds x ps) {n : Node} (hp : p.length < d)
    (hn : x.engine.tree.at? p = some n) (hdef : n.isDeferred = true) : p ∈ ps ++ x.pending (some d) := by
  by_cases hfailed : ∃ f ∈ x.failed, f.1 = p
  · obtain ⟨f, hf, rfl⟩ := hfailed
    rw [hx.failed] at hf
    obtain ⟨q, hq, hfq⟩ := List.mem_filterMap.1 hf
    obtain ⟨e, -, rfl⟩ := Option.map_eq_some_iff.1 hfq
    exact List.mem_append_left _ hq
  · refine List.mem_append_right _ (mem_pending.2 ⟨?_, fun f hf hfp => hfailed ⟨f, hf, hfp⟩⟩)
    exact (mem_deferredPaths _).2 ⟨by simpa [opens] using hp, p, n, rfl, hn, hdef⟩

/-- What the hierarchy has deferred above the depth was tried, or the next round tries it, if it is there. -/
theorem Swept.mem_or_of_atIn? (hx : Swept source root d rounds x ps) {n c : Node} (hp : p.length < d)
    (hn : root.atIn? (.ofSource source) p = some n) (hdef : n.isDeferred = true) (hc : x.engine.tree.at? p = some c) :
    p ∈ ps ++ x.pending (some d) := by
  cases hopen : c.isDeferred with
  | true => exact hx.mem_or hp hc hopen
  | false => exact List.mem_append_left _ (hx.tried p n c hp hn hdef hc hopen)

theorem Swept.isSome_at? (hx : Swept source root d rounds x ps) (hp : p ∈ ps ++ x.pending (some d)) :
    (x.engine.tree.at? p).isSome = true := by
  rcases List.mem_append.1 hp with hp | hp
  · obtain ⟨-, -, c, -, -, hc, -⟩ := hx.opened p hp
    rw [hc]
    rfl
  · exact isSome_of_mem_deferredPaths (mem_pending.1 hp).1

theorem swept_round (hx : Swept source root d rounds x ps) :
    Swept source root d (rounds + 1) (x.round source (some d)) (ps ++ x.pending (some d)) := by
  obtain ⟨hkept, htree, hfailed⟩ := round_kept hx.kept (some d)
  have hgrown : Unfolds (.ofSource source) x.engine.tree (x.round source (some d)).engine.tree := by
    rw [htree]
    exact unfolds_grown _ _ 0 _
  refine
    { kept := hkept, tree := hx.tree.trans hgrown, there := ?there, opened := ?opened, tried := ?tried, all := ?all,
      nodup := ?nodup, failed := ?failed }
  case there =>
    intro p n hp hpd hn
    rcases List.eq_nil_or_concat p with rfl | ⟨q, i, rfl⟩
    · rfl
    · rw [List.concat_eq_append] at hp hpd hn ⊢
      rw [List.length_append, List.length_singleton] at hp hpd
      obtain ⟨m, hm, -⟩ := Node.atIn?_snoc.1 hn
      rw [htree]
      exact isSome_at?_grown hx.tree (hx.there q m (by omega) (by omega) hm) (by simpa [opens] using hpd) hn
  case opened =>
    intro p hp
    rcases List.mem_append.1 hp with hp | hp
    · obtain ⟨hlt, n, c, hn, hdef, hc, hnc⟩ := hx.opened p hp
      obtain ⟨c', hc', hcc'⟩ := hgrown.at? hc
      exact ⟨hlt, n, c', hn, hdef, hc', hnc.trans hcc'⟩
    · obtain ⟨hopens, n, hn, hdef, hc⟩ := deferred_of_mem hx.tree (mem_pending.1 hp).1
      refine ⟨by simpa [opens] using hopens, n, _, hn, hdef, ?_, .refl _ _⟩
      rw [htree]
      exact at?_grown_of_deferred hc hdef (by rwa [Nat.zero_add])
  case tried =>
    intro p n c hp hn hdef hc hopen
    cases hold : x.engine.tree.at? p with
    | some c₀ => exact hx.mem_or_of_atIn? hp hn hdef hold
    | none =>
      -- What is new is as the hierarchy has it, and that is deferred.
      rw [htree] at hc
      have hnew := hx.tree.atIn?_of_at?_none hold (atIn?_of_at?_grown hold hc)
      obtain rfl : c = n := Option.some.inj (hnew.symm.trans hn)
      rw [hdef] at hopen
      cases hopen
  case all =>
    intro p n hp hpd hn hdef
    obtain ⟨c, hc⟩ := Option.isSome_iff_exists.1 (hx.there p n (Nat.le_of_lt_succ hp) hpd.le hn)
    exact hx.mem_or_of_atIn? hpd hn hdef hc
  case nodup =>
    refine List.nodup_append.2 ⟨hx.nodup, (deferredPaths_nodup _ _ _).filter _, ?_⟩
    rintro p hp _ hq rfl
    exact hx.not_mem hq hp
  case failed =>
    have hsame : (ps ++ x.pending (some d)).filterMap (failure? source (x.round source (some d)).engine.tree) =
        (ps ++ x.pending (some d)).filterMap (failure? source x.engine.tree) :=
      List.filterMap_congr fun p hp => Outline.failure?_eq hgrown (hx.isSome_at? hp)
    rw [hsame, List.filterMap_append, hfailed, hx.failed]

theorem swept_rounds (source : Handle → Answer) (data : NavData) (settings : Settings) (remembered : Option Bool)
    (d rounds : Nat) :
    let start : Loaded := { engine := .start data settings remembered }
    Swept source data.root d rounds ((round source (some d))^[rounds] start) (start.tried source (some d) rounds) := by
  intro start
  induction rounds with
  | zero => exact swept_start source data settings remembered d
  | succ rounds ih =>
    rw [Function.iterate_succ_apply', tried_succ]
    exact swept_round ih

/-- After as many rounds as there are levels, nothing is left to try. -/
theorem Swept.pending_eq_nil (hx : Swept source root d rounds x ps) (hd : d ≤ rounds) : x.pending (some d) = [] := by
  refine List.eq_nil_iff_forall_not_mem.2 fun p hp => hx.not_mem hp ?_
  obtain ⟨hopens, n, hn, hdef, -⟩ := deferred_of_mem hx.tree (mem_pending.1 hp).1
  have hlt : p.length < d := by simpa [opens] using hopens
  exact hx.all p n (by omega) hlt hn hdef

/-- By then, the deferred nodes above the depth have been tried. -/
theorem Swept.mem_iff (hx : Swept source root d rounds x ps) (hd : d ≤ rounds) :
    p ∈ ps ↔ p.length < d ∧ ∃ n, root.atIn? (.ofSource source) p = some n ∧ n.isDeferred = true := by
  constructor
  · intro hp
    obtain ⟨hlt, n, -, hn, hdef, -⟩ := hx.opened p hp
    exact ⟨hlt, n, hn, hdef⟩
  · rintro ⟨hlt, n, hn, hdef⟩
    exact hx.all p n (by omega) hlt hn hdef

/-- The warnings are those of the nodes above the depth that cannot be loaded. -/
theorem Swept.mem_failed_iff (hx : Swept source root d rounds x ps) (hd : d ≤ rounds) {err : ResolveError} :
    (p, err) ∈ x.failed ↔ p.length < d ∧ ∃ n e, root.atIn? (.ofSource source) p = some n ∧
      n.loadError? source = some e ∧ err = .load e := by
  rw [hx.failed, List.mem_filterMap]
  constructor
  · rintro ⟨q, hq, hf⟩
    obtain ⟨hlt, n, hn, -⟩ := (hx.mem_iff hd).1 hq
    rw [hx.failure?_eq hq hn] at hf
    obtain ⟨e, he, heq⟩ := Option.map_eq_some_iff.1 hf
    cases heq
    exact ⟨hlt, n, e, hn, he, rfl⟩
  · rintro ⟨hlt, n, e, hn, he, rfl⟩
    obtain ⟨h, hh, -⟩ := Node.loadError?_isSome.1 (Option.isSome_iff_exists.2 ⟨e, he⟩)
    have hp : p ∈ ps := (hx.mem_iff hd).2 ⟨hlt, n, hn, by simp [Node.isDeferred, hh]⟩
    refine ⟨p, hp, ?_⟩
    rw [hx.failure?_eq hp hn, he]
    rfl

/-- What was warned of is what stays deferred above the depth. -/
theorem Swept.exists_mem_failed_iff (hx : Swept source root d rounds x ps) (hd : d ≤ rounds) (hp : p.length < d) :
    (∃ err, (p, err) ∈ x.failed) ↔
      ∃ c, root.atIn? (.ofSource source) p = some c ∧ (c.opened (.ofSource source)).isDeferred = true := by
  constructor
  · rintro ⟨err, hf⟩
    obtain ⟨-, c, e, hc, he, -⟩ := (hx.mem_failed_iff hd).1 hf
    exact ⟨c, hc, isDeferred_opened.2 (Option.isSome_iff_exists.2 ⟨e, he⟩)⟩
  · rintro ⟨c, hc, hdef⟩
    obtain ⟨e, he⟩ := Option.isSome_iff_exists.1 (isDeferred_opened.1 hdef)
    exact ⟨.load e, (hx.mem_failed_iff hd).2 ⟨hp, c, e, hc, he, rfl⟩⟩

theorem Swept.failed_nodup (hx : Swept source root d rounds x ps) : (x.failed.map Prod.fst).Nodup := by
  have hpaths : (ps.filterMap (failure? source x.engine.tree)).map Prod.fst =
      ps.filter fun p => (failure? source x.engine.tree p).isSome := by
    rw [List.map_filterMap, ← List.filterMap_eq_filter]
    refine List.filterMap_congr fun p _ => ?_
    cases h : (x.engine.tree.at? p).bind fun n => n.loadError? source <;> simp [failure?, h, Option.guard]
  rw [hx.failed, hpaths]
  exact hx.nodup.filter _

end Loaded

/-- What is reported once nothing is left to try. -/
theorem reportTree_of_pending {source : Handle → Answer} {rounds : Nat} {e : Engine}
    (h : (Loaded.load (m := Id) source (some d) d { engine := e }).pending (some d) = []) :
    Cli.reportTree (m := Id) source rounds e (some d) true =
      let done := Loaded.load (m := Id) source (some d) d { engine := e }
      { out := lines (some d) 0 done.engine.tree
        err := done.failed.map fun f => "Skipping subtree: " ++ f.2.message } :=
  if_pos h

/-- Loading down to a depth, from a source that answers each handle in one way. It ends within as many rounds as there
are levels, and what it has expanded by then, as it is written down, is each deferred node of the hierarchy above the
depth, once. It warns once of each that cannot be loaded, with the reason. What is printed then is the outline of the
hierarchy down to the depth, with a line for each node that is spelled as its label, link and handle: in document order,
it has the node at each path no longer than the depth, and above the depth with its fragment in place if there is one.
So a node above the depth is printed as deferred exactly if it was warned of. -/
theorem prints_the_hierarchy (source : Handle → Answer) (data : NavData) (settings : Settings)
    (remembered : Option Bool) (d : Nat) :
    let K := Fragments.ofSource source
    let start : Loaded := { engine := .start data settings remembered }
    let done := Loaded.load (m := Id) source (some d) d start
    let tried := start.tried source (some d) d
    let outline := outlineTo K d [] data.root
    (done.pending (some d) = [] ∧ ∀ rounds, d ≤ rounds → Loaded.load (m := Id) source (some d) rounds start = done) ∧
    ((∀ rounds, d ≤ rounds →
        Loaded.expandRounds (Loaded.noting source) (some d) rounds start [] = (done, tried)) ∧
      done = start.tryAll (m := Id) source tried ∧ tried.Nodup ∧
      ∀ p, p ∈ tried ↔ p.length < d ∧ ∃ n, data.root.atIn? K p = some n ∧ n.isDeferred = true) ∧
    ((done.failed.map Prod.fst).Nodup ∧
      ∀ p err, (p, err) ∈ done.failed ↔ p.length < d ∧
        ∃ n e, data.root.atIn? K p = some n ∧ n.loadError? source = some e ∧ err = .load e) ∧
    (∀ rounds, ∃ report, Cli.reportTree (m := Id) source rounds start.engine (some d) true = report ∧
      report.exitCode = 0 ∧ report.out.map String.toList = outline.map (fun x => spelled x.1.length x.2) ∧
      report.err = done.failed.map fun f => "Skipping subtree: " ++ f.2.message) ∧
    (outline.Pairwise (fun x y => x.1 < y.1) ∧
      ∀ p n, (p, n) ∈ outline ↔ p.length ≤ d ∧
        ∃ c, data.root.atIn? K p = some c ∧ n = if p.length < d then c.opened K else c) ∧
    ∀ p, p.length < d →
      ((∃ label link h, (p, .deferred label link h) ∈ outline) ↔ ∃ err, (p, err) ∈ done.failed) := by
  intro K start done tried outline
  have hdone : done = (Loaded.round source (some d))^[d] start := Loaded.load_eq_iterate source (some d) d start
  have htried : done = start.tryAll (m := Id) source tried := by
    rw [hdone, Loaded.rounds_eq_tryAll]
  have hswept : Loaded.Swept source data.root d d done tried := by
    rw [hdone]
    exact Loaded.swept_rounds source data settings remembered d d
  have hpending : done.pending (some d) = [] := hswept.pending_eq_nil le_rfl
  have hload : ∀ rounds, d ≤ rounds → Loaded.load (m := Id) source (some d) rounds start = done :=
    fun rounds hle => Loaded.load_of_le hle hpending
  refine ⟨⟨hpending, hload⟩, ⟨?_, htried, hswept.nodup, fun p => hswept.mem_iff le_rfl⟩,
    ⟨hswept.failed_nodup, fun p err => hswept.mem_failed_iff le_rfl⟩, ?_,
    ⟨outlineTo_ascending K d [] data.root, fun p n => mem_outlineTo_nil⟩, ?_⟩
  · intro rounds hle
    obtain ⟨more, rfl⟩ := Nat.exists_eq_add_of_le hle
    have hmore : start.tried source (some d) (d + more) = tried := by
      rw [Loaded.tried_add, ← hdone, Loaded.tried_eq_nil source hpending, List.append_nil]
    rw [Loaded.expandRounds_noting, hload _ hle, hmore, List.nil_append]
  · intro rounds
    have htree : done.engine.tree = data.root.unfoldTo K d := by
      rw [hdone, Loaded.rounds_tree (Loaded.kept_start source rfl), iterate_grown le_rfl]
      rfl
    refine ⟨_, reportTree_of_pending hpending, rfl, ?_, rfl⟩
    change (lines (some d) 0 done.engine.tree).map String.toList = _
    rw [htree]
    exact spelled_lines_unfoldTo K d data.root
  · intro p hp
    rw [hswept.exists_mem_failed_iff le_rfl hp]
    exact deferred_mem_outlineTo hp

/-- Two levels below a fragment that has a deferred node of its own handle, beside a node that cannot be loaded. -/
theorem prints_a_loop_to_the_depth :
    let files : Node := .deferred "Files" ⟨"files.html"⟩ ⟨"files"⟩
    let broken : Node := .deferred "Broken" ⟨"broken.html"⟩ ⟨"broken"⟩
    let source : Handle → Answer := fun h =>
      if h = ⟨"files"⟩ then .ok [files, broken] else .error { kind := .notFound }
    (Cli.reportTree (m := Id) source 0 (.start { root := files } {} none) (some 2) true).out =
      ["Files (files.html)", "  Files (files.html)", "    Files (files.html) [+files]",
        "    Broken (broken.html) [+broken]", "  Broken (broken.html) [+broken]"] := by
  intro files broken source
  obtain ⟨-, -, -, hreport, -⟩ := prints_the_hierarchy source { root := files } {} none 2
  obtain ⟨report, hreport, -, hout, -⟩ := hreport 0
  rw [hreport]
  refine List.map_injective_iff.2 (fun _ _ h => String.toList_inj.1 h) (hout.trans ?_)
  rfl

end Outline
end DocNav
