import DocNav.Proofs.Unfolding
import DocNav.View
/-!
# Opening the way to a node

A deferred node is opened by putting its handle's fragment in place. `Node.openAbove` opens every node above a
path that is still deferred, and nothing else: it is what locating a node comes to for the tree, said by the
path alone.

Main statements: the nodes above the path show their children afterwards (`inline_above`), and every other node
is as it was or as its fragment holds it (`at?_openAbove`, `at?_openAbove_back`). Opening a node above the path
beforehand makes no difference (`openAbove_openAt`), nor is there anything to open once the tree has a node at the
path (`openAbove_of_at?`).
-/

namespace DocNav

theorem TreePath.mem_above {p q : TreePath} : q ∈ p.above ↔ ∃ i r, p = q ++ i :: r := by
  simp only [TreePath.above, List.mem_map, List.mem_range]
  constructor
  · rintro ⟨n, hn, rfl⟩
    refine ⟨p[n], p.drop (n + 1), ?_⟩
    rw [← List.drop_eq_getElem_cons hn, List.take_append_drop]
  · rintro ⟨i, r, rfl⟩
    exact ⟨q.length, by simp, by simp⟩

theorem TreePath.cons_mem_above {i j : Nat} {p q : TreePath} :
    j :: q ∈ TreePath.above (i :: p) ↔ j = i ∧ q ∈ p.above := by
  simp only [mem_above, List.cons_append, List.cons.injEq]
  constructor
  · rintro ⟨k, r, rfl, rfl⟩
    exact ⟨rfl, k, r, rfl⟩
  · rintro ⟨rfl, k, r, rfl⟩
    exact ⟨k, r, rfl, rfl⟩

/-- What lies above a path lies above the one that leads a level deeper. -/
theorem TreePath.mem_above_snoc {p q : TreePath} (i : Nat) : q ∈ TreePath.above (p ++ [i]) ↔ q ∈ p.above ∨ q = p := by
  simp only [mem_above]
  constructor
  · rintro ⟨j, r, h⟩
    rcases List.eq_nil_or_concat r with rfl | ⟨r, k, rfl⟩
    · exact .inr (List.append_inj_left' h rfl).symm
    · rw [List.concat_eq_append, ← List.cons_append, ← List.append_assoc] at h
      exact .inl ⟨j, r, List.append_inj_left' h rfl⟩
  · rintro (⟨j, r, rfl⟩ | rfl)
    · exact ⟨j, r ++ [i], by simp⟩
    · exact ⟨i, [], rfl⟩

namespace Node

/-- The node with its handle's fragment in place, if it is deferred and the fragment is known. -/
def opened (K : Fragments) : Node → Node
  | deferred l k h =>
    match K h with
    | some fragment => inline l (some k) fragment
    | none => deferred l k h
  | n => n

/-- The tree with the node at the path opened. -/
def openAt (K : Fragments) (p : TreePath) (n : Node) : Node := n.modifyAt (opened K) p

/-- The tree with every node above the path opened. -/
def openAbove (K : Fragments) : TreePath → Node → Node
  | [], n => n
  | i :: p, n => (n.opened K).modifyAt (openAbove K p) [i]

/-! ## Opening one node -/

section
variable {K : Fragments} {n : Node}

theorem opened_of_not_deferred (h : n.isDeferred = false) : n.opened K = n := by
  cases n with
  | deferred _ _ _ => cases h
  | _ => rfl

theorem opened_opened (K : Fragments) (n : Node) : (n.opened K).opened K = n.opened K := by
  cases n with
  | deferred l k h =>
    simp only [opened]
    cases hk : K h with
    | none => simp [hk]
    | some fragment => rfl
  | _ => rfl

/-- An opened node has the children that the node has in the hierarchy. -/
theorem children_opened (K : Fragments) (n : Node) : (n.opened K).children = n.childrenIn K := by
  cases n with
  | deferred l k h =>
    simp only [opened, childrenIn]
    cases K h <;> rfl
  | _ => rfl

theorem childrenIn_of_child {i : Nat} {c : Node} (h : n.child? i = some c) : n.childrenIn K = n.children := by
  cases n with
  | deferred _ _ _ => cases h
  | _ => rfl

/-- A node with a child is inline. -/
theorem inline_of_child {i : Nat} {c : Node} (h : n.child? i = some c) : ∃ l k cs, n = inline l k cs := by
  cases n with
  | inline l k cs => exact ⟨l, k, cs, rfl⟩
  | leaf _ _ => cases h
  | deferred _ _ _ => cases h

/-- A node that is neither a leaf nor deferred is inline. -/
theorem inline_of_open (hl : n.isLeaf = false) (hd : n.isDeferred = false) : ∃ l k cs, n = inline l k cs := by
  cases n with
  | inline l k cs => exact ⟨l, k, cs, rfl⟩
  | leaf _ _ => cases hl
  | deferred _ _ _ => cases hd

theorem openAt_of_not_deferred {p : TreePath} {c : Node} (hc : n.at? p = some c) (h : c.isDeferred = false) :
    n.openAt K p = n := modifyAt_of_eq hc (opened_of_not_deferred h)

theorem at?_openAt {p : TreePath} {c : Node} (hc : n.at? p = some c) :
    (n.openAt K p).at? p = some (c.opened K) := at?_modifyAt _ hc

end

/-! ## Opening the nodes above a path -/

section
variable {K : Fragments} {n : Node}

theorem modifyAt_singleton (n : Node) (f : Node → Node) (i j : Nat) (q : TreePath) :
    (n.modifyAt f [i]).at? (j :: q) = ((n.children.modify i f)[j]?).bind (·.at? q) := by
  rw [at?_cons]
  cases n with
  | inline l k cs => rfl
  | leaf _ _ | deferred _ _ _ => simp [modifyAt, child?, children, inlineChildren?]

theorem at?_openAbove_cons (K : Fragments) (n : Node) (i j : Nat) (p q : TreePath) :
    (n.openAbove K (i :: p)).at? (j :: q) = (((n.childrenIn K).modify i (openAbove K p))[j]?).bind (·.at? q) := by
  rw [openAbove, modifyAt_singleton, children_opened]

/-- A tree that has a node at the path has nothing to open above it. -/
theorem openAbove_of_at? {p : TreePath} {c : Node} (h : n.at? p = some c) : n.openAbove K p = n := by
  induction p generalizing n with
  | nil => rfl
  | cons i p ih =>
    rw [at?_cons] at h
    obtain ⟨d, hd, hp⟩ := Option.bind_eq_some_iff.1 h
    have hi : n.at? [i] = some d := by
      rw [at?_cons, hd]
      rfl
    obtain ⟨l, k, cs, rfl⟩ := inline_of_child hd
    exact modifyAt_of_eq hi (ih hp)

/-- A node above the path may be opened beforehand. -/
theorem openAbove_openAt {p q : TreePath} (h : q ∈ p.above) : (n.openAt K q).openAbove K p = n.openAbove K p := by
  induction q generalizing n p with
  | nil =>
    cases p with
    | nil => simp [TreePath.above] at h
    | cons i p =>
      change openAbove K (i :: p) (n.opened K) = _
      rw [openAbove, openAbove, opened_opened]
  | cons j q ih =>
    cases p with
    | nil => simp [TreePath.above] at h
    | cons i p =>
      obtain ⟨rfl, hq⟩ := TreePath.cons_mem_above.1 h
      cases n with
      | leaf _ _ => rfl
      | deferred _ _ _ => rfl
      | inline l k cs =>
        -- The child on the way is opened below and then opened above: by induction the first is lost.
        have hboth : openAbove K p ∘ modifyAt (opened K) q = openAbove K p := funext fun c => ih hq
        simp only [openAt, openAbove, opened, modifyAt, List.modify_modify_eq]
        exact congrArg (fun f => inline l k (cs.modify j f)) hboth

/-- The nodes on the way to a node of a tree are inline. -/
theorem inline_above {p q : TreePath} {c : Node} (h : n.at? p = some c) (hq : q ∈ p.above) :
    ∃ l k cs, n.at? q = some (inline l k cs) := by
  obtain ⟨i, r, rfl⟩ := TreePath.mem_above.1 hq
  rw [at?_append] at h
  obtain ⟨d, hd, hr⟩ := Option.bind_eq_some_iff.1 h
  rw [at?_cons] at hr
  obtain ⟨e, he, -⟩ := Option.bind_eq_some_iff.1 hr
  obtain ⟨l, k, cs, rfl⟩ := inline_of_child he
  exact ⟨l, k, cs, hd⟩

/-- The hierarchy holds every node of the tree as it is. -/
theorem atIn?_of_at? {p : TreePath} {c : Node} (h : n.at? p = some c) : n.atIn? K p = some c := by
  induction p generalizing n with
  | nil => exact h
  | cons i p ih =>
    rw [at?_cons] at h
    obtain ⟨d, hd, hp⟩ := Option.bind_eq_some_iff.1 h
    rw [atIn?_cons, childrenIn_of_child hd]
    exact Option.bind_eq_some_iff.2 ⟨d, hd, ih hp⟩

/-- A node that is not above the path stays as it is, with all that is below it. -/
theorem at?_openAbove {p q : TreePath} {c : Node} (hq : q ∉ p.above) (h : n.at? q = some c) :
    (n.openAbove K p).at? q = some c := by
  induction p generalizing n q with
  | nil => exact h
  | cons i p ih =>
    cases q with
    | nil => exact absurd (TreePath.mem_above.2 ⟨i, p, rfl⟩) hq
    | cons j q =>
      rw [at?_cons] at h
      obtain ⟨d, hd, hj⟩ := Option.bind_eq_some_iff.1 h
      have hd' : n.children[j]? = some d := hd
      rw [at?_openAbove_cons, childrenIn_of_child hd, List.getElem?_modify, hd']
      by_cases hij : i = j
      · subst hij
        have hq' : q ∉ TreePath.above p := fun h' => hq (TreePath.cons_mem_above.2 ⟨rfl, h'⟩)
        simpa using ih hq' hj
      · simpa [hij] using hj

-- The node at the path stays deferred, and so does the one beside its way.
example :
    openAbove (fun h => some [.deferred h.key ⟨"a.html"⟩ ⟨"a"⟩]) [0, 0]
        (.inline "Main" none [.deferred "Files" ⟨"files.html"⟩ ⟨"files"⟩, .deferred "Pages" ⟨"pages.html"⟩ ⟨"pages"⟩]) =
      .inline "Main" none
        [.inline "Files" (some ⟨"files.html"⟩) [.deferred "files" ⟨"a.html"⟩ ⟨"a"⟩],
          .deferred "Pages" ⟨"pages.html"⟩ ⟨"pages"⟩] := by rfl

/-- A node of the opened tree that is not above the path is as it was, or as its fragment holds it. -/
theorem at?_openAbove_back {p q : TreePath} {c : Node} (hq : q ∉ p.above) (h : (n.openAbove K p).at? q = some c) :
    n.atIn? K q = some c := by
  induction p generalizing n q with
  | nil => exact atIn?_of_at? h
  | cons i p ih =>
    cases q with
    | nil => exact absurd (TreePath.mem_above.2 ⟨i, p, rfl⟩) hq
    | cons j q =>
      rw [at?_openAbove_cons, List.getElem?_modify] at h
      obtain ⟨d, hd, hj⟩ := Option.bind_eq_some_iff.1 h
      obtain ⟨e, he, rfl⟩ := Option.map_eq_some_iff.1 hd
      rw [atIn?_cons, he]
      by_cases hij : i = j
      · subst hij
        have hq' : q ∉ TreePath.above p := fun h' => hq (TreePath.cons_mem_above.2 ⟨rfl, h'⟩)
        exact ih hq' (by simpa using hj)
      · exact atIn?_of_at? (by simpa [hij] using hj)

end

end Node
end DocNav
