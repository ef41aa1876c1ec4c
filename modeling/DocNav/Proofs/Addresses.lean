import DocNav.Proofs.Resolved
/-!
# Addressable nodes

A chain of links names at most one node of a tree as long as each of its links is followed to the first child that
has it. `Addresses` says which node that is, and the nodes that some chain names so are the addressable ones: the
root, and every node that has a link which no earlier sibling has and whose parent is inline and addressable. Paths
are ordered as their nodes are in the document, a node before those below it and children as their parent lists them.

The index of a tree has an entry for each link of an addressable node, the chain of the first that bears it
(`first_derived`). Main result: `derived_anchors_resolve`.
-/

namespace DocNav

/-- The links lead from a node along a path to a node in its tree, each to the first child that has it. -/
inductive Addresses : Node → Chain → TreePath → Node → Prop
  | here (n : Node) : Addresses n [] [] n
  | down {n c m : Node} {link : PageRef} {links : Chain} {i : Nat} {p : TreePath} :
      n.child? i = some c → c.link = some link → (∀ j < i, ∀ d, n.child? j = some d → d.link ≠ some link) →
      Addresses c links p m → Addresses n (link :: links) (i :: p) m

/-- The node at the path is addressable and links to the anchor. -/
def Node.Bears (root : Node) (anchor : PageRef) (p : TreePath) : Prop :=
  ∃ links n, Addresses root links p n ∧ n.link = some anchor

/-! ## Following the links of an addressable node -/

theorem Addresses.at? {n m : Node} {links : Chain} {p : TreePath} (h : Addresses n links p m) :
    n.at? p = some m := by
  induction h with
  | here n => rfl
  | down hc _ _ _ ih =>
    rw [Node.at?_cons, hc]
    exact ih

/-- Of the siblings, the node at the index is the first with this link. -/
def FirstToLink (siblings : List Node) (link : PageRef) (i : Nat) (c : Node) : Prop :=
  siblings[i]? = some c ∧ c.link = some link ∧ ∀ j < i, ∀ s, siblings[j]? = some s → s.link ≠ some link

theorem firstToLink_iff {siblings : List Node} {link : PageRef} {i : Nat} {c : Node} :
    FirstToLink siblings link i c ↔
      siblings.findIdx? (·.link = some link) = some i ∧ siblings[i]? = some c := by
  rw [List.findIdx?_eq_some_iff_getElem]
  constructor
  · rintro ⟨hc, hlink, hfirst⟩
    obtain ⟨hi, rfl⟩ := List.getElem?_eq_some_iff.1 hc
    refine ⟨⟨hi, by simpa using hlink, fun j hj => ?_⟩, hc⟩
    simpa using hfirst j hj siblings[j] (List.getElem?_eq_getElem (by omega))
  · rintro ⟨⟨hi, hlink, hfirst⟩, hc⟩
    obtain rfl : siblings[i] = c := by simpa [List.getElem?_eq_getElem hi] using hc
    refine ⟨hc, by simpa using hlink, fun j hj s hs => ?_⟩
    obtain ⟨hj', rfl⟩ := List.getElem?_eq_some_iff.1 hs
    simpa using hfirst j hj

/-- Where a child is the first with its link, the link leads to it. -/
theorem FirstToLink.childIndex?_eq {cs : List Node} {i : Nat} {c : Node} {link : PageRef}
    (h : FirstToLink cs link i c) : childIndex? cs link = some i := by
  simp [childIndex?, (firstToLink_iff.1 h).1]

theorem Addresses.follows {n m : Node} {links : Chain} {p : TreePath} (h : Addresses n links p m) (K : Fragments) :
    Follows K n links p m := by
  induction h with
  | here n => exact .here n
  | down hc hlink hfirst _ ih =>
    have hcs := Node.childrenIn_of_child (K := K) hc
    exact .down (hcs ▸ FirstToLink.childIndex?_eq ⟨hc, hlink, hfirst⟩) (hcs ▸ hc) ih

/-! ## Document order -/

/-- The path below the next sibling. -/
def TreePath.next : TreePath → TreePath
  | [] => []
  | i :: p => (i + 1) :: p

theorem TreePath.next_le {p q : TreePath} (h : p ≤ q) : p.next ≤ q.next := by
  cases p with
  | nil => exact TreePath.nil_le _
  | cons i p =>
    cases q with
    | nil => exact absurd (List.nil_lt_cons i p) (not_lt.2 h)
    | cons j q =>
      rw [next, next, TreePath.cons_le_cons]
      exact (TreePath.cons_le_cons.1 h).imp Nat.succ_lt_succ (And.imp_left (congrArg Nat.succ))

/-! ## The first of the nodes with a property -/

/-- The chain that was found belongs to the first path that has one. -/
def First (found : Option Chain) (P : TreePath → Chain → Prop) : Prop :=
  match found with
  | none => ∀ p c, ¬ P p c
  | some c => ∃ p, P p c ∧ ∀ q d, P q d → p ≤ q

section
variable {f g : Option Chain} {P Q : TreePath → Chain → Prop}

theorem First.congr (h : First f P) (hPQ : ∀ p c, P p c ↔ Q p c) : First f Q := by
  obtain rfl : P = Q := by
    funext p c
    exact propext (hPQ p c)
  exact h

theorem First.or (hf : First f P) (hg : First g Q) (hPQ : ∀ p c q d, P p c → Q q d → p ≤ q) :
    First (f.or g) fun p c => P p c ∨ Q p c := by
  cases f with
  | some c =>
    obtain ⟨p, hp, hfirst⟩ := hf
    exact ⟨p, .inl hp, fun q d hq => hq.elim (hfirst q d) (hPQ p c q d hp)⟩
  | none =>
    have hQ : ∀ p c, Q p c ↔ P p c ∨ Q p c := fun p c => by simp [hf p c]
    exact hg.congr hQ

/-- Moving all paths in their order leaves the first of them the first. -/
theorem First.map (h : First f P) {φ : TreePath → TreePath} (hφ : ∀ p q, p ≤ q → φ p ≤ φ q) :
    First f fun p c => ∃ q, p = φ q ∧ P q c := by
  cases f with
  | none =>
    rintro _ c ⟨q, rfl, hq⟩
    exact h q c hq
  | some c =>
    obtain ⟨p, hp, hfirst⟩ := h
    refine ⟨φ p, ⟨p, rfl, hp⟩, ?_⟩
    rintro _ d ⟨q, rfl, hq⟩
    exact hφ p q (hfirst q d hq)

end

/-! ## What the tree yields for an anchor -/

/-- The node at the path below this one yields the chain for the anchor, where `above` leads to this one. -/
def Node.Yields (n : Node) (above : Chain) (anchor : PageRef) (p : TreePath) (chain : Chain) : Prop :=
  ∃ links m, Addresses n links p m ∧ m.link = some anchor ∧ chain = above ++ links

/-- The same for siblings, those apart whose link is one of `seen`. -/
def YieldsAmong (above : Chain) (seen : List PageRef) (cs : List Node) (anchor : PageRef) :
    TreePath → Chain → Prop
  | [], _ => False
  | i :: p, chain =>
    ∃ c link, cs[i]? = some c ∧ c.link = some link ∧ link ∉ seen ∧
      (∀ j < i, ∀ d, cs[j]? = some d → d.link ≠ some link) ∧ c.Yields (above ++ [link]) anchor p chain

section
variable {above chain : Chain} {seen : List PageRef} {n : Node} {ns : List Node} {a : PageRef} {p : TreePath}

theorem yields_iff : n.Yields above a p chain ↔
    (p = [] ∧ n.link = some a ∧ chain = above) ∨ YieldsAmong above [] n.children a p chain := by
  constructor
  · rintro ⟨links, m, h, hm, rfl⟩
    cases h with
    | here _ => exact .inl ⟨rfl, hm, by simp⟩
    | @down _ c _ link links i p hc hlink hfirst hrest =>
      exact .inr ⟨c, link, hc, hlink, by simp, hfirst, links, m, hrest, hm, by simp⟩
  · rintro (⟨rfl, hn, rfl⟩ | h)
    · exact ⟨[], n, .here n, hn, by simp⟩
    · cases p with
      | nil => exact h.elim
      | cons i p =>
        obtain ⟨c, link, hc, hlink, -, hfirst, links, m, hrest, hm, rfl⟩ := h
        exact ⟨link :: links, m, .down hc hlink hfirst hrest, hm, by simp⟩

/-- A sibling without a link, or with one that was seen, yields nothing. -/
theorem yieldsAmong_skip (hn : ∀ k, n.link = some k → k ∈ seen) :
    YieldsAmong above seen (n :: ns) a p chain ↔ ∃ q, p = q.next ∧ YieldsAmong above seen ns a q chain := by
  constructor
  · intro h
    match p with
    | [] => exact h.elim
    | 0 :: p =>
      obtain ⟨c, link, hc, hlink, hseen, -⟩ := h
      cases hc
      exact absurd (hn link hlink) hseen
    | (i + 1) :: p =>
      obtain ⟨c, link, hc, hlink, hseen, hfirst, hy⟩ := h
      exact ⟨i :: p, rfl, c, link, hc, hlink, hseen, fun j hj => hfirst (j + 1) (by omega), hy⟩
  · rintro ⟨q, rfl, h⟩
    match q with
    | [] => exact h.elim
    | i :: q =>
      obtain ⟨c, link, hc, hlink, hseen, hfirst, hy⟩ := h
      refine ⟨c, link, hc, hlink, hseen, fun j hj d hd => ?_, hy⟩
      cases j with
      | zero =>
        cases hd
        exact fun hd => hseen (hn link hd)
      | succ j => exact hfirst j (by omega) d hd

/-- A sibling with a new link yields what it has, and its link counts as seen from then on. -/
theorem yieldsAmong_take {k : PageRef} (hk : n.link = some k) (hseen : k ∉ seen) :
    YieldsAmong above seen (n :: ns) a p chain ↔
      (∃ q, p = 0 :: q ∧ n.Yields (above ++ [k]) a q chain) ∨
        ∃ q, p = q.next ∧ YieldsAmong above (k :: seen) ns a q chain := by
  constructor
  · intro h
    match p with
    | [] => exact h.elim
    | 0 :: p =>
      obtain ⟨c, link, hc, hlink, -, -, hy⟩ := h
      cases hc
      obtain rfl : k = link := Option.some.inj (hk.symm.trans hlink)
      exact .inl ⟨p, rfl, hy⟩
    | (i + 1) :: p =>
      obtain ⟨c, link, hc, hlink, hnew, hfirst, hy⟩ := h
      have hne : link ≠ k := fun he => hfirst 0 (by omega) n rfl (he ▸ hk)
      exact .inr ⟨i :: p, rfl, c, link, hc, hlink, by simp [hne, hnew], fun j hj => hfirst (j + 1) (by omega), hy⟩
  · rintro (⟨q, rfl, hy⟩ | ⟨q, rfl, h⟩)
    · exact ⟨n, k, rfl, hk, hseen, by simp, hy⟩
    · match q with
      | [] => exact h.elim
      | i :: q =>
        obtain ⟨c, link, hc, hlink, hnew, hfirst, hy⟩ := h
        obtain ⟨hne, hnew⟩ : link ≠ k ∧ link ∉ seen := by simpa using hnew
        refine ⟨c, link, hc, hlink, hnew, fun j hj d hd => ?_, hy⟩
        cases j with
        | zero =>
          cases hd
          rw [hk]
          simpa using Ne.symm hne
        | succ j => exact hfirst j (by omega) d hd

end

/-! ## The entries of a tree -/

/-- With its own entry before those below it, a node has the entries that it yields. -/
theorem first_of_below {n : Node} {above : Chain} {k a : PageRef} (hk : n.link = some k)
    (h : First ((derivedBelow above n).lookup a) (YieldsAmong above [] n.children a)) :
    First (((k, above) :: derivedBelow above n).lookup a) (n.Yields above a) := by
  have hhere : First ([(k, above)].lookup a) fun p c => p = [] ∧ n.link = some a ∧ c = above := by
    by_cases ha : a = k
    · subst ha
      simp only [List.lookup_cons, beq_self_eq_true]
      exact ⟨[], ⟨rfl, hk, rfl⟩, fun q _ _ => TreePath.nil_le q⟩
    · have hb : (a == k) = false := by simpa using ha
      simp only [List.lookup_cons, hb, List.lookup_nil]
      rintro p c ⟨-, hn, -⟩
      exact ha (Option.some.inj (hn.symm.trans hk))
  have hboth := hhere.or h fun p c q d hp _ => hp.1 ▸ TreePath.nil_le q
  rw [← List.singleton_append, List.lookup_append]
  exact hboth.congr fun p c => yields_iff.symm

mutual
theorem first_derivedBelow (a : PageRef) (above : Chain) :
    (n : Node) → First ((derivedBelow above n).lookup a) (YieldsAmong above [] n.children a)
  | .leaf _ _ | .deferred _ _ _ => by
    rintro (_ | ⟨i, p⟩) c h
    · exact h
    · obtain ⟨d, _, hd, _⟩ := h
      cases hd
  | .inline _ _ cs => first_derivedAmong a above [] cs

theorem first_derivedAmong (a : PageRef) (above : Chain) (seen : List PageRef) :
    (cs : List Node) → First ((derivedAmong above seen cs).lookup a) (YieldsAmong above seen cs a)
  | [] => by
    rintro (_ | ⟨i, p⟩) c h
    · exact h
    · obtain ⟨d, _, hd, _⟩ := h
      cases hd
  | n :: ns => by
    have hskip : (∀ k, n.link = some k → k ∈ seen) →
        First ((derivedAmong above seen ns).lookup a) (YieldsAmong above seen (n :: ns) a) := fun hn =>
      ((first_derivedAmong a above seen ns).map fun _ _ => TreePath.next_le).congr fun _ _ =>
        (yieldsAmong_skip hn).symm
    cases hk : n.link with
    | none =>
      simp only [derivedAmong, hk]
      exact hskip (by simp [hk])
    | some k =>
      by_cases hseen : k ∈ seen
      · simp only [derivedAmong, hk, if_pos hseen]
        exact hskip fun k' hk' => by rwa [← Option.some.inj (hk.symm.trans hk')]
      · simp only [derivedAmong, hk, if_neg hseen]
        have hn := first_of_below hk (first_derivedBelow a (above ++ [k]) n)
        have hns := first_derivedAmong a above (k :: seen) ns
        have hfirst := (hn.map (φ := (0 :: ·)) fun p q hpq => TreePath.cons_le_cons.2 (.inr ⟨rfl, hpq⟩)).or
          (hns.map fun _ _ => TreePath.next_le) ?_
        · rw [List.lookup_append]
          exact hfirst.congr fun _ _ => (yieldsAmong_take hk hseen).symm
        · rintro _ c _ d ⟨p, rfl, -⟩ ⟨q, rfl, hq⟩
          match q with
          | [] => exact hq.elim
          | i :: q =>
            exact TreePath.cons_le_cons.2 (.inl (by omega))
end

/-- What the tree has for an anchor is the chain of the first addressable node that bears it. -/
theorem first_derived (root : Node) (a : PageRef) :
    First ((derivedEntries root).lookup a) (root.Yields root.link.toList a) := by
  unfold derivedEntries
  cases hk : root.link with
  | none =>
    refine (first_derivedBelow a [] root).congr fun p c => ?_
    simp [yields_iff, hk]
  | some k => exact first_of_below hk (first_derivedBelow a [k] root)

theorem chainBelow_of_root (root : Node) (links : Chain) : chainBelow root (root.link.toList ++ links) = links := by
  cases hk : root.link with
  | none => cases links <;> simp [chainBelow, hk]
  | some k => simp [chainBelow, hk]

/-! ## The index -/

theorem lookup_firstEntries (es : List (PageRef × Chain)) (a : PageRef) :
    (firstEntries es).lookup a = es.lookup a := by
  induction es with
  | nil => rfl
  | cons e es ih =>
    obtain ⟨k, c⟩ := e
    rw [firstEntries, List.lookup_cons, List.lookup_cons]
    by_cases hk : a = k
    · simp [hk]
    · rw [lookup_filter_ne, if_neg hk, ih]

/-- The entry of the table comes before that of the tree. -/
theorem AnchorIndex.find?_build_eq (root : Node) (table : AnchorTable) (bootstrap : List PageRef) (a : PageRef) :
    (build root table bootstrap).find? a = (table.entries.lookup a).or ((derivedEntries root).lookup a) := by
  rw [find?, build, lookup_firstEntries, List.lookup_append]

theorem AnchorIndex.find?_build {root : Node} {table : AnchorTable} {a : PageRef}
    (h : a ∉ table.entries.map Prod.fst) (bootstrap : List PageRef) :
    (build root table bootstrap).find? a = (derivedEntries root).lookup a := by
  have htable : table.entries.lookup a = none := by
    rw [List.lookup_eq_none_iff]
    intro e he
    have hne : a ≠ e.1 := fun hae => h (hae ▸ List.mem_map_of_mem he)
    simpa using hne
  rw [find?_build_eq, htable, Option.none_or]

/-! ## Runs -/

namespace Desk

/-- An anchor that the table does not list is indexed exactly if some addressable node of the initial tree links to
it. Then a plan of it, whatever has happened to the engine and whatever the source says, ends at once with the path
of the first such node in document order: it begins no fetch and leaves everything as it is. The node there links to
the anchor still. -/
theorem derived_anchors_resolve (data : NavData) (settings : Settings) (remembered : Option Bool)
    (events : List Event) {anchor : PageRef} (h : anchor ∉ data.anchors.entries.map Prod.fst) :
    let e := ((start data settings remembered).after events).engine
    (e.index.contains anchor = true ↔ ∃ p, data.root.Bears anchor p) ∧
    (e.index.contains anchor = true →
      ∃ p, data.root.Bears anchor p ∧ (∀ q, data.root.Bears anchor q → p ≤ q) ∧
        e.begin (.plan anchor) = { engine := e, progress := .ended (.ok (.located p)) } ∧
        ∃ n, e.tree.find p = .ok n ∧ n.link = some anchor) := by
  intro e
  obtain ⟨hg, hs⟩ := after_sound (start_sound data settings remembered) events
  have hindex : e.index = .build data.root data.anchors data.bootstrap := hg.index
  have hfound : e.index.find? anchor = (derivedEntries data.root).lookup anchor := by
    rw [hindex, AnchorIndex.find?_build h]
  have hfirst := first_derived data.root anchor
  rw [AnchorIndex.contains, hfound]
  cases hc : (derivedEntries data.root).lookup anchor with
  | none =>
    rw [hc] at hfirst
    refine ⟨⟨by simp, ?_⟩, by simp⟩
    rintro ⟨p, links, n, haddr, hn⟩
    exact absurd ⟨links, n, haddr, hn, rfl⟩ (hfirst p _)
  | some chain =>
    rw [hc] at hfirst
    obtain ⟨p, ⟨links, n, haddr, hn, rfl⟩, hleast⟩ := hfirst
    have hbears : data.root.Bears anchor p := ⟨links, n, haddr, hn⟩
    refine ⟨⟨fun _ => ⟨p, hbears⟩, fun _ => rfl⟩, fun _ => ⟨p, hbears, ?_, ?_, ?_⟩⟩
    · rintro q ⟨links', m, haddr', hm⟩
      exact hleast q _ ⟨links', m, haddr', hm, rfl⟩
    all_goals obtain ⟨m, hm, hnm⟩ := hs.engine.tree.at? haddr.at?
    · have hresolve : e.index.resolve anchor = .ok (data.root.link.toList ++ links) := by
        simp [AnchorIndex.resolve, hfound, hc]
      have hfollows : Follows e.loader.fragment? data.root
          (chainBelow data.root (data.root.link.toList ++ links)) p n := by
        rw [chainBelow_of_root]
        exact haddr.follows _
      exact (Engine.Resolved.leads hresolve hfollows hm).plan hs.engine
    · exact ⟨m, by simp [Node.find, e, hm], hnm.link_eq.trans hn⟩

/-- A sibling repeats a link, and a node elsewhere bears the link again, while the node before both is expanded. -/
theorem derived_anchor_beside_duplicates :
    let anchor : PageRef := ⟨"a.html"⟩
    let data : NavData :=
      { root := .inline "Main" none
          [.deferred "Files" ⟨"files.html"⟩ ⟨"files"⟩, .leaf "Group" none,
            .inline "Pages" (some ⟨"pages.html"⟩) [.leaf "a" (some anchor), .leaf "a again" (some anchor)],
            .leaf "a" (some anchor)] }
    let now : Handle → Option Answer := fun _ => some (.ok [.leaf "a" (some anchor)])
    let e := ((start data {} none).after [.begin (.expand [0]), .run 0 now]).engine
    anchor ∉ data.anchors.entries.map Prod.fst ∧ e.index.contains anchor = true ∧
      (∃ p, data.root.Bears anchor p) ∧
      e.begin (.plan anchor) = { engine := e, progress := .ended (.ok (.located [2, 0])) } := by
  intro anchor data now e
  have hlisted : anchor ∉ data.anchors.entries.map Prod.fst := by simp [data]
  obtain ⟨hiff, hplan⟩ := derived_anchors_resolve data {} none [.begin (.expand [0]), .run 0 now] hlisted
  have hindexed : e.index.contains anchor = true := by rfl
  obtain ⟨p, -, -, hbegin, -⟩ := hplan hindexed
  -- The plan is the same computation, so it tells which path that is.
  have hpath : (e.begin (.plan anchor)).progress = .ended (.ok (.located [2, 0])) := by rfl
  rw [show e.begin (.plan anchor) = _ from hbegin] at hpath
  simp only [Progress.ended.injEq, Except.ok.injEq, Answered.located.injEq] at hpath
  subst hpath
  exact ⟨hlisted, hindexed, hiff.1 hindexed, hbegin⟩

end Desk
end DocNav
