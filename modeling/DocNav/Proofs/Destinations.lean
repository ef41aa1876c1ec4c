import DocNav.Proofs.Addresses
import DocNav.Proofs.References
import DocNav.Proofs.RoundTrip
/-!
# Where plans arrive

A plan goes by the entry that the index has for its anchor, or for the anchor's page. Its path has an index for each
link of the entry's chain, a leading one that is the root's own left out, and each of these links names the node that
it leads to: the first of the siblings that has this very link or, where none of them has it and the link has a
fragment, the first that links to its page.

The walk of a plan is known to follow the links in the hierarchy (`Plan.Finds`). Once it has arrived they lead to the
same path in the tree alone (`Follows.inTree`), and there they are read level by level (`Follows.level`). Main result:
`lands_where_the_chain_says`.
-/

namespace DocNav

/-! ## What a link names -/

/-- The link names the node at the index: by itself or, if it has a fragment and none of the siblings has the very link,
by its page. -/
def Names (siblings : List Node) (link : PageRef) (i : Nat) (c : Node) : Prop :=
  FirstToLink siblings link i c ∨
    ∃ page, link.bare? = some page ∧ (∀ s ∈ siblings, s.link ≠ some link) ∧ FirstToLink siblings page i c

section
variable {siblings : List Node} {link : PageRef} {i : Nat} {c : Node}

theorem Names.links_to (h : Names siblings link i c) :
    c.link = some link ∨ ∃ page, link.bare? = some page ∧ c.link = some page := by
  rcases h with ⟨-, hlink, -⟩ | ⟨page, hpage, -, -, hlink, -⟩
  · exact .inl hlink
  · exact .inr ⟨page, hpage, hlink⟩

/-- A link leads to the node that it names. -/
theorem names_iff : Names siblings link i c ↔ childIndex? siblings link = some i ∧ siblings[i]? = some c := by
  unfold childIndex? Names
  simp only [firstToLink_iff, PageRef.bare?_eq]
  cases hown : siblings.findIdx? (·.link = some link) with
  | some j =>
    -- A sibling has the very link, so its page does not count.
    have hsome : ¬∀ s ∈ siblings, s.link ≠ some link := by
      intro hnone
      rw [List.findIdx?_eq_none_iff.2 fun s hs => by simpa using hnone s hs] at hown
      cases hown
    simp [hsome]
  | none =>
    have hnone : ∀ s ∈ siblings, s.link ≠ some link := by
      simpa [List.findIdx?_eq_none_iff] using hown
    by_cases hfragment : link.fragment?.isSome = true
    · simpa [hfragment] using fun _ _ => hnone
    · simp [hfragment]

end

/-! ## Following links in a tree -/

/-- No fragment is known, so that the hierarchy is the tree itself. -/
def Fragments.nothing : Fragments := fun _ => none

theorem Node.childrenIn_nothing (n : Node) : n.childrenIn .nothing = n.children := by cases n <;> rfl

theorem Node.atIn?_nothing (n : Node) (p : TreePath) : n.atIn? .nothing p = n.at? p := by
  induction p generalizing n with
  | nil => rfl
  | cons i p ih =>
    rw [atIn?_cons, at?_cons, childrenIn_nothing]
    exact Option.bind_congr fun c _ => ih c

section
variable {K : Fragments} {n m : Node} {links : Chain} {p : TreePath}

/-- Where an unfolded tree has the node to which links lead in the hierarchy, they lead there in the tree. -/
theorem Follows.inTree (h : Follows K n links p m) {c d : Node} (hn : Unfolds K n c) (hd : c.at? p = some d) :
    Follows .nothing c links p d := by
  induction h generalizing c with
  | here n =>
    cases hd
    exact .here _
  | @down n child m link links i p hi hchild _ ih =>
    rw [Node.at?_cons] at hd
    obtain ⟨x, hx, hd⟩ := Option.bind_eq_some_iff.1 hd
    obtain ⟨l, k, cs, rfl⟩ := Node.inline_of_child hx
    have hcs : UnfoldsAll K (n.childrenIn K) cs := hn.children rfl
    obtain ⟨y, hy, hyx⟩ := hcs.getElem? hchild
    obtain rfl : y = x := Option.some.inj (hy.symm.trans hx)
    have hindex : childIndex? cs link = some i := by
      rw [childIndex?_of_links (hcs.map_eq Unfolds.link_eq) link, hi]
    exact .down hindex hx (ih hyx hd)

theorem Follows.at? (h : Follows .nothing n links p m) : n.at? p = some m := by
  rw [← Node.atIn?_nothing]
  exact h.atIn?

theorem Follows.length_eq (h : Follows K n links p m) : p.length = links.length := by
  induction h with
  | here n => rfl
  | down _ _ _ ih => rw [List.length_cons, List.length_cons, ih]

/-- At each level, the link names the child that the path leads to. -/
theorem Follows.level (h : Follows .nothing n links p m) {k : Nat} {link : PageRef} (hk : links[k]? = some link) :
    ∃ parent i c, n.at? (p.take k) = some parent ∧ p[k]? = some i ∧
      n.at? (p.take (k + 1)) = some c ∧ Names parent.children link i c := by
  induction h generalizing k with
  | here n => cases hk
  | @down n child m link' links i p hi hchild _ ih =>
    rw [Node.childrenIn_nothing] at hi hchild
    have hbelow : ∀ q, n.at? (i :: q) = child.at? q := by
      intro q
      rw [Node.at?_cons, show n.child? i = some child from hchild]
      rfl
    cases k with
    | zero =>
      cases hk
      exact ⟨n, i, child, rfl, rfl, hbelow [], names_iff.2 ⟨hi, hchild⟩⟩
    | succ k =>
      obtain ⟨parent, j, c, hparent, hj, hat, hnames⟩ := ih hk
      refine ⟨parent, j, c, ?_, hj, ?_, hnames⟩
      · rw [List.take_succ_cons, hbelow, hparent]
      · rw [List.take_succ_cons, hbelow, hat]

end

/-! ## The entry that a plan goes by -/

/-- Every entry of a table that insertions have made ends with its anchor. -/
theorem AnchorTable.Built.getLast? {t : AnchorTable} (h : t.Built) :
    ∀ row ∈ t.entries, row.2.getLast? = some row.1 := by
  induction h with
  | empty => simp
  | @insert t t' anchor chain _ hinsert ih =>
    unfold AnchorTable.insert at hinsert
    split at hinsert
    · cases hinsert
    · rename_i last hlast
      split at hinsert
      · rename_i heq
        cases hinsert
        intro row hrow
        rcases List.mem_append.1 hrow with hrow | hrow
        · exact ih row hrow
        · rw [List.mem_singleton.1 hrow, hlast, heq]
      · cases hinsert

mutual
theorem getLast?_derivedBelow (above : Chain) : (n : Node) →
    ∀ row ∈ derivedBelow above n, row.2.getLast? = some row.1
  | .leaf _ _ | .deferred _ _ _ => by simp [derivedBelow]
  | .inline _ _ cs => getLast?_derivedAmong above [] cs

theorem getLast?_derivedAmong (above : Chain) (seen : List PageRef) : (cs : List Node) →
    ∀ row ∈ derivedAmong above seen cs, row.2.getLast? = some row.1
  | [] => by simp [derivedAmong]
  | c :: cs => by
    rw [derivedAmong]
    split
    · exact getLast?_derivedAmong above seen cs
    · rename_i k _
      split
      · exact getLast?_derivedAmong above seen cs
      · intro row hrow
        rcases List.mem_cons.1 hrow with rfl | hrow
        · exact List.getLast?_concat
        · rcases List.mem_append.1 hrow with hrow | hrow
          · exact getLast?_derivedBelow (above ++ [k]) c row hrow
          · exact getLast?_derivedAmong above (k :: seen) cs row hrow
end

theorem getLast?_derivedEntries (root : Node) : ∀ row ∈ derivedEntries root, row.2.getLast? = some row.1 := by
  unfold derivedEntries
  split
  · exact getLast?_derivedBelow [] root
  · rename_i k _
    intro row hrow
    rcases List.mem_cons.1 hrow with rfl | hrow
    · rfl
    · exact getLast?_derivedBelow [k] root row hrow

/-- Where the index has an entry, its chain ends with its anchor. -/
theorem AnchorIndex.getLast?_of_find? {root : Node} {table : AnchorTable} {bootstrap : List PageRef}
    (hbuilt : table.Built) {anchor : PageRef} {chain : Chain}
    (h : (AnchorIndex.build root table bootstrap).find? anchor = some chain) : chain.getLast? = some anchor := by
  have hmem : (anchor, chain) ∈ table.entries ++ derivedEntries root := by
    rw [find?, build, lookup_firstEntries, List.lookup_eq_some_iff] at h
    obtain ⟨before, behind, heq, -⟩ := h
    simp [heq]
  rcases List.mem_append.1 hmem with hmem | hmem
  · exact hbuilt.getLast? _ hmem
  · exact getLast?_derivedEntries root _ hmem

/-- The last link of the chain is that of the node to which the links below the root lead, if only by its page. -/
theorem Follows.last {T m : Node} {chain : Chain} {p : TreePath} (h : Follows .nothing T (chainBelow T chain) p m)
    {target : PageRef} (hlast : chain.getLast? = some target) :
    m.link = some target ∨ ∃ page, target.bare? = some page ∧ m.link = some page := by
  have hchain : chainBelow T chain = chain ∨
      ∃ first, T.link = some first ∧ chain = first :: chainBelow T chain := by
    cases chain with
    | nil => exact .inl rfl
    | cons first rest =>
      by_cases hfirst : T.link = some first
      · exact .inr ⟨first, hfirst, by rw [chainBelow, if_pos hfirst]⟩
      · exact .inl (by rw [chainBelow, if_neg hfirst])
  cases hlinks : chainBelow T chain with
  | nil =>
    rw [hlinks] at h hchain
    cases h
    rcases hchain with rfl | ⟨first, hfirst, rfl⟩
    · cases hlast
    · -- The chain is the root's own link.
      cases hlast
      exact .inl hfirst
  | cons link links =>
    have hlast' : (chainBelow T chain).getLast? = some target := by
      rcases hchain with hall | ⟨first, -, hbehind⟩
      · rw [hall, hlast]
      · rw [hbehind, hlinks, List.getLast?_cons_cons] at hlast
        rw [hlinks, hlast]
    rw [List.getLast?_eq_getElem?] at hlast'
    obtain ⟨parent, i, c, -, -, hat, hnames⟩ := h.level hlast'
    have hlength : (chainBelow T chain).length - 1 + 1 = p.length := by
      rw [h.length_eq, hlinks]
      rfl
    rw [hlength, List.take_length, h.at?] at hat
    obtain rfl : m = c := Option.some.inj hat
    exact hnames.links_to

/-- The request locates the anchor itself, or an anchor that is not indexed and whose page it is. -/
def Request.LocatesBy (ix : AnchorIndex) (r : Request) (target : PageRef) : Prop :=
  r = .plan target ∨ r = .planPage target ∨
    ∃ anchor, r = .planPage anchor ∧ ix.find? anchor = none ∧ anchor.bare? = some target

/-- A request that locates goes by the entry of the anchor that it locates. -/
theorem Request.entry_of_sought? {ix : AnchorIndex} {r : Request} {anchor : PageRef} {chain : Chain} {p : TreePath}
    (h : r.sought? ix = some (anchor, .ok chain)) (htells : r.Tells (.ok p) (.ok (.located p))) :
    ∃ target, r.LocatesBy ix target ∧ ix.find? target = some chain := by
  cases r with
  | plan a =>
    simp only [sought?, AnchorIndex.resolve, Option.some.injEq, Prod.mk.injEq] at h
    obtain ⟨rfl, h⟩ := h
    split at h
    · rename_i hfind
      cases h
      exact ⟨a, .inl rfl, hfind⟩
    · cases h
  | planPage a =>
    simp only [sought?, AnchorIndex.resolvePage, Option.some.injEq, Prod.mk.injEq] at h
    obtain ⟨rfl, h⟩ := h
    split at h
    · rename_i hfind
      cases h
      exact ⟨a, .inr (.inl rfl), hfind⟩
    · rename_i hnone
      split at h
      · rename_i hfragment hfind
        cases h
        exact ⟨a.withoutFragment, .inr (.inr ⟨a, rfl, hnone, by simp [PageRef.bare?_eq, hfragment]⟩), hfind⟩
      · cases h
  | navigate a => rcases htells with h | h <;> cases h
  | follow page => rcases htells with h | h | h <;> cases h
  | expand path => cases h

/-! ## Runs -/

namespace Desk

/-- A request that has located a path has a plan that has found it. -/
theorem planned_of_located {R : Node} {d : Desk} (hd : d.Sound R) (ha : d.Above) {ev : Event} {p : TreePath}
    (h : (d.step ev).2.ending = some (.ok (.located p))) : (d.step ev).2.planned = some (.ok p) := by
  have hwrites := step_writes hd ha ev
  have htold := step_told hd ev
  rw [h] at hwrites
  generalize hplanned : (d.step ev).2.planned = planned at *
  generalize d.staged ev = staged at hwrites
  cases hwrites with
  | keeps _ hidle _ => rcases hidle _ rfl with h | ⟨_, h, -⟩ <;> cases h
  | @arrives p' a c _ _ _ _ =>
    obtain ⟨r, ending, -, -, hending, htells⟩ := htold.planned _ hplanned
    obtain rfl : .ok (.located p) = ending := Option.some.inj (h.symm.trans hending)
    cases r with
    | plan _ | planPage _ =>
      cases htells
      rfl
    | navigate _ => rcases htells with h | h <;> cases h
    | follow _ => rcases htells with h | h | h <;> cases h
    | expand _ => cases htells

/-- Whatever happened before: where a plan of an anchor, or of an anchor or its page, returns a path, the index has an
entry for the anchor that it goes by, and the path has as many indexes as the entry's chain has links, a leading one
that is the root's own left out. Each of these links names the node that the path leads to at its level: that node is
the first of its siblings with this very link or, only if the link has a fragment and no sibling has the link, the first
with the link of its page. So the node at the path links to the anchor, or to the page of the anchor if that has a
fragment. -/
theorem lands_where_the_chain_says (data : NavData) (hbuilt : data.anchors.Built) (settings : Settings)
    (remembered : Option Bool) (events : List Event) (ev : Event) {p : TreePath}
    (hp : (((start data settings remembered).after events).step ev).2.ending = some (.ok (.located p))) :
    let step := ((start data settings remembered).after events).step ev
    let ix := AnchorIndex.build data.root data.anchors data.bootstrap
    let tree := step.1.engine.tree
    ∃ r target chain, step.2.request = some r ∧ r.LocatesBy ix target ∧ ix.find? target = some chain ∧
      let links := if chain.head? = data.root.link then chain.tail else chain
      p.length = links.length ∧
      (∀ k link, links[k]? = some link →
        ∃ parent i c, tree.at? (p.take k) = some parent ∧ p[k]? = some i ∧ tree.at? (p.take (k + 1)) = some c ∧
          Names parent.children link i c) ∧
      ∃ n, tree.at? p = some n ∧
        (n.link = some target ∨ ∃ page, target.bare? = some page ∧ n.link = some page) := by
  intro step ix tree
  obtain ⟨hd, ha⟩ := after_start data settings remembered events
  have hplanned := planned_of_located hd ha hp
  obtain ⟨r, ending, hr, hfound, hending, htells⟩ := (step_told hd ev).planned _ hplanned
  obtain rfl : .ok (.located p) = ending := Option.some.inj (hp.symm.trans hending)
  have hwrites := step_writes hd ha ev
  rw [hplanned] at hwrites
  obtain ⟨n, hn⟩ := hwrites.arrived
  have hs : step.1.Sound data.root := (step_sound hd ev).2
  have hindex : step.1.engine.index = ix :=
    (step_sound hd ev).1.index.trans (after_sound (start_sound data settings remembered) events).1.index
  cases hfound with
  | @walked anchor chain _ hsought hfinds =>
    rw [show (step.1.engine).index = ix from hindex] at hsought
    obtain ⟨target, hby, hentry⟩ := Request.entry_of_sought? hsought htells
    cases hfinds with
    | node hfollows =>
      have htree : Follows .nothing tree (chainBelow data.root chain) p n := hfollows.inTree hs.engine.tree hn
      refine ⟨r, target, chain, hr, hby, hentry, ?_⟩
      simp only [← chainBelow_eq_ite]
      refine ⟨htree.length_eq, fun k link hk => htree.level hk, n, hn, ?_⟩
      rw [← hs.engine.tree.chainBelow_eq] at htree
      exact htree.last (AnchorIndex.getLast?_of_find? hbuilt hentry)

/-- An anchor that is not indexed is located by its page. Its chain begins with the root's link, goes through a deferred
node that is named by its page, as is the sibling behind it, and ends at the first of two nodes with the page's link. -/
theorem lands_by_the_page :
    let page : PageRef := ⟨"a.html"⟩
    let data : NavData :=
      { root := .inline "Main" (some ⟨"index.html"⟩)
          [.leaf "Main" (some ⟨"index.html"⟩), .deferred "Files" ⟨"files.html"⟩ ⟨"files"⟩,
            .leaf "Files" (some ⟨"files.html"⟩)]
        anchors := ⟨[(page, [⟨"index.html"⟩, ⟨"files.html#list"⟩, page])]⟩ }
    let now : Handle → Option Answer := fun _ =>
      some (.ok [.leaf "b" (some ⟨"a.html#b"⟩), .leaf "a" (some page), .leaf "a" (some page)])
    let step := ((start data {} none).after [.begin (.planPage ⟨"a.html#c"⟩)]).step (.run 0 now)
    data.anchors.Built ∧ step.2.ending = some (.ok (.located [1, 1])) ∧
      ∃ n, step.1.engine.tree.at? [1, 1] = some n ∧ n.link = some page := by
  intro page data now step
  have hbuilt : data.anchors.Built :=
    @AnchorTable.Built.insert {} _ page [⟨"index.html"⟩, ⟨"files.html#list"⟩, page] .empty (by decide)
  have hp : step.2.ending = some (.ok (.located [1, 1])) := by rfl
  obtain ⟨r, target, chain, hr, hby, hentry, -, -, n, hn, hlink⟩ :=
    lands_where_the_chain_says data hbuilt {} none _ (.run 0 now) hp
  obtain rfl : Request.planPage ⟨"a.html#c"⟩ = r := Option.some.inj hr
  have hpage : target = page := by
    rcases hby with h | h | ⟨anchor, h, -, hbare⟩
    · cases h
    · cases h
      cases hentry
    · cases h
      exact Option.some.inj (hbare.symm.trans (by decide +kernel))
  subst hpage
  refine ⟨hbuilt, hp, n, hn, ?_⟩
  rcases hlink with hlink | ⟨_, hbare, -⟩
  · exact hlink
  · have hnone : page.bare? = none := by decide +kernel
    rw [hnone] at hbare
    cases hbare

end Desk
end DocNav
