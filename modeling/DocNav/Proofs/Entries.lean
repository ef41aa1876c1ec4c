import DocNav.Proofs.Destinations
import DocNav.Proofs.References
/-!
# What the index holds

A table holds the rows whose insertion was not refused, in their order (`entries_insertEach`). A tree shows an anchor at
each path along which every node has a link that none of its earlier siblings has, if the node there links to the anchor.
These are the paths that yield a chain for it, and the chain has the links from the root down to the path
(`yields_root_iff`).

Main result: `AnchorIndex.built_holds`.
-/

namespace DocNav

/-! ## Tables that insertions have made -/

namespace AnchorTable

/-- The table after rows were offered one by one, where a row that is refused leaves it as it was. -/
def insertEach (t : AnchorTable) : List (PageRef × Chain) → AnchorTable
  | [] => t
  | (a, c) :: rows =>
    match t.insert a c with
    | .ok t' => t'.insertEach rows
    | .error _ => t.insertEach rows

/-- The chain of the row ends with its anchor. -/
def EndsThere (row : PageRef × Chain) : Prop := row.2.getLast? = some row.1

instance (row : PageRef × Chain) : Decidable (EndsThere row) :=
  inferInstanceAs (Decidable (row.2.getLast? = some row.1))

theorem insert_of_endsThere {a : PageRef} {c : Chain} (t : AnchorTable) (h : EndsThere (a, c)) :
    t.insert a c = .ok ⟨t.entries ++ [(a, c)]⟩ := by
  unfold EndsThere at h
  simp only [insert, h, if_true]

theorem insert_of_not_endsThere {a : PageRef} {c : Chain} (t : AnchorTable) (h : ¬ EndsThere (a, c)) :
    ∃ e, t.insert a c = .error e := by
  unfold insert
  split
  · exact ⟨_, rfl⟩
  · rename_i last hlast
    have hne : last ≠ a := by
      rintro rfl
      exact h hlast
    rw [if_neg hne]
    exact ⟨_, rfl⟩

theorem entries_insertEach (t : AnchorTable) (rows : List (PageRef × Chain)) :
    (t.insertEach rows).entries = t.entries ++ rows.filter EndsThere := by
  induction rows generalizing t with
  | nil => exact (List.append_nil _).symm
  | cons row rows ih =>
    obtain ⟨a, c⟩ := row
    unfold insertEach
    by_cases hends : EndsThere (a, c)
    · rw [insert_of_endsThere t hends, List.filter_cons_of_pos (by simpa using hends)]
      simp only [ih, List.append_assoc, List.singleton_append]
    · obtain ⟨e, he⟩ := insert_of_not_endsThere t hends
      rw [he, List.filter_cons_of_neg (by simpa using hends)]
      exact ih t

theorem Built.insertEach {t : AnchorTable} (h : t.Built) (rows : List (PageRef × Chain)) :
    (t.insertEach rows).Built := by
  induction rows generalizing t with
  | nil => exact h
  | cons row rows ih =>
    unfold AnchorTable.insertEach
    split
    · rename_i t' ht'
      exact ih (h.insert ht')
    · exact ih h

end AnchorTable

/-! ## What a tree shows -/

namespace Node

/-- Every node along the path, the root apart, has a link, and none of its earlier siblings has that link. -/
def Addressable (root : Node) (p : TreePath) : Prop :=
  ∀ above i below, p = above ++ i :: below →
    ∃ n link, root.at? (above ++ [i]) = some n ∧ n.link = some link ∧
      ∀ j < i, ∀ s, root.at? (above ++ [j]) = some s → s.link ≠ some link

/-- The links from the root down to the path, where the root may have none. -/
def linksTo (root : Node) (p : TreePath) : Chain :=
  p.inits.filterMap fun q => (root.at? q).bind link

/-- The node at the path is addressable and links to the anchor. -/
def Shows (root : Node) (anchor : PageRef) (p : TreePath) : Prop :=
  root.Addressable p ∧ ∃ n, root.at? p = some n ∧ n.link = some anchor

section
variable {n c m : Node} {i : Nat} {p : TreePath} {links : Chain}

theorem addressable_nil (n : Node) : n.Addressable [] := by
  intro above i below h
  cases above <;> cases h

theorem at?_singleton (n : Node) (i : Nat) : n.at? [i] = n.child? i := by
  rw [at?_cons]
  cases n.child? i <;> rfl

theorem addressable_cons : n.Addressable (i :: p) ↔
    ∃ c link, n.child? i = some c ∧ c.link = some link ∧
      (∀ j < i, ∀ s, n.child? j = some s → s.link ≠ some link) ∧ c.Addressable p := by
  constructor
  · intro h
    obtain ⟨c, link, hc, hlink, hfirst⟩ := h [] i p rfl
    simp only [List.nil_append, at?_singleton] at hc hfirst
    refine ⟨c, link, hc, hlink, hfirst, ?_⟩
    intro above j below hp
    have hbelow := h (i :: above) j below (by rw [hp, List.cons_append])
    simpa only [List.cons_append, at?_cons, hc, Option.bind_some] using hbelow
  · rintro ⟨c, link, hc, hlink, hfirst, hp⟩ above j below h
    cases above with
    | nil =>
      cases h
      simp only [List.nil_append, at?_singleton]
      exact ⟨c, link, hc, hlink, hfirst⟩
    | cons i' above =>
      cases h
      simpa only [List.cons_append, at?_cons, hc, Option.bind_some] using hp above j below rfl

theorem linksTo_cons (h : n.child? i = some c) : n.linksTo (i :: p) = n.link.toList ++ c.linksTo p := by
  unfold linksTo
  have hbelow : ∀ q, n.at? (i :: q) = c.at? q := by
    intro q
    rw [at?_cons, h, Option.bind_some]
  rw [List.inits_cons, List.filterMap_cons, List.filterMap_map]
  have hrest : ((fun q => (n.at? q).bind link) ∘ fun t => i :: t) = fun q => (c.at? q).bind link := by
    funext q
    rw [Function.comp_apply, hbelow]
  rw [hrest, at?, Option.bind_some]
  cases n.link <;> rfl

end
end Node

section
variable {n m : Node} {p : TreePath} {links : Chain}

theorem Addresses.addressable (h : Addresses n links p m) : n.Addressable p := by
  induction h with
  | here n => exact n.addressable_nil
  | down hc hlink hfirst _ ih => exact Node.addressable_cons.2 ⟨_, _, hc, hlink, hfirst, ih⟩

theorem Node.Addressable.addresses (h : n.Addressable p) (hm : n.at? p = some m) :
    ∃ links, Addresses n links p m := by
  induction p generalizing n with
  | nil =>
    cases hm
    exact ⟨[], .here _⟩
  | cons i p ih =>
    obtain ⟨c, link, hc, hlink, hfirst, hp⟩ := Node.addressable_cons.1 h
    rw [Node.at?_cons, hc, Option.bind_some] at hm
    obtain ⟨links, hlinks⟩ := ih hp hm
    exact ⟨link :: links, .down hc hlink hfirst hlinks⟩

theorem Addresses.linksTo_eq (h : Addresses n links p m) : n.linksTo p = n.link.toList ++ links := by
  induction h with
  | here n =>
    rw [Node.linksTo]
    cases hlink : n.link <;> simp [Node.at?, hlink]
  | @down n c m link links i p hc hlink _ _ ih =>
    rw [Node.linksTo_cons hc, ih, hlink]
    rfl

/-- A tree yields a chain for the anchor at the paths where it shows it: the links that lead there. -/
theorem yields_root_iff {root : Node} {a : PageRef} {chain : Chain} :
    root.Yields root.link.toList a p chain ↔ root.Shows a p ∧ chain = root.linksTo p := by
  constructor
  · rintro ⟨links, m, haddr, hm, rfl⟩
    exact ⟨⟨haddr.addressable, m, haddr.at?, hm⟩, haddr.linksTo_eq.symm⟩
  · rintro ⟨⟨haddr, m, hat, hm⟩, rfl⟩
    obtain ⟨links, hlinks⟩ := haddr.addresses hat
    exact ⟨links, m, hlinks, hm, hlinks.linksTo_eq⟩

end

/-! ## The first of the nodes with a property -/

section
variable {found : Option Chain} {P : TreePath → Chain → Prop} {c : Chain}

theorem First.isSome_iff (h : First found P) : found.isSome = true ↔ ∃ p c, P p c := by
  cases found with
  | none =>
    constructor
    · rintro ⟨⟩
    · rintro ⟨p, c, hp⟩
      exact absurd hp (h p c)
  | some c =>
    obtain ⟨p, hp, -⟩ := h
    exact iff_of_true rfl ⟨p, c, hp⟩

/-- Where each path has one chain at most, the chain found is the one of the first path that has one. -/
theorem First.eq_some_iff (h : First found P) (hP : ∀ p c d, P p c → P p d → c = d) :
    found = some c ↔ ∃ p, P p c ∧ ∀ q d, P q d → p ≤ q := by
  constructor
  · rintro rfl
    exact h
  · rintro ⟨p, hp, hleast⟩
    obtain ⟨d, rfl⟩ := Option.isSome_iff_exists.1 (h.isSome_iff.2 ⟨p, c, hp⟩)
    obtain ⟨q, hq, hleast'⟩ := h
    obtain rfl : p = q := le_antisymm (hleast q d hq) (hleast' p c hp)
    rw [hP p d c hq hp]

end

/-! ## The chains of an index -/

section
variable {root : Node} {table : AnchorTable} {a : PageRef} {c : Chain}

/-- The chain for an anchor: that of the table's first entry for it or, if the table has none, the links that lead to the
first node in the document at which the tree shows it. -/
inductive Indexed (root : Node) (table : AnchorTable) (a : PageRef) : Chain → Prop
  | listed {before behind : List (PageRef × Chain)} {c : Chain} :
      table.entries = before ++ (a, c) :: behind → (∀ d, (a, d) ∉ before) → Indexed root table a c
  | shown {p : TreePath} : (∀ d, (a, d) ∉ table.entries) → root.Shows a p → (∀ q, root.Shows a q → p ≤ q) →
      Indexed root table a (root.linksTo p)

theorem lookup_eq_some_iff_first {es : List (PageRef × Chain)} :
    es.lookup a = some c ↔ ∃ before behind, es = before ++ (a, c) :: behind ∧ ∀ d, (a, d) ∉ before := by
  rw [List.lookup_eq_some_iff]
  constructor
  · rintro ⟨before, behind, heq, hbefore⟩
    refine ⟨before, behind, heq, ?_⟩
    intro d hd
    exact absurd (hbefore _ hd) (by simp)
  · rintro ⟨before, behind, heq, hbefore⟩
    refine ⟨before, behind, heq, ?_⟩
    rintro ⟨k, d⟩ hd
    have hne : a ≠ k := by
      rintro rfl
      exact hbefore d hd
    simpa using hne

theorem lookup_eq_none_iff_absent {es : List (PageRef × Chain)} : es.lookup a = none ↔ ∀ d, (a, d) ∉ es := by
  rw [List.lookup_eq_none_iff]
  constructor
  · intro h d hd
    exact absurd (h _ hd) (by simp)
  · rintro h ⟨k, d⟩ hd
    have hne : a ≠ k := by
      rintro rfl
      exact h d hd
    simpa using hne

/-- Among the entries of a tree, an anchor has the chain of the first path at which the tree shows it. -/
theorem first_shown (root : Node) (a : PageRef) :
    First ((derivedEntries root).lookup a) fun p c => root.Shows a p ∧ c = root.linksTo p :=
  (first_derived root a).congr fun _ _ => yields_root_iff

theorem lookup_derived_eq_some_iff : (derivedEntries root).lookup a = some c ↔
    ∃ p, root.Shows a p ∧ (∀ q, root.Shows a q → p ≤ q) ∧ c = root.linksTo p := by
  rw [(first_shown root a).eq_some_iff (by rintro p _ _ ⟨-, rfl⟩ ⟨-, rfl⟩; rfl)]
  constructor
  · rintro ⟨p, ⟨hp, hc⟩, hleast⟩
    exact ⟨p, hp, fun q hq => hleast q _ ⟨hq, rfl⟩, hc⟩
  · rintro ⟨p, hp, hleast, hc⟩
    exact ⟨p, ⟨hp, hc⟩, fun q _ hq => hleast q hq.1⟩

theorem lookup_derived_isSome_iff : ((derivedEntries root).lookup a).isSome = true ↔ ∃ p, root.Shows a p := by
  rw [(first_shown root a).isSome_iff]
  constructor
  · rintro ⟨p, _, hp, -⟩
    exact ⟨p, hp⟩
  · rintro ⟨p, hp⟩
    exact ⟨p, _, hp, rfl⟩

theorem find?_build_eq_some_iff (bootstrap : List PageRef) :
    (AnchorIndex.build root table bootstrap).find? a = some c ↔ Indexed root table a c := by
  rw [AnchorIndex.find?_build_eq, Option.or_eq_some_iff, lookup_eq_some_iff_first, lookup_eq_none_iff_absent,
    lookup_derived_eq_some_iff]
  constructor
  · rintro (⟨before, behind, heq, hbefore⟩ | ⟨habsent, p, hp, hleast, rfl⟩)
    · exact .listed heq hbefore
    · exact .shown habsent hp hleast
  · intro h
    cases h with
    | listed heq hbefore => exact .inl ⟨_, _, heq, hbefore⟩
    | shown habsent hp hleast => exact .inr ⟨habsent, _, hp, hleast, rfl⟩

/-- The index of a tree alone has the anchors that the tree shows. -/
theorem find?_ofTree_eq_some_iff : (AnchorIndex.ofTree root).find? a = some c ↔
    ∃ p, root.Shows a p ∧ (∀ q, root.Shows a q → p ≤ q) ∧ c = root.linksTo p := by
  rw [AnchorIndex.ofTree, AnchorIndex.find?_build_eq]
  exact lookup_derived_eq_some_iff

theorem contains_build_iff (bootstrap : List PageRef) :
    (AnchorIndex.build root table bootstrap).contains a = true ↔
      (∃ c, (a, c) ∈ table.entries) ∨ ∃ p, root.Shows a p := by
  rw [AnchorIndex.contains, AnchorIndex.find?_build_eq, Option.isSome_or, Bool.or_eq_true, lookup_derived_isSome_iff]
  apply or_congr_left
  rw [← Option.ne_none_iff_isSome, ne_eq, lookup_eq_none_iff_absent]
  push Not
  rfl

/-- The index has one entry for an anchor, the one that is found. -/
theorem mem_firstEntries {es : List (PageRef × Chain)} : (a, c) ∈ firstEntries es ↔ es.lookup a = some c := by
  induction es with
  | nil => simp [firstEntries]
  | cons e es ih =>
    obtain ⟨k, d⟩ := e
    rw [firstEntries, List.mem_cons, List.mem_filter, ih, List.lookup_cons]
    by_cases hk : a = k
    · subst hk
      simp [eq_comm]
    · have hb : (a == k) = false := by simpa using hk
      simp [hk, hb]

/-- The chain by which an anchor or its page is reached: its own or, if it has none and there is a `#` in it, that of
what stands before the first. -/
inductive Reached (root : Node) (table : AnchorTable) (a : PageRef) (c : Chain) : Prop
  | itself : Indexed root table a c → Reached root table a c
  | page {p : PageRef} {fragment : List Char} : (∀ d, ¬ Indexed root table a d) →
      a.text.toList = p.text.toList ++ '#' :: fragment → '#' ∉ p.text.toList → Indexed root table p c →
      Reached root table a c

end

namespace AnchorIndex

/-- The index holds what the table lists and what the tree shows, and gives nothing else. -/
structure Holds (ix : AnchorIndex) (root : Node) (table : AnchorTable) : Prop where
  contains : ∀ a, ix.contains a = true ↔ (∃ c, (a, c) ∈ table.entries) ∨ ∃ p, root.Shows a p
  entries : ∀ a c, (a, c) ∈ ix.entries ↔ Indexed root table a c
  find? : ∀ a c, ix.find? a = some c ↔ Indexed root table a c
  /-- No chain is empty, and the last of its links is the anchor. -/
  target : ∀ row ∈ ix.entries, ∃ links, row.2 = links ++ [row.1]
  resolve : ∀ a, match ix.resolve a with
    | .ok c => Indexed root table a c
    | .error e => e = ⟨a⟩ ∧ ∀ c, ¬ Indexed root table a c
  resolvePage : ∀ a, match ix.resolvePage a with
    | .ok c => Reached root table a c
    | .error e => e = ⟨a⟩ ∧ ∀ c, ¬ Reached root table a c

section
variable {ix : AnchorIndex} {root : Node} {table : AnchorTable}

theorem resolve_of_find? (hfind : ∀ a c, ix.find? a = some c ↔ Indexed root table a c) (a : PageRef) :
    match ix.resolve a with
    | .ok c => Indexed root table a c
    | .error e => e = ⟨a⟩ ∧ ∀ c, ¬ Indexed root table a c := by
  unfold AnchorIndex.resolve
  cases h : ix.find? a with
  | some c => exact (hfind a c).1 h
  | none =>
    refine ⟨rfl, ?_⟩
    intro c hc
    rw [(hfind a c).2 hc] at h
    cases h

theorem resolvePage_of_find? (hfind : ∀ a c, ix.find? a = some c ↔ Indexed root table a c) (a : PageRef) :
    match ix.resolvePage a with
    | .ok c => Reached root table a c
    | .error e => e = ⟨a⟩ ∧ ∀ c, ¬ Reached root table a c := by
  have hreached : ∀ c, (ix.find? a).or (a.bare?.bind ix.find?) = some c ↔ Reached root table a c := by
    intro c
    rw [Option.or_eq_some_iff, Option.eq_none_iff_forall_ne_some, Option.bind_eq_some_iff]
    simp only [ne_eq, hfind, PageRef.bare?_eq_some_iff]
    constructor
    · rintro (hown | ⟨hnone, p, ⟨hhash, fragment, htext⟩, hpage⟩)
      · exact .itself hown
      · exact .page hnone htext hhash hpage
    · rintro (hown | ⟨hnone, htext, hhash, hpage⟩)
      · exact .inl hown
      · exact .inr ⟨hnone, _, ⟨hhash, _, htext⟩, hpage⟩
  rw [resolvePage_eq]
  cases hchain : (ix.find? a).or (a.bare?.bind ix.find?) with
  | some c => exact (hreached c).1 hchain
  | none =>
    refine ⟨rfl, ?_⟩
    intro c hc
    rw [(hreached c).2 hc] at hchain
    cases hchain

end

/-- Whatever rows have been offered to the table, it has those whose chain ends with their anchor, in their order. The
index of the table and a tree has an entry for an anchor exactly if the table has one or the tree shows it: that of the
table's first entry for it, otherwise the links that lead to the first node in the document at which the tree shows it.
Each of its chains ends with its anchor. Resolving an anchor gives its entry, and resolving it or its page that of the page
if there is none for the anchor itself and it has a fragment, or else an error that names the anchor as it was asked
for. -/
theorem built_holds (root : Node) (rows : List (PageRef × Chain)) (bootstrap : List PageRef) :
    let table := AnchorTable.insertEach {} rows
    table.entries = rows.filter AnchorTable.EndsThere ∧ (build root table bootstrap).Holds root table := by
  intro table
  have hbuilt : table.Built := AnchorTable.Built.empty.insertEach rows
  have hfind : ∀ a c, (build root table bootstrap).find? a = some c ↔ Indexed root table a c := by
    intro a c
    exact find?_build_eq_some_iff bootstrap
  have hmem : ∀ a c, (a, c) ∈ (build root table bootstrap).entries ↔ Indexed root table a c := by
    intro a c
    rw [← hfind, AnchorIndex.find?, build, lookup_firstEntries]
    exact mem_firstEntries
  refine ⟨AnchorTable.entries_insertEach {} rows, ?_⟩
  exact {
    contains := fun a => contains_build_iff bootstrap
    entries := hmem
    find? := hfind
    target := by
      rintro ⟨a, c⟩ hrow
      have hlast := getLast?_of_find? hbuilt ((hfind a c).2 ((hmem a c).1 hrow))
      exact List.getLast?_eq_some_iff.1 hlast
    resolve := resolve_of_find? hfind
    resolvePage := resolvePage_of_find? hfind }

end AnchorIndex
end DocNav
