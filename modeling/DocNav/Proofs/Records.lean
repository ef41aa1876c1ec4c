import DocNav.Proofs.Paths
import DocNav.Proofs.References
import DocNav.Record
/-!
# Records and the nodes that they describe

A record is addressed as its node is, and it offends if it has a key and no link. `Record.Describes` says which node a
record describes, apart from any check: none if it offends or has an offender below it.

Checking gives the nodes that are described (`toNode_eq_ok_iff`), and otherwise it names an offender before which there
is none in the document (`first_of_toNodes`). Main result: `checked_exactly`.
-/

namespace DocNav

/-- The node that a path leads to among siblings. -/
def Node.atAmong? (ns : List Node) : TreePath → Option Node
  | [] => none
  | i :: p => ns[i]?.bind (·.at? p)

namespace Record

/-! ## Paths in records -/

def children : Record → List Record
  | group _ _ rs => rs
  | leaf _ _ | keyed _ _ _ => []

/-- The record that a path leads to. -/
def at? (r : Record) : TreePath → Option Record
  | [] => some r
  | i :: p =>
    match r.children[i]? with
    | none => none
    | some c => c.at? p

/-- The record that a path leads to among siblings. -/
def atAmong? (rs : List Record) : TreePath → Option Record
  | [] => none
  | i :: p => rs[i]?.bind (·.at? p)

theorem at?_cons (r : Record) (i : Nat) (p : TreePath) : r.at? (i :: p) = atAmong? r.children (i :: p) := by
  rw [at?, atAmong?]
  cases r.children[i]? <;> rfl

/-- The error names the first offender in document order, by its path and its label. -/
structure Unlinked.FirstIn (u : Unlinked) (find : TreePath → Option Record) : Prop where
  offends : ∃ key, find u.path = some (.keyed u.label none key)
  first : ∀ p label key, find p = some (.keyed label none key) → u.path ≤ p

theorem Unlinked.FirstIn.unique {u v : Unlinked} {find : TreePath → Option Record} (hu : u.FirstIn find)
    (hv : v.FirstIn find) : u = v := by
  obtain ⟨key, hkey⟩ := hu.offends
  obtain ⟨key', hkey'⟩ := hv.offends
  have hpath : u.path = v.path := le_antisymm (hu.first _ _ _ hkey') (hv.first _ _ _ hkey)
  rw [← hpath, hkey] at hkey'
  cases u
  cases v
  cases hkey'
  cases hpath
  rfl

/-! ## The nodes that records describe -/

mutual
/-- The node of a record: of the same label and link, a leaf where there are no children, inline with the nodes of the
records that are its children, and deferred where they are a key. The empty key is for the handle that the page of the
link gives. -/
inductive Describes : Record → Node → Prop
  | leaf {label : String} {link : Option String} :
      Describes (.leaf label link) (.leaf label (link.map PageRef.mk))
  | group {label : String} {link : Option String} {rs : List Record} {ns : List Node} :
      DescribesAll rs ns → Describes (.group label link rs) (.inline label (link.map PageRef.mk) ns)
  | keyed {label link key : String} :
      key ≠ "" → Describes (.keyed label (some link) key) (.deferred label ⟨link⟩ ⟨key⟩)
  | derived {label link : String} {h : Handle} :
      h.DerivedFrom ⟨link⟩ → Describes (.keyed label (some link) "") (.deferred label ⟨link⟩ h)

/-- Record by record, in their order. -/
inductive DescribesAll : List Record → List Node → Prop
  | nil : DescribesAll [] []
  | cons {r : Record} {rs : List Record} {n : Node} {ns : List Node} :
      Describes r n → DescribesAll rs ns → DescribesAll (r :: rs) (n :: ns)
end

theorem DescribesAll.getElem? {rs : List Record} {ns : List Node} (h : DescribesAll rs ns) {i : Nat} {n : Node}
    (hn : ns[i]? = some n) : ∃ r, rs[i]? = some r ∧ Describes r n := by
  induction rs generalizing ns i with
  | nil =>
    cases h
    cases hn
  | cons r rs ih =>
    cases h with
    | cons hr hrs =>
      cases i with
      | zero =>
        cases hn
        exact ⟨r, rfl, hr⟩
      | succ i => exact ih hrs hn

/-- What is at a path of the node is described by what is there in the record. -/
theorem Describes.at? {r : Record} {n m : Node} {p : TreePath} (h : Describes r n) (hm : n.at? p = some m) :
    ∃ s, r.at? p = some s ∧ Describes s m := by
  induction p generalizing r n with
  | nil =>
    cases hm
    exact ⟨r, rfl, h⟩
  | cons i p ih =>
    rw [Node.at?_cons] at hm
    obtain ⟨c, hc, hcm⟩ := Option.bind_eq_some_iff.1 hm
    cases h with
    | leaf => cases hc
    | keyed _ => cases hc
    | derived _ => cases hc
    | group hall =>
      obtain ⟨s, hs, hsc⟩ := hall.getElem? hc
      obtain ⟨t, ht, htm⟩ := ih hsc hcm
      refine ⟨t, ?_, htm⟩
      rw [at?_cons, atAmong?, children, hs, Option.bind_some, ht]

theorem DescribesAll.atAmong? {rs : List Record} {ns : List Node} {m : Node} {p : TreePath} (h : DescribesAll rs ns)
    (hm : Node.atAmong? ns p = some m) : ∃ s, Record.atAmong? rs p = some s ∧ Describes s m := by
  cases p with
  | nil => cases hm
  | cons i p =>
    obtain ⟨n, hn, hm⟩ := Option.bind_eq_some_iff.1 hm
    obtain ⟨r, hr, hrn⟩ := h.getElem? hn
    obtain ⟨s, hs, hsm⟩ := hrn.at? hm
    exact ⟨s, Option.bind_eq_some_iff.2 ⟨r, hr, hs⟩, hsm⟩

theorem Describes.link_of_deferred {r : Record} {n : Node} (h : Describes r n) (hd : n.isDeferred = true) :
    ∃ label link key, r = .keyed label (some link) key ∧ n.link = some ⟨link⟩ := by
  cases h with
  | leaf => cases hd
  | group _ => cases hd
  | keyed _ => exact ⟨_, _, _, rfl, rfl⟩
  | derived _ => exact ⟨_, _, _, rfl, rfl⟩

/-! ## What checking gives -/

mutual
theorem toNode_eq_ok_iff (path : TreePath) (n : Node) : (r : Record) →
    (toNode path r = .ok n ↔ Describes r n)
  | .leaf label link => by
    rw [toNode]
    constructor
    · rintro ⟨⟩
      exact .leaf
    · rintro ⟨⟩
      rfl
  | .keyed label none key => by
    rw [toNode]
    constructor
    · rintro ⟨⟩
    · rintro ⟨⟩
  | .keyed label (some link) key => by
    rw [toNode]
    by_cases hkey : key = ""
    · subst hkey
      rw [if_pos rfl]
      constructor
      · rintro ⟨⟩
        exact .derived (Handle.derivedFrom_iff.2 rfl)
      · intro h
        cases h with
        | keyed hne => exact absurd rfl hne
        | derived hh => rw [Handle.derivedFrom_iff.1 hh]
    · rw [if_neg hkey]
      constructor
      · rintro ⟨⟩
        exact .keyed hkey
      · intro h
        cases h with
        | keyed _ => rfl
        | derived _ => exact absurd rfl hkey
  | .group label link rs => by
    rw [toNode]
    constructor
    · intro h
      split at h
      · cases h
      · rename_i ns hns
        cases h
        exact .group ((toNodes_eq_ok_iff path 0 ns rs).1 hns)
    · intro h
      cases h with
      | group hall =>
        rw [(toNodes_eq_ok_iff path 0 _ rs).2 hall]

theorem toNodes_eq_ok_iff (path : TreePath) (index : Nat) (ns : List Node) : (rs : List Record) →
    (toNodes path index rs = .ok ns ↔ DescribesAll rs ns)
  | [] => by
    rw [toNodes]
    constructor
    · rintro ⟨⟩
      exact .nil
    · rintro ⟨⟩
      rfl
  | r :: rs => by
    rw [toNodes]
    constructor
    · intro h
      split at h
      · cases h
      · rename_i n hn
        split at h
        · cases h
        · rename_i ms hms
          cases h
          exact .cons ((toNode_eq_ok_iff _ n r).1 hn) ((toNodes_eq_ok_iff _ _ ms rs).1 hms)
    · intro h
      cases h with
      | cons hr hrs =>
        rw [(toNode_eq_ok_iff _ _ r).2 hr]
        simp only [(toNodes_eq_ok_iff _ _ _ rs).2 hrs]
end

/-! ## The first offender -/

section
variable {find : TreePath → Option Record} {r : Record} {rs : List Record} {u : Unlinked}

/-- At no path is there a record with a key and no link. -/
def Clean (find : TreePath → Option Record) : Prop :=
  ∀ p label key, find p ≠ some (.keyed label none key)

theorem clean_atAmong?_cons : Clean (atAmong? (r :: rs)) ↔ Clean r.at? ∧ Clean (atAmong? rs) := by
  constructor
  · intro h
    constructor
    · intro p
      exact h (0 :: p)
    · intro p
      cases p with
      | nil => intro _ _ hnone; cases hnone
      | cons i p => exact h ((i + 1) :: p)
  · rintro ⟨hr, hrs⟩ p
    cases p with
    | nil => intro _ _ hnone; cases hnone
    | cons i p =>
      cases i with
      | zero => exact hr p
      | succ i => exact hrs (i :: p)

mutual
theorem clean_of_describes {n : Node} : (r : Record) → Describes r n → Clean r.at?
  | .leaf _ _, _ => by
    rintro (_ | ⟨i, p⟩) _ _ ⟨⟩
  | .keyed _ none _, h => by cases h
  | .keyed _ (some _) _, _ => by
    rintro (_ | ⟨i, p⟩) _ _ ⟨⟩
  | .group _ _ rs, h => by
    cases h with
    | group hall =>
      have hrs := clean_of_describesAll rs hall
      rintro (_ | ⟨i, p⟩) label key
      · rintro ⟨⟩
      · rw [at?_cons]
        exact hrs (i :: p) label key

theorem clean_of_describesAll {ns : List Node} : (rs : List Record) → DescribesAll rs ns → Clean (atAmong? rs)
  | [], _ => by
    rintro (_ | ⟨i, p⟩) _ _ ⟨⟩
  | r :: rs, h => by
    cases h with
    | cons hr hrs => exact clean_atAmong?_cons.2 ⟨clean_of_describes r hr, clean_of_describesAll rs hrs⟩
end

theorem Unlinked.FirstIn.not_clean (h : u.FirstIn find) : ¬ Clean find := by
  intro hclean
  obtain ⟨key, hkey⟩ := h.offends
  exact hclean _ _ _ hkey

/-- What comes first in the first record comes first among all. -/
theorem Unlinked.FirstIn.head {label : String} {p : TreePath} (h : FirstIn ⟨label, p⟩ r.at?) :
    FirstIn ⟨label, 0 :: p⟩ (atAmong? (r :: rs)) where
  offends := h.offends
  first q label' key hq := by
    cases q with
    | nil => cases hq
    | cons j q =>
      rw [TreePath.cons_le_cons]
      cases j with
      | zero => exact .inr ⟨rfl, h.first q label' key hq⟩
      | succ j => exact .inl j.succ_pos

theorem Unlinked.FirstIn.tail {label : String} {i : Nat} {p : TreePath} (hr : Clean r.at?)
    (h : FirstIn ⟨label, i :: p⟩ (atAmong? rs)) : FirstIn ⟨label, (i + 1) :: p⟩ (atAmong? (r :: rs)) where
  offends := h.offends
  first q label' key hq := by
    cases q with
    | nil => cases hq
    | cons j q =>
      cases j with
      | zero => exact absurd hq (hr q label' key)
      | succ j =>
        rw [TreePath.cons_le_cons]
        obtain hij | ⟨rfl, hpq⟩ := TreePath.cons_le_cons.1 (h.first (j :: q) label' key hq)
        · exact .inl (Nat.succ_lt_succ hij)
        · exact .inr ⟨rfl, hpq⟩

/-- What comes first among the children comes first in the record, which does not offend itself. -/
theorem Unlinked.FirstIn.group {label l : String} {k : Option String} {i : Nat} {p : TreePath}
    (h : FirstIn ⟨label, i :: p⟩ (atAmong? rs)) : FirstIn ⟨label, i :: p⟩ (group l k rs).at? where
  offends := by
    rw [at?_cons]
    exact h.offends
  first q label' key hq := by
    cases q with
    | nil => cases hq
    | cons j q =>
      rw [at?_cons] at hq
      exact h.first (j :: q) label' key hq

mutual
/-- The error names the first offender by its path from the record at which checking began. -/
theorem first_of_toNode (path : TreePath) : (r : Record) → toNode path r = .error u →
    ∃ p, u.path = path ++ p ∧ Unlinked.FirstIn ⟨u.label, p⟩ r.at?
  | .leaf _ _, h => by cases h
  | .keyed label none key, h => by
    cases h
    refine ⟨[], (List.append_nil path).symm, ⟨key, rfl⟩, ?_⟩
    intro p _ _ _
    exact TreePath.nil_le p
  | .keyed _ (some _) _, h => by cases h
  | .group label link rs, h => by
    rw [toNode] at h
    split at h
    · rename_i hrs
      cases h
      obtain ⟨i, p, hpath, hfirst⟩ := first_of_toNodes path 0 rs hrs
      rw [Nat.zero_add] at hpath
      exact ⟨i :: p, hpath, hfirst.group⟩
    · cases h

theorem first_of_toNodes (path : TreePath) (index : Nat) : (rs : List Record) → toNodes path index rs = .error u →
    ∃ i p, u.path = path ++ (index + i) :: p ∧ Unlinked.FirstIn ⟨u.label, i :: p⟩ (atAmong? rs)
  | [], h => by cases h
  | r :: rs, h => by
    rw [toNodes] at h
    split at h
    · rename_i hr
      cases h
      obtain ⟨p, hpath, hfirst⟩ := first_of_toNode (path ++ [index]) r hr
      refine ⟨0, p, ?_, hfirst.head⟩
      rw [hpath, List.append_assoc]
      rfl
    · rename_i n hn
      split at h
      · rename_i hrs
        cases h
        obtain ⟨i, p, hpath, hfirst⟩ := first_of_toNodes path (index + 1) rs hrs
        have hclean := clean_of_describes r ((toNode_eq_ok_iff _ n r).1 hn)
        refine ⟨i + 1, p, ?_, hfirst.tail hclean⟩
        rw [hpath, Nat.add_assoc, Nat.add_comm 1 i]
      · cases h
end

end

/-! ## Exact checks -/

/-- The result of a check of the records that are found at paths, where success mirrors them and failure names one. -/
structure Exact {α : Type} (result : Except Unlinked α) (find : TreePath → Option Record) (Mirrors : α → Prop)
    (nodeAt : α → TreePath → Option Node) : Prop where
  /-- It succeeds exactly where every record with a key has a link. -/
  succeeds : (∃ a, result = .ok a) ↔ ∀ p label link key, find p = some (.keyed label link key) → link.isSome
  ok : ∀ a, result = .ok a ↔ Mirrors a
  error : ∀ u, result = .error u ↔ u.FirstIn find
  /-- A deferred node has the link of the record with a key that is found where the node is. -/
  linked : ∀ a p n, result = .ok a → nodeAt a p = some n → n.isDeferred = true →
    ∃ label link key, find p = some (.keyed label (some link) key) ∧ n.link = some ⟨link⟩

theorem clean_iff {find : TreePath → Option Record} :
    Clean find ↔ ∀ p label link key, find p = some (.keyed label link key) → link.isSome := by
  constructor
  · intro h p label link key hp
    cases link with
    | none => exact absurd hp (h p label key)
    | some _ => rfl
  · intro h p label key hp
    exact absurd (h p label none key hp) (by decide)

/-- A check is exact if it gives what mirrors the records, which they have only where none offends, and an error if there
is a first offender. -/
theorem Exact.of {α : Type} {result : Except Unlinked α} {find : TreePath → Option Record} {Mirrors : α → Prop}
    {nodeAt : α → TreePath → Option Node} (hok : ∀ a, result = .ok a ↔ Mirrors a)
    (hclean : ∀ a, Mirrors a → Clean find) (herror : ∀ u, result = .error u → u.FirstIn find)
    (hat : ∀ a p n, Mirrors a → nodeAt a p = some n → ∃ r, find p = some r ∧ Describes r n) :
    Exact result find Mirrors nodeAt where
  succeeds := by
    rw [← clean_iff]
    constructor
    · rintro ⟨a, ha⟩
      exact hclean a ((hok a).1 ha)
    · intro h
      cases hresult : result with
      | ok a => exact ⟨a, rfl⟩
      | error u => exact absurd h (herror u hresult).not_clean
  ok := hok
  error u := by
    constructor
    · exact herror u
    · intro hu
      cases hresult : result with
      | ok a => exact absurd (hclean a ((hok a).1 hresult)) hu.not_clean
      | error v => rw [hu.unique (herror v hresult)]
  linked a p n ha hn hd := by
    obtain ⟨r, hr, hrn⟩ := hat a p n ((hok a).1 ha) hn
    obtain ⟨label, link, key, rfl, hlink⟩ := hrn.link_of_deferred hd
    exact ⟨label, link, key, hr, hlink⟩

/-- Checking a record, or the records of a fragment, is exact: it succeeds where every record with a key has a link, with
the nodes that the records describe, and otherwise it fails with the label and the path of the first record in the document
that has a key and no link. -/
theorem checked_exactly :
    (∀ r, Exact (toNode [] r) r.at? r.Describes Node.at?) ∧
      ∀ rs, Exact (toNodes [] 0 rs) (atAmong? rs) (DescribesAll rs) Node.atAmong? := by
  constructor
  · intro r
    apply Exact.of (fun n => toNode_eq_ok_iff [] n r) (fun _ => clean_of_describes r)
    · intro u hu
      obtain ⟨p, hpath, hfirst⟩ := first_of_toNode [] r hu
      rw [List.nil_append] at hpath
      subst hpath
      exact hfirst
    · intro n p m hn hm
      exact hn.at? hm
  · intro rs
    apply Exact.of (fun ns => toNodes_eq_ok_iff [] 0 ns rs) (fun _ => clean_of_describesAll rs)
    · intro u hu
      obtain ⟨i, p, hpath, hfirst⟩ := first_of_toNodes [] 0 rs hu
      rw [List.nil_append, Nat.zero_add] at hpath
      rw [← hpath] at hfirst
      exact hfirst
    · intro ns p m hns hm
      exact hns.atAmong? hm

end Record
end DocNav
