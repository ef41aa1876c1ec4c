import DocNav.Proofs.Desk
/-!
# One hierarchy

Whatever happens to an engine and whatever the source answers at each fetch, its trees are unfoldings of one
hierarchy: that of the root it started with and of one fragment for each handle.

Main result: `unfolds_one_hierarchy`. Every tree is the root with deferred nodes replaced by what was loaded for
their handles, every later tree is an earlier one with more of them replaced, and places that were deferred
under one handle show the same children.
-/

namespace DocNav

/-- What is shown of a node beside its children. -/
def Node.heading (n : Node) : String × Option PageRef := (n.label, n.link)

theorem Unfolds.heading_eq {K : Fragments} {n m : Node} (h : Unfolds K n m) : m.heading = n.heading := by
  rw [Node.heading, Node.heading, h.label_eq, h.link_eq]

/-- A fetch of the handle has brought the fragment. -/
def Loader.Brought (l : Loader) (h : Handle) (fragment : List Node) : Prop :=
  ∃ f ∈ l.fetches, f.handle = h ∧ f.fragment? = some fragment

theorem Loader.Sound.brought_iff {l : Loader} (hl : l.Sound) {h : Handle} {fragment : List Node} :
    l.Brought h fragment ↔ l.fragment? h = some fragment := by
  constructor
  · rintro ⟨⟨h', o⟩, hf, rfl, hb⟩
    obtain ⟨id, hid⟩ := List.getElem?_of_mem hf
    exact fragment?_of_fetch hl (by rw [hid, ← Fetch.fragment?_eq_some.1 hb])
  · intro hk
    obtain ⟨id, hf⟩ := fetch_of_fragment hk
    exact ⟨_, List.mem_of_getElem? hf, rfl, rfl⟩

/-- The node at the path is deferred under the handle. -/
def Engine.DefersAt (e : Engine) (p : TreePath) (h : Handle) : Prop :=
  ∃ n, e.tree.at? p = some n ∧ n.handle? = some h

/-- A place is deferred under a handle in the hierarchy, if it is so in any of its trees. -/
theorem Engine.Sound.place {R : Node} {e : Engine} (hs : e.Sound R) {p : TreePath} {h : Handle}
    (hp : e.DefersAt p h) : ∃ n, R.atIn? e.loader.fragment? p = some n ∧ n.handle? = some h := by
  obtain ⟨d, hd, hh⟩ := hp
  obtain ⟨n, hn, hnd⟩ := hs.tree.atIn? hd
  obtain rfl := hnd.eq_of_deferred (by simp [Node.isDeferred, hh])
  exact ⟨d, hn, hh⟩

/-- Where a place of the hierarchy is deferred but not in the tree, the tree shows what was loaded. -/
theorem Engine.Sound.shows {R : Node} {e : Engine} (hs : e.Sound R) {K : Fragments}
    (hK : Fragments.Sub e.loader.fragment? K) {p : TreePath} {n d : Node} {h : Handle}
    (hn : R.atIn? K p = some n) (hh : n.handle? = some h) (hd : e.tree.at? p = some d)
    (hopen : d.isDeferred = false) :
    ∃ fragment, e.loader.fragment? h = some fragment ∧ UnfoldsAll e.loader.fragment? fragment d.children := by
  obtain ⟨n', hn', hnd⟩ := hs.tree.atIn? hd
  obtain rfl : n' = n := Option.some.inj ((Node.atIn?_of_sub hK hn').symm.trans hn)
  obtain ⟨fragment, hk⟩ := hnd.known hopen hh
  have hcs := hnd.children hopen
  cases n' with
  | deferred _ _ h' =>
    cases hh
    simp only [Node.childrenIn, hk, Option.getD_some] at hcs
    exact ⟨fragment, hk, hcs⟩
  | _ => cases hh

namespace Desk

/-- The engine after the first events of a run. -/
def engineAt (data : NavData) (settings : Settings) (remembered : Option Bool) (events : List Event) (i : Nat) :
    Engine :=
  ((start data settings remembered).after (events.take i)).engine

section
variable (data : NavData) (settings : Settings) (remembered : Option Bool) (events : List Event)

theorem engineAt_sound (i : Nat) : (engineAt data settings remembered events i).Sound data.root :=
  (after_sound (start_sound data settings remembered) _).2.engine

theorem engineAt_grows {i j : Nat} (hij : i ≤ j) :
    (engineAt data settings remembered events i).Grows (answeredIn ((events.drop i).take (j - i)))
      (engineAt data settings remembered events j) := by
  have htake : events.take j = events.take i ++ (events.drop i).take (j - i) := by
    rw [← List.take_add, Nat.add_sub_cancel' hij]
  unfold engineAt
  rw [htake, after_append]
  exact (after_sound (after_sound (start_sound data settings remembered) _).2 _).1

theorem engineAt_attested (i : Nat) :
    (engineAt data settings remembered events i).loader.Attested (answeredIn (events.take i)) :=
  (after_sound (start_sound data settings remembered) _).1.moves.attested (Loader.attested_empty _)

/-- Along any run, each handle has one fragment, which the source answered and which every fetch of the handle
that succeeds brings. Each tree is the root with deferred nodes, recursively, replaced by inline nodes that hold
their handle's fragment, and a later tree is an earlier one with more of them replaced. So places that were
deferred under one handle, at whatever times, show the same children at whatever times they show any. -/
theorem unfolds_one_hierarchy :
    let run := engineAt data settings remembered events
    let known := fun i => (run i).loader.fragment?
    (∀ i h fragment, (run i).loader.Brought h fragment ↔ known i h = some fragment) ∧
    (∀ i h fragment, known i h = some fragment → answeredIn (events.take i) h (.ok fragment)) ∧
    (∀ i j, i ≤ j → Fragments.Sub (known i) (known j)) ∧
    (∀ i, Unfolds (known i) data.root (run i).tree) ∧
    (∀ i j, i ≤ j → Unfolds (known j) (run i).tree (run j).tree) ∧
    ∀ h p q, (∃ i, (run i).DefersAt p h) → (∃ i, (run i).DefersAt q h) →
      ∀ i j n m, (run i).tree.at? p = some n → (run j).tree.at? q = some m → n.isDeferred = false →
        m.isDeferred = false →
        n.children.map Node.heading = m.children.map Node.heading ∧
          ∃ fragment, known i h = some fragment ∧ known j h = some fragment ∧
            UnfoldsAll (known i) fragment n.children ∧ UnfoldsAll (known j) fragment m.children := by
  intro run known
  have hs : ∀ i, (run i).Sound data.root := engineAt_sound data settings remembered events
  have hsub : ∀ i j, i ≤ j → Fragments.Sub (known i) (known j) := fun i j hij =>
    (engineAt_grows data settings remembered events hij).sub (hs i)
  refine ⟨fun i h fragment => (hs i).loader.brought_iff,
    fun i h fragment hk => (engineAt_attested data settings remembered events i).of_fragment hk, hsub,
    fun i => (hs i).tree, fun i j hij => (engineAt_grows data settings remembered events hij).tree, ?_⟩
  rintro h p q ⟨i₀, hp⟩ ⟨j₀, hq⟩ i j n m hn hm hno hmo
  -- All that was known at any of these times is known at the last of them.
  let last := max (max i₀ i) (max j₀ j)
  have hlast : ∀ k, k ≤ last → Fragments.Sub (known k) (known last) := fun k => hsub k last
  obtain ⟨a, ha, hah⟩ := (hs i₀).place hp
  obtain ⟨b, hb, hbh⟩ := (hs j₀).place hq
  have ha' := Node.atIn?_of_sub (hlast i₀ (by omega)) ha
  have hb' := Node.atIn?_of_sub (hlast j₀ (by omega)) hb
  obtain ⟨c, hc, hcn⟩ := (hs i).shows (hlast i (by omega)) ha' hah hn hno
  obtain ⟨c', hc', hcm⟩ := (hs j).shows (hlast j (by omega)) hb' hbh hm hmo
  obtain rfl : c = c' :=
    Option.some.inj ((hlast i (by omega) h c hc).symm.trans (hlast j (by omega) h c' hc'))
  have hheadings := (hcn.map_eq Unfolds.heading_eq).trans (hcm.map_eq Unfolds.heading_eq).symm
  exact ⟨hheadings, c, hc, hc', hcn, hcm⟩

end

end Desk
end DocNav
