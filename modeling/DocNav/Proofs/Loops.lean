import DocNav.Session
import DocNav.Proofs.Rounds
/-!
# Whether loading ends

Without a depth, loading goes on while a deferred node is left that was not warned of. A fragment's deferred nodes
are loaded a round after it, so the rounds follow the fragments from one to those it names.

Main result: `Outline.ends_unless_fragments_loop`. Where no fragment that the tree leads to comes back to itself,
loading ends within one round more than there are fragments; where one does, it goes on for ever.
-/

namespace DocNav

open Relation

/-! ## Handles of deferred nodes -/

namespace Node

mutual
/-- The handles of the deferred nodes, in document order. -/
def handles : Node → List Handle
  | leaf _ _ => []
  | inline _ _ cs => handlesAll cs
  | deferred _ _ h => [h]

def handlesAll : List Node → List Handle
  | [] => []
  | n :: ns => n.handles ++ handlesAll ns
end

theorem mem_handlesAll {h : Handle} {cs : List Node} : h ∈ handlesAll cs ↔ ∃ c ∈ cs, h ∈ c.handles := by
  induction cs with
  | nil => simp [handlesAll]
  | cons c cs ih => simp [handlesAll, ih]

theorem mem_handles_of_at? {h : Handle} {n m : Node} {p : TreePath} (hm : n.at? p = some m)
    (hh : m.handle? = some h) : h ∈ n.handles := by
  induction p generalizing n with
  | nil =>
    cases hm
    cases m with
    | deferred l k h' =>
      cases hh
      exact List.mem_singleton_self h
    | _ => cases hh
  | cons i p ih =>
    rw [at?_cons] at hm
    obtain ⟨c, hc, hcm⟩ := Option.bind_eq_some_iff.1 hm
    obtain ⟨l, k, cs, rfl⟩ := inline_of_child hc
    rw [handles]
    exact mem_handlesAll.2 ⟨c, List.mem_of_getElem? hc, ih hcm⟩

mutual
theorem at?_of_mem_handles {h : Handle} : (n : Node) → h ∈ n.handles →
    ∃ p m, n.at? p = some m ∧ m.handle? = some h
  | .leaf _ _, hh => by cases hh
  | .deferred l k h', hh => by
    obtain rfl := List.mem_singleton.1 hh
    exact ⟨[], _, rfl, rfl⟩
  | .inline l k cs, hh => by
    obtain ⟨i, c, p, m, hc, hm, hmh⟩ := at?_of_mem_handlesAll cs hh
    refine ⟨i :: p, m, ?_, hmh⟩
    rw [at?_cons]
    exact Option.bind_eq_some_iff.2 ⟨c, hc, hm⟩

theorem at?_of_mem_handlesAll {h : Handle} : (cs : List Node) → h ∈ handlesAll cs →
    ∃ (i : Nat) (c : Node) (p : TreePath) (m : Node), cs[i]? = some c ∧ c.at? p = some m ∧ m.handle? = some h
  | [], hh => by cases hh
  | c :: cs, hh => by
    rcases List.mem_append.1 hh with hh | hh
    · obtain ⟨p, m, hm, hmh⟩ := at?_of_mem_handles c hh
      exact ⟨0, c, p, m, rfl, hm, hmh⟩
    · obtain ⟨i, c', p, m, hc, hm, hmh⟩ := at?_of_mem_handlesAll cs hh
      exact ⟨i + 1, c', p, m, hc, hm, hmh⟩
end

end Node

/-! ## Fragments that name fragments -/

namespace Fragments

variable {K : Fragments} {h h' : Handle} {n : Node}

/-- The fragment of the first handle has a deferred node of the second. -/
def Leads (K : Fragments) (h h' : Handle) : Prop := ∃ fragment, K h = some fragment ∧ h' ∈ Node.handlesAll fragment

theorem Leads.ne_none (hl : K.Leads h h') : K h ≠ none := by
  obtain ⟨fragment, hK, -⟩ := hl
  simp [hK]

/-- The node leads to a fragment that leads back to itself. -/
def Loops (K : Fragments) (n : Node) : Prop :=
  ∃ r ∈ n.handles, ∃ h, ReflTransGen K.Leads r h ∧ TransGen K.Leads h h

/-- Handles that the node leads to, the latest first: each is named by the fragment of the next one, and the node
has the last one. -/
inductive Descent (K : Fragments) (n : Node) : List Handle → Prop
  | start {h : Handle} : h ∈ n.handles → Descent K n [h]
  | next {h h' : Handle} {hs : List Handle} : Descent K n (h :: hs) → K.Leads h h' → Descent K n (h' :: h :: hs)

/-- All that is on the way leads to the latest handle. -/
theorem Descent.transGen {hs : List Handle} (hd : K.Descent n (h :: hs)) : ∀ g ∈ hs, TransGen K.Leads g h := by
  induction hs generalizing h with
  | nil => exact fun g hg => absurd hg List.not_mem_nil
  | cons f hs ih =>
    cases hd with
    | next hd hl =>
      intro g hg
      rcases List.mem_cons.1 hg with rfl | hg
      · exact .single hl
      · exact (ih hd g hg).tail hl

theorem Descent.reached {hs : List Handle} (hd : K.Descent n (h :: hs)) :
    ∃ r ∈ n.handles, ReflTransGen K.Leads r h := by
  induction hs generalizing h with
  | nil =>
    cases hd with
    | start hh => exact ⟨h, hh, .refl⟩
  | cons f hs ih =>
    cases hd with
    | next hd hl =>
      obtain ⟨r, hr, hrf⟩ := ih hd
      exact ⟨r, hr, hrf.tail hl⟩

/-- Without a loop, no handle comes twice. -/
theorem Descent.nodup {hs : List Handle} (hloop : ¬ K.Loops n) (hd : K.Descent n hs) : hs.Nodup := by
  induction hd with
  | start _ => exact List.nodup_singleton _
  | @next h h' hs hd hl ih =>
    refine List.nodup_cons.2 ⟨fun hmem => hloop ?_, ih⟩
    obtain ⟨r, hr, hrh⟩ := hd.reached
    exact ⟨r, hr, h', hrh.tail hl, (hd.next hl).transGen h' hmem⟩

/-- All fragments on the way are there. -/
theorem Descent.ne_none {hs : List Handle} (hd : K.Descent n (h :: hs)) (hh : K h ≠ none) :
    ∀ g ∈ h :: hs, K g ≠ none := by
  intro g hg
  rcases List.mem_cons.1 hg with rfl | hg
  · exact hh
  · obtain ⟨c, hgc, -⟩ := TransGen.head'_iff.1 (hd.transGen g hg)
    exact hgc.ne_none

/-- Without a loop, a way to a fragment takes no more fragments than there are. -/
theorem Descent.length_le {hs : List Handle} (hfinite : {h | K h ≠ none}.Finite) (hloop : ¬ K.Loops n)
    (hd : K.Descent n (h :: hs)) (hh : K h ≠ none) : (h :: hs).length ≤ {h | K h ≠ none}.ncard := by
  have hsub : (↑(h :: hs).toFinset : Set Handle) ⊆ {h | K h ≠ none} := by
    intro g hg
    exact hd.ne_none hh g (by simpa using hg)
  calc (h :: hs).length = (h :: hs).toFinset.card := (List.toFinset_card_of_nodup (hd.nodup hloop)).symm
    _ = (↑(h :: hs).toFinset : Set Handle).ncard := (Set.ncard_coe_finset _).symm
    _ ≤ {h | K h ≠ none}.ncard := Set.ncard_le_ncard hsub hfinite

/-- Handles of which each fragment names lower ones only do not loop. -/
theorem not_loops_of_rank (P : Handle → Prop) (rank : Handle → Nat) (hroot : ∀ r ∈ n.handles, P r)
    (hstep : ∀ g h, P g → K.Leads g h → P h ∧ rank h < rank g) : ¬ K.Loops n := by
  rintro ⟨r, hr, h, hrh, hh⟩
  have hreached : ∀ g, ReflTransGen K.Leads r g → P g := by
    intro g hg
    induction hg with
    | refl => exact hroot r hr
    | tail _ hl ih => exact (hstep _ _ ih hl).1
  have hlower : ∀ g, TransGen K.Leads h g → P g ∧ rank g < rank h := by
    intro g hg
    induction hg with
    | single hl => exact hstep _ _ (hreached h hrh) hl
    | tail _ hl ih =>
      obtain ⟨hPg, hlt⟩ := hstep _ _ ih.1 hl
      exact ⟨hPg, hlt.trans ih.2⟩
  exact lt_irrefl _ (hlower h hh).2

end Fragments

theorem Library.ofSource_answer (library : Library) : Fragments.ofSource library.answer =
    fun h => if h ∈ library.failing then none else library.fragments.lookup h := by
  funext h
  rw [Fragments.ofSource, answer]
  split
  · rfl
  · cases library.fragments.lookup h <;> rfl

/-- A library answers with fragments that it holds. -/
theorem Library.answered_subset (library : Library) :
    {h | ∃ fragment, library.answer h = .ok fragment} ⊆ ↑(library.fragments.map Prod.fst).toFinset := by
  rintro h ⟨fragment, hanswer⟩
  have hheld : Fragments.ofSource library.answer h = some fragment := by
    rw [Fragments.ofSource, hanswer]
    rfl
  rw [ofSource_answer] at hheld
  have hlookup : library.fragments.lookup h = some fragment := (Option.ite_none_left_eq_some.1 hheld).2
  obtain ⟨before, behind, hfragments, -⟩ := List.lookup_eq_some_iff.1 hlookup
  simp [hfragments]

theorem Library.finite_answered (library : Library) : {h | ∃ fragment, library.answer h = .ok fragment}.Finite :=
  (Finset.finite_toSet _).subset library.answered_subset

theorem Library.ncard_answered_le (library : Library) :
    {h | ∃ fragment, library.answer h = .ok fragment}.ncard ≤ library.fragments.length := by
  calc {h | ∃ fragment, library.answer h = .ok fragment}.ncard
      ≤ (↑(library.fragments.map Prod.fst).toFinset : Set Handle).ncard :=
        Set.ncard_le_ncard library.answered_subset (Finset.finite_toSet _)
    _ = (library.fragments.map Prod.fst).toFinset.card := Set.ncard_coe_finset _
    _ ≤ (library.fragments.map Prod.fst).length := List.toFinset_card_le _
    _ = library.fragments.length := List.length_map _

/-! ## What a round does to the handles -/

namespace Outline

variable {K : Fragments} {h : Handle}

theorem opens_none (level : Nat) : opens none level = true := rfl

mutual
/-- The handles after a round are those without a fragment and those that the fragments name. -/
theorem mem_handles_grown {level : Nat} : (n : Node) → h ∈ (grown K none level n).handles ↔
    (h ∈ n.handles ∧ K h = none) ∨ ∃ g ∈ n.handles, K.Leads g h
  | .leaf l k => by simp [grown, Node.handles]
  | .deferred l k g => by
    rw [grown, if_pos (opens_none level), Node.opened]
    cases hK : K g with
    | none =>
      have hleads : ¬ K.Leads g h := fun hl => hl.ne_none hK
      constructor
      · intro hh
        obtain rfl := List.mem_singleton.1 hh
        exact .inl ⟨hh, hK⟩
      · rintro (⟨hh, -⟩ | ⟨f, hf, hl⟩)
        · exact hh
        · obtain rfl := List.mem_singleton.1 hf
          exact absurd hl hleads
    | some fragment =>
      constructor
      · intro hh
        exact .inr ⟨g, List.mem_singleton_self g, fragment, hK, hh⟩
      · rintro (⟨hh, hnone⟩ | ⟨f, hf, fragment', hK', hh⟩)
        · obtain rfl := List.mem_singleton.1 hh
          rw [hK] at hnone
          cases hnone
        · obtain rfl := List.mem_singleton.1 hf
          rw [hK] at hK'
          cases hK'
          exact hh
  | .inline l k cs => by
    rw [grown, if_pos (opens_none level)]
    exact mem_handles_grownAll cs

theorem mem_handles_grownAll {level : Nat} : (cs : List Node) → (h ∈ Node.handlesAll (grownAll K none level cs) ↔
    (h ∈ Node.handlesAll cs ∧ K h = none) ∨ ∃ g ∈ Node.handlesAll cs, K.Leads g h)
  | [] => by simp [grownAll, Node.handlesAll]
  | c :: cs => by
    simp only [grownAll, Node.handlesAll, List.mem_append, mem_handles_grown c, mem_handles_grownAll cs]
    constructor
    · rintro ((⟨hh, hK⟩ | ⟨g, hg, hl⟩) | (⟨hh, hK⟩ | ⟨g, hg, hl⟩))
      · exact .inl ⟨.inl hh, hK⟩
      · exact .inr ⟨g, .inl hg, hl⟩
      · exact .inl ⟨.inr hh, hK⟩
      · exact .inr ⟨g, .inr hg, hl⟩
    · rintro (⟨hh | hh, hK⟩ | ⟨g, hg | hg, hl⟩)
      · exact .inl (.inl ⟨hh, hK⟩)
      · exact .inr (.inl ⟨hh, hK⟩)
      · exact .inl (.inr ⟨g, hg, hl⟩)
      · exact .inr (.inr ⟨g, hg, hl⟩)
end

/-- A round does not get a tree out of a loop. -/
theorem loops_grown {n : Node} (hn : K.Loops n) (level : Nat) : K.Loops (grown K none level n) := by
  obtain ⟨r, hr, h, hrh, hh⟩ := hn
  obtain ⟨c, hrc, hch⟩ : ∃ c, K.Leads r c ∧ ReflTransGen K.Leads c h := by
    rcases ReflTransGen.cases_head hrh with rfl | ⟨c, hrc, hch⟩
    · exact TransGen.head'_iff.1 hh
    · exact ⟨c, hrc, hch⟩
  exact ⟨c, (mem_handles_grown n).2 (.inr ⟨r, hr, hrc⟩), h, hch, hh⟩

namespace Loaded

variable {source : Handle → Answer} {x : Loaded}

/-- Once nothing is left to try, every fragment that is not loaded cannot be. -/
theorem failing_of_pending (hx : Kept source x) (hnone : x.pending none = []) :
    ∀ h ∈ x.engine.tree.handles, Fragments.ofSource source h = none := by
  intro h hh
  obtain ⟨p, m, hm, hmh⟩ := Node.at?_of_mem_handles _ hh
  have hp : p ∈ deferredPaths none [] x.engine.tree :=
    (mem_deferredPaths _).2 ⟨rfl, p, m, rfl, hm, by simp [Node.isDeferred, hmh]⟩
  obtain ⟨f, hf, rfl⟩ : ∃ f ∈ x.failed, f.1 = p := by
    by_contra hnot
    have hmem : p ∈ x.pending none := mem_pending.2 ⟨hp, fun f hf hfp => hnot ⟨f, hf, hfp⟩⟩
    rw [hnone] at hmem
    cases hmem
  obtain ⟨n, g, hn, hg, hK⟩ := failure?_isSome.1 (Option.isSome_iff_exists.2 ⟨f, hx.failed f hf⟩)
  rw [hm] at hn
  cases hn
  rw [hmh] at hg
  cases hg
  exact hK

/-- Once no fragment that is not loaded can be, a round leaves nothing to try. -/
theorem pending_round (hx : Kept source x)
    (hfail : ∀ h ∈ x.engine.tree.handles, Fragments.ofSource source h = none) :
    (x.round source none).pending none = [] := by
  obtain ⟨-, htree, hfailed⟩ := round_kept hx none
  have hfailure : ∀ p ∈ deferredPaths none [] x.engine.tree, (failure? source x.engine.tree p).isSome = true := by
    intro p hp
    obtain ⟨-, q, m, rfl, hm, hdef⟩ := (mem_deferredPaths _).1 hp
    obtain ⟨h, hh⟩ := Option.isSome_iff_exists.1 hdef
    exact failure?_isSome.2 ⟨m, h, hm, hh, hfail h (Node.mem_handles_of_at? hm hh)⟩
  have hsame : (x.round source none).engine.tree = x.engine.tree := by
    rw [htree, ← openAll_deferredPaths, ← openAll_filter (fun _ => false)
      (fun p hp => isSome_of_mem_deferredPaths hp) fun p hp _ => hfailure p hp]
    simp [Node.openAll]
  apply List.eq_nil_iff_forall_not_mem.2
  intro p hp
  obtain ⟨hp, hnot⟩ := mem_pending.1 hp
  rw [hsame] at hp
  rw [hfailed] at hnot
  by_cases hpending : p ∈ x.pending none
  · obtain ⟨f, hf⟩ := Option.isSome_iff_exists.1 (hfailure p hp)
    obtain ⟨err, -, rfl⟩ := Option.map_eq_some_iff.1 hf
    exact hnot _ (List.mem_append_right _ (List.mem_filterMap.2 ⟨p, hpending, hf⟩)) rfl
  · refine hpending (mem_pending.2 ⟨hp, fun f hf => hnot f (List.mem_append_left _ hf)⟩)

/-! ## Round after round -/

/-- A fragment that can be loaded after so many rounds is at the end of a descent of as many steps. -/
theorem descent_of_rounds (hx : Kept source x) (rounds : Nat) {h : Handle}
    (hh : h ∈ ((round source none)^[rounds] x).engine.tree.handles) (hK : Fragments.ofSource source h ≠ none) :
    ∃ hs : List Handle, hs.length = rounds ∧ (Fragments.ofSource source).Descent x.engine.tree (h :: hs) := by
  induction rounds generalizing h with
  | zero => exact ⟨[], rfl, .start hh⟩
  | succ rounds ih =>
    rw [Function.iterate_succ_apply', (round_kept (rounds_kept hx none rounds) none).2.1] at hh
    rcases (mem_handles_grown _).1 hh with ⟨-, hnone⟩ | ⟨g, hg, hl⟩
    · exact absurd hnone hK
    · obtain ⟨hs, hlen, hd⟩ := ih hg hl.ne_none
      exact ⟨g :: hs, by rw [List.length_cons, hlen], hd.next hl⟩

theorem loops_of_rounds (hx : Kept source x) (hloop : (Fragments.ofSource source).Loops x.engine.tree)
    (rounds : Nat) : (Fragments.ofSource source).Loops ((round source none)^[rounds] x).engine.tree := by
  induction rounds with
  | zero => exact hloop
  | succ rounds ih =>
    rw [Function.iterate_succ_apply', (round_kept (rounds_kept hx none rounds) none).2.1]
    exact loops_grown ih 0

/-- Where the tree leads to a loop, something is left to try after any number of rounds. -/
theorem pending_of_loops (hx : Kept source x) (hloop : (Fragments.ofSource source).Loops x.engine.tree)
    (rounds : Nat) : (load (m := Id) source none rounds x).pending none ≠ [] := by
  intro hnone
  rw [load_eq_iterate] at hnone
  obtain ⟨r, hr, h, hrh, hh⟩ := loops_of_rounds hx hloop rounds
  have hloaded : Fragments.ofSource source r ≠ none := by
    rcases ReflTransGen.cases_head hrh with rfl | ⟨c, hl, -⟩
    · obtain ⟨c, hl, -⟩ := TransGen.head'_iff.1 hh
      exact hl.ne_none
    · exact hl.ne_none
  exact hloaded (failing_of_pending (rounds_kept hx none rounds) hnone r hr)

/-- Where it does not, nothing is left after one round more than there are fragments. -/
theorem pending_of_not_loops (hx : Kept source x) (hfinite : {h | Fragments.ofSource source h ≠ none}.Finite)
    (hloop : ¬ (Fragments.ofSource source).Loops x.engine.tree) {rounds : Nat}
    (hrounds : {h | Fragments.ofSource source h ≠ none}.ncard < rounds) :
    (load (m := Id) source none rounds x).pending none = [] := by
  obtain ⟨before, rfl⟩ : ∃ before, rounds = before + 1 := ⟨rounds - 1, by omega⟩
  rw [load_eq_iterate, Function.iterate_succ_apply']
  apply pending_round (rounds_kept hx none before)
  intro h hh
  by_contra hK
  obtain ⟨hs, hlen, hd⟩ := descent_of_rounds hx before hh hK
  have hle := hd.length_le hfinite hloop hK
  rw [List.length_cons, hlen] at hle
  omega

end Loaded

/-- Loading without a depth, from a source that answers each handle in one way and has finitely many fragments. If no
fragment that the root leads to comes back to itself, nothing is left to try after one round more than there are
fragments. If one does, each round leaves something to try, and loading never ends. -/
theorem ends_unless_fragments_loop (source : Handle → Answer)
    (hsource : {h | ∃ fragment, source h = .ok fragment}.Finite) (data : NavData) (settings : Settings)
    (remembered : Option Bool) :
    let start : Loaded := { engine := .start data settings remembered }
    (¬ (Fragments.ofSource source).Loops data.root →
      ∀ rounds, {h | ∃ fragment, source h = .ok fragment}.ncard < rounds →
        (Loaded.load (m := Id) source none rounds start).pending none = []) ∧
    ((Fragments.ofSource source).Loops data.root →
      ∀ rounds, (Loaded.load (m := Id) source none rounds start).pending none ≠ []) := by
  intro start
  have hkept : Loaded.Kept source start := Loaded.kept_start source rfl
  have hset : {h | ∃ fragment, source h = .ok fragment} = {h | Fragments.ofSource source h ≠ none} := by
    ext h
    cases hs : source h <;> simp [Fragments.ofSource, hs, Except.toOption]
  rw [hset] at hsource ⊢
  exact ⟨fun hloop rounds => Loaded.pending_of_not_loops hkept hsource hloop, Loaded.pending_of_loops hkept⟩

/-- A chain of fragments that ends where one is missing, beside two fragments that name each other. -/
theorem ends_beside_a_loop :
    let library : Library :=
      { fragments :=
          [(⟨"files"⟩, [.deferred "src" ⟨"dir_src.html"⟩ ⟨"dir_src"⟩]),
            (⟨"dir_src"⟩, [.deferred "lib" ⟨"dir_lib.html"⟩ ⟨"dir_lib"⟩, .leaf "main.c" none]),
            (⟨"group_a"⟩, [.deferred "B" ⟨"group_b.html"⟩ ⟨"group_b"⟩]),
            (⟨"group_b"⟩, [.deferred "A" ⟨"group_a.html"⟩ ⟨"group_a"⟩])] }
    let files : Node := .deferred "Files" ⟨"files.html"⟩ ⟨"files"⟩
    let groups : Node := .deferred "A" ⟨"group_a.html"⟩ ⟨"group_a"⟩
    {h | ∃ fragment, library.answer h = .ok fragment}.Finite ∧
      (¬ (Fragments.ofSource library.answer).Loops files ∧
        ∀ rounds, 4 < rounds →
          (Loaded.load (m := Id) library.answer none rounds { engine := .start { root := files } {} none }).pending
            none = []) ∧
      (Fragments.ofSource library.answer).Loops groups ∧
        ∀ rounds,
          (Loaded.load (m := Id) library.answer none rounds { engine := .start { root := groups } {} none }).pending
            none ≠ [] := by
  intro library files groups
  have hfinite : {h | ∃ fragment, library.answer h = .ok fragment}.Finite := library.finite_answered
  have hends : ¬ (Fragments.ofSource library.answer).Loops files := by
    apply Fragments.not_loops_of_rank (· ∈ [⟨"files"⟩, ⟨"dir_src"⟩, ⟨"dir_lib"⟩])
      fun h => if h = ⟨"files"⟩ then 2 else if h = ⟨"dir_src"⟩ then 1 else 0
    · simp [files, Node.handles]
    · rintro g h hg ⟨fragment, hfragment, hh⟩
      rw [Library.ofSource_answer] at hfragment
      fin_cases hg
      -- The fragment of `dir_lib` is missing.
      all_goals cases hfragment
      all_goals
        obtain rfl : h = _ := by simpa [Node.handlesAll, Node.handles] using hh
        decide
  have hgoes : (Fragments.ofSource library.answer).Loops groups := by
    have hab : (Fragments.ofSource library.answer).Leads ⟨"group_a"⟩ ⟨"group_b"⟩ :=
      ⟨_, by rw [Library.ofSource_answer]; rfl, List.mem_cons_self⟩
    have hba : (Fragments.ofSource library.answer).Leads ⟨"group_b"⟩ ⟨"group_a"⟩ :=
      ⟨_, by rw [Library.ofSource_answer]; rfl, List.mem_cons_self⟩
    exact ⟨⟨"group_a"⟩, List.mem_singleton_self _, ⟨"group_a"⟩, .refl, .head hab (.single hba)⟩
  obtain ⟨hfiles, -⟩ := ends_unless_fragments_loop library.answer hfinite { root := files } {} none
  obtain ⟨-, hgroups⟩ := ends_unless_fragments_loop library.answer hfinite { root := groups } {} none
  exact ⟨hfinite, ⟨hends, fun rounds hrounds => hfiles hends rounds (library.ncard_answered_le.trans_lt hrounds)⟩,
    hgoes, hgroups hgoes⟩

/-- One fragment is enough for loading to go on for ever, if it has a deferred node of its own handle. -/
theorem goes_on_with_one_fragment :
    let library : Library :=
      { fragments := [(⟨"files"⟩, [.deferred "Files" ⟨"files.html"⟩ ⟨"files"⟩])] }
    let start : Loaded := { engine := .start { root := .deferred "Files" ⟨"files.html"⟩ ⟨"files"⟩ } {} none }
    ∀ rounds, (Loaded.load (m := Id) library.answer none rounds start).pending none ≠ [] := by
  intro library start rounds
  have hself : (Fragments.ofSource library.answer).Leads ⟨"files"⟩ ⟨"files"⟩ :=
    ⟨_, by rw [Library.ofSource_answer]; rfl, List.mem_cons_self⟩
  exact Loaded.pending_of_loops (Loaded.kept_start library.answer rfl)
    ⟨⟨"files"⟩, List.mem_singleton_self _, ⟨"files"⟩, .refl, .single hself⟩ rounds

end Outline
end DocNav
