import DocNav.Schedule
import Mathlib
/-!
# Tasks behind a gate

A bench runs the tasks of a machine, and each of its runs is one of the machine: nothing happens at a bench but that
requests begin and that tasks which wait are run again (`Machine.Runs`). What a machine has to keep for that is said
once, in `Machine.Keeps`. From it follows that a task which is left waiting waits for a fetch that is in flight and that
the gate holds back, so that none is left for want of turns.

What holds all the time is `Bench.Sound`. Main results: `Bench.Sound.perform` and `Bench.Sound.release`.
-/

namespace DocNav

variable {S T R : Type}

/-! ## Machines -/

namespace Machine

/-- What a machine keeps when a task is run, where `Fits s t` says that task `t` may wait in state `s`. -/
structure Keeps (m : Machine S T R) (Fits : S → T → Prop) : Prop where
  /-- The other tasks may go on waiting. -/
  fits {s : S} {t u : T} (a : Option Answer) : Fits s t → Fits s u → Fits (m.run s t a).1 u
  waits {s : S} {t u : T} (a : Option Answer) : Fits s t → (m.run s t a).2 = .inl u → Fits (m.run s t a).1 u
  /-- An answer ends no fetch but that of the task. -/
  inFlight {s : S} {t u : T} (a : Option Answer) : Fits s t → Fits s u → m.inFlight s u = true →
    (m.key t = m.key u → a = none) → m.inFlight (m.run s t a).1 u = true
  handle {s : S} {t u : T} : Fits s t → Fits s u → m.key t = m.key u → m.handle t = m.handle u
  remaining_pos (t : T) : 0 < m.remaining t
  /-- A task that is run after its fetch has ended, or with an answer, has one fetch less to wait for. -/
  remaining {s : S} {t u : T} {a : Option Answer} : Fits s t → (m.inFlight s t = true → a ≠ none) →
    (m.run s t a).2 = .inl u → m.remaining u < m.remaining t

/-- One run of a task that waits, with an answer or without one. -/
def Ran (m : Machine S T R) (Fits : S → T → Prop) (s s' : S) : Prop := ∃ t a, Fits s t ∧ s' = (m.run s t a).1

/-- Any number of runs. -/
abbrev Runs (m : Machine S T R) (Fits : S → T → Prop) : S → S → Prop := Relation.ReflTransGen (m.Ran Fits)

/-- The task waits for a fetch in flight that the gate holds back. -/
structure Held (m : Machine S T R) (gated : List Handle) (through : List FetchKey) (s : S) (t : T) : Prop where
  inFlight : m.inFlight s t = true
  gated : m.handle t ∈ gated
  notThrough : m.key t ∉ through

variable {m : Machine S T R} {Fits : S → T → Prop} {gated : List Handle} {through : List FetchKey} {s s' s'' : S}
  {t u : T}

theorem gate_eq_none (source : S → Handle → Answer) :
    m.gate source gated through s t = none ↔ m.handle t ∈ gated ∧ m.key t ∉ through := by
  unfold gate
  split <;> simp_all

/-- What runs behind the gate lead to: tasks that wait go on waiting, and those that the gate holds back stay held. -/
structure Passes (m : Machine S T R) (Fits : S → T → Prop) (gated : List Handle) (through : List FetchKey)
    (s s' : S) : Prop where
  runs : m.Runs Fits s s'
  fits {u : T} : Fits s u → Fits s' u
  held {u : T} : Fits s u → m.Held gated through s u → m.Held gated through s' u

theorem Passes.refl (s : S) : m.Passes Fits gated through s s := ⟨.refl, id, fun _ => id⟩

theorem Passes.trans (h : m.Passes Fits gated through s s') (h' : m.Passes Fits gated through s' s'') :
    m.Passes Fits gated through s s'' where
  runs := h.runs.trans h'.runs
  fits hu := h'.fits (h.fits hu)
  held hu hheld := h'.held (h.fits hu) (h.held hu hheld)

theorem Keeps.run_passes (hm : m.Keeps Fits) (source : S → Handle → Answer) (gated : List Handle)
    (through : List FetchKey) (ht : Fits s t) :
    m.Passes Fits gated through s (m.run s t (m.gate source gated through s t)).1 where
  runs := .single ⟨t, _, ht, rfl⟩
  fits hu := hm.fits _ ht hu
  held {u} hu hheld := by
    refine ⟨?_, hheld.gated, hheld.notThrough⟩
    refine hm.inFlight _ ht hu hheld.inFlight fun hkey => ?_
    rw [gate_eq_none, hm.handle ht hu hkey, hkey]
    exact ⟨hheld.gated, hheld.notThrough⟩

section
variable {answer : S → T → Option Answer} {turns : Nat} {r : R}

theorem settle_waits (hflight : m.inFlight s t = true) (hnone : answer s t = none) :
    m.settle answer (turns + 1) s t = (s, .inl t) := by
  simp [settle, hflight, hnone]

theorem settle_inl (hgo : m.inFlight s t = true → answer s t ≠ none)
    (hrun : m.run s t (answer s t) = (s', .inl u)) : m.settle answer (turns + 1) s t = m.settle answer turns s' u := by
  have hcond : ¬ (m.inFlight s t && (answer s t).isNone) = true := by simpa using hgo
  simp only [settle, if_neg hcond, hrun]

theorem settle_inr (hgo : m.inFlight s t = true → answer s t ≠ none)
    (hrun : m.run s t (answer s t) = (s', .inr r)) : m.settle answer (turns + 1) s t = (s', .inr r) := by
  have hcond : ¬ (m.inFlight s t && (answer s t).isNone) = true := by simpa using hgo
  simp only [settle, if_neg hcond, hrun]

end

/-- A task that has as many turns as fetches to wait for ends, or the gate holds it back. -/
theorem Keeps.settle_passes (hm : m.Keeps Fits) (source : S → Handle → Answer) (gated : List Handle)
    (through : List FetchKey) {turns : Nat} (ht : Fits s t) (hturns : m.remaining t ≤ turns) :
    let x := m.settle (m.gate source gated through) turns s t
    m.Passes Fits gated through s x.1 ∧ ∀ u, x.2 = .inl u → Fits x.1 u ∧ m.Held gated through x.1 u := by
  induction turns generalizing s t with
  | zero => exact absurd (hm.remaining_pos t) (by omega)
  | succ turns ih =>
    intro x
    by_cases hheld : m.inFlight s t = true ∧ m.gate source gated through s t = none
    · have hx : x = (s, .inl t) := settle_waits hheld.1 hheld.2
      obtain ⟨hgated, hthrough⟩ := (gate_eq_none source).1 hheld.2
      rw [hx]
      refine ⟨.refl s, fun u hu => ?_⟩
      cases hu
      exact ⟨ht, hheld.1, hgated, hthrough⟩
    · have hgo : m.inFlight s t = true → m.gate source gated through s t ≠ none := fun hflight hnone =>
        hheld ⟨hflight, hnone⟩
      have hpasses := hm.run_passes source gated through ht
      rcases hrun : m.run s t (m.gate source gated through s t) with ⟨s', u | r⟩
      all_goals rw [hrun] at hpasses
      · -- The task has had a turn, and has fewer fetches to wait for.
        have hx : x = m.settle (m.gate source gated through) turns s' u := settle_inl hgo hrun
        have hwait : (m.run s t (m.gate source gated through s t)).2 = .inl u := by rw [hrun]
        have hu : Fits s' u := by
          have := hm.waits _ ht hwait
          rwa [hrun] at this
        have hless : m.remaining u < m.remaining t := hm.remaining ht hgo hwait
        obtain ⟨hpasses', hwaits⟩ := ih hu (by omega)
        rw [hx]
        exact ⟨hpasses.trans hpasses', hwaits⟩
      · have hx : x = (s', .inr r) := settle_inr hgo hrun
        rw [hx]
        exact ⟨hpasses, nofun⟩

end Machine

/-! ## Benches -/

namespace Bench

open Machine

/-- What a request leads to when it is begun keeps the tasks that wait, and their fetches in flight. -/
structure Begins (m : Machine S T R) (Fits : S → T → Prop) (s : S) (begun : S × (T ⊕ R)) : Prop where
  fits {u : T} : Fits s u → Fits begun.1 u
  inFlight {u : T} : Fits s u → m.inFlight s u = true → m.inFlight begun.1 u = true
  waits {u : T} : begun.2 = .inl u → Fits begun.1 u

/-- Every task that waits at the bench is held back by the gate. They are numbered in the order in which they first
waited. -/
structure Sound (m : Machine S T R) (Fits : S → T → Prop) (gated : List Handle) (b : Bench S T R) : Prop where
  waiting : ∀ w ∈ b.waiting, Fits b.state w.2 ∧ m.Held gated [] b.state w.2
  ascending : (b.waiting.map Prod.fst).Pairwise (· < ·)
  numbered : ∀ w ∈ b.waiting, w.1 < b.numbered

variable {m : Machine S T R} {Fits : S → T → Prop} {gated handles : List Handle} {through : List FetchKey} {s : S}
  {b : Bench S T R}

theorem sound_start (s : S) : Sound m Fits gated { state := s } := ⟨by simp, .nil, by simp⟩

/-- A bench stays as it should be in any state that keeps its tasks. -/
theorem Sound.change (hb : b.Sound m Fits gated) {s : S} (hfits : ∀ {u}, Fits b.state u → Fits s u)
    (hheld : ∀ {u}, Fits b.state u → m.Held gated [] b.state u → m.Held gated [] s u) :
    Sound m Fits gated { b with state := s } where
  waiting w hw := ⟨hfits (hb.waiting w hw).1, hheld (hb.waiting w hw).1 (hb.waiting w hw).2⟩
  ascending := hb.ascending
  numbered := hb.numbered

/-- A request that is begun leads on by runs, and waits only at the gate. -/
theorem Sound.perform (hm : m.Keeps Fits) (hb : b.Sound m Fits gated) (source : S → Handle → Answer)
    {begun : S × (T ⊕ R)} (hbegun : Begins m Fits b.state begun) :
    m.Runs Fits begun.1 (b.perform m source gated begun).1.state ∧
      (b.perform m source gated begun).1.Sound m Fits gated := by
  obtain ⟨s, y⟩ := begun
  have hs : Sound m Fits gated { b with state := s } :=
    hb.change hbegun.fits fun hu hheld => ⟨hbegun.inFlight hu hheld.inFlight, hheld.gated, hheld.notThrough⟩
  cases y with
  | inr r => exact ⟨.refl, hs⟩
  | inl t =>
    have ht : Fits s t := hbegun.waits rfl
    obtain ⟨hpasses, hwaits⟩ := hm.settle_passes source gated [] ht le_rfl
    have hs' := hs.change hpasses.fits hpasses.held
    simp only [Bench.perform]
    generalize m.settle (m.gate source gated []) (m.remaining t) s t = y at *
    obtain ⟨s', u | r⟩ := y
    · refine ⟨hpasses.runs, ?_, ?_, ?_⟩
      · intro w hw
        rcases List.mem_append.1 hw with hw | hw
        · exact hs'.waiting w hw
        · rw [List.mem_singleton.1 hw]
          exact hwaits u rfl
      · rw [List.map_append, List.pairwise_append]
        refine ⟨hs'.ascending, List.pairwise_singleton _ _, ?_⟩
        intro n hn k hk
        obtain ⟨w, hw, rfl⟩ := List.mem_map.1 hn
        rw [List.mem_singleton.1 hk]
        exact hs'.numbered w hw
      · intro w hw
        rcases List.mem_append.1 hw with hw | hw
        · exact Nat.lt_succ_of_lt (hs'.numbered w hw)
        · rw [List.mem_singleton.1 hw]
          exact Nat.lt_succ_self _
    · exact ⟨hpasses.runs, hs'⟩

/-- Each task has its turns once. Those that wait again keep their numbers and are held back by the gate, and the others
have ended. -/
theorem runAll_passes (hm : m.Keeps Fits) (source : S → Handle → Answer) (gated : List Handle)
    (through : List FetchKey) {tasks : List (Nat × T)} (htasks : ∀ w ∈ tasks, Fits s w.2) :
    let x := runAll m (m.gate source gated through) s tasks
    m.Passes Fits gated through s x.1 ∧ (∀ w ∈ x.2.1, Fits x.1 w.2 ∧ m.Held gated through x.1 w.2) ∧
      (x.2.1.map Prod.fst).Sublist (tasks.map Prod.fst) ∧
      (x.2.1.map Prod.fst ++ x.2.2.map Prod.fst).Perm (tasks.map Prod.fst) := by
  induction tasks generalizing s with
  | nil => exact ⟨.refl s, by simp [runAll], .slnil, .nil⟩
  | cons w tasks ih =>
    obtain ⟨n, t⟩ := w
    have ht : Fits s t := htasks (n, t) List.mem_cons_self
    obtain ⟨hpasses, hwaits⟩ := hm.settle_passes source gated through ht le_rfl
    obtain ⟨hpasses', hwaits', hsub, hperm⟩ := ih fun w hw => hpasses.fits (htasks w (List.mem_cons_of_mem _ hw))
    simp only [runAll]
    generalize m.settle (m.gate source gated through) (m.remaining t) s t = y at *
    obtain ⟨s', u | r⟩ := y
    · obtain ⟨hfits, hheld⟩ := hwaits u rfl
      refine ⟨hpasses.trans hpasses', ?_, hsub.cons_cons n, hperm.cons n⟩
      intro w hw
      rcases List.mem_cons.1 hw with rfl | hw
      · exact ⟨hpasses'.fits hfits, hpasses'.held hfits hheld⟩
      · exact hwaits' w hw
    · refine ⟨hpasses.trans hpasses', hwaits', hsub.cons n, ?_⟩
      exact List.perm_middle.trans (hperm.cons n)

/-- The fetches that a release of these handles lets through. -/
def letThrough (b : Bench S T R) (m : Machine S T R) (handles : List Handle) : List FetchKey :=
  (b.waiting.filter fun w => m.inFlight b.state w.2 && handles.contains (m.handle w.2)).map fun w => m.key w.2

theorem release_eq (b : Bench S T R) (m : Machine S T R) (source : S → Handle → Answer) (gated handles : List Handle) :
    let x := runAll m (m.gate source gated (b.letThrough m handles)) b.state b.waiting
    b.release m source gated handles = ({ b with state := x.1, waiting := x.2.1 }, x.2.2) := rfl

/-- A release leads on by runs. Every task that waited has ended or waits at the gate again, and none for a fetch that
was let through. -/
theorem Sound.release (hm : m.Keeps Fits) (hb : b.Sound m Fits gated) (source : S → Handle → Answer)
    (handles : List Handle) :
    let x := b.release m source gated handles
    m.Runs Fits b.state x.1.state ∧ x.1.Sound m Fits gated ∧
      (x.1.waiting.map Prod.fst ++ x.2.map Prod.fst).Perm (b.waiting.map Prod.fst) ∧
      ∀ w ∈ b.waiting, m.handle w.2 ∈ handles → ∀ w' ∈ x.1.waiting, m.key w'.2 ≠ m.key w.2 := by
  intro x
  obtain ⟨hpasses, hwaits, hsub, hperm⟩ :=
    runAll_passes hm source gated (b.letThrough m handles) fun w hw => (hb.waiting w hw).1
  have hx : x = _ := release_eq b m source gated handles
  rw [hx]
  refine ⟨hpasses.runs, ⟨?_, hb.ascending.sublist hsub, ?_⟩, hperm, ?_⟩
  · intro w hw
    obtain ⟨hfits, hheld⟩ := hwaits w hw
    exact ⟨hfits, hheld.inFlight, hheld.gated, List.not_mem_nil⟩
  · intro w hw
    obtain ⟨w', hw', hnumber⟩ := List.mem_map.1 (hsub.subset (List.mem_map_of_mem hw))
    exact hnumber ▸ hb.numbered w' hw'
  · intro w hw hhandle w' hw' hkey
    refine (hwaits w' hw').2.notThrough ?_
    rw [hkey]
    refine List.mem_map_of_mem (f := fun w => m.key w.2) (List.mem_filter.2 ⟨hw, ?_⟩)
    simp [(hb.waiting w hw).2.inFlight, hhandle]

end Bench

end DocNav
