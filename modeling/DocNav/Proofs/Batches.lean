import DocNav.Proofs.Benches
import DocNav.Proofs.Loads
/-!
# Batches at a bench

Batches of loads keep what a bench relies on (`machine_keeps`), and the loader moves at a bench as it does for loads of
any kind. Main result: `Bench.batches_wait_at_the_gate`.
-/

namespace DocNav

namespace Loader

/-- A batch that is begun starts fetches and ends none. Where it waits, it has fewer loads before it. -/
theorem beginBatch_moves {l : Loader} (hl : l.Sound) (outcomes : List Outcome) (handles : List Handle) :
    let x := l.beginBatch outcomes handles
    Moves silent l x.1 ∧ ∀ b, x.2 = .inl b → x.1.Holds b.handle b.fetch ∧ b.rest.length < handles.length := by
  induction handles generalizing l outcomes with
  | nil => exact ⟨.refl, nofun⟩
  | cons h handles ih =>
    have hm := join_moves l h
    have hl' := hm.sound hl
    have hh := holds_join hl h
    simp only [beginBatch]
    rcases poll_cases hl' hh none with ⟨o, -, hp⟩ | ⟨-, -, hp⟩ | ⟨_, -, hb, -⟩
    · obtain ⟨hm', hwaits⟩ := ih hl' (outcomes ++ [o])
      simp only [hp]
      refine ⟨hm.trans hm', fun b hb => ?_⟩
      obtain ⟨hholds, hless⟩ := hwaits b hb
      exact ⟨hholds, Nat.lt_succ_of_lt hless⟩
    · simp only [hp]
      refine ⟨hm, fun b hb => ?_⟩
      cases hb
      exact ⟨hh, Nat.lt_succ_self _⟩
    · cases hb

/-- A batch may wait for a fetch of its handle. -/
structure Fits (l : Loader) (b : Batch) : Prop where
  sound : l.Sound
  holds : l.Holds b.handle b.fetch

/-- A batch that is run waits as before, without an answer, or goes on with what is left of it: only its own fetch can
have ended. -/
theorem runBatch_cases {l : Loader} {b : Batch} (hb : l.Fits b) (a : Option Answer) :
    (l.fetches[b.fetch]? = some { handle := b.handle } ∧ a = none ∧ l.runBatch b a = (l, .inl b)) ∨
    ∃ l' o, Moves (fun h x => l.fetches[b.fetch]? = some { handle := h } ∧ a = some x) l l' ∧
      l.runBatch b a = l'.beginBatch (b.outcomes ++ [o]) b.rest := by
  unfold runBatch
  rcases poll_cases hb.sound hb.holds a with ⟨o, -, hp⟩ | ⟨hf, ha, hp⟩ | ⟨x, hf, ha, hp⟩
  · exact .inr ⟨l, o, .refl, by rw [hp]⟩
  · exact .inl ⟨hf, ha, by rw [hp]⟩
  · exact .inr ⟨_, _, .single (.answer hf ⟨hf, ha⟩), by rw [hp]⟩

theorem runBatch_moves {l : Loader} {b : Batch} (hb : l.Fits b) (a : Option Answer) :
    let x := l.runBatch b a
    Moves (fun h y => l.fetches[b.fetch]? = some { handle := h } ∧ a = some y) l x.1 ∧
      ∀ b', x.2 = .inl b' → x.1.Holds b'.handle b'.fetch ∧
        (b' = b ∧ l.fetches[b.fetch]? = some { handle := b.handle } ∧ a = none ∨ b'.rest.length < b.rest.length) := by
  intro x
  rcases runBatch_cases hb a with ⟨hf, ha, hrun⟩ | ⟨l', o, hm, hrun⟩
  · have hx : x = (l, .inl b) := hrun
    rw [hx]
    refine ⟨.refl, fun b' hb' => ?_⟩
    cases hb'
    exact ⟨hb.holds, .inl ⟨rfl, hf, ha⟩⟩
  · have hx : x = l'.beginBatch (b.outcomes ++ [o]) b.rest := hrun
    obtain ⟨hm', hwaits⟩ := beginBatch_moves (hm.sound hb.sound) (b.outcomes ++ [o]) b.rest
    rw [hx]
    exact ⟨hm.trans hm'.of_silent, fun b' hb' => ⟨(hwaits b' hb').1, .inr (hwaits b' hb').2⟩⟩

theorem Fits.inFlight_iff {l : Loader} {b : Batch} (hb : l.Fits b) :
    machine.inFlight l b = true ↔ l.fetches[b.fetch]? = some { handle := b.handle } := by
  change (l.outcome? b.fetch).isNone = true ↔ _
  rw [fetch_of_holds hb.holds]
  cases l.outcome? b.fetch <;> simp

theorem machine_keeps : machine.Keeps Fits where
  fits {l b c} a hb hc := by
    obtain ⟨hm, -⟩ := runBatch_moves hb a
    exact ⟨hm.sound hb.sound, hm.holds hc.holds⟩
  waits {l b c} a hb hwait := by
    obtain ⟨hm, hwaits⟩ := runBatch_moves hb a
    exact ⟨hm.sound hb.sound, (hwaits c hwait).1⟩
  inFlight {l b c} a hb hc hflight hkey := by
    obtain ⟨hm, -⟩ := runBatch_moves hb a
    have hf := hc.inFlight_iff.1 hflight
    have hfits : (l.runBatch b a).1.Fits c := ⟨hm.sound hb.sound, hm.holds hc.holds⟩
    refine hfits.inFlight_iff.2 (hm.inFlight hf ?_)
    -- An answer to the handle would be one to the fetch of the batch that is run, which is then the only one in flight.
    rintro x ⟨hf', ha⟩
    have hfetch : b.fetch = c.fetch := hb.sound.unique hf' hf rfl rfl rfl
    have hnone : a = none := hkey (by simp [machine, hfetch])
    rw [ha] at hnone
    cases hnone
  handle {l b c} hb hc hkey := by
    have hfetch : b.fetch = c.fetch := congrArg FetchKey.fetch hkey
    exact hb.holds.unique (hfetch ▸ hc.holds)
  remaining_pos b := Nat.succ_pos _
  remaining {l b c a} hb hgo hwait := by
    obtain ⟨-, hwaits⟩ := runBatch_moves hb a
    rcases (hwaits c hwait).2 with ⟨-, hf, ha⟩ | hless
    · exact absurd ha (hgo (hb.inFlight_iff.2 hf))
    · exact Nat.succ_lt_succ hless

/-- Runs of batches are moves of the loader. -/
theorem moves_of_runs {l l' : Loader} (h : machine.Runs Fits l l') : Moves Waiters.anything l l' := by
  induction h with
  | refl => exact .refl
  | tail _ hran ih =>
    obtain ⟨b, a, hb, rfl⟩ := hran
    exact ih.trans ((runBatch_moves hb a).1.mono fun _ _ _ => trivial)

end Loader

/-- What may happen at a bench of batches, whatever the source answers by then. -/
inductive BatchEvent where
  | load (handles : List Handle) (source : Handle → Answer)
  | release (handles : List Handle) (source : Handle → Answer)

namespace Bench

variable {gated : List Handle} {b : Bench Loader Batch (List Outcome)}

def afterBatch (gated : List Handle) (b : Bench Loader Batch (List Outcome)) :
    BatchEvent → Bench Loader Batch (List Outcome)
  | .load handles source => (b.perform Loader.machine (fun _ => source) gated (b.state.beginBatch [] handles)).1
  | .release handles source => (b.release Loader.machine (fun _ => source) gated handles).1

theorem afterBatch_sound (hl : b.state.Sound) (hb : b.Sound Loader.machine Loader.Fits gated) (ev : BatchEvent) :
    Loader.Moves Waiters.anything b.state (b.afterBatch gated ev).state ∧
      (b.afterBatch gated ev).Sound Loader.machine Loader.Fits gated := by
  cases ev with
  | load handles source =>
    obtain ⟨hm, hwaits⟩ := Loader.beginBatch_moves hl [] handles
    have hkeeps {c : Batch} (hc : b.state.Fits c) : (b.state.beginBatch [] handles).1.Fits c :=
      ⟨hm.sound hl, hm.holds hc.holds⟩
    have hbegin : Begins Loader.machine Loader.Fits b.state (b.state.beginBatch [] handles) :=
      { fits := hkeeps
        inFlight := fun hc hflight =>
          (hkeeps hc).inFlight_iff.2 (hm.inFlight (hc.inFlight_iff.1 hflight) fun _ => id)
        waits := fun hwait => ⟨hm.sound hl, (hwaits _ hwait).1⟩ }
    obtain ⟨hruns, hsound⟩ := hb.perform Loader.machine_keeps (fun _ => source) hbegin
    exact ⟨hm.of_silent.trans (Loader.moves_of_runs hruns), hsound⟩
  | release handles source =>
    obtain ⟨hruns, hsound, -⟩ := hb.release Loader.machine_keeps (fun _ => source) handles
    exact ⟨Loader.moves_of_runs hruns, hsound⟩

/-- At a bench of batches the loader moves as it does for any loads. A batch that waits does so for a fetch of its
handle that is in flight and that the gate holds back. Every handle has at most one fetch in flight, and every fetch is
cached or has failed. -/
theorem batches_wait_at_the_gate (gated : List Handle) (events : List BatchEvent) :
    let b := events.foldl (afterBatch gated) { state := {} }
    Loader.Moves Waiters.anything {} b.state ∧
    (∀ w ∈ b.waiting, w.2.handle ∈ gated ∧ b.state.fetches[w.2.fetch]? = some { handle := w.2.handle }) ∧
    (b.waiting.map Prod.fst).Pairwise (· < ·) ∧
    (∀ h, b.state.fetches.countP (fun f => f.handle = h ∧ f.inFlight = true) ≤ 1) ∧
    b.state.cachedCount + b.state.fetches.countP Fetch.hasFailed = b.state.fetchCount := by
  intro b
  have hrun : Loader.Moves Waiters.anything {} b.state ∧ b.Sound Loader.machine Loader.Fits gated := by
    induction events using List.reverseRecOn with
    | nil => exact ⟨.refl, sound_start _⟩
    | append_singleton events ev ih =>
      obtain ⟨hm, hb⟩ := ih
      obtain ⟨hm', hb'⟩ := afterBatch_sound (hm.sound Loader.sound_empty) hb ev
      simp only [b, List.foldl_append, List.foldl_cons, List.foldl_nil]
      exact ⟨hm.trans hm', hb'⟩
  obtain ⟨hm, hb⟩ := hrun
  refine ⟨hm, fun w hw => ?_, hb.ascending, fun h => ?_, (hm.counted Loader.sound_empty Loader.counted_empty).count⟩
  · obtain ⟨hfits, hheld⟩ := hb.waiting w hw
    exact ⟨hheld.gated, hfits.inFlight_iff.1 hheld.inFlight⟩
  · refine (hm.sound Loader.sound_empty).countP_le_one h fun f hf => ?_
    simp only [decide_eq_true_eq] at hf
    exact ⟨hf.1, Fetch.hasFailed_of_inFlight hf.2⟩

end Bench

end DocNav
