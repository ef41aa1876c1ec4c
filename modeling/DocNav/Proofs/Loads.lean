import DocNav.Proofs.Fetches
/-!
# Loads that share fetches

A `Waiters` is a loader with the loads that wait for its fetches. Loads of any handles begin at any time, and
a waiting load may be run again at any time, each time with any answer of the source or none, so its runs are
all the interleavings of loads, of fetches that end and of waiters that go on.

What the loader has of a fetch is what the source answered to it first (`after_ended`).

Main result: `single_flight`. A handle has at most one fetch in flight, is never fetched again once a fetch
has brought its fragment, and is fetched at most once more than its fetches fail.
-/

namespace DocNav

/-- A load of a handle, which waits for a fetch. -/
structure Load where
  handle : Handle
  fetch : FetchId
deriving DecidableEq

structure Waiters where
  loader : Loader := {}
  waiting : List Load := []
  /-- The handles that the source was asked for. -/
  asked : List Handle := []
  /-- The loads that have ended, with what they returned. -/
  returned : List (Load × Outcome) := []

inductive LoadEvent where
  /-- A load begins. -/
  | load (handle : Handle)
  /-- A waiting load, by its place, is run again while the source says this. -/
  | resume (place : Nat) (now : Option Answer)

namespace Waiters

def step (w : Waiters) : LoadEvent → Waiters
  | .load h =>
    -- The source is asked where nothing is cached.
    let asked := if w.loader.isCached h then w.asked else w.asked ++ [h]
    let (id, l) := w.loader.join h
    match l.poll h id none with
    | (none, l) => { w with loader := l, asked, waiting := w.waiting ++ [⟨h, id⟩] }
    | (some o, l) => { w with loader := l, asked, returned := w.returned ++ [(⟨h, id⟩, o)] }
  | .resume n now =>
    match w.waiting[n]? with
    | none => w
    | some x =>
      match w.loader.poll x.handle x.fetch now with
      | (none, l) => { w with loader := l }
      | (some o, l) =>
        { w with loader := l, waiting := w.waiting.eraseIdx n, returned := w.returned ++ [(x, o)] }

def after (w : Waiters) (events : List LoadEvent) : Waiters := events.foldl step w

/-- What the source may say that may say anything. -/
def anything (_ : Handle) (_ : Answer) : Prop := True

structure Sound (w : Waiters) : Prop where
  loader : w.loader.Sound
  waiting : ∀ x ∈ w.waiting, w.loader.Holds x.handle x.fetch
  /-- A load returned the outcome of its fetch. -/
  returned : ∀ x ∈ w.returned, w.loader.fetches[x.1.fetch]? = some { handle := x.1.handle, outcome? := some x.2 }
  asked : w.asked = w.loader.calls

theorem sound_start : ({} : Waiters).Sound where
  loader := Loader.sound_empty
  waiting := by simp
  returned := by simp
  asked := rfl

/-! ## What a step keeps -/

/-- What was said of waiting and ended loads stays true when the loader moves on. -/
theorem Sound.moves {w : Waiters} (hw : w.Sound) {l : Loader} (hm : Loader.Moves anything w.loader l) :
    (∀ x ∈ w.waiting, l.Holds x.handle x.fetch) ∧
      ∀ x ∈ w.returned, l.fetches[x.1.fetch]? = some { handle := x.1.handle, outcome? := some x.2 } := by
  refine ⟨fun x hx => hm.holds (hw.waiting x hx), fun x hx => ?_⟩
  obtain ⟨f, hf, -, hs⟩ := hm.fetch (hw.returned x hx)
  rw [hf, hs rfl]

theorem calls_join (l : Loader) (h : Handle) :
    (l.join h).2.calls = if l.isCached h then l.calls else l.calls ++ [h] := by
  unfold Loader.join Loader.isCached
  cases l.cache.lookup h <;> simp [Loader.calls]

theorem calls_answered {l : Loader} {h : Handle} {id : FetchId} {a : Answer}
    (hf : l.fetches[id]? = some { handle := h }) : (l.answered h id a).calls = l.calls := by
  have hid := (List.getElem?_eq_some_iff.1 hf).1
  simp only [Loader.calls, Loader.fetches_answered hf, List.map_set]
  refine List.ext_getElem? fun i => ?_
  rw [List.getElem?_set]
  split
  · subst i
    rw [List.getElem?_map, hf]
    simp [hid]
  · rfl

theorem load_sound {w : Waiters} (hw : w.Sound) (h : Handle) :
    (w.step (.load h)).Sound ∧ Loader.Moves anything w.loader (w.step (.load h)).loader := by
  have hm : Loader.Moves anything w.loader (w.loader.join h).2 := (Loader.join_moves w.loader h).of_silent
  have hh := Loader.holds_join hw.loader h
  have hc := calls_join w.loader h
  have hl := hm.sound hw.loader
  obtain ⟨hwait, hret⟩ := hw.moves hm
  simp only [step]
  generalize w.loader.join h = j at *
  obtain ⟨id, l⟩ := j
  -- The load ends at once, where its fetch has, or waits.
  rcases Loader.poll_cases hl hh none with ⟨o, hf, hp⟩ | ⟨-, -, hp⟩ | ⟨b, -, hb, -⟩
  · simp only [hp]
    refine ⟨⟨hl, hwait, fun x hx => ?_, by rw [hc, hw.asked]⟩, hm⟩
    rcases List.mem_append.1 hx with hx | hx
    · exact hret x hx
    · rw [List.mem_singleton.1 hx]
      exact hf
  · simp only [hp]
    refine ⟨⟨hl, fun x hx => ?_, hret, by rw [hc, hw.asked]⟩, hm⟩
    rcases List.mem_append.1 hx with hx | hx
    · exact hwait x hx
    · rw [List.mem_singleton.1 hx]
      exact hh
  · cases hb

theorem resume_sound {w : Waiters} (hw : w.Sound) (n : Nat) (now : Option Answer) :
    (w.step (.resume n now)).Sound ∧ Loader.Moves anything w.loader (w.step (.resume n now)).loader := by
  simp only [step]
  cases hx : w.waiting[n]? with
  | none => exact ⟨hw, .refl⟩
  | some x =>
    have hh := hw.waiting x (List.mem_of_getElem? hx)
    have hrest : ∀ y ∈ w.waiting.eraseIdx n, y ∈ w.waiting := fun y hy => List.mem_of_mem_eraseIdx hy
    rcases Loader.poll_cases hw.loader hh now with ⟨o, hf, hp⟩ | ⟨-, -, hp⟩ | ⟨b, hf, -, hp⟩
    · simp only [hp]
      refine ⟨⟨hw.loader, fun y hy => hw.waiting y (hrest y hy), fun y hy => ?_, hw.asked⟩, .refl⟩
      rcases List.mem_append.1 hy with hy | hy
      · exact hw.returned y hy
      · rw [List.mem_singleton.1 hy]
        exact hf
    · simp only [hp]
      exact ⟨hw, .refl⟩
    · simp only [hp]
      have hm : Loader.Moves anything w.loader (w.loader.answered x.handle x.fetch b) :=
        .single (.answer hf trivial)
      obtain ⟨hwait, hret⟩ := hw.moves hm
      refine ⟨⟨hm.sound hw.loader, fun y hy => hwait y (hrest y hy), fun y hy => ?_, ?_⟩, hm⟩
      · rcases List.mem_append.1 hy with hy | hy
        · exact hret y hy
        · rw [List.mem_singleton.1 hy, Loader.fetches_answered hf]
          exact List.getElem?_set_self (List.getElem?_eq_some_iff.1 hf).1
      · rw [hw.asked, calls_answered hf]

theorem step_sound {w : Waiters} (hw : w.Sound) (ev : LoadEvent) :
    (w.step ev).Sound ∧ Loader.Moves anything w.loader (w.step ev).loader := by
  cases ev with
  | load h => exact load_sound hw h
  | resume n now => exact resume_sound hw n now

theorem after_sound {w : Waiters} (hw : w.Sound) (events : List LoadEvent) :
    (w.after events).Sound ∧ Loader.Moves anything w.loader (w.after events).loader := by
  induction events generalizing w with
  | nil => exact ⟨hw, .refl⟩
  | cons ev events ih =>
    obtain ⟨hs, hm⟩ := step_sound hw ev
    obtain ⟨hs', hm'⟩ := ih hs
    exact ⟨hs', hm.trans hm'⟩

end Waiters

/-! ## What the source has answered -/

/-- What a load of the handle returns when the source has answered so: the nodes or, where the source has failed, an
error with the handle and with the kind, the advice and the words of the failure. -/
inductive Conveys (h : Handle) : Answer → Outcome → Prop
  | nodes (nodes : List Node) : Conveys h (.ok nodes) (.ok nodes)
  | failure (e : SourceError) :
      Conveys h (.error e) (.error { handle := h, kind := e.kind, advice := e.advice, words := e.message })

theorem Outcome.conveys_ofAnswer (h : Handle) (a : Answer) : Conveys h a (.ofAnswer h a) := by
  cases a with
  | ok nodes => exact .nodes nodes
  | error e => exact .failure e

namespace Loader

/-- How a fetch stands to the first answer that the source gave to it, if any: without one it has no outcome, and
with one it has the outcome that the answer conveys. -/
inductive Ended (l : Loader) (id : FetchId) : Option Answer → Prop
  | unanswered : l.outcome? id = none → Ended l id none
  | answered {f : Fetch} {a : Answer} {o : Outcome} :
      l.fetches[id]? = some f → f.outcome? = some o → Conveys f.handle a o → Ended l id (some a)

variable {l : Loader} {h : Handle} {id : FetchId} {a? : Option Answer}

theorem Ended.isSome_iff (hl : l.Ended id a?) : a?.isSome = (l.outcome? id).isSome := by
  cases hl with
  | unanswered ho => rw [ho]; rfl
  | answered hf ho _ => rw [outcome?_of_fetch hf, ho]; rfl

theorem Ended.join (hl : l.Ended id a?) (h : Handle) : (l.join h).2.Ended id a? := by
  unfold Loader.join
  split
  · exact hl
  · change (l.started h).Ended id a?
    cases hl with
    | unanswered ho =>
      refine .unanswered ?_
      rw [outcome?, getElem?_started]
      split
      · rfl
      · exact ho
    | answered hf ho hc =>
      have hid : id < l.fetches.length := (List.getElem?_eq_some_iff.1 hf).1
      refine .answered ?_ ho hc
      rw [getElem?_started, if_neg hid.ne]
      exact hf

/-- An answer to a fetch that has ended is not the first. -/
theorem Ended.again {i : FetchId} {a : Answer} (hl : l.Ended i a?) (hid : (l.outcome? id).isSome = true) :
    l.Ended i (a?.or (if i = id then some a else none)) := by
  by_cases hi : i = id
  · have hsome : a?.isSome = true := by rw [hl.isSome_iff, hi, hid]
    rwa [Option.or_of_isSome hsome]
  · rwa [if_neg hi, Option.or_none]

/-- An answer to a fetch in flight ends it, and no other. -/
theorem Ended.answer {i : FetchId} {a : Answer} (hl : l.Ended i a?) (hf : l.fetches[id]? = some { handle := h }) :
    (l.answered h id a).Ended i (a?.or (if i = id then some a else none)) := by
  have hfetches := fetches_answered (a := a) hf
  by_cases hi : i = id
  · subst hi
    have hnone : a? = none := by
      rw [← Option.not_isSome_iff_eq_none, hl.isSome_iff, outcome?_of_fetch hf]
      simp
    rw [hnone, Option.none_or, if_pos rfl]
    have hconveys : Conveys h a (.ofAnswer h a) := Outcome.conveys_ofAnswer h a
    refine .answered (f := { handle := h, outcome? := some (.ofAnswer h a) }) ?_ rfl hconveys
    rw [hfetches]
    exact List.getElem?_set_self (List.getElem?_eq_some_iff.1 hf).1
  · have hsame : (l.answered h id a).fetches[i]? = l.fetches[i]? := by
      rw [hfetches, List.getElem?_set_ne (Ne.symm hi)]
    rw [if_neg hi, Option.or_none]
    cases hl with
    | unanswered ho =>
      refine .unanswered ?_
      rw [outcome?, hsame]
      exact ho
    | answered hg ho hc => exact .answered (hsame.trans hg) ho hc

end Loader

namespace Waiters

/-- What the source says at an event to the fetch that a waiting load is run for. -/
def told (w : Waiters) : LoadEvent → Option (FetchId × Answer)
  | .load _ => none
  | .resume n now => w.waiting[n]?.bind fun x => now.map fun a => (x.fetch, a)

/-- What the source says at events, each time with the number of the fetch that it is said to. -/
def answersIn (w : Waiters) : List LoadEvent → List (FetchId × Answer)
  | [] => []
  | ev :: events => (w.told ev).toList ++ (w.step ev).answersIn events

theorem loader_load {w : Waiters} (hw : w.Sound) (h : Handle) :
    (w.step (.load h)).loader = (w.loader.join h).2 := by
  have hl := Loader.Moves.sound hw.loader (Loader.join_moves w.loader h)
  simp only [step]
  rcases Loader.poll_cases hl (Loader.holds_join hw.loader h) none with ⟨o, -, hp⟩ | ⟨-, -, hp⟩ | ⟨_, -, hb, -⟩
  · simp only [hp]
  · simp only [hp]
  · cases hb

theorem lookup_concat (said : List (FetchId × Answer)) (id i : FetchId) (a : Answer) :
    (said ++ [(id, a)]).lookup i = (said.lookup i).or (if i = id then some a else none) := by
  rw [List.lookup_append, List.lookup_cons]
  by_cases hi : i = id
  · simp [hi]
  · simp [hi, beq_false_of_ne hi]

theorem step_ended {w : Waiters} (hw : w.Sound) {said : List (FetchId × Answer)}
    (hsaid : ∀ id, w.loader.Ended id (said.lookup id)) (ev : LoadEvent) (id : FetchId) :
    (w.step ev).loader.Ended id ((said ++ (w.told ev).toList).lookup id) := by
  cases ev with
  | load h =>
    rw [loader_load hw, told, Option.toList_none, List.append_nil]
    exact (hsaid id).join h
  | resume n now =>
    rw [told]
    cases hx : w.waiting[n]? with
    | none =>
      simp only [step, hx, Option.bind_none, Option.toList_none, List.append_nil]
      exact hsaid id
    | some x =>
      have hh := hw.waiting x (List.mem_of_getElem? hx)
      simp only [step, hx, Option.bind_some]
      rcases Loader.poll_cases hw.loader hh now with ⟨o, hf, hp⟩ | ⟨-, rfl, hp⟩ | ⟨a, hf, rfl, hp⟩
      · simp only [hp]
        cases now with
        | none => simpa using hsaid id
        | some a =>
          rw [Option.map_some, Option.toList_some, lookup_concat]
          exact (hsaid id).again (by rw [Loader.outcome?_of_fetch hf]; rfl)
      · simp only [hp]
        simpa using hsaid id
      · simp only [hp]
        rw [Option.map_some, Option.toList_some, lookup_concat]
        exact (hsaid id).answer hf

/-- What the loader has of its fetches is what the source answered to each first. -/
theorem after_ended {w : Waiters} (hw : w.Sound) {said : List (FetchId × Answer)}
    (hsaid : ∀ id, w.loader.Ended id (said.lookup id)) (events : List LoadEvent) (id : FetchId) :
    (w.after events).loader.Ended id ((said ++ w.answersIn events).lookup id) := by
  induction events generalizing w said with
  | nil =>
    rw [answersIn, List.append_nil]
    exact hsaid id
  | cons ev events ih =>
    rw [answersIn, ← List.append_assoc]
    exact ih (step_sound hw ev).1 (step_ended hw hsaid ev)

theorem start_ended (events : List LoadEvent) (id : FetchId) :
    (({} : Waiters).after events).loader.Ended id ((({} : Waiters).answersIn events).lookup id) :=
  @after_ended {} sound_start [] (fun _ => .unanswered rfl) events id

/-- What a load has returned is what the first answer to its fetch conveys. -/
theorem Sound.returned_conveys {w : Waiters} (hw : w.Sound) {x : Load} {o : Outcome} (hx : (x, o) ∈ w.returned)
    {a? : Option Answer} (ha : w.loader.Ended x.fetch a?) : ∃ a, a? = some a ∧ Conveys x.handle a o := by
  have hf := hw.returned _ hx
  cases ha with
  | unanswered ho =>
    rw [Loader.outcome?_of_fetch hf] at ho
    cases ho
  | answered hf' ho hc =>
    rw [hf] at hf'
    cases hf'
    cases ho
    exact ⟨_, rfl, hc⟩

end Waiters

/-! ## Counting fetches -/

theorem countP_le_one {α : Type} {p : α → Bool} {xs : List α}
    (h : ∀ (i j : Nat) x y, xs[i]? = some x → xs[j]? = some y → p x = true → p y = true → i = j) :
    xs.countP p ≤ 1 := by
  induction xs with
  | nil => simp
  | cons x xs ih =>
    have hxs := ih fun i j y z hi hj hy hz => Nat.succ.inj (h (i + 1) (j + 1) y z hi hj hy hz)
    by_cases hx : p x = true
    · have hnone : xs.countP p = 0 := by
        rw [List.countP_eq_zero]
        intro y hy hp
        obtain ⟨i, hi⟩ := List.getElem?_of_mem hy
        cases h 0 (i + 1) x y rfl hi hx hp
      simp [hnone, hx]
    · simpa [List.countP_cons, hx] using hxs

theorem Fetch.hasFailed_of_isSome {f : Fetch} (h : f.fragment?.isSome) : f.hasFailed = false := by
  obtain ⟨fragment, hb⟩ := Option.isSome_iff_exists.1 h
  exact hasFailed_of_fragment hb

namespace Loader

/-- Of a handle's fetches at most one has not failed. -/
theorem Sound.countP_le_one {l : Loader} (hl : l.Sound) (h : Handle) {p : Fetch → Bool}
    (hp : ∀ f, p f = true → f.handle = h ∧ f.hasFailed = false) : l.fetches.countP p ≤ 1 := by
  refine DocNav.countP_le_one fun i j f g hi hj hf hg => ?_
  obtain ⟨hfh, hff⟩ := hp f hf
  obtain ⟨hgh, hgf⟩ := hp g hg
  exact hl.unique hi hj (hfh.trans hgh.symm) hff hgf

/-- The fetch that brought a fragment is the only one of its handle that did. -/
theorem Sound.filter_loaded {l : Loader} (hl : l.Sound) {f : Fetch} (hf : f ∈ l.fetches)
    (hloaded : f.fragment?.isSome) :
    l.fetches.filter (fun g => g.handle = f.handle ∧ g.fragment?.isSome) = [f] := by
  have hone := hl.countP_le_one f.handle (p := fun g => g.handle = f.handle ∧ g.fragment?.isSome) fun g hg => by
    simp only [decide_eq_true_eq] at hg
    exact ⟨hg.1, Fetch.hasFailed_of_isSome hg.2⟩
  rw [List.countP_eq_length_filter] at hone
  have hmem : f ∈ l.fetches.filter fun g => g.handle = f.handle ∧ g.fragment?.isSome :=
    List.mem_filter.2 ⟨hf, by simp [hloaded]⟩
  obtain ⟨g, hfilter⟩ := List.length_eq_one_iff.1 (le_antisymm hone (List.length_pos_of_mem hmem))
  rw [hfilter] at hmem ⊢
  rw [List.mem_singleton.1 hmem]

theorem count_calls (l : Loader) (h : Handle) :
    l.calls.count h = l.fetches.countP (fun f => f.handle = h ∧ f.hasFailed = true) +
      l.fetches.countP (fun f => f.handle = h ∧ f.hasFailed = false) := by
  unfold calls
  induction l.fetches with
  | nil => rfl
  | cons f fs ih =>
    simp only [List.map_cons, List.count_cons, List.countP_cons, ih]
    cases f.hasFailed <;> by_cases hf : f.handle = h <;> simp [hf] <;> omega

theorem isSome_fragment? {l : Loader} {f : Fetch} (hf : f ∈ l.fetches) (hb : f.fragment?.isSome) :
    (l.fragment? f.handle).isSome := by
  rw [fragment?, List.findSome?_isSome_iff]
  exact ⟨f, hf, by simpa using hb⟩

end Loader

namespace Waiters

theorem count_asked {w : Waiters} (hw : w.Sound) (h : Handle) :
    w.asked.count h = (w.loader.fetches.filter (·.handle = h)).length := by
  rw [hw.asked, Loader.calls, List.count, List.countP_map, List.countP_eq_length_filter]
  rfl

/-- In every run of loads, each fetch has the outcome that the source's first answer to it conveys, and none as long as
there is no answer. For every handle: at most one of its fetches is in flight; once one has brought its fragment, the
source is never asked for the handle again; every load of it that returns nodes returns those that the source answered
to its only fetch that brought any; the source was asked for it at most once more than its fetches have failed. The
fetches that the loader counts are those that the source was asked for. -/
theorem single_flight (events : List LoadEvent) (h : Handle) :
    let w := ({} : Waiters).after events
    let said := ({} : Waiters).answersIn events
    (∀ id, w.loader.Ended id (said.lookup id)) ∧
    w.loader.fetches.countP (fun f => f.handle = h ∧ f.inFlight = true) ≤ 1 ∧
    (∀ f ∈ w.loader.fetches, f.handle = h → f.fragment?.isSome →
      ∀ later, (w.after later).asked.count h = w.asked.count h) ∧
    (∀ id nodes, (⟨h, id⟩, .ok nodes) ∈ w.returned → said.lookup id = some (.ok nodes) ∧
      w.loader.fetches.filter (fun f => f.handle = h ∧ f.fragment?.isSome) =
        [{ handle := h, outcome? := some (.ok nodes) }]) ∧
    w.asked.count h ≤ w.loader.fetches.countP (fun f => f.handle = h ∧ f.hasFailed = true) + 1 ∧
    w.loader.calls = w.asked ∧ w.loader.fetchCount = w.asked.length := by
  intro w said
  have hw : w.Sound := (after_sound sound_start events).1
  have hended : ∀ id, w.loader.Ended id (said.lookup id) := start_ended events
  refine ⟨hended, ?_, ?_, ?_, ?_, hw.asked.symm, ?_⟩
  · exact hw.loader.countP_le_one h fun f hf => by
      simp only [decide_eq_true_eq] at hf
      exact ⟨hf.1, Fetch.hasFailed_of_inFlight hf.2⟩
  · rintro f hf rfl hb later
    obtain ⟨hs, hm⟩ := after_sound hw later
    rw [count_asked hs, count_asked hw, hm.fetches_of_loaded hw.loader (Loader.isSome_fragment? hf hb)]
  · intro id nodes hx
    obtain ⟨a, ha, hconveys⟩ := hw.returned_conveys hx (hended id)
    cases hconveys
    refine ⟨ha, ?_⟩
    exact hw.loader.filter_loaded (List.mem_of_getElem? (hw.returned _ hx)) rfl
  · rw [hw.asked, Loader.count_calls]
    have := hw.loader.countP_le_one h (p := fun f => f.handle = h ∧ f.hasFailed = false) fun f hf => by
      simpa using hf
    omega
  · rw [hw.asked]
    simp [Loader.fetchCount, Loader.calls]

end Waiters
end DocNav
