import DocNav.Proofs.Benches
import DocNav.Proofs.Desk
import DocNav.Proofs.Toggling
/-!
# Sessions at a bench

A task of a session waits with its engine, and goes on waiting there whatever happens to the other engines or to the
panes (`Session.Fits`, `Session.Grows`). So the tasks of a session keep what a bench relies on (`machine_keeps`). What
was sent to the panes can be taken away in between, which changes nothing of what follows (`step_emptied`).

Main result: `Bench.session_goes_on`. A session at a bench goes on as any session does.
-/

namespace DocNav

/-! ## Tasks of a session -/

namespace Engine

variable {R : Node} {e : Engine} {r : Request}

theorem begin_grows (hs : e.Sound R) (r : Request) :
    e.Grows Loader.silent (e.begin r).engine ∧
      ∀ t, (e.begin r).progress = .waiting t → (e.begin r).engine.Waits R r t := by
  rcases begin_turns hs Loader.silent r with ⟨ht, -⟩ | ⟨-, -, -, ht⟩
  · obtain ⟨hg, hs'⟩ := Desk.entered_sound hs r
    exact ⟨hg.trans hs (ht.grows hs'), fun t h => (ht.waiting h).1⟩
  · rw [ht]
    exact ⟨.refl _ _, nofun⟩

/-- An answer counts only as long as the fetch of the task is in flight. -/
theorem run_of_ended {t : Task} {o : Outcome} (ho : e.loader.outcome? t.fetch = some o) (a : Option Answer) :
    e.run t a = e.run t none := by
  simp only [run, Loader.poll, ho]

theorem run_grows (hs : e.Sound R) {t : Task} (hw : e.Waits R r t) (a : Option Answer) :
    e.Grows (fun h x => e.loader.fetches[t.fetch]? = some { handle := h } ∧ a = some x) (e.run t a).engine ∧
      ∀ u, (e.run t a).progress = .waiting u → (e.run t a).engine.Waits R r u := by
  have hf := Loader.fetch_of_holds hw.holds
  cases ho : e.loader.outcome? t.fetch with
  | none =>
    rw [ho] at hf
    have ht : Turns (fun h x => e.loader.fetches[t.fetch]? = some { handle := h } ∧ a = some x) R e r t.purpose?
        (e.run t a) (e.plannedAgain? t a) := run_turns hs hw a fun _ hx => ⟨hf, hx⟩
    exact ⟨ht.grows hs, fun u hu => (ht.waiting hu).1⟩
  | some o =>
    rw [run_of_ended ho]
    have ht : Turns Loader.silent R e r t.purpose? (e.run t none) (e.plannedAgain? t none) := run_turns hs hw none nofun
    exact ⟨(ht.grows hs).mono fun _ _ => False.elim, fun u hu => (ht.waiting hu).1⟩

end Engine

namespace Session

variable {σ : Type} {s s' : Session σ}

/-- The trees of all engines unfold the root of the data. -/
def Sound (s : Session σ) : Prop := ∀ n e, s.owner? n = some e → e.Sound s.data.root

/-- The task may wait with its engine. -/
structure Fits (s : Session σ) (t : OwnedTask) : Prop where
  sound : s.Sound
  waits : ∃ e r, s.owner? t.owner = some e ∧ e.Waits s.data.root r t.task

/-- Every engine is still there and has gone on by what the source may answer to it. -/
structure Grows (may : Nat → Handle → Answer → Prop) (s s' : Session σ) : Prop where
  sound : s'.Sound
  data : s'.data = s.data
  owners : ∀ n e, s.owner? n = some e → ∃ e', s'.owner? n = some e' ∧ e.Grows (may n) e'

theorem start_sound (data : NavData) (settings : Settings) (store : ToggleStore σ) (kept : σ) :
    (start data settings store kept).Sound := by
  intro n e he
  have hn : n = 0 := by
    by_contra hn
    simp [owner?, current, start, hn] at he
  subst hn
  cases he
  exact ⟨Loader.sound_empty, .refl _ _⟩

theorem owner?_current (s : Session σ) : s.owner? s.current = some s.engine := by simp [owner?]

theorem take_retired (s : Session σ) (n : Nat) (before : Engine) (turn : Turn) :
    (s.take n before turn).1.retired = if n = s.current then s.retired else s.retired.set n turn.engine := by
  by_cases hn : n = s.retired.length <;> cases hp : turn.progress <;> simp [take, hp, current, hn]

theorem owner?_take {n : Nat} {before : Engine} (h : s.owner? n = some before) (turn : Turn) (k : Nat) :
    (s.take n before turn).1.owner? k = if k = n then some turn.engine else s.owner? k := by
  unfold owner? current at *
  rw [take_engine, take_retired, current]
  by_cases hn : n = s.retired.length
  · subst hn
    simp only [if_true]
    split <;> rfl
  · rw [if_neg hn] at h ⊢
    have hlt : n < s.retired.length := (List.getElem?_eq_some_iff.1 h).1
    rw [if_neg hn, List.length_set]
    by_cases hk : k = n
    · subst hk
      rw [if_neg hn, if_pos rfl, List.getElem?_set_self hlt]
    · rw [if_neg hk, List.getElem?_set_ne (Ne.symm hk)]

theorem take_waits {n : Nat} {before : Engine} {turn : Turn} {u : OwnedTask}
    (h : (s.take n before turn).2 = .inl u) : turn.progress = .waiting u.task ∧ u.owner = n := by
  cases hp : turn.progress with
  | ended ending => simp [take, hp] at h
  | waiting task =>
    simp only [take, hp, Sum.inl.injEq] at h
    subst h
    exact ⟨rfl, rfl⟩

/-- An engine's turn leaves the other engines alone. -/
theorem take_grows (hs : s.Sound) {n : Nat} {before : Engine} (h : s.owner? n = some before) {turn : Turn}
    {may : Handle → Answer → Prop} (hg : before.Grows may turn.engine) :
    s.Grows (fun k x a => k = n ∧ may x a) (s.take n before turn).1 := by
  have hdata := (s.take_leaves n before turn).data
  refine ⟨fun k e he => ?_, hdata, fun k e he => ?_⟩
  · rw [owner?_take h] at he
    rw [hdata]
    split at he
    · cases he
      exact hg.sound (hs n before h)
    · exact hs k e he
  · rw [owner?_take h]
    by_cases hk : k = n
    · subst hk
      rw [h] at he
      cases he
      exact ⟨turn.engine, if_pos rfl, hg.mono fun _ _ ha => ⟨rfl, ha⟩⟩
    · exact ⟨e, (if_neg hk).trans he, .refl _ _⟩

section
variable {may : Nat → Handle → Answer → Prop} {t u : OwnedTask}

theorem Fits.grow (h : s.Fits t) (hg : s.Grows may s') : s'.Fits t := by
  obtain ⟨e, r, he, hw⟩ := h.waits
  obtain ⟨e', he', hge⟩ := hg.owners _ _ he
  refine ⟨hg.sound, e', r, he', ?_⟩
  rw [hg.data]
  exact hw.grow (h.sound _ _ he) hge

theorem inFlight_iff {e : Engine} (he : s.owner? t.owner = some e) :
    machine.inFlight s t = true ↔ e.loader.outcome? t.task.fetch = none := by
  simp [machine, he]

theorem Fits.inFlight (h : s.Fits t) (hflight : machine.inFlight s t = true) :
    ∃ e, s.owner? t.owner = some e ∧ e.Sound s.data.root ∧
      e.loader.fetches[t.task.fetch]? = some { handle := t.task.handle } := by
  obtain ⟨e, r, he, hw⟩ := h.waits
  have hf := Loader.fetch_of_holds hw.holds
  rw [(inFlight_iff he).1 hflight] at hf
  exact ⟨e, he, h.sound _ _ he, hf⟩

/-- A fetch in flight stays so, unless there may be an answer to it. -/
theorem Fits.inFlight_grow (h : s.Fits t) (hg : s.Grows may s') (hflight : machine.inFlight s t = true)
    (hno : ∀ a, ¬ may t.owner t.task.handle a) : machine.inFlight s' t = true := by
  obtain ⟨e, he, -, hf⟩ := h.inFlight hflight
  obtain ⟨e', he', hge⟩ := hg.owners _ _ he
  rw [inFlight_iff he', Loader.outcome?_of_fetch (hge.moves.inFlight hf hno)]

theorem run_eq {e : Engine} (he : s.owner? t.owner = some e) (a : Option Answer) :
    s.run t a = s.take t.owner e (e.run t.task a) := by
  simp only [run, he]

/-- A task that is run has a turn of its engine. -/
theorem Fits.run_grows (h : s.Fits t) (a : Option Answer) :
    ∃ e, s.owner? t.owner = some e ∧ s.Grows (fun k x y => k = t.owner ∧
        e.loader.fetches[t.task.fetch]? = some { handle := x } ∧ a = some y) (s.run t a).1 ∧
      ∀ u, (s.run t a).2 = .inl u → (s.run t a).1.Fits u := by
  obtain ⟨e, r, he, hw⟩ := h.waits
  obtain ⟨hg, hwaits⟩ := Engine.run_grows (h.sound _ _ he) hw a
  have hgrows := take_grows h.sound he hg
  rw [run_eq he]
  refine ⟨e, he, hgrows, fun u hu => ?_⟩
  obtain ⟨hprogress, howner⟩ := take_waits hu
  refine ⟨hgrows.sound, (e.run t.task a).engine, r, ?_, ?_⟩
  · rw [owner?_take he, if_pos howner]
  · rw [hgrows.data]
    exact hwaits _ hprogress

end

theorem machine_keeps : (@machine σ).Keeps Fits where
  fits {s t u} a ht hu := by
    obtain ⟨e, he, hg, -⟩ := ht.run_grows a
    exact hu.grow hg
  waits {s t u} a ht hwait := by
    obtain ⟨e, he, -, hwaits⟩ := ht.run_grows a
    exact hwaits u hwait
  inFlight {s t u} a ht hu hflight hkey := by
    obtain ⟨e, he, hg, -⟩ := ht.run_grows a
    refine hu.inFlight_grow hg hflight ?_
    -- The engine of both tasks has one fetch of the handle in flight, so that they wait for the same.
    rintro x ⟨howner, hf, ha⟩
    obtain ⟨e', he', hs, hf'⟩ := hu.inFlight hflight
    rw [howner, he] at he'
    cases he'
    have hfetch : t.task.fetch = u.task.fetch := hs.loader.unique hf hf' rfl rfl rfl
    have hnone : a = none := hkey (by simp [machine, hfetch, howner])
    rw [ha] at hnone
    cases hnone
  handle {s t u} ht hu hkey := by
    obtain ⟨howner, hfetch⟩ : t.owner = u.owner ∧ t.task.fetch = u.task.fetch := by simpa [machine] using hkey
    obtain ⟨e, r, he, hw⟩ := ht.waits
    obtain ⟨e', r', he', hw'⟩ := hu.waits
    rw [← howner, he] at he'
    cases he'
    exact hw.holds.unique (hfetch ▸ hw'.holds)
  remaining_pos t := by
    change 0 < t.task.remaining
    cases t.task <;> simp [Task.remaining]
  remaining {s t u a} ht hgo hwait := by
    obtain ⟨e, r, he, hw⟩ := ht.waits
    have hwait' : (s.take t.owner e (e.run t.task a)).2 = .inl u := by
      rw [← run_eq he]
      exact hwait
    have hprogress := (take_waits hwait').1
    cases a with
    | some x => exact Engine.remaining_of_run hprogress
    | none =>
      -- The fetch has ended, so that any answer would have led to the same.
      obtain ⟨o, ho⟩ : ∃ o, e.loader.outcome? t.task.fetch = some o := by
        rw [← Option.ne_none_iff_exists']
        exact fun hnone => hgo ((inFlight_iff he).2 hnone) rfl
      rw [← Engine.run_of_ended ho (some (.ok []))] at hprogress
      exact Engine.remaining_of_run hprogress

end Session

/-! ## A session at a bench -/

/-- Whether the event runs a task again. -/
def SessionEvent.isRun : SessionEvent → Bool
  | run _ _ => true
  | begin _ | select _ | collapse _ | toggle | close | restart => false

namespace Session

variable {σ : Type} {s s' : Session σ}

/-- A session whose engines are kept, with only their views changed. -/
theorem grows_of_view (hs : s.Sound) (v : View) {s' : Session σ} (hdata : s'.data = s.data)
    (hretired : s'.retired = s.retired) (hengine : s'.engine = { s.engine with view := v }) :
    s.Grows (fun _ => Loader.silent) s' := by
  have howner : ∀ n, s'.owner? n = if n = s.current then some { s.engine with view := v } else s.owner? n := by
    intro n
    unfold owner? current
    rw [hretired, hengine]
    split <;> rfl
  refine ⟨fun n e he => ?_, hdata, fun n e he => ?_⟩
  · rw [howner] at he
    rw [hdata]
    split at he
    · cases he
      have hview : s.engine.Grows Loader.silent { s.engine with view := v } := .of_view s.engine v
      exact hview.sound (hs _ _ s.owner?_current)
    · exact hs n e he
  · rw [howner]
    by_cases hn : n = s.current
    · subst hn
      rw [owner?_current] at he
      cases he
      exact ⟨_, if_pos rfl, .of_view _ v⟩
    · exact ⟨e, (if_neg hn).trans he, .refl _ _⟩

/-- After a restart the engine that was in use is still there, as the last of the retired ones. -/
theorem restart_grows (hs : s.Sound) : s.Grows (fun _ => Loader.silent) s.restart := by
  have howner : ∀ n, s.restart.owner? n =
      if n = s.retired.length + 1 then some s.restart.engine else s.owner? n := by
    intro n
    unfold owner? current restart
    rw [List.length_append, List.length_singleton]
    split
    · rfl
    · rw [List.getElem?_append]
      split
      · rw [if_neg (by omega)]
      · rw [List.getElem?_singleton]
        by_cases hn : n = s.retired.length
        · simp [hn]
        · rw [if_neg hn, if_neg (by omega), List.getElem?_eq_none (by omega)]
  refine ⟨fun n e he => ?_, rfl, fun n e he => ⟨e, ?_, .refl _ _⟩⟩
  · rw [howner] at he
    split at he
    · cases he
      exact ⟨Loader.sound_empty, .refl _ _⟩
    · exact hs n e he
  · have hne : n ≠ s.retired.length + 1 := by
      rintro rfl
      unfold owner? current at he
      rw [if_neg (by omega), List.getElem?_eq_none (by omega)] at he
      cases he
    rw [howner, if_neg hne, he]

/-- Begins a request. -/
theorem begin_grows (hs : s.Sound) (r : Request) :
    s.Grows (fun _ => Loader.silent) (s.begin r).1 ∧ ∀ u, (s.begin r).2 = .inl u → (s.begin r).1.Fits u := by
  obtain ⟨hg, hwaits⟩ := Engine.begin_grows (hs _ _ s.owner?_current) r
  have hgrows := take_grows hs s.owner?_current hg
  refine ⟨⟨hgrows.sound, hgrows.data, fun n e he => ?_⟩, fun u hu => ?_⟩
  · obtain ⟨e', he', hge⟩ := hgrows.owners n e he
    exact ⟨e', he', hge.mono fun _ _ ha => ha.2⟩
  · obtain ⟨hprogress, howner⟩ := take_waits hu
    refine ⟨hgrows.sound, (s.engine.begin r).engine, r, ?_, ?_⟩
    · exact (owner?_take s.owner?_current _ _).trans (if_pos howner)
    · have hdata : (s.begin r).1.data = s.data := hgrows.data
      rw [hdata]
      exact hwaits _ hprogress

/-- What the user does takes no answer of the source. -/
theorem step_grows (hs : s.Sound) {ev : SessionEvent} (hev : ev.isRun = false) :
    s.Grows (fun _ => Loader.silent) (s.step ev) := by
  cases ev with
  | begin r => exact (begin_grows hs r).1
  | run t a => cases hev
  | select path =>
    simp only [step, select, Engine.select]
    cases s.engine.tree.find path with
    | error err => exact grows_of_view hs s.engine.view rfl rfl rfl
    | ok n => exact grows_of_view hs (s.engine.view.select path n.link).1 rfl rfl rfl
  | collapse path => exact grows_of_view hs (s.engine.view.collapse path).2 rfl rfl rfl
  | toggle => exact grows_of_view hs s.engine.view.toggle rfl rfl rfl
  | close => exact grows_of_view hs { s.engine.view with listening := false } rfl rfl rfl
  | restart => exact restart_grows hs

/-! ### Emptying the outbox -/

theorem take_emptied (s : Session σ) (n : Nat) (before : Engine) (turn : Turn) :
    (s.emptied.take n before turn).1.emptied = (s.take n before turn).1.emptied ∧
      (s.take n before turn).1.outbox = s.outbox ++ (s.emptied.take n before turn).1.outbox := by
  by_cases hn : n = s.retired.length <;> cases hp : turn.progress <;> simp [take, hp, emptied, current, hn]

/-- To empty the outbox takes away what was sent before, and changes nothing else now or later. -/
theorem step_emptied (s : Session σ) (ev : SessionEvent) :
    (s.emptied.step ev).emptied = (s.step ev).emptied ∧
      (s.step ev).outbox = s.outbox ++ (s.emptied.step ev).outbox := by
  cases ev with
  | begin r => exact s.take_emptied _ _ _
  | run t a =>
    have howner : s.emptied.owner? t.owner = s.owner? t.owner := rfl
    simp only [step, run, howner]
    cases s.owner? t.owner with
    | none => exact ⟨rfl, (List.append_nil _).symm⟩
    | some e => exact s.take_emptied _ _ _
  | select path =>
    have hengine : s.emptied.engine = s.engine := rfl
    simp only [step, select, hengine]
    cases s.engine.select path with
    | error err => exact ⟨rfl, (List.append_nil _).symm⟩
    | ok x => exact ⟨rfl, rfl⟩
  | collapse _ | toggle | close | restart => exact ⟨rfl, (List.append_nil _).symm⟩

theorem after_emptied (s : Session σ) (events : List SessionEvent) :
    (s.emptied.after events).emptied = (s.after events).emptied ∧
      (s.after events).outbox = s.outbox ++ (s.emptied.after events).outbox := by
  induction events using List.reverseRecOn with
  | nil => exact ⟨rfl, (List.append_nil _).symm⟩
  | append_singleton events ev ih =>
    obtain ⟨hsame, houtbox⟩ := ih
    obtain ⟨hstep, hsent⟩ := (s.after events).step_emptied ev
    obtain ⟨hstep', hsent'⟩ := (s.emptied.after events).step_emptied ev
    rw [after_concat, after_concat]
    constructor
    · rw [← hstep', hsame, hstep]
    · rw [hsent, hsent', hsame, houtbox, List.append_assoc]

/-- Sessions that differ in what was sent so far go on alike. -/
theorem after_congr (h : s.emptied = s'.emptied) (events : List SessionEvent) :
    (s.after events).emptied = (s'.after events).emptied := by
  rw [← (s.after_emptied events).1, h, (s'.after_emptied events).1]

theorem after_append (s : Session σ) (xs ys : List SessionEvent) : s.after (xs ++ ys) = (s.after xs).after ys :=
  List.foldl_append

/-- Runs of tasks are events of the session. -/
theorem after_of_runs (h : machine.Runs Fits s s') :
    ∃ events : List SessionEvent, (∀ ev ∈ events, ev.isRun = true) ∧ s' = s.after events := by
  induction h with
  | refl => exact ⟨[], by simp, rfl⟩
  | tail _ hran ih =>
    obtain ⟨events, hevents, rfl⟩ := ih
    obtain ⟨t, a, -, rfl⟩ := hran
    have hafter : s.after (events ++ [.run t a]) = (machine.run (s.after events) t a).1 := after_concat _ _ _
    refine ⟨events ++ [.run t a], fun ev hev => ?_, hafter.symm⟩
    rcases List.mem_append.1 hev with hev | hev
    · exact hevents ev hev
    · rw [List.mem_singleton.1 hev]
      rfl

/-- Runs of tasks keep the session sound. -/
theorem sound_of_runs (hs : s.Sound) (h : machine.Runs Fits s s') : s'.Sound := by
  induction h with
  | refl => exact hs
  | tail _ hran ih =>
    obtain ⟨t, a, ht, rfl⟩ := hran
    obtain ⟨e, he, hg, -⟩ := ht.run_grows a
    exact hg.sound

/-- A request may be brought to a bench. -/
theorem begins (hs : s.Sound) (r : Request) : Bench.Begins machine Fits s (s.begin r) where
  fits hu := hu.grow (begin_grows hs r).1
  inFlight hu hflight := hu.inFlight_grow (begin_grows hs r).1 hflight fun _ => id
  waits := (begin_grows hs r).2 _

end Session

/-- What may happen to a session at a bench: the user asks for something, gated fetches are released, or what was sent
to the panes is taken away. -/
inductive GatedEvent (σ : Type) where
  | ask (ev : SessionEvent) (notRun : ev.isRun = false) (source : Session σ → Handle → Answer)
  | release (handles : List Handle) (source : Session σ → Handle → Answer)
  | empty

def GatedEvent.asked? {σ : Type} : GatedEvent σ → Option SessionEvent
  | ask ev _ _ => some ev
  | release _ _ | empty => none

namespace Bench

variable {σ : Type} {gated : List Handle} {b : Bench (Session σ) OwnedTask Ending}

def ask (b : Bench (Session σ) OwnedTask Ending) (gated : List Handle) (source : Session σ → Handle → Answer) :
    SessionEvent → Bench (Session σ) OwnedTask Ending
  | .begin r => (b.perform Session.machine source gated (b.state.begin r)).1
  | ev => { b with state := b.state.step ev }

def afterGated (gated : List Handle) (b : Bench (Session σ) OwnedTask Ending) :
    GatedEvent σ → Bench (Session σ) OwnedTask Ending
  | .ask ev _ source => b.ask gated source ev
  | .release handles source => (b.release Session.machine source gated handles).1
  | .empty => { b with state := b.state.emptied }

/-- The bench in a state that its session has come to without an answer. -/
theorem Sound.grow {s : Session σ} (hb : b.Sound Session.machine Session.Fits gated)
    (hg : b.state.Grows (fun _ => Loader.silent) s) :
    Sound Session.machine Session.Fits gated { b with state := s } :=
  hb.change (fun hu => hu.grow hg) fun hu hheld =>
    ⟨hu.inFlight_grow hg hheld.inFlight fun _ => id, hheld.gated, hheld.notThrough⟩

/-- What the user asks is done, and runs of tasks may follow. -/
theorem ask_sound (hs : b.state.Sound) (hb : b.Sound Session.machine Session.Fits gated) {ev : SessionEvent}
    (notRun : ev.isRun = false) (source : Session σ → Handle → Answer) :
    (b.ask gated source ev).state.Sound ∧ (b.ask gated source ev).Sound Session.machine Session.Fits gated ∧
      ∃ runs : List SessionEvent, (∀ r ∈ runs, r.isRun = true) ∧
        (b.ask gated source ev).state = (b.state.step ev).after runs := by
  have hg := Session.step_grows hs notRun
  have hother : ∀ b' : Bench (Session σ) OwnedTask Ending, b' = { b with state := b.state.step ev } →
      b'.state.Sound ∧ b'.Sound Session.machine Session.Fits gated ∧
        ∃ runs : List SessionEvent, (∀ r ∈ runs, r.isRun = true) ∧ b'.state = (b.state.step ev).after runs := by
    rintro b' rfl
    exact ⟨hg.sound, hb.grow hg, [], by simp, rfl⟩
  cases ev with
  | begin r =>
    obtain ⟨hrun, hsound⟩ := hb.perform Session.machine_keeps source (Session.begins hs r)
    exact ⟨Session.sound_of_runs hg.sound hrun, hsound, Session.after_of_runs hrun⟩
  | run t a => cases notRun
  | select _ | collapse _ | toggle | close | restart => exact hother _ rfl

/-- At each event the session goes on by what was asked, if anything was, and by runs of its tasks. -/
theorem afterGated_sound (hs : b.state.Sound) (hb : b.Sound Session.machine Session.Fits gated) (ev : GatedEvent σ) :
    (b.afterGated gated ev).state.Sound ∧ (b.afterGated gated ev).Sound Session.machine Session.Fits gated ∧
      ∃ runs : List SessionEvent, (∀ r ∈ runs, r.isRun = true) ∧
        (b.afterGated gated ev).state.emptied = (b.state.after (ev.asked?.toList ++ runs)).emptied := by
  cases ev with
  | ask ev notRun source =>
    obtain ⟨hstate, hsound, runs, hisRun, hafter⟩ := ask_sound hs hb notRun source
    exact ⟨hstate, hsound, runs, hisRun, congrArg Session.emptied hafter⟩
  | release handles source =>
    obtain ⟨hrun, hsound, -⟩ := hb.release Session.machine_keeps source handles
    obtain ⟨runs, hisRun, hafter⟩ := Session.after_of_runs hrun
    exact ⟨Session.sound_of_runs hs hrun, hsound, runs, hisRun, congrArg Session.emptied hafter⟩
  | empty =>
    have hg : b.state.Grows (fun _ => Loader.silent) b.state.emptied :=
      Session.grows_of_view hs b.state.engine.view rfl rfl rfl
    exact ⟨hg.sound, hb.grow hg, [], by simp, rfl⟩

/-- A session at a bench goes on as any session does: it comes to what the same questions of the user lead to, in the
same order, with runs of its tasks between them, what it has sent apart. A task that waits does so for a fetch in flight
of its own engine, one that the gate holds back. -/
theorem session_goes_on (data : NavData) (settings : Settings) (store : ToggleStore σ) (kept : σ) (gated : List Handle)
    (events : List (GatedEvent σ)) :
    let s := Session.start data settings store kept
    let b := events.foldl (afterGated gated) { state := s }
    (∃ run : List SessionEvent, run.filter (!·.isRun) = events.filterMap GatedEvent.asked? ∧
      b.state.emptied = (s.after run).emptied) ∧
    (∀ w ∈ b.waiting, w.2.task.handle ∈ gated ∧ ∃ e, b.state.owner? w.2.owner = some e ∧
      e.loader.fetches[w.2.task.fetch]? = some { handle := w.2.task.handle }) ∧
    (b.waiting.map Prod.fst).Pairwise (· < ·) := by
  intro s b
  have hrun : b.state.Sound ∧ b.Sound Session.machine Session.Fits gated ∧
      ∃ run : List SessionEvent, run.filter (!·.isRun) = events.filterMap GatedEvent.asked? ∧
        b.state.emptied = (s.after run).emptied := by
    induction events using List.reverseRecOn with
    | nil => exact ⟨Session.start_sound data settings store kept, sound_start _, [], rfl, rfl⟩
    | append_singleton events ev ih =>
      obtain ⟨hs, hb, run, hasked, hafter⟩ := ih
      obtain ⟨hs', hb', runs, hisRun, hafter'⟩ := afterGated_sound hs hb ev
      simp only [b, List.foldl_append, List.foldl_cons, List.foldl_nil]
      refine ⟨hs', hb', run ++ (ev.asked?.toList ++ runs), ?_, ?_⟩
      · have hnone : runs.filter (!·.isRun) = [] := by
          rw [List.filter_eq_nil_iff]
          intro r hr
          simp [hisRun r hr]
        have hone : ev.asked?.toList.filter (!·.isRun) = [ev].filterMap GatedEvent.asked? := by
          cases ev with
          | ask ev notRun source => simp [GatedEvent.asked?, notRun]
          | release _ _ | empty => rfl
        rw [List.filter_append, List.filter_append, hasked, hnone, hone, List.append_nil, List.filterMap_append]
      · rw [hafter', s.after_append run]
        exact Session.after_congr hafter _
  obtain ⟨-, hb, hrun⟩ := hrun
  refine ⟨hrun, fun w hw => ?_, hb.ascending⟩
  obtain ⟨hfits, hheld⟩ := hb.waiting w hw
  obtain ⟨e, he, -, hf⟩ := hfits.inFlight hheld.inFlight
  exact ⟨hheld.gated, e, he, hf⟩

end Bench

end DocNav
