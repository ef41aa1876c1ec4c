import DocNav.Proofs.Turns
import DocNav.Session
/-!
# Runs of an engine

A `Desk` is an engine with the requests that wait for its fetches. Whatever may happen to it is an `Event`:
requests begin, waiting tasks are run again in any order and with any answers of the source or none, and the
user selects, collapses and toggles meanwhile. A run is any list of events, so a statement about all lists is
one about all interleavings.

What holds all the time is `Desk.Sound`; `after_sound` and `after_grows` are the main results. A desk also
remembers which navigation started last, and each event has a `Report` of what was to be seen of it.
-/

namespace DocNav

inductive Event where
  | begin (request : Request)
  /-- The task with this number is run again while the source says this. -/
  | run (number : Nat) (now : Handle → Option Answer)
  | select (path : TreePath)
  | collapse (path : TreePath)
  | toggle
  /-- The panes stop listening. -/
  | close

/-- What the source answers at an event. -/
def Event.answers : Event → Handle → Answer → Prop
  | .run _ now, h, a => now h = some a
  | .begin _, _, _ | .select _, _, _ | .collapse _, _, _ | .toggle, _, _ | .close, _, _ => False

/-- What the source answers at one of the events. -/
def answeredIn (events : List Event) (h : Handle) (a : Answer) : Prop := ∃ ev ∈ events, ev.answers h a

/-- A request that waits. -/
structure Pending where
  /-- The number of the event with which the request began. -/
  number : Nat
  request : Request
  /-- Whether it is a navigation. -/
  navigates : Bool
  task : Task

/-- The task of the request stands at a node of the hierarchy, and its plan is one for the request. -/
structure Pending.Sound (R : Node) (e : Engine) (p : Pending) : Prop where
  waits : e.Waits R p.request p.task
  purpose : ∃ ticket, p.task.purpose? = p.request.purpose? ticket

structure Desk where
  engine : Engine
  pending : List Pending := []
  /-- How many events there have been. -/
  clock : Nat := 0
  /-- The number of the navigation that started last. -/
  newest : Option Nat := none

/-- What is to be seen of an event. -/
structure Report where
  /-- The request that had its turn. -/
  request : Option Request := none
  /-- The number of the navigation that had its turn. -/
  navigation : Option Nat := none
  /-- What the plan of the request has found, if it has ended. -/
  planned : Option (Except ResolveError TreePath) := none
  ending : Option Ending := none
  /-- The path that the user has selected. -/
  selected : Option TreePath := none
  sent : List Command := []

def Turn.ending? (turn : Turn) : Option Ending :=
  match turn.progress with
  | .ended ending => some ending
  | .waiting _ => none

namespace Desk

/-- Begins with an engine's first state. -/
def start (data : NavData) (settings : Settings) (remembered : Option Bool) : Desk where
  engine := .start data settings remembered

/-- Takes over the turn of a request. -/
def take (d : Desk) (number : Nat) (r : Request) (navigates : Bool) (turn : Turn)
    (planned : Option (Except ResolveError TreePath)) : Desk × Report :=
  let others := d.pending.filter (·.number ≠ number)
  let pending :=
    match turn.progress with
    | .waiting task => { number, request := r, navigates, task } :: others
    | .ended _ => others
  ({ d with engine := turn.engine, pending },
    { request := some r, navigation := if navigates then some number else none, planned,
      ending := turn.ending?, sent := turn.sent })

def step (d : Desk) (ev : Event) : Desk × Report :=
  let next := { d with clock := d.clock + 1 }
  match ev with
  | .begin r =>
    let navigates := r.navigates d.engine.view
    { next with newest := if navigates then some d.clock else d.newest }.take
      d.clock r navigates (d.engine.begin r) (d.engine.planned? r)
  | .run number now =>
    match d.pending.find? (·.number = number) with
    | none => (next, {})
    | some p =>
      let answer := now p.task.handle
      next.take number p.request p.navigates (d.engine.run p.task answer) (d.engine.plannedAgain? p.task answer)
  | .select path =>
    match d.engine.select path with
    | .error _ => (next, {})
    | .ok (engine, sent) =>
      ({ next with engine, newest := some d.clock },
        { navigation := some d.clock, selected := some path, sent })
  | .collapse path => ({ next with engine := (d.engine.collapse path).2 }, {})
  | .toggle => ({ next with engine := d.engine.toggle }, {})
  | .close => ({ next with engine := { d.engine with view := { d.engine.view with listening := false } } }, {})

def after (d : Desk) (events : List Event) : Desk := events.foldl (fun d ev => (d.step ev).1) d

theorem after_append (d : Desk) (xs ys : List Event) : d.after (xs ++ ys) = (d.after xs).after ys :=
  List.foldl_append

/-- A request that waits after a turn waited before it, or has had the turn. -/
theorem mem_take {d : Desk} {number : Nat} {r : Request} {navigates : Bool} {turn : Turn}
    {planned : Option (Except ResolveError TreePath)} {p : Pending}
    (h : p ∈ (d.take number r navigates turn planned).1.pending) :
    (p ∈ d.pending ∧ p.number ≠ number) ∨
      ∃ task, turn.progress = .waiting task ∧ p = { number, request := r, navigates, task } := by
  have hothers : p ∈ d.pending.filter (·.number ≠ number) → p ∈ d.pending ∧ p.number ≠ number := by simp
  simp only [take] at h
  split at h
  · rename_i task ht
    rcases List.mem_cons.1 h with rfl | h
    · exact .inr ⟨task, ht, rfl⟩
    · exact .inl (hothers h)
  · exact .inl (hothers h)

/-! ## What holds all the time -/

/-- The tree unfolds the root, and every request waits. -/
structure Sound (R : Node) (d : Desk) : Prop where
  engine : d.engine.Sound R
  pending : ∀ p ∈ d.pending, p.Sound R d.engine

theorem start_sound (data : NavData) (settings : Settings) (remembered : Option Bool) :
    (start data settings remembered).Sound data.root where
  engine := ⟨Loader.sound_empty, .refl _ _⟩
  pending := by simp [start]

variable {R : Node} {d : Desk} {may : Handle → Answer → Prop}

theorem Sound.grow (hd : d.Sound R) {d' : Desk} (hg : d.engine.Grows may d'.engine)
    (hp : ∀ p ∈ d'.pending, p ∈ d.pending ∨ p.Sound R d'.engine) : d'.Sound R where
  engine := hg.sound hd.engine
  pending p hp' := (hp p hp').elim
    (fun h => ⟨(hd.pending p h).waits.grow hd.engine hg, (hd.pending p h).purpose⟩) id

/-- A turn that is taken over leaves a task that waits, if any. -/
theorem Sound.take (hd : d.Sound R) (number : Nat) (r : Request) (navigates : Bool) {turn : Turn}
    (planned : Option (Except ResolveError TreePath)) (hg : d.engine.Grows may turn.engine)
    (hw : ∀ t, turn.progress = .waiting t →
      turn.engine.Waits R r t ∧ ∃ ticket, t.purpose? = r.purpose? ticket) :
    d.engine.Grows may (d.take number r navigates turn planned).1.engine ∧
      (d.take number r navigates turn planned).1.Sound R := by
  refine ⟨hg, hd.grow hg fun p h => ?_⟩
  rcases mem_take h with h | ⟨t, hp, rfl⟩
  · exact .inl h.1
  · obtain ⟨hwait, hticket⟩ := hw t hp
    exact .inr ⟨hwait, hticket⟩

/-- A task that is run has a turn of its request. -/
theorem Sound.run_turns (hd : d.Sound R) {p : Pending} (hp : p ∈ d.pending) (number : Nat)
    (now : Handle → Option Answer) :
    Engine.Turns (Event.run number now).answers R d.engine p.request p.task.purpose?
      (d.engine.run p.task (now p.task.handle)) (d.engine.plannedAgain? p.task (now p.task.handle)) :=
  Engine.run_turns hd.engine (hd.pending p hp).waits _ fun _ => id

theorem entered_sound {e : Engine} (hs : e.Sound R) (r : Request) :
    e.Grows may (e.entered r) ∧ (e.entered r).Sound R := by
  have hg : e.Grows may (e.entered r) := by
    unfold Engine.entered
    split
    · exact .of_view _ _
    · exact .refl _ _
  exact ⟨hg, hg.sound hs⟩

/-- One event moves the engine on by what the source answers at it. -/
theorem step_sound (hd : d.Sound R) (ev : Event) :
    d.engine.Grows ev.answers (d.step ev).1.engine ∧ (d.step ev).1.Sound R := by
  -- An event that only changes the view, the clock or the newest navigation.
  have hg : ∀ v, d.engine.Grows ev.answers { d.engine with view := v } := .of_view d.engine
  have hview : ∀ (v : View) (clock : Nat) (newest : Option Nat),
      d.engine.Grows ev.answers { d.engine with view := v } ∧
        Sound R { engine := { d.engine with view := v }, pending := d.pending, clock, newest } :=
    fun v _ _ => ⟨hg v, hd.grow (hg v) fun _ => .inl⟩
  have hnext : ∀ clock newest, Sound R { d with clock, newest } := fun _ _ => ⟨hd.engine, hd.pending⟩
  cases ev with
  | begin r =>
    let newest := if r.navigates d.engine.view then some d.clock else d.newest
    refine (hnext (d.clock + 1) newest).take d.clock r (r.navigates d.engine.view) (d.engine.planned? r) ?_ ?_
    all_goals rcases Engine.begin_turns hd.engine (Event.begin r).answers r with ⟨ht, -⟩ | ⟨-, -, -, ht⟩
    · obtain ⟨hg, hs⟩ := entered_sound hd.engine r
      exact hg.trans hd.engine (ht.grows hs)
    · rw [ht]
      exact .refl _ _
    · exact fun t h => ⟨(ht.waiting h).1, _, (ht.waiting h).2⟩
    · rw [ht]
      nofun
  | run number now =>
    simp only [step]
    cases hp : d.pending.find? (·.number = number) with
    | none => exact hview d.engine.view _ _
    | some p =>
      have hmem := List.mem_of_find?_eq_some hp
      have ht := hd.run_turns hmem number now
      obtain ⟨ticket, hticket⟩ := (hd.pending p hmem).purpose
      exact (hnext (d.clock + 1) d.newest).take number p.request _ _ (ht.grows hd.engine) fun t h =>
        ⟨(ht.waiting h).1, ticket, (ht.waiting h).2.trans hticket⟩
  | select path =>
    simp only [step, Engine.select]
    split
    · exact hview d.engine.view _ _
    · rename_i h
      split at h
      · cases h
      · cases h
        exact hview _ _ _
  | collapse path => exact hview _ _ _
  | toggle => exact hview _ _ _
  | close => exact hview _ _ _

/-- Events move the engine on by what the source answers at them. -/
theorem after_sound (hd : d.Sound R) (events : List Event) :
    d.engine.Grows (answeredIn events) (d.after events).engine ∧ (d.after events).Sound R := by
  induction events generalizing d with
  | nil => exact ⟨.refl _ _, hd⟩
  | cons ev events ih =>
    obtain ⟨hg, hd'⟩ := step_sound hd ev
    obtain ⟨hg', hd''⟩ := ih hd'
    have h1 : d.engine.Grows (answeredIn (ev :: events)) (d.step ev).1.engine :=
      hg.mono fun h a ha => ⟨ev, List.mem_cons_self, ha⟩
    have h2 : (d.step ev).1.engine.Grows (answeredIn (ev :: events)) ((d.step ev).1.after events).engine :=
      hg'.mono fun h a ⟨ev', hev, ha⟩ => ⟨ev', List.mem_cons_of_mem ev hev, ha⟩
    exact ⟨h1.trans hd.engine h2, hd''⟩

/-- What every event keeps holds after any events. -/
theorem after_inv {I : Desk → Prop} (hstep : ∀ d ev, d.Sound R → I d → I (d.step ev).1) (hd : d.Sound R) (hi : I d)
    (events : List Event) : I (d.after events) := by
  induction events generalizing d with
  | nil => exact hi
  | cons ev events ih => exact ih (step_sound hd ev).2 (hstep d ev hd hi)

end Desk
end DocNav
