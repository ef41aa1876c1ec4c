import DocNav.Proofs.Navigations
import DocNav.Proofs.Writes
/-!
# What a failure leaves alone

A request that fails has changed nothing that is shown, in none of its turns: the tree, the selection, the expanded
nodes and the mode are as they were, and nothing was sent. What it has loaded on the way stays loaded; only the fetch
that has failed leaves the cache. A node that cannot be selected leaves everything alone, also the navigations that
wait.

A turn in which a request does not end well is quiet (`Engine.Turns.quiet`). As a request that has ended has no further
turn (`after_over`), all turns of one that fails are such turns. Main result: `failures_leave_what_is_shown`.
-/

namespace DocNav

/-! ## What is loaded and what has failed -/

namespace Loader

variable {l : Loader} {h : Handle} {id : FetchId}

theorem Sound.lookup_of_fragment (hl : l.Sound) {fragment : List Node}
    (hf : l.fetches[id]? = some { handle := h, outcome? := some (.ok fragment) }) : l.cache.lookup h = some id :=
  (hl h id).2 ⟨_, hf, rfl, rfl⟩

theorem Sound.lookup_ne_of_error (hl : l.Sound) {err : LoadError}
    (hf : l.fetches[id]? = some { handle := h, outcome? := some (.error err) }) (k : Handle) :
    l.cache.lookup k ≠ some id := by
  intro hk
  obtain ⟨f, hf', -, hn⟩ := (hl k id).1 hk
  rw [hf] at hf'
  cases hf'
  cases hn

/-- A fetch that is joined is in flight or has brought its fragment. -/
theorem Sound.poll_join (hl : l.Sound) (h : Handle) :
    (l.join h).2.poll h (l.join h).1 none = (none, (l.join h).2) ∨
      ∃ fragment, (l.join h).2.poll h (l.join h).1 none = (some (.ok fragment), (l.join h).2) := by
  have hl' : (l.join h).2.Sound := (join_moves l h).sound hl
  rcases poll_cases hl' (holds_join hl h) none with ⟨o, ho, hp⟩ | ⟨-, -, hp⟩ | ⟨_, -, hb, -⟩
  · cases o with
    | ok fragment => exact .inr ⟨fragment, hp⟩
    | error err =>
      -- What is cached has not failed.
      have hcached : (l.join h).2.cache.lookup h = some (l.join h).1 := by
        unfold join
        split
        · assumption
        · simp
      exact absurd hcached (hl'.lookup_ne_of_error ho h)
  · exact .inl hp
  · cases hb

end Loader

/-- An outcome that is an error is of the handle that was asked for. -/
theorem Outcome.handle_of_ofAnswer {h : Handle} {a : Answer} {err : LoadError} (ho : .error err = ofAnswer h a) :
    err.handle = h := by
  cases a with
  | ok fragment => cases ho
  | error e =>
    cases ho
    rfl

/-! ## Where a request fails to load -/

namespace Plan

theorem ne_load_of_descend {s : Spot} {anchor link : PageRef} {children : List Node} {apart : Bool} {err : ResolveError}
    (h : s.descend anchor link children apart = .error err) (e : LoadError) : err ≠ .load e := by
  unfold Spot.descend at h
  split at h
  · cases h
    intro h
    cases h
  · cases h

/-- A walk never fails to load: what it needs is there, or it waits. -/
theorem walk_ne_load {root : Node} {anchor : PageRef} {rest : Chain} {s : Spot} {l : Loader} (hl : l.Sound)
    (e : LoadError) : (walk root anchor rest s l).1 ≠ .failed (.load e) := by
  induction rest generalizing s l with
  | nil =>
    intro h
    cases h
  | cons link rest ih =>
    rw [walk]
    split
    · intro h
      cases h
    · split
      · split
        · rename_i he
          simpa using ne_load_of_descend he e
        · exact ih hl
      · rename_i h _
        rcases hl.poll_join h with hp | ⟨fragment, hp⟩
        · simp only [hp]
          intro h
          cases h
        · simp only [hp]
          split
          · rename_i he
            simpa using ne_load_of_descend he e
          · exact ih ((Loader.join_moves l h).sound hl)

/-- A plan that goes on fails to load only if what it waited for has failed. -/
theorem resume_load {root : Node} {w : Waiting} {o : Outcome} {l : Loader} (hl : l.Sound) {e : LoadError}
    (h : (resume root w o l).1 = .failed (.load e)) : o = .error e ∧ (resume root w o l).2 = l := by
  cases o with
  | error e' =>
    cases h
    exact ⟨rfl, rfl⟩
  | ok fragment =>
    simp only [resume] at h
    split at h
    · rename_i he
      simp only [Progress.failed.injEq] at h
      exact absurd h (ne_load_of_descend he e)
    · exact absurd h (walk_ne_load hl e)

end Plan

namespace Engine

variable {may : Handle → Answer → Prop} {R : Node} {e : Engine} {r : Request} {purpose : Purpose} {err : LoadError}

theorem advance_load {x : Plan.Progress × Loader}
    (h : (e.advance purpose x).ending? = some (.error (.load err))) :
    x.1 = .failed (.load err) ∧ (e.advance purpose x).engine.loader = x.2 := by
  obtain ⟨p, l⟩ := x
  cases p with
  | waiting w => cases h
  | failed err' =>
    cases h
    exact ⟨rfl, rfl⟩
  | arrived path staged =>
    simp only [advance] at h
    split at h
    · cases h
    · obtain ⟨a, ha⟩ := land_ending _ purpose path
      rw [ha] at h
      cases h

theorem openNode_ne_load (e : Engine) (path : TreePath) : (e.openNode path).ending? ≠ some (.error (.load err)) := by
  unfold openNode
  split
  · intro h
    cases h
  · split <;> simp [Turn.ending?]

theorem finishExpand_load {path : TreePath} {o : Outcome}
    (h : (e.finishExpand path o).ending? = some (.error (.load err))) :
    o = .error err ∧ (e.finishExpand path o).engine.loader = e.loader := by
  cases o with
  | error err' =>
    cases h
    exact ⟨rfl, rfl⟩
  | ok fragment =>
    simp only [finishExpand] at h
    split at h
    · cases h
    · exact absurd h (openNode_ne_load _ path)

theorem beginPlan_ne_load (hs : e.Sound R) (anchor : PageRef) (found : Except UnknownAnchor Chain) (v : View) :
    ({ e with view := v }.beginPlan purpose anchor found).ending? ≠ some (.error (.load err)) := by
  cases found with
  | error _ =>
    intro h
    cases h
  | ok chain =>
    intro h
    exact Plan.walk_ne_load hs.loader err (advance_load h).1

theorem beginExpand_ne_load (hs : e.Sound R) (path : TreePath) :
    (e.beginExpand path).ending? ≠ some (.error (.load err)) := by
  unfold beginExpand
  split
  · intro h
    cases h
  · split
    · exact openNode_ne_load e path
    · rename_i h _
      rcases hs.loader.poll_join h with hp | ⟨fragment, hp⟩
      · simp only [hp]
        intro h
        cases h
      · simp only [hp]
        intro h
        cases (finishExpand_load h).1

/-- No request fails to load in the turn in which it begins. -/
theorem begin_ne_load (hs : e.Sound R) (r : Request) : (e.begin r).ending? ≠ some (.error (.load err)) := by
  cases r with
  | plan anchor | planPage anchor => exact beginPlan_ne_load hs anchor _ e.view
  | navigate anchor => exact beginPlan_ne_load hs anchor _ _
  | follow page =>
    rw [begin]
    split
    · exact beginPlan_ne_load hs page _ _
    · intro h
      cases h
  | expand path => exact beginExpand_ne_load hs path

/-- A task fails to load when the fetch that it waits for has failed. -/
theorem run_load (hs : e.Sound R) {t : Task} (hw : e.Waits R r t) {answer : Option Answer}
    (hmay : ∀ a, answer = some a → may t.handle a)
    (h : (e.run t answer).ending? = some (.error (.load err))) :
    (e.run t answer).engine.loader.fetches[t.fetch]? = some { handle := t.handle, outcome? := some (.error err) } := by
  rcases poll_waiting hs hw answer hmay with hp | ⟨o, l, hm, ho, hp⟩
  · rw [(run_waiting hp).1] at h
    cases h
  · have hl : l.Sound := hm.sound hs.loader
    cases t with
    | planning purpose w =>
      simp only [run, Task.handle, Task.fetch] at h hp ho ⊢
      simp only [hp] at h ⊢
      obtain ⟨hfailed, hloader⟩ := advance_load h
      obtain ⟨rfl, hsame⟩ := Plan.resume_load hl hfailed
      rw [hloader, hsame, ho]
    | expanding path handle id =>
      simp only [run, Task.handle, Task.fetch] at h hp ho ⊢
      simp only [hp] at h ⊢
      obtain ⟨rfl, hloader⟩ := finishExpand_load h
      rw [hloader, ho]

/-! ## Turns in which nothing is shown -/

/-- A turn that does not end well leaves the view as it was and sends nothing. -/
theorem Turns.quiet {purpose? : Option Purpose} {turn : Turn} {x : Option (Except ResolveError TreePath)}
    (h : Turns may R e r purpose? turn x) (hne : ∀ a, turn.ending? ≠ some (.ok a)) :
    turn.engine.view = e.view ∧ turn.sent = [] := by
  cases h with
  | waits _ hv _ _ | fails _ hv _ | refuses _ hv _ _ => exact ⟨hv, rfl⟩
  | @lands e' purpose p _ _ _ _ =>
    obtain ⟨a, ha⟩ := land_ending e' purpose p
    exact absurd ha (hne a)
  | @opens e' path _ hv _ _ =>
    cases hn : e'.tree.find path with
    | error err =>
      simp only [openNode, hn]
      exact ⟨hv, rfl⟩
    | ok n =>
      refine absurd ?_ (hne .expanded)
      simp only [openNode, hn]
      split <;> rfl

/-- A navigation with the latest ticket is revealed when its node is found, unless it follows the content pane and the
panes are not linked. -/
theorem land_of_latest {ticket : Ticket} (ht : purpose.ticket? = some ticket) (hlatest : ticket = e.view.latest)
    (p : TreePath) :
    (e.land purpose p).ending? = some (.ok (.landed (.revealed p))) ∨
      purpose = .inbound ticket ∧ e.view.mode = .unlinked ∧
        (e.land purpose p).ending? = some (.ok (.landed .ignored)) := by
  cases purpose with
  | locate => cases ht
  | deepLink anchor t =>
    cases ht
    left
    simp [land, View.completeDeepLink, View.isCurrent, Turn.ending?, hlatest]
  | inbound t =>
    cases ht
    cases hm : e.view.mode with
    | linked =>
      left
      simp [land, View.completeInbound, View.isCurrent, Turn.ending?, hlatest, SyncMode.isLinked, hm]
    | unlinked =>
      right
      simp [land, View.completeInbound, View.isCurrent, Turn.ending?, hlatest, SyncMode.isLinked, hm]

theorem Turns.of_latest {purpose? : Option Purpose} {turn : Turn} {ticket : Ticket} {p : TreePath}
    (h : Turns may R e r purpose? turn (some (.ok p))) (ht : purpose?.bind Purpose.ticket? = some ticket)
    (hlatest : ticket = e.view.latest) :
    turn.ending? = some (.ok (.landed (.revealed p))) ∨
      purpose? = some (.inbound ticket) ∧ e.view.mode = .unlinked ∧
        turn.ending? = some (.ok (.landed .ignored)) := by
  cases h with
  | @lands e' purpose _ _ hv _ hpurpose =>
    rw [hpurpose, Option.bind_some] at ht
    rw [← hv] at hlatest ⊢
    rw [hpurpose, Option.some.injEq]
    exact land_of_latest ht hlatest p

theorem entered_view (e : Engine) (r : Request) :
    (e.entered r).view = { e.view with latest := (e.entered r).view.latest } := by
  unfold entered
  split <;> rfl

end Engine

/-! ## The turns of a request -/

/-- The number of the request that has a turn at an event of this number. -/
def Event.turnOf? (number : Nat) : Event → Option Nat
  | .begin _ => some number
  | .run n _ => some n
  | .select _ | .collapse _ | .toggle | .close => none

namespace Desk

/-- From one desk to the next, nothing has changed that is shown, and nothing was sent. -/
structure Unmoved (d d' : Desk) (sent : List Command) : Prop where
  tree : d'.engine.tree = d.engine.tree
  selection : d'.engine.view.selection = d.engine.view.selection
  expanded : d'.engine.view.expanded = d.engine.view.expanded
  mode : d'.engine.view.mode = d.engine.view.mode
  sent : sent = []

/-- The request of this number has ended. -/
structure Over (n : Nat) (d : Desk) : Prop where
  past : n < d.clock
  ended : ∀ q ∈ d.pending, q.number ≠ n

variable {R : Node} {d : Desk} {n : Nat}

theorem step_clock (d : Desk) (ev : Event) : (d.step ev).1.clock = d.clock + 1 := by
  cases ev with
  | begin r => rfl
  | run number now =>
    simp only [step]
    split <;> rfl
  | select path =>
    simp only [step]
    split <;> rfl
  | collapse path | toggle | close => rfl

theorem after_clock (d : Desk) (events : List Event) : (d.after events).clock = d.clock + events.length := by
  induction events generalizing d with
  | nil => rfl
  | cons ev events ih =>
    rw [after, List.foldl_cons]
    refine (ih (d.step ev).1).trans ?_
    rw [step_clock, List.length_cons]
    omega

theorem step_over (h : d.Over n) (ev : Event) : (d.step ev).1.Over n where
  past := by
    rw [step_clock]
    exact Nat.lt_succ_of_lt h.past
  ended q hq := by
    rcases (step_numbers d ev).2 q hq with hnew | ⟨p, hp, hpq⟩
    · rw [hnew]
      exact Nat.ne_of_gt h.past
    · rw [← hpq]
      exact h.ended p hp

theorem after_over (h : d.Over n) (events : List Event) : (d.after events).Over n := by
  induction events generalizing d with
  | nil => exact h
  | cons ev events ih => exact ih (step_over h ev)

theorem take_over {number : Nat} {r : Request} {navigates : Bool} {turn : Turn}
    {planned : Option (Except ResolveError TreePath)} {ending : Ending} (hlt : number < d.clock)
    (h : turn.ending? = some ending) : (d.take number r navigates turn planned).1.Over number where
  past := hlt
  ended q hq := by
    rcases mem_take hq with ⟨-, hne⟩ | ⟨task, ht, -⟩
    · exact hne
    · simp [Turn.ending?, ht] at h

/-- A request that has ended has had its last turn. -/
theorem over_of_ended (ho : d.InOrder) {ev : Event} (hturn : ev.turnOf? d.clock = some n) {ending : Ending}
    (h : (d.step ev).2.ending = some ending) : (d.step ev).1.Over n := by
  cases ev with
  | begin r =>
    cases hturn
    exact take_over (Nat.lt_succ_self d.clock) h
  | run number now =>
    cases hturn
    simp only [step] at h ⊢
    cases hp : d.pending.find? (·.number = n) with
    | none => simp [hp] at h
    | some p =>
      obtain rfl : p.number = n := by simpa using List.find?_some hp
      simp only [hp] at h ⊢
      exact take_over (Nat.lt_succ_of_lt (ho.pending p (List.mem_of_find?_eq_some hp)).lt) h
  | select path | collapse path | toggle | close => cases hturn

theorem Over.not_ended (h : d.Over n) {ev : Event} (hturn : ev.turnOf? d.clock = some n) :
    (d.step ev).2.ending = none := by
  cases ev with
  | begin r =>
    cases hturn
    exact absurd h.past (Nat.lt_irrefl _)
  | run number now =>
    cases hturn
    have hnone : d.pending.find? (·.number = n) = none := by
      rw [List.find?_eq_none]
      intro q hq
      simpa using h.ended q hq
    simp only [step, hnone]
  | select path | collapse path | toggle | close => cases hturn

/-- After the turn in which it has ended, a request ends no more. -/
theorem not_ended_again {s : Desk} (hs : s.Sound R) (ho : s.InOrder) {before rest : List Event} {ev ev' : Event}
    (hturn' : ev'.turnOf? (s.after before).clock = some n) {ending : Ending}
    (hended : ((s.after before).step ev').2.ending = some ending)
    (hturn : ev.turnOf? (s.after (before ++ ev' :: rest)).clock = some n) :
    ((s.after (before ++ ev' :: rest)).step ev).2.ending = none := by
  have hover : ((s.after before).step ev').1.Over n := over_of_ended (after_inOrder hs ho before) hturn' hended
  rw [after_append] at hturn ⊢
  exact (after_over hover rest).not_ended hturn

/-- A turn in which its request does not end well changes nothing that is shown. -/
theorem step_unmoved (hd : d.Sound R) (ha : d.Above) {ev : Event} (hturn : ev.turnOf? d.clock = some n)
    (hne : ∀ a, (d.step ev).2.ending ≠ some (.ok a)) : d.Unmoved (d.step ev).1 (d.step ev).2.sent := by
  have htree : (d.step ev).1.engine.tree = d.engine.tree := by
    have hwrites := step_writes hd ha ev
    generalize (d.step ev).2.ending = ending at *
    generalize (d.step ev).2.planned = planned at *
    generalize d.staged ev = staged at *
    cases hwrites with
    | keeps ht _ _ | misses _ _ ht => exact ht
    | arrives _ _ _ | expands _ _ _ _ _ => exact absurd rfl (hne _)
  cases ev with
  | begin r =>
    rcases Engine.begin_turns hd.engine (Event.begin r).answers r with ⟨ht, -⟩ | ⟨-, -, -, ht⟩
    · obtain ⟨hview, hsent⟩ := ht.quiet hne
      have hentered : (d.step (.begin r)).1.engine.view = _ := hview.trans (d.engine.entered_view r)
      exact ⟨htree, by rw [hentered], by rw [hentered], by rw [hentered], hsent⟩
    · refine absurd ?_ (hne (.landed .ignored))
      simp [step, take, ht, Turn.ending?]
  | run number now =>
    simp only [step] at hne htree ⊢
    cases hp : d.pending.find? (·.number = number) with
    | none => exact ⟨rfl, rfl, rfl, rfl, rfl⟩
    | some p =>
      simp only [hp] at hne htree ⊢
      obtain ⟨hview, hsent⟩ := (hd.run_turns (List.mem_of_find?_eq_some hp) number now).quiet hne
      exact ⟨htree, congrArg View.selection hview, congrArg View.expanded hview, congrArg View.mode hview, hsent⟩
  | select path | collapse path | toggle | close => cases hturn

/-- No turn of a request that fails changes anything that is shown. -/
theorem unmoved_of_error (data : NavData) (settings : Settings) (remembered : Option Bool)
    {events before behind : List Event} {ev ev' : Event}
    (hturn : ev.turnOf? ((start data settings remembered).after events).clock = some n) {err : ResolveError}
    (herr : (((start data settings remembered).after events).step ev).2.ending = some (.error err))
    (heq : events ++ [ev] = before ++ ev' :: behind)
    (hturn' : ev'.turnOf? ((start data settings remembered).after before).clock = some n) :
    let d := (start data settings remembered).after before
    d.Unmoved (d.step ev').1 (d.step ev').2.sent := by
  obtain ⟨hd, ha⟩ := after_start data settings remembered before
  refine step_unmoved hd ha hturn' fun a hok => ?_
  rcases List.eq_nil_or_concat behind with rfl | ⟨rest, last, rfl⟩
  · -- It is the turn in which the request has failed.
    obtain ⟨rfl, hev⟩ := List.append_inj' heq rfl
    cases hev
    rw [hok] at herr
    cases herr
  · -- Had the request ended well in it, there would be no later turn.
    rw [List.concat_eq_append, ← List.cons_append, ← List.append_assoc] at heq
    obtain ⟨rfl, hev⟩ := List.append_inj' heq rfl
    cases hev
    rw [not_ended_again (start_sound data settings remembered) (start_inOrder data settings remembered) hturn' hok
      hturn] at herr
    cases herr

/-- A node that is not there cannot be selected, and to try it changes nothing. -/
theorem step_select_error {path : TreePath} {err : TreeError} (h : d.engine.select path = .error err) :
    err = .missing path ∧ d.engine.tree.at? path = none ∧
      d.step (.select path) = ({ d with clock := d.clock + 1 }, {}) := by
  have hstep : d.step (.select path) = ({ d with clock := d.clock + 1 }, {}) := by
    simp only [step, h]
  simp only [Engine.select, Node.find] at h
  cases hn : d.engine.tree.at? path with
  | none =>
    rw [hn] at h
    cases h
    exact ⟨rfl, rfl, hstep⟩
  | some n =>
    rw [hn] at h
    cases h

/-- How late a task is run makes no difference. -/
theorem step_run_later (d : Desk) (number : Nat) (now : Handle → Option Answer) :
    let later := Desk.step { d with clock := d.clock + 1 } (.run number now)
    later.2 = (d.step (.run number now)).2 ∧ later.1.engine = (d.step (.run number now)).1.engine := by
  simp only [step]
  split <;> exact ⟨rfl, rfl⟩

/-- A request that fails to load has waited for the fetch that has failed. -/
theorem step_load (hd : d.Sound R) {may : Handle → Answer → Prop} {ev : Event} (hturn : ev.turnOf? d.clock = some n)
    (hattested : (d.step ev).1.engine.loader.Attested may) {e : LoadError}
    (h : (d.step ev).2.ending = some (.error (.load e))) :
    ∃ p ∈ d.pending, p.number = n ∧ (d.step ev).1.engine.loader.fetches[p.task.fetch]? =
      some { handle := e.handle, outcome? := some (.error e) } := by
  cases ev with
  | begin r => exact absurd h (Engine.begin_ne_load hd.engine r)
  | run number now =>
    cases hturn
    simp only [step] at h hattested ⊢
    cases hp : d.pending.find? (·.number = n) with
    | none => simp [hp] at h
    | some p =>
      have hmem := List.mem_of_find?_eq_some hp
      simp only [hp] at h hattested ⊢
      have hmay : ∀ a, now p.task.handle = some a → (Event.run n now).answers p.task.handle a := fun _ => id
      have hfetch : (d.engine.run p.task (now p.task.handle)).engine.loader.fetches[p.task.fetch]? = _ :=
        Engine.run_load hd.engine (hd.pending p hmem).waits hmay h
      obtain ⟨a, -, ha⟩ := hattested _ _ hfetch _ rfl
      rw [Outcome.handle_of_ofAnswer ha]
      exact ⟨p, hmem, by simpa using List.find?_some hp, hfetch⟩
  | select path | collapse path | toggle | close => cases hturn

/-- The navigation that started last is revealed when its node is found, unless it follows the content pane and the
panes are not linked. -/
theorem revealed_of_newest (hd : d.Sound R) (ho : d.InOrder) {now : Handle → Option Answer} {q : TreePath}
    (hnewest : d.newest = some n) (hnav : (d.step (.run n now)).2.navigation = some n)
    (hplanned : (d.step (.run n now)).2.planned = some (.ok q)) :
    (d.step (.run n now)).2.ending = some (.ok (.landed (.revealed q))) ∨
      (∃ page, (d.step (.run n now)).2.request = some (.follow page)) ∧ d.engine.view.mode = .unlinked ∧
        (d.step (.run n now)).2.ending = some (.ok (.landed .ignored)) := by
  simp only [step] at hnav hplanned ⊢
  cases hp : d.pending.find? (·.number = n) with
  | none => simp [hp] at hnav
  | some p =>
    have hmem := List.mem_of_find?_eq_some hp
    obtain rfl : p.number = n := by simpa using List.find?_some hp
    simp only [hp, take] at hnav hplanned ⊢
    have hplaced : Order.Has d.order p.number p.navigates p.task.ticket? := ho.pending p hmem
    cases hn : p.navigates with
    | false => simp [hn] at hnav
    | true =>
      rw [hn] at hplaced
      generalize hticket : p.task.ticket? = ticket? at hplaced
      cases hplaced with
      | @navigation ticket m _ hm _ _ hlast =>
        -- It is the newest, so it holds the latest ticket.
        obtain rfl : p.number = m := Option.some.inj (hnewest.symm.trans hm)
        have hturn := hd.run_turns hmem p.number now
        rw [hplanned] at hturn
        obtain hrevealed | ⟨hpurpose, hmode, hignored⟩ := hturn.of_latest hticket (hlast.2 rfl)
        · exact .inl hrevealed
        · refine .inr ⟨?_, hmode, hignored⟩
          obtain ⟨t, ht⟩ := (hd.pending p hmem).purpose
          rw [hpurpose] at ht
          cases hr : p.request with
          | follow page => exact ⟨page, rfl⟩
          | plan _ | planPage _ | navigate _ | expand _ =>
            rw [hr] at ht
            cases ht

/-- Whatever happened before, and whatever else happens meanwhile. When a request ends in an error, none of its turns,
from the one in which it began to that one, has changed the tree, the selection, the expanded nodes or the mode, or sent
anything. If it has failed to load, the fetch that it waited for has failed with this error and is not in the cache
afterwards; but every fetch that has brought a fragment up to then is cached. When there is no node to select, nothing
changes at all: each request that waits has the same turn as without it, and the navigation that started last is still
revealed when its node is found, unless it follows the content pane and the panes are not linked. -/
theorem failures_leave_what_is_shown (data : NavData) (settings : Settings) (remembered : Option Bool)
    (events : List Event) (ev : Event) :
    let s := start data settings remembered
    let d := s.after events
    let l := (d.step ev).1.engine.loader
    (∀ n err, ev.turnOf? events.length = some n → (d.step ev).2.ending = some (.error err) →
      (∀ before ev' behind, events ++ [ev] = before ++ ev' :: behind → ev'.turnOf? before.length = some n →
        (s.after before).Unmoved ((s.after before).step ev').1 ((s.after before).step ev').2.sent) ∧
      ∀ e, err = .load e → ∃ p ∈ d.pending, p.number = n ∧
        l.fetches[p.task.fetch]? = some { handle := e.handle, outcome? := some (.error e) } ∧
        ∀ h, l.cache.lookup h ≠ some p.task.fetch) ∧
    (∀ before behind, events ++ [ev] = before ++ behind → ∀ id h fragment,
      (s.after before).engine.loader.fetches[id]? = some { handle := h, outcome? := some (.ok fragment) } →
        l.fetches[id]? = some { handle := h, outcome? := some (.ok fragment) } ∧ l.cache.lookup h = some id) ∧
    ∀ path err, d.engine.select path = .error err →
      err = .missing path ∧ d.engine.tree.at? path = none ∧
      d.step (.select path) = ({ d with clock := d.clock + 1 }, {}) ∧
      ∀ n now,
        let alone := d.step (.run n now)
        let beside := (d.step (.select path)).1.step (.run n now)
        beside.2 = alone.2 ∧ beside.1.engine = alone.1.engine ∧
        ∀ q, d.newest = some n → beside.2.navigation = some n → beside.2.planned = some (.ok q) →
          beside.2.ending = some (.ok (.landed (.revealed q))) ∨
            (∃ page, beside.2.request = some (.follow page)) ∧ d.engine.view.mode = .unlinked ∧
              beside.2.ending = some (.ok (.landed .ignored)) := by
  intro s d l
  have hstart : s.Sound data.root := start_sound data settings remembered
  obtain ⟨hd, ha⟩ : d.Sound data.root ∧ d.Above := after_start data settings remembered events
  have ho : d.InOrder := after_inOrder hstart (start_inOrder data settings remembered) events
  have hl : l.Sound := (step_sound hd ev).2.engine.loader
  have hclock : ∀ before, (s.after before).clock = before.length := fun before => by
    rw [after_clock, show s.clock = 0 from rfl, Nat.zero_add]
  have hlast : s.after (events ++ [ev]) = (d.step ev).1 := after_append s events [ev]
  refine ⟨fun n err hturn herr => ⟨?_, ?_⟩, ?_, ?_⟩
  · intro before ev' behind heq hturn'
    rw [← hclock] at hturn hturn'
    exact unmoved_of_error data settings remembered hturn herr heq hturn'
  · rintro e rfl
    have hattested : l.Attested (answeredIn (events ++ [ev])) := by
      obtain ⟨hg, -⟩ := after_sound hstart (events ++ [ev])
      rw [hlast] at hg
      exact hg.moves.attested (Loader.attested_empty _)
    rw [← hclock] at hturn
    obtain ⟨p, hp, hn, hfetch⟩ := step_load hd hturn hattested herr
    exact ⟨p, hp, hn, hfetch, hl.lookup_ne_of_error hfetch⟩
  · intro before behind heq id h fragment hf
    obtain ⟨hg, -⟩ := after_sound (after_sound hstart before).2 behind
    rw [← after_append, ← heq, hlast] at hg
    obtain ⟨f, hf', -, hsame⟩ := hg.moves.fetch hf
    obtain rfl := hsame rfl
    exact ⟨hf', hl.lookup_of_fragment hf'⟩
  · intro path err hselect
    obtain ⟨herr, hnone, hstep⟩ := step_select_error hselect
    refine ⟨herr, hnone, hstep, fun n now => ?_⟩
    rw [hstep]
    obtain ⟨hreport, hengine⟩ := step_run_later d n now
    refine ⟨hreport, hengine, fun q hnewest hnav hplanned => ?_⟩
    simp only [hreport] at hnav hplanned ⊢
    exact revealed_of_newest hd ho hnewest hnav hplanned

/-- Beside a navigation, an expansion fails to load. Then the user selects a node that is not there, and still the
navigation ends with its node revealed. -/
theorem revealed_beside_failures :
    let page : PageRef := ⟨"a.html"⟩
    let data : NavData :=
      { root := .inline "Main" (some ⟨"index.html"⟩)
          [.deferred "Files" ⟨"files.html"⟩ ⟨"files"⟩, .deferred "Pages" ⟨"pages.html"⟩ ⟨"pages"⟩]
        anchors := ⟨[(page, [⟨"files.html"⟩, page])]⟩ }
    let absent : Handle → Option Answer := fun _ => some (.error { kind := .notFound })
    let found : Handle → Option Answer := fun _ => some (.ok [.leaf "a" (some page)])
    let d := (start data {} none).after [.begin (.expand [1]), .begin (.navigate page)]
    let failed := d.step (.run 0 absent)
    (∃ e, failed.2.ending = some (.error (.load e))) ∧ d.Unmoved failed.1 failed.2.sent ∧
      failed.1.engine.select [2] = .error (.missing [2]) ∧
      ((failed.1.step (.select [2])).1.step (.run 1 found)).2.ending = some (.ok (.landed (.revealed [0, 0]))) := by
  intro page data absent found d failed
  let events : List Event := [.begin (.expand [1]), .begin (.navigate page)]
  have hfailed : ∃ e, failed.2.ending = some (.error (.load e)) := ⟨_, rfl⟩
  have hselect : failed.1.engine.select [2] = .error (.missing [2]) := by rfl
  obtain ⟨hrequest, -, -⟩ := failures_leave_what_is_shown data {} none events (.run 0 absent)
  obtain ⟨-, -, hmissing⟩ := failures_leave_what_is_shown data {} none (events ++ [.run 0 absent]) (.select [2])
  rw [show (start data {} none).after (events ++ [.run 0 absent]) = failed.1 from rfl] at hmissing
  obtain ⟨e, he⟩ := hfailed
  have hunmoved : d.Unmoved failed.1 failed.2.sent := (hrequest 0 _ rfl he).1 events (.run 0 absent) [] rfl rfl
  obtain ⟨-, -, -, hbeside⟩ := hmissing [2] _ hselect
  obtain ⟨-, -, hlands⟩ := hbeside 1 found
  have hfollowed : ((failed.1.step (.select [2])).1.step (.run 1 found)).2.request = some (.navigate page) := by rfl
  refine ⟨⟨e, he⟩, hunmoved, hselect, ?_⟩
  obtain hrevealed | ⟨⟨_, hpage⟩, -, -⟩ := hlands [0, 0] rfl rfl rfl
  · exact hrevealed
  · cases hfollowed.symm.trans hpage

end Desk
end DocNav
