import DocNav.Proofs.Desk
/-!
# The last navigation wins

A selection, a deep link and a page that is followed are navigations. Each takes a ticket when it starts, and
any number of them may wait at once. Only the one that started last may change the selection, reveal a node or
open the way to one; what an older one finds later is dropped.

The invariant is `Desk.InOrder`: of the navigations that wait, exactly the one that started last holds the
ticket that the view compares with. Main result: `last_navigation_wins`.
-/

namespace DocNav

/-- The ticket of the navigation that a task belongs to. -/
def Task.ticket? (t : Task) : Option Ticket := t.purpose?.bind Purpose.ticket?

/-- The path that a navigation has put in effect. -/
def Report.took? (report : Report) : Option TreePath :=
  match report.selected, report.ending with
  | some p, _ => some p
  | none, some (.ok (.landed (.revealed p))) => some p
  | none, _ => none

/-! ## What a turn does to the view -/

namespace Engine

section
variable {may : Handle → Answer → Prop} {R : Node} {e : Engine} {r : Request} {purpose? : Option Purpose}
  {turn : Turn} {x : Option (Except ResolveError TreePath)}

theorem openNode_view (e : Engine) (path : TreePath) :
    (e.openNode path).engine.view.selection = e.view.selection ∧
      (e.openNode path).engine.view.latest = e.view.latest ∧ ∀ p, Command.reveal p ∉ (e.openNode path).sent := by
  unfold openNode
  split
  · simp [fail]
  · split
    · simp
    · refine ⟨rfl, rfl, fun p => ?_⟩
      simp only [View.expand, View.send]
      split <;> simp

theorem openNode_ending (e : Engine) (path : TreePath) (l : Landing) :
    (e.openNode path).ending? ≠ some (.ok (.landed l)) := by
  unfold openNode
  split
  · simp [fail, Turn.ending?]
  · split <;> simp [Turn.ending?]

/-- A turn of a navigation changes nothing, unless it holds the latest ticket and its node is revealed. -/
theorem Turns.of_navigation (h : Turns may R e r purpose? turn x) {ticket : Ticket}
    (ht : purpose?.bind Purpose.ticket? = some ticket) :
    (ticket = e.view.latest ∧ ∃ p, turn.ending? = some (.ok (.landed (.revealed p))) ∧
      turn.engine.view = (e.view.reveal p).1) ∨
    (turn.engine.view = e.view ∧ turn.sent = [] ∧ ∀ a, turn.ending? = some (.ok a) →
      (ticket = e.view.latest ∧ a = .landed .ignored) ∨ (ticket ≠ e.view.latest ∧ a = .landed .superseded)) := by
  cases h with
  | waits _ hv _ _ | fails _ hv _ => exact .inr ⟨hv, rfl, nofun⟩
  | refuses _ _ _ hp | opens _ _ _ hp =>
    rw [hp] at ht
    cases ht
  | @lands e' purpose p _ hv _ hp =>
    rw [hp, Option.bind_some] at ht
    rw [← hv]
    rcases land_cases e' ht p with ⟨hc, ho, hview⟩ | ⟨-, hc, ho, hview, hsent⟩ | ⟨hc, ho, hview, hsent⟩
    · exact .inl ⟨hc, p, by simp [Turn.ending?, ho], hview⟩
    · refine .inr ⟨hview, hsent, fun a ha => .inl ⟨hc, ?_⟩⟩
      simpa [Turn.ending?, ho, eq_comm] using ha
    · refine .inr ⟨hview, hsent, fun a ha => .inr ⟨hc, ?_⟩⟩
      simpa [Turn.ending?, ho, eq_comm] using ha

/-- A turn of another request leaves the selection alone and reveals nothing. -/
theorem Turns.of_other (h : Turns may R e r purpose? turn x) (hn : purpose?.bind Purpose.ticket? = none) :
    turn.engine.view.selection = e.view.selection ∧ turn.engine.view.latest = e.view.latest ∧
      (∀ p, Command.reveal p ∉ turn.sent) ∧ ∀ l, turn.ending? ≠ some (.ok (.landed l)) := by
  cases h with
  | waits _ hv _ _ | fails _ hv _ | refuses _ hv _ _ =>
    exact ⟨congrArg _ hv, congrArg _ hv, by simp [fail], by simp [fail, Turn.ending?]⟩
  | @lands e' purpose p _ hv _ hp =>
    cases purpose with
    | locate => exact ⟨congrArg _ hv, congrArg _ hv, by simp [land], by simp [land, Turn.ending?]⟩
    | deepLink _ _ | inbound _ =>
      rw [hp] at hn
      cases hn
  | @opens e' path _ hv _ _ =>
    obtain ⟨hsel, hlatest, hsent⟩ := openNode_view e' path
    exact ⟨hsel.trans (congrArg _ hv), hlatest.trans (congrArg _ hv), hsent, openNode_ending e' path⟩

theorem Turns.latest (h : Turns may R e r purpose? turn x) : turn.engine.view.latest = e.view.latest := by
  cases ht : purpose?.bind Purpose.ticket? with
  | none => exact (h.of_other ht).2.1
  | some ticket =>
    rcases h.of_navigation ht with ⟨-, p, -, hview⟩ | ⟨hview, -, -⟩
    · rw [hview]
      rfl
    · rw [hview]

end

end Engine

/-! ## The order of navigations -/

/-- How far the events and the navigations have come. -/
structure Order where
  clock : Nat
  newest : Option Nat
  latest : Ticket

namespace Order

/-- After an event that starts no navigation. -/
def next (o : Order) : Order := { o with clock := o.clock + 1 }

/-- After an event that starts one. -/
def started (o : Order) : Order := { clock := o.clock + 1, newest := some o.clock, latest := o.latest + 1 }

/-- A request of this number, which is a navigation or not, holds a ticket. It is the latest ticket for the
navigation that started last and an older one for any other. -/
inductive Has (o : Order) (number : Nat) : Bool → Option Ticket → Prop
  | navigation {ticket : Ticket} {m : Nat} : number < o.clock → o.newest = some m → number ≤ m →
      ticket ≤ o.latest → (ticket = o.latest ↔ number = m) → Has o number true (some ticket)
  | other : number < o.clock → Has o number false none

variable {o : Order} {number : Nat} {navigates : Bool} {ticket? : Option Ticket}

theorem Has.lt (h : o.Has number navigates ticket?) : number < o.clock := by
  cases h with
  | navigation hlt _ _ _ _ | other hlt => exact hlt

theorem Has.next (h : o.Has number navigates ticket?) : o.next.Has number navigates ticket? := by
  cases h with
  | navigation hlt hm hle htl hc => exact .navigation (Nat.lt_succ_of_lt hlt) hm hle htl hc
  | other hlt => exact .other (Nat.lt_succ_of_lt hlt)

theorem Has.started (h : o.Has number navigates ticket?) : o.started.Has number navigates ticket? := by
  cases h with
  | @navigation ticket m hlt hm hle htl hc =>
    refine .navigation (Nat.lt_succ_of_lt hlt) rfl (Nat.le_of_lt hlt) (Nat.le_succ_of_le htl) ?_
    -- From now on the request holds neither the latest ticket nor the newest number.
    have h1 : ticket ≠ o.latest + 1 := Nat.ne_of_lt (Nat.lt_succ_of_le htl)
    have h2 : number ≠ o.clock := Nat.ne_of_lt hlt
    exact ⟨fun h => absurd h h1, fun h => absurd h h2⟩
  | other hlt => exact .other (Nat.lt_succ_of_lt hlt)

theorem has_started (o : Order) : o.started.Has o.clock true (some (o.latest + 1)) :=
  .navigation (Nat.lt_succ_self _) rfl (le_refl _) (le_refl _) ⟨fun _ => rfl, fun _ => rfl⟩

theorem has_next (o : Order) : o.next.Has o.clock false none := .other (Nat.lt_succ_self _)

end Order

/-! ## What an event does for the navigations -/

namespace Desk

def order (d : Desk) : Order := { clock := d.clock, newest := d.newest, latest := d.engine.view.latest }

/-- The navigation that started last is an earlier event, and every request that waits has its place. -/
structure InOrder (d : Desk) : Prop where
  newest : ∀ n, d.newest = some n → n < d.clock
  pending : ∀ p ∈ d.pending, d.order.Has p.number p.navigates p.task.ticket?

/-- What may be seen of an event, where `v` is the view before it. -/
inductive Seen (v : View) (d : Desk) (report : Report) : Prop
  | aside : report.navigation = none → report.took? = none → d.engine.view.selection = v.selection →
      (∀ p, .reveal p ∉ report.sent) → Seen v d report
  | leads {n : Nat} : report.navigation = some n → d.newest = some n →
      (∀ p, report.took? = some p → d.engine.view.selection = some p ∧ ∀ q ∈ d.pending, q.number ≠ n) →
      Seen v d report
  | trails {n m : Nat} : report.navigation = some n → d.newest = some m → n < m → d.engine.view = v →
      report.sent = [] → report.took? = none →
      (∀ a, report.ending = some (.ok a) → a = .landed .superseded) → Seen v d report

section
variable {may : Handle → Answer → Prop} {R : Node} {e : Engine} {r : Request} {purpose? : Option Purpose}
  {turn : Turn} {x : Option (Except ResolveError TreePath)} {number : Nat} {navigates : Bool}

theorem took?_take (b : Desk) {p : TreePath} (h : (b.take number r navigates turn x).2.took? = some p) :
    turn.ending? = some (.ok (.landed (.revealed p))) := by
  simp only [take, Report.took?] at h
  split at h
  · rename_i hp
    cases hp
  · rename_i hp
    cases h
    exact hp
  · cases h

theorem take_order (h : e.Turns may R r purpose? turn x) (b : Desk) :
    (b.take number r navigates turn x).1.order = ⟨b.clock, b.newest, e.view.latest⟩ := by
  rw [← h.latest]
  rfl

/-- A turn that is taken over. -/
theorem take_seen (h : e.Turns may R r purpose? turn x) {b : Desk}
    (hself : Order.Has ⟨b.clock, b.newest, e.view.latest⟩ number navigates (purpose?.bind Purpose.ticket?))
    (hothers : ∀ p ∈ b.pending, Order.Has ⟨b.clock, b.newest, e.view.latest⟩ p.number p.navigates p.task.ticket?) :
    Seen e.view (b.take number r navigates turn x).1 (b.take number r navigates turn x).2 ∧
      ∀ p ∈ (b.take number r navigates turn x).1.pending,
        Order.Has (b.take number r navigates turn x).1.order p.number p.navigates p.task.ticket? := by
  refine ⟨?_, fun p hp => ?_⟩
  · generalize ht : purpose?.bind Purpose.ticket? = ticket? at hself
    -- A request that has ended waits no more.
    have hended : ∀ ending q, turn.ending? = some ending →
        q ∈ (b.take number r navigates turn x).1.pending → q.number ≠ number := by
      intro ending q he hq
      rcases mem_take hq with ⟨-, hq⟩ | ⟨task, ht, -⟩
      · exact hq
      · simp [Turn.ending?, ht] at he
    cases hself with
    | other _ =>
      obtain ⟨hsel, -, hsent, hland⟩ := h.of_other ht
      refine .aside rfl ?_ hsel hsent
      by_contra hne
      obtain ⟨p, hp⟩ := Option.ne_none_iff_exists'.1 hne
      exact hland _ (took?_take b hp)
    | @navigation ticket m _ hm hle _ hc =>
      rcases h.of_navigation ht with ⟨hlatest, p, ho, hview⟩ | ⟨hview, hsent, ho⟩
      · -- The node is revealed.
        obtain rfl := hc.1 hlatest
        refine .leads rfl hm fun p' hp' => ⟨?_, fun q => hended _ q ho⟩
        have := ho.symm.trans (took?_take b hp')
        cases this
        exact congrArg View.selection hview
      · have htook : (b.take number r true turn x).2.took? = none := by
          by_contra hne
          obtain ⟨p, hp⟩ := Option.ne_none_iff_exists'.1 hne
          rcases ho _ (took?_take b hp) with ⟨-, ha⟩ | ⟨-, ha⟩ <;> cases ha
        by_cases hnm : number = m
        · subst hnm
          exact .leads rfl hm fun p hp => by simp [htook] at hp
        · refine .trails rfl hm (Nat.lt_of_le_of_ne hle hnm) hview hsent htook fun a ha => ?_
          rcases ho a ha with ⟨hlatest, -⟩ | ⟨-, ha⟩
          · exact absurd (hc.1 hlatest) hnm
          · exact ha
  · rw [take_order h b]
    rcases mem_take hp with ⟨hp, -⟩ | ⟨task, ht, rfl⟩
    · exact hothers p hp
    · rw [Task.ticket?, (h.waiting ht).2]
      exact hself

end

section
variable {R : Node} {d : Desk}

/-- What was seen from a view with one more ticket taken was seen from the view before. -/
theorem Seen.of_begin {v : View} {d : Desk} {report : Report} (h : Seen v.begin.2 d report)
    (hlead : report.navigation = d.newest) : Seen v d report := by
  cases h with
  | aside hn ht hsel hsent => exact .aside hn ht hsel hsent
  | leads hn hm ht => exact .leads hn hm ht
  | trails hn hm hlt _ _ _ _ =>
    have := (hn.symm.trans hlead).trans hm
    cases this
    exact absurd hlt (lt_irrefl _)

/-- The order of navigations goes on to the next event, and the event is seen as one that leads, trails or stands
aside. -/
structure Orderly (d d' : Desk) (report : Report) : Prop where
  seen : Seen d.engine.view d' report
  order : d'.order = d.order.next ∨ d'.order = d.order.started
  pending : ∀ p ∈ d'.pending, d'.order.Has p.number p.navigates p.task.ticket?

theorem InOrder.next (ho : d.InOrder) :
    ∀ p ∈ d.pending, d.order.next.Has p.number p.navigates p.task.ticket? := fun p hp => (ho.pending p hp).next

theorem InOrder.started (ho : d.InOrder) :
    ∀ p ∈ d.pending, d.order.started.Has p.number p.navigates p.task.ticket? := fun p hp =>
  (ho.pending p hp).started

theorem begin_orderly (hd : d.Sound R) (ho : d.InOrder) (r : Request) :
    Orderly d (d.step (.begin r)).1 (d.step (.begin r)).2 := by
  rcases Engine.begin_turns hd.engine (Event.begin r).answers r with ⟨ht, hticket⟩ | ⟨-, hn, -, ht⟩
  · cases hnav : r.navigates d.engine.view with
    | true =>
      have he : d.engine.entered r = { d.engine with view := d.engine.view.begin.2 } := by
        simp [Engine.entered, hnav]
      rw [he] at ht
      simp only [step, hnav, if_true]
      let b : Desk := { d with clock := d.clock + 1, newest := some d.clock }
      have hself := d.order.has_started
      rw [← (hticket _).trans (if_pos hnav)] at hself
      obtain ⟨hseen, hpending⟩ := take_seen (b := b) ht hself ho.started
      exact ⟨hseen.of_begin rfl, .inr (take_order ht b), hpending⟩
    | false =>
      have he : d.engine.entered r = d.engine := by simp [Engine.entered, hnav]
      rw [he] at ht
      simp only [step, hnav, Bool.false_eq_true, if_false]
      let b : Desk := { d with clock := d.clock + 1 }
      have hself := d.order.has_next
      rw [← (hticket _).trans (if_neg (by simp [hnav]))] at hself
      obtain ⟨hseen, hpending⟩ := take_seen (b := b) ht hself ho.next
      exact ⟨hseen, .inl (take_order ht b), hpending⟩
  · -- The page is not followed, so the request is no navigation.
    simp only [step, hn, ht]
    refine ⟨.aside rfl rfl rfl (by simp [take]), .inl rfl, fun p hp => ?_⟩
    rcases mem_take hp with ⟨hp, -⟩ | ⟨task, hw, -⟩
    · exact ho.next p hp
    · cases hw

theorem step_orderly (hd : d.Sound R) (ho : d.InOrder) (ev : Event) : Orderly d (d.step ev).1 (d.step ev).2 := by
  cases ev with
  | begin r => exact begin_orderly hd ho r
  | run number now =>
    simp only [step]
    cases hp : d.pending.find? (·.number = number) with
    | none => exact ⟨.aside rfl rfl rfl (by simp), .inl rfl, ho.next⟩
    | some p =>
      have hmem := List.mem_of_find?_eq_some hp
      obtain rfl : p.number = number := by simpa using List.find?_some hp
      have ht := hd.run_turns hmem p.number now
      let b : Desk := { d with clock := d.clock + 1 }
      obtain ⟨hseen, hpending⟩ := take_seen (b := b) ht (ho.next p hmem) ho.next
      exact ⟨hseen, .inl (take_order ht b), hpending⟩
  | select path =>
    simp only [step, Engine.select]
    cases d.engine.tree.find path with
    | error err => exact ⟨.aside rfl rfl rfl (by simp), .inl rfl, ho.next⟩
    | ok n =>
      refine ⟨.leads rfl rfl fun p hp => ?_, .inr rfl, ho.started⟩
      cases hp
      exact ⟨rfl, fun q hq => Nat.ne_of_lt (ho.pending q hq).lt⟩
  | collapse path => exact ⟨.aside rfl rfl rfl (by simp [step]), .inl rfl, ho.next⟩
  | toggle => exact ⟨.aside rfl rfl rfl (by simp [step]), .inl rfl, ho.next⟩
  | close => exact ⟨.aside rfl rfl rfl (by simp [step]), .inl rfl, ho.next⟩

theorem start_inOrder (data : NavData) (settings : Settings) (remembered : Option Bool) :
    (start data settings remembered).InOrder where
  newest := nofun
  pending := by simp [start]

theorem step_inOrder (hd : d.Sound R) (ho : d.InOrder) (ev : Event) : (d.step ev).1.InOrder := by
  obtain ⟨-, horder, hpending⟩ := step_orderly hd ho ev
  refine ⟨fun n hn => ?_, hpending⟩
  change (d.step ev).1.order.newest = some n at hn
  change n < (d.step ev).1.order.clock
  rcases horder with h | h
  · rw [h] at hn ⊢
    exact Nat.lt_succ_of_lt (ho.newest n hn)
  · rw [h] at hn ⊢
    cases hn
    exact Nat.lt_succ_self _

theorem after_inOrder (hd : d.Sound R) (ho : d.InOrder) (events : List Event) : (d.after events).InOrder :=
  after_inv (fun _ ev hd ho => step_inOrder hd ho ev) hd ho events

/-! ## A navigation that took effect -/

/-- The number of the event to come, or of a request that waits. -/
def Numbers (d : Desk) (n : Nat) : Prop := n = d.clock ∨ ∃ q ∈ d.pending, q.number = n

theorem take_numbers {b : Desk} (hb : b.pending = d.pending) {number : Nat} (hn : d.Numbers number) (r : Request)
    (navigates : Bool) (turn : Turn) (x : Option (Except ResolveError TreePath)) :
    (∀ n, (b.take number r navigates turn x).2.navigation = some n → d.Numbers n) ∧
      ∀ q ∈ (b.take number r navigates turn x).1.pending, d.Numbers q.number := by
  constructor
  · intro n h
    simp only [take] at h
    split at h
    · cases h
      exact hn
    · cases h
  · intro q hq
    rcases mem_take hq with ⟨hq, -⟩ | ⟨task, -, rfl⟩
    · exact .inr ⟨q, hb ▸ hq, rfl⟩
    · exact hn

/-- Only a request that begins or waits has a turn, and only such a one waits afterwards. -/
theorem step_numbers (d : Desk) (ev : Event) :
    (∀ n, (d.step ev).2.navigation = some n → d.Numbers n) ∧
      ∀ q ∈ (d.step ev).1.pending, d.Numbers q.number := by
  have hkept : ∀ q ∈ d.pending, d.Numbers q.number := fun q hq => .inr ⟨q, hq, rfl⟩
  have hquiet : ∀ n, ({} : Report).navigation = some n → d.Numbers n := fun n h => by cases h
  cases ev with
  | begin r => exact take_numbers rfl (.inl rfl) r _ _ _
  | run number now =>
    simp only [step]
    cases hp : d.pending.find? (·.number = number) with
    | none => exact ⟨hquiet, hkept⟩
    | some p =>
      have hnumber : p.number = number := by simpa using List.find?_some hp
      exact take_numbers rfl (.inr ⟨p, List.mem_of_find?_eq_some hp, hnumber⟩) p.request _ _ _
  | select path =>
    simp only [step]
    cases d.engine.select path with
    | error err => exact ⟨hquiet, hkept⟩
    | ok x => exact ⟨fun n h => .inl (Option.some.inj h).symm, hkept⟩
  | collapse path => exact ⟨hquiet, hkept⟩
  | toggle => exact ⟨hquiet, hkept⟩
  | close => exact ⟨hquiet, hkept⟩

/-- Navigation `n` has taken effect with the path. -/
structure Settled (n : Nat) (p : TreePath) (d : Desk) : Prop where
  past : n < d.clock
  ended : ∀ q ∈ d.pending, q.number ≠ n
  selection : d.newest = some n → d.engine.view.selection = some p

theorem step_settled {n : Nat} {p : TreePath} (hd : d.Sound R) (ho : d.InOrder) (hs : d.Settled n p) (ev : Event) :
    (d.step ev).1.Settled n p := by
  obtain ⟨hseen, horder, -⟩ := step_orderly hd ho ev
  obtain ⟨hnavigation, hnumber⟩ := step_numbers d ev
  -- No event is a turn of navigation `n` any more.
  have hfrom : ∀ k, d.Numbers k → k ≠ n := by
    rintro k (rfl | ⟨q, hq, rfl⟩)
    · exact Nat.ne_of_gt hs.past
    · exact hs.ended q hq
  refine ⟨?_, fun q hq => hfrom _ (hnumber q hq), fun hn => ?_⟩
  · change n < (d.step ev).1.order.clock
    rcases horder with h | h <;> rw [h] <;> exact Nat.lt_succ_of_lt hs.past
  · have hnewest : d.newest = some n := by
      change (d.step ev).1.order.newest = some n at hn
      rcases horder with h | h
      · rwa [h] at hn
      · rw [h] at hn
        exact absurd (Option.some.inj hn) (hfrom _ (.inl rfl))
    cases hseen with
    | aside _ _ hsel _ => rw [hsel, hs.selection hnewest]
    | leads hm hm' _ =>
      obtain rfl := Option.some.inj (hm'.symm.trans hn)
      exact absurd rfl (hfrom _ (hnavigation _ hm))
    | trails _ _ _ hview _ _ _ => rw [hview, hs.selection hnewest]

theorem after_settled {n : Nat} {p : TreePath} (hd : d.Sound R) (ho : d.InOrder) (hs : d.Settled n p)
    (events : List Event) : (d.after events).Settled n p := by
  have hstep : ∀ d ev, Sound R d → d.InOrder ∧ d.Settled n p → (d.step ev).1.InOrder ∧ (d.step ev).1.Settled n p :=
    fun _ ev hd ⟨ho, hs⟩ => ⟨step_inOrder hd ho ev, step_settled hd ho hs ev⟩
  exact (after_inv hstep hd ⟨ho, hs⟩ events).2

/-- Whatever the user and the content pane do while fetches are in flight: where the selection changes, a node
is revealed or a navigation opens the way to one, that navigation is the one that started last. An older one
changes nothing in the view and sends nothing, and if it ends without an error it is superseded. Once the one
that started last has taken effect, its path stays selected until a newer one starts. -/
theorem last_navigation_wins (data : NavData) (settings : Settings) (remembered : Option Bool)
    (events : List Event) (ev : Event) :
    let d := (start data settings remembered).after events
    let d' := (d.step ev).1
    let report := (d.step ev).2
    (∀ n, report.navigation = some n → ∃ m, d'.newest = some m ∧ n ≤ m) ∧
    (d'.engine.view.selection ≠ d.engine.view.selection ∨ (∃ p, .reveal p ∈ report.sent) →
      ∃ n, report.navigation = some n ∧ d'.newest = some n) ∧
    (∀ n, report.navigation = some n → d'.engine.view.expanded ≠ d.engine.view.expanded → d'.newest = some n) ∧
    (∀ n, report.navigation = some n → d'.newest ≠ some n → d'.engine.view = d.engine.view ∧ report.sent = [] ∧
      ∀ a, report.ending = some (.ok a) → a = .landed .superseded) ∧
    ∀ n p, report.navigation = some n → report.took? = some p → ∀ later,
      (d'.after later).newest = some n → (d'.after later).engine.view.selection = some p := by
  intro d d' report
  have hd : d.Sound data.root := (after_sound (start_sound data settings remembered) events).2
  have ho : d.InOrder :=
    after_inOrder (start_sound data settings remembered) (start_inOrder data settings remembered) events
  obtain ⟨hseen, -, -⟩ := step_orderly hd ho ev
  have hd' : d'.Sound data.root := (step_sound hd ev).2
  have ho' : d'.InOrder := step_inOrder hd ho ev
  cases hseen with
  | aside hn _ hsel hsent =>
    have hnone : ∀ n, report.navigation ≠ some n := fun n h => by simp [report, hn] at h
    refine ⟨fun n h => absurd h (hnone n), ?_, fun n h => absurd h (hnone n), fun n h => absurd h (hnone n),
      fun n _ h => absurd h (hnone n)⟩
    rintro (hne | ⟨p, hp⟩)
    · exact absurd hsel hne
    · exact absurd hp (hsent p)
  | @leads m hm hnewest htook =>
    have hnum : ∀ n, report.navigation = some n → n = m := fun n h => Option.some.inj (h.symm.trans hm)
    refine ⟨fun n h => ⟨m, hnewest, (hnum n h).le⟩, fun _ => ⟨m, hm, hnewest⟩, fun n h _ => hnum n h ▸ hnewest,
      fun n h hne => absurd (hnum n h ▸ hnewest) hne, fun n p h hp later hlast => ?_⟩
    obtain rfl := hnum n h
    obtain ⟨hsel, hended⟩ := htook p hp
    exact (after_settled hd' ho' ⟨ho'.newest n hnewest, hended, fun _ => hsel⟩ later).selection hlast
  | @trails k m hk hnewest hlt hview hsent htook hending =>
    have hnum : ∀ n, report.navigation = some n → n = k := fun n h => Option.some.inj (h.symm.trans hk)
    refine ⟨fun n h => ⟨m, hnewest, hnum n h ▸ hlt.le⟩, ?_, fun n h hne => absurd (congrArg _ hview) hne,
      fun n h _ => ⟨hview, hsent, hending⟩, fun n p h hp => by simp [report, htook] at hp⟩
    rintro (hne | ⟨p, hp⟩)
    · exact absurd (congrArg _ hview) hne
    · simp [report, hsent] at hp

end

end Desk
end DocNav
