import DocNav.Proofs.Frames
import DocNav.Proofs.Navigations
/-!
# What the content pane is told to display

Commands are broken by their origin: what the user selects and what a deep link leads to are displayed, and what the
content pane itself went to never is, so the two panes cannot drive each other in a circle. While the panes are not
linked, the tree pane does not follow the content pane at all.

`Desk.Sends` says once what an event may send, and `step_sends` that it does. Main result: `displays_by_origin`.
-/

namespace DocNav

/-- The page that a command has the content pane show. -/
def Command.page? : Command → Option PageRef
  | .display page => some page
  | .reveal _ | .expand _ => none

theorem Command.mem_pages {page : PageRef} {sent : List Command} :
    page ∈ sent.filterMap Command.page? ↔ .display page ∈ sent := by
  rw [List.mem_filterMap]
  constructor
  · rintro ⟨c, hc, hpage⟩
    cases c with
    | display k =>
      cases hpage
      exact hc
    | reveal _ | expand _ => cases hpage
  · intro h
    exact ⟨_, h, rfl⟩

/-! ## What a turn sends -/

namespace Engine

variable {may : Handle → Answer → Prop} {R : Node} {e : Engine} {r : Request} {ticket : Ticket} {turn : Turn}
  {x : Option (Except ResolveError TreePath)}

/-- A deep link that lands reveals its node, and then displays the page if the panes are linked; or it is superseded. -/
theorem land_deepLink (e : Engine) (hl : e.view.listening = true) (anchor : PageRef) (ticket : Ticket) (p : TreePath) :
    ((e.land (.deepLink anchor ticket) p).ending? = some (.ok (.landed (.revealed p))) ∧
      (e.land (.deepLink anchor ticket) p).sent =
        .reveal p :: if e.view.mode.isLinked then [.display anchor] else []) ∨
    (e.land (.deepLink anchor ticket) p).ending? = some (.ok (.landed .superseded)) ∧
      (e.land (.deepLink anchor ticket) p).sent = [] := by
  by_cases hc : ticket = e.view.latest
  · left
    by_cases hm : e.view.mode.isLinked = true
    · simp [land, View.completeDeepLink, View.isCurrent, View.reveal, View.send, Turn.ending?, hc, hl, hm]
    · simp [land, View.completeDeepLink, View.isCurrent, View.reveal, View.send, Turn.ending?, hc, hl, hm]
  · right
    simp [land, View.completeDeepLink, View.isCurrent, Turn.ending?, hc]

/-- A page that is followed is at most revealed, and while the panes are not linked not even that. -/
theorem land_inbound (e : Engine) (ticket : Ticket) (p : TreePath) :
    (∀ page, .display page ∉ (e.land (.inbound ticket) p).sent) ∧
      (e.view.mode.isLinked = false →
        (e.land (.inbound ticket) p).engine.view = e.view ∧ (e.land (.inbound ticket) p).sent = []) := by
  unfold land View.completeInbound
  by_cases hc : e.view.isCurrent ticket = true
  · by_cases hm : e.view.mode.isLinked = true
    · simp only [hc, hm, View.reveal, View.send]
      constructor
      · intro page
        by_cases hl : e.view.listening = true
        · simp [hl]
        · simp [hl]
      · intro hfalse
        cases hfalse
    · simp [hc, hm]
  · simp [hc]

theorem openNode_sent (e : Engine) (path : TreePath) (page : PageRef) : .display page ∉ (e.openNode path).sent := by
  unfold openNode
  split
  · simp [fail]
  · split
    · simp
    · simp only [View.expand, View.send]
      split <;> simp

/-- Only a deep link displays its page, and only where its node is revealed. -/
theorem Turns.sent_of (h : Turns may R e r (r.purpose? ticket) turn x) (hl : e.view.listening = true) :
    (∃ anchor p, r = .navigate anchor ∧ turn.ending? = some (.ok (.landed (.revealed p))) ∧
      turn.sent = .reveal p :: if e.view.mode.isLinked then [.display anchor] else []) ∨
    (∀ page, .display page ∉ turn.sent) ∧
      ∀ anchor p, r = .navigate anchor → turn.ending? ≠ some (.ok (.landed (.revealed p))) := by
  cases h with
  | waits _ _ _ _ => exact .inr ⟨by simp, by rintro _ _ _ ⟨⟩⟩
  | fails _ _ _ => exact .inr ⟨by simp [fail], by rintro _ _ _ ⟨⟩⟩
  | refuses _ _ _ _ => exact .inr ⟨by simp [fail], by rintro _ _ _ ⟨⟩⟩
  | @lands e' purpose p _ hv _ hp =>
    cases r with
    | plan anchor | planPage anchor =>
      cases hp
      exact .inr ⟨by simp [land], by rintro _ _ ⟨⟩⟩
    | expand path => cases hp
    | navigate anchor =>
      cases hp
      rcases land_deepLink e' (by rw [hv, hl]) anchor ticket p with ⟨hend, hsent⟩ | ⟨hend, hsent⟩
      · rw [hv] at hsent
        exact .inl ⟨anchor, p, rfl, hend, hsent⟩
      · rw [hend, hsent]
        exact .inr ⟨by simp, by rintro _ _ _ ⟨⟩⟩
    | follow page =>
      cases hp
      exact .inr ⟨(land_inbound e' ticket p).1, by rintro _ _ ⟨⟩⟩
  | @opens e' path _ _ hr _ =>
    subst hr
    exact .inr ⟨openNode_sent e' path, by rintro _ _ ⟨⟩⟩

/-- A page that is found while the panes are not linked changes nothing to be seen. -/
theorem Turns.of_follow {page : PageRef} {p : TreePath}
    (h : Turns may R e (.follow page) ((Request.follow page).purpose? ticket) turn (some (.ok p)))
    (hm : e.view.mode.isLinked = false) : turn.engine.view = e.view ∧ turn.sent = [] := by
  cases h with
  | @lands e' _ _ _ hv _ hp =>
    cases hp
    rw [← hv] at hm ⊢
    exact (land_inbound e' ticket p).2 hm

end Engine

/-! ## What an event sends -/

/-- The page of a deep link whose node has been revealed. -/
def Report.deepLink? (report : Report) : Option PageRef :=
  match report.request, report.ending with
  | some (.navigate anchor), some (.ok (.landed (.revealed _))) => some anchor
  | _, _ => none

theorem Report.deepLink?_eq_some {report : Report} {anchor : PageRef} : report.deepLink? = some anchor ↔
    report.request = some (.navigate anchor) ∧ ∃ p, report.ending = some (.ok (.landed (.revealed p))) := by
  unfold deepLink?
  split
  · rename_i hr hend
    simp [hr, hend]
  · rename_i hnone
    constructor
    · intro h
      cases h
    · rintro ⟨hr, p, hend⟩
      exact (hnone anchor p hr hend).elim

namespace Desk

/-- The page that is due at an event: that of a node which the user selects, or that of a deep link whose node is
revealed while the panes are linked. -/
def due? (d : Desk) (ev : Event) : Option PageRef :=
  match ev with
  | .select path => (d.engine.tree.at? path).bind Node.link
  | ev => if d.engine.view.mode.isLinked then (d.step ev).2.deepLink? else none

/-- What the panes are sent at the events. -/
def sentIn (d : Desk) : List Event → List Command
  | [] => []
  | ev :: events => (d.step ev).2.sent ++ (d.step ev).1.sentIn events

/-- The pages that are due at the events. -/
def dueIn (d : Desk) : List Event → List PageRef
  | [] => []
  | ev :: events => (d.due? ev).toList ++ (d.step ev).1.dueIn events

/-- What an event may send. -/
inductive Sends (d : Desk) (ev : Event) (report : Report) : Prop
  | selects {path : TreePath} {n : Node} : ev = .select path → report.request = none →
      d.engine.tree.at? path = some n → report.sent = n.link.toList.map .display → Sends d ev report
  | links {anchor : PageRef} {p : TreePath} : (∀ path, ev ≠ .select path) →
      report.request = some (.navigate anchor) → report.ending = some (.ok (.landed (.revealed p))) →
      report.sent = .reveal p :: (if d.engine.view.mode.isLinked then [.display anchor] else []) → Sends d ev report
  | shows : (∀ path, ev = .select path → d.engine.tree.at? path = none) →
      (∀ anchor p, report.request = some (.navigate anchor) →
        report.ending ≠ some (.ok (.landed (.revealed p)))) →
      (∀ page, .display page ∉ report.sent) → Sends d ev report

variable {R : Node} {d : Desk} {ev : Event}

theorem due?_of_not_select (hev : ∀ path, ev ≠ .select path) :
    d.due? ev = if d.engine.view.mode.isLinked then (d.step ev).2.deepLink? else none := by
  cases ev with
  | select path => exact absurd rfl (hev path)
  | _ => rfl

/-- The pages displayed are those that are due. -/
theorem Sends.pages (h : Sends d ev (d.step ev).2) :
    (d.step ev).2.sent.filterMap Command.page? = (d.due? ev).toList := by
  cases h with
  | @selects path n hev _ hn hsent =>
    subst hev
    simp only [due?, hsent, hn, Option.bind_some]
    cases n.link <;> rfl
  | @links anchor p hev hr hend hsent =>
    rw [due?_of_not_select hev, Report.deepLink?_eq_some.2 ⟨hr, p, hend⟩, hsent]
    cases d.engine.view.mode.isLinked <;> rfl
  | shows hev hnone hsent =>
    have hdue : d.due? ev = none := by
      by_cases hselect : ∃ path, ev = .select path
      · obtain ⟨path, rfl⟩ := hselect
        simp [due?, hev path rfl]
      · rw [due?_of_not_select fun path h => hselect ⟨path, h⟩]
        have hlink : (d.step ev).2.deepLink? = none := by
          rw [Option.eq_none_iff_forall_ne_some]
          intro anchor h
          obtain ⟨hr, p, hend⟩ := Report.deepLink?_eq_some.1 h
          exact hnone anchor p hr hend
        rw [hlink, ite_self]
    rw [hdue]
    by_contra hne
    obtain ⟨page, hpage⟩ := List.exists_mem_of_ne_nil _ hne
    exact hsent page (Command.mem_pages.1 hpage)

/-- Which pages are displayed at an event. -/
theorem Sends.display_iff {report : Report} (h : Sends d ev report) (page : PageRef) : .display page ∈ report.sent ↔
    (∃ path n, ev = .select path ∧ d.engine.tree.at? path = some n ∧ n.link = some page) ∨
      ∃ p, report.request = some (.navigate page) ∧ report.ending = some (.ok (.landed (.revealed p))) ∧
        d.engine.view.mode.isLinked = true := by
  cases h with
  | @selects path n hev hr hn hsent =>
    rw [hsent, hr]
    constructor
    · intro h
      exact .inl ⟨path, n, hev, hn, by simpa using h⟩
    · rintro (⟨path', n', hev', hn', hk⟩ | ⟨p, h, -⟩)
      · cases hev.symm.trans hev'
        cases hn.symm.trans hn'
        simp [hk]
      · cases h
  | @links anchor p hev hr hend hsent =>
    rw [hsent, hr, hend]
    constructor
    · intro h
      have hpage : d.engine.view.mode.isLinked = true ∧ page = anchor := by
        cases hm : d.engine.view.mode.isLinked <;> simp_all
      exact .inr ⟨p, by rw [hpage.2], rfl, hpage.1⟩
    · rintro (⟨path, n, hev', -⟩ | ⟨p', h, -, hm⟩)
      · exact absurd hev' (hev path)
      · cases h
        simp [hm]
  | shows hev hnone hsent =>
    constructor
    · intro h
      exact absurd h (hsent page)
    · rintro (⟨path, n, hev', hn, -⟩ | ⟨p, hr, hend, -⟩)
      · rw [hev path hev'] at hn
        cases hn
      · exact absurd hend (hnone page p hr)

theorem Sends.of_select {report : Report} {path : TreePath} {n : Node} (h : Sends d ev report)
    (hev : ev = .select path) (hn : d.engine.tree.at? path = some n) :
    report.sent = n.link.toList.map .display := by
  cases h with
  | @selects path' n' hev' _ hn' hsent =>
    cases hev.symm.trans hev'
    cases hn.symm.trans hn'
    exact hsent
  | links hev' _ _ _ => exact absurd hev (hev' path)
  | shows hev' _ _ =>
    rw [hev' path hev] at hn
    cases hn

theorem Sends.of_revealed {report : Report} {anchor : PageRef} {p : TreePath} (h : Sends d ev report)
    (hr : report.request = some (.navigate anchor)) (hend : report.ending = some (.ok (.landed (.revealed p)))) :
    report.sent = .reveal p :: if d.engine.view.mode.isLinked then [.display anchor] else [] := by
  cases h with
  | selects _ hr' _ _ => cases hr'.symm.trans hr
  | @links anchor' p' _ hr' hend' hsent =>
    cases hr'.symm.trans hr
    cases hend'.symm.trans hend
    exact hsent
  | shows _ hnone _ => exact absurd hend (hnone anchor p hr)

theorem take_sends {may : Handle → Answer → Prop} {e : Engine} {r : Request} {ticket : Ticket} {turn : Turn}
    {planned : Option (Except ResolveError TreePath)} (b : Desk) (number : Nat) (navigates : Bool)
    (h : e.Turns may R r (r.purpose? ticket) turn planned) (hl : e.view.listening = true)
    (hm : e.view.mode = d.engine.view.mode) (hev : ∀ path, ev ≠ .select path) :
    Sends d ev (b.take number r navigates turn planned).2 := by
  rcases h.sent_of hl with ⟨anchor, p, rfl, hend, hsent⟩ | ⟨hsent, hend⟩
  · rw [hm] at hsent
    exact .links hev rfl hend hsent
  · exact .shows (fun path h => absurd h (hev path)) (fun anchor p hr => hend anchor p (Option.some.inj hr)) hsent

/-- What any event sends, as long as someone listens. -/
theorem step_sends (hd : d.Sound R) (hl : d.engine.view.listening = true) (ev : Event) :
    Sends d ev (d.step ev).2 := by
  have hquiet : (∀ path, ev = .select path → d.engine.tree.at? path = none) → Sends d ev {} :=
    fun h => .shows h (by rintro _ _ ⟨⟩) (by simp)
  cases ev with
  | begin r =>
    rcases Engine.begin_turns hd.engine (Event.begin r).answers r with ⟨ht, -⟩ | ⟨⟨page, rfl⟩, -, -, ht⟩
    · have hv : d.engine.view.Leaves (d.engine.entered r).view := by
        unfold Engine.entered
        split
        · exact View.begin_leaves _
        · exact .refl _
      exact take_sends _ _ _ ht (hv.listening.trans hl) hv.mode (by rintro _ ⟨⟩)
    · refine .shows (by rintro _ ⟨⟩) ?_ ?_
      · simp [step, take, ht]
      simp [step, take, ht]
  | run number now =>
    simp only [step]
    cases hp : d.pending.find? (·.number = number) with
    | none => exact hquiet (by rintro _ ⟨⟩)
    | some p =>
      have hmem := List.mem_of_find?_eq_some hp
      have ht := hd.run_turns hmem number now
      obtain ⟨ticket, hticket⟩ := (hd.pending p hmem).purpose
      rw [hticket] at ht
      exact take_sends _ _ _ ht hl rfl (by rintro _ ⟨⟩)
  | select path =>
    simp only [step, Engine.select, Node.find]
    cases hn : d.engine.tree.at? path with
    | none =>
      refine hquiet ?_
      rintro _ ⟨⟩
      exact hn
    | some n =>
      refine .selects rfl rfl hn ?_
      cases hk : n.link <;> simp [View.select, View.send, View.begin, hl, hk]
  | collapse path => exact hquiet (by rintro _ ⟨⟩)
  | toggle => exact hquiet (by rintro _ ⟨⟩)
  | close => exact hquiet (by rintro _ ⟨⟩)

/-! ## Runs -/

/-- Only closing the panes ends their listening. -/
theorem step_listening (d : Desk) (hev : ev ≠ .close) :
    (d.step ev).1.engine.view.listening = d.engine.view.listening := by
  cases ev with
  | begin r => exact (Engine.begin_leaves d.engine r).listening
  | run number now =>
    simp only [step]
    cases hp : d.pending.find? (·.number = number) with
    | none => rfl
    | some p => exact (Engine.run_leaves d.engine p.task _).listening
  | select path =>
    simp only [step, Engine.select]
    cases d.engine.tree.find path <;> rfl
  | collapse path => rfl
  | toggle => rfl
  | close => exact absurd rfl hev

theorem after_listening {events : List Event} (d : Desk) (hopen : .close ∉ events) :
    (d.after events).engine.view.listening = d.engine.view.listening := by
  induction events generalizing d with
  | nil => rfl
  | cons ev events ih =>
    rw [List.mem_cons, not_or] at hopen
    exact (ih (d.step ev).1 hopen.2).trans (step_listening d (Ne.symm hopen.1))

/-- The pages displayed in a run are those that are due in it, in their order. -/
theorem pages_sentIn {events : List Event} (hd : d.Sound R) (hl : d.engine.view.listening = true)
    (hopen : .close ∉ events) : (d.sentIn events).filterMap Command.page? = d.dueIn events := by
  induction events generalizing d with
  | nil => rfl
  | cons ev events ih =>
    rw [List.mem_cons, not_or] at hopen
    have hl' : (d.step ev).1.engine.view.listening = true :=
      (step_listening d (Ne.symm hopen.1)).trans hl
    rw [sentIn, dueIn, List.filterMap_append, (step_sends hd hl ev).pages, ih (step_sound hd ev).2 hl' hopen.2]

/-- A page that the content pane goes to while the panes are not linked is not followed: it is as if nothing had
happened but that time has passed. -/
theorem step_unfollowed (ho : d.InOrder) (hm : d.engine.view.mode.isLinked = false) (page : PageRef) :
    d.step (.begin (.follow page)) = ({ d with clock := d.clock + 1 },
      { request := some (.follow page), ending := some (.ok (.landed .ignored)) }) := by
  have hothers : d.pending.filter (·.number ≠ d.clock) = d.pending := by
    refine List.filter_eq_self.2 fun p hp => ?_
    have hlt : p.number < d.clock := (ho.pending p hp).lt
    simpa using Nat.ne_of_lt hlt
  simp only [step, Request.navigates, Engine.planned?, Request.bare?, Engine.begin, hm, Bool.false_eq_true, if_false,
    Option.bind_none, take, Turn.ending?, hothers]

/-- Where a page that is followed is found while the panes are not linked, nothing changes to be seen. -/
theorem step_unlinked (hd : d.Sound R) (hm : d.engine.view.mode.isLinked = false) {page : PageRef} {p : TreePath}
    (hr : (d.step ev).2.request = some (.follow page)) (hp : (d.step ev).2.planned = some (.ok p)) :
    (d.step ev).1.engine.view = d.engine.view ∧ (d.step ev).2.sent = [] := by
  cases ev with
  | begin r =>
    cases hr
    -- The request has made no plan, since it was not followed when it began.
    rw [show (d.step (.begin (.follow page))).2.planned = d.engine.planned? (.follow page) from rfl] at hp
    simp [Engine.planned?, Request.bare?, hm] at hp
  | run number now =>
    simp only [step] at hr hp ⊢
    cases hq : d.pending.find? (·.number = number) with
    | none => simp [hq] at hr
    | some q =>
      simp only [hq, take, Option.some.injEq] at hr hp ⊢
      have hmem := List.mem_of_find?_eq_some hq
      have ht := hd.run_turns hmem number now
      obtain ⟨ticket, hticket⟩ := (hd.pending q hmem).purpose
      rw [hticket, hp, hr] at ht
      exact ht.of_follow hm
  | select path =>
    simp only [step] at hr
    cases hs : d.engine.select path <;> simp [hs] at hr
  | collapse _ | toggle | close => cases hr

/-- As long as the panes listen, whatever happens: the pages displayed are exactly those of the nodes with a link that
the user selects, in either mode, and those of the deep links whose nodes are revealed while the panes are linked,
directly behind the command to reveal. So nothing else displays a page, and above all not a page that the content pane
went to. While the panes are not linked, such a page is not looked for, no other navigation is superseded by it and
nothing changes; and one that was looked for and is found only then changes nothing in the view and sends nothing. -/
theorem displays_by_origin (data : NavData) (settings : Settings) (remembered : Option Bool) (events : List Event)
    (hopen : .close ∉ events) (ev : Event) :
    let s := start data settings remembered
    let d := s.after events
    let report := (d.step ev).2
    let linked := d.engine.view.mode.isLinked
    (s.sentIn events).filterMap Command.page? = s.dueIn events ∧
    (∀ page, .display page ∈ report.sent ↔
      (∃ path n, ev = .select path ∧ d.engine.tree.at? path = some n ∧ n.link = some page) ∨
        ∃ p, report.request = some (.navigate page) ∧ report.ending = some (.ok (.landed (.revealed p))) ∧
          linked = true) ∧
    (∀ path n, ev = .select path → d.engine.tree.at? path = some n → report.sent = n.link.toList.map .display) ∧
    (∀ anchor p, report.request = some (.navigate anchor) → report.ending = some (.ok (.landed (.revealed p))) →
      report.sent = .reveal p :: if linked then [.display anchor] else []) ∧
    (∀ page, linked = false → d.step (.begin (.follow page)) = ({ d with clock := d.clock + 1 },
      { request := some (.follow page), ending := some (.ok (.landed .ignored)) })) ∧
    ∀ page p, report.request = some (.follow page) → report.planned = some (.ok p) → linked = false →
      (d.step ev).1.engine.view = d.engine.view ∧ report.sent = [] := by
  intro s d report linked
  have hs : s.Sound data.root := start_sound data settings remembered
  have hd : d.Sound data.root := (after_sound hs events).2
  have ho : d.InOrder := after_inOrder hs (start_inOrder data settings remembered) events
  have hl : d.engine.view.listening = true := after_listening s hopen
  have hsends : Sends d ev report := step_sends hd hl ev
  refine ⟨pages_sentIn hs rfl hopen, ?_, ?_, ?_, ?_, ?_⟩
  · intro page
    exact hsends.display_iff page
  · intro path n hev hn
    exact hsends.of_select hev hn
  · intro anchor p hr hend
    exact hsends.of_revealed hr hend
  · intro page hm
    exact step_unfollowed ho hm page
  · intro page p hr hp hm
    exact step_unlinked hd hm hr hp

/-- A page is followed, the panes are unlinked, and only then its node is found. A deep link to another node is revealed
and, once the panes are linked again, the node that the user selects is displayed. -/
theorem displays_around_toggles :
    let anchor : PageRef := ⟨"a.html"⟩
    let data : NavData :=
      { root := .inline "Main" (some ⟨"index.html"⟩) [.deferred "Files" ⟨"files.html"⟩ ⟨"files"⟩]
        anchors := ⟨[(anchor, [⟨"files.html"⟩, anchor])]⟩ }
    let now : Handle → Option Answer := fun _ => some (.ok [.leaf "a" (some anchor)])
    let events : List Event := [.begin (.follow anchor), .toggle, .run 0 now, .begin (.navigate anchor), .toggle]
    let s := start data {} none
    .close ∉ events ∧ (s.sentIn events).filterMap Command.page? = [] ∧
      (s.sentIn events) = [.reveal [0, 0]] ∧
      ((s.after events).step (.select [])).2.sent = [.display ⟨"index.html"⟩] := by
  intro anchor data now events s
  have hopen : Event.close ∉ events := by simp [events]
  obtain ⟨hpages, -, hselect, -⟩ := displays_by_origin data {} none events hopen (.select [])
  have hdue : s.dueIn events = [] := by rfl
  have hroot : (s.after events).engine.tree.at? [] =
      some (.inline "Main" (some ⟨"index.html"⟩) [.inline "Files" (some ⟨"files.html"⟩) [.leaf "a" (some anchor)]]) := by
    rfl
  refine ⟨hopen, hpages.trans hdue, by rfl, ?_⟩
  rw [hselect [] _ rfl hroot]
  rfl

end Desk
end DocNav
