import DocNav.Proofs.Walks
import DocNav.Engine
/-!
# What a turn of the engine may come to

A request gets its first turn when it begins and another each time its task is run. `Turns` says once what such
a turn may come to, and every other statement about turns is a case analysis of it, so none looks at the engine
again. `begin_turns` and `run_turns` are the two main results.

Two invariants carry them: the tree unfolds the root that the engine started with (`Engine.Sound`), and a task
that waits stands at a node of the hierarchy (`Engine.Waits`), which nothing that happens meanwhile changes
(`Waits.grow`).
-/

namespace DocNav

/-! ## What requests look for -/

/-- The anchor that a request locates, and the chain that the index gives for it. -/
def Request.sought? (ix : AnchorIndex) : Request → Option (PageRef × Except UnknownAnchor Chain)
  | .plan anchor | .navigate anchor => some (anchor, ix.resolve anchor)
  | .planPage anchor | .follow anchor => some (anchor, ix.resolvePage anchor)
  | .expand _ => none

/-- What a request makes its plan for, under its ticket. -/
def Request.purpose? (ticket : Ticket) : Request → Option Purpose
  | .plan _ | .planPage _ => some .locate
  | .navigate anchor => some (.deepLink anchor ticket)
  | .follow _ => some (.inbound ticket)
  | .expand _ => none

/-- Whether a request that begins in this view is a navigation. -/
def Request.navigates (v : View) : Request → Bool
  | .navigate _ => true
  | .follow _ => v.mode.isLinked
  | .plan _ | .planPage _ | .expand _ => false

/-- The plan that a request makes when it begins in this view, as a request of its own. -/
def Request.bare? (v : View) : Request → Option Request
  | .plan anchor | .navigate anchor => some (.plan anchor)
  | .planPage anchor => some (.planPage anchor)
  | .follow anchor => if v.mode.isLinked then some (.planPage anchor) else none
  | .expand _ => none

/-- The ticket of the navigation that a plan is made for. -/
def Purpose.ticket? : Purpose → Option Ticket
  | .locate => none
  | .deepLink _ ticket | .inbound ticket => some ticket

def Task.purpose? : Task → Option Purpose
  | .planning purpose _ => some purpose
  | .expanding _ _ _ => none

/-- The plan of a task, as a task of its own. -/
def Task.bare? : Task → Option Task
  | .planning _ w => some (.planning .locate w)
  | .expanding _ _ _ => none

/-- What a plan of its own has found in a turn. -/
def Turn.located? (turn : Turn) : Option (Except ResolveError TreePath) :=
  match turn.progress with
  | .ended (.ok (.located p)) => some (.ok p)
  | .ended (.error err) => some (.error err)
  | .ended (.ok (.landed _)) | .ended (.ok .expanded) | .waiting _ => none

namespace Engine

/-- What the plan of a request finds in the turn in which the request begins. -/
def planned? (e : Engine) (r : Request) : Option (Except ResolveError TreePath) :=
  (r.bare? e.view).bind fun b => (e.begin b).located?

/-- What the plan of a task finds when the task is run. -/
def plannedAgain? (e : Engine) (t : Task) (answer : Option Answer) : Option (Except ResolveError TreePath) :=
  t.bare?.bind fun b => (e.run b answer).located?

/-- The engine that a request enters, with a ticket taken if the request is a navigation. -/
def entered (e : Engine) (r : Request) : Engine :=
  if r.navigates e.view then { e with view := e.view.begin.2 } else e

/-! ## Invariants -/

/-- The tree of the engine unfolds the root. -/
structure Sound (R : Node) (e : Engine) : Prop where
  loader : e.loader.Sound
  tree : Unfolds e.loader.fragment? R e.tree

/-- The engine may have come from the first to the second state. -/
structure Grows (may : Handle → Answer → Prop) (e e' : Engine) : Prop where
  moves : Loader.Moves may e.loader e'.loader
  tree : Unfolds e'.loader.fragment? e.tree e'.tree
  index : e'.index = e.index

/-- What the plan of a request may find. -/
inductive Found (R : Node) (e : Engine) (r : Request) : Except ResolveError TreePath → Prop
  | unknown {anchor : PageRef} {err : UnknownAnchor} :
      r.sought? e.index = some (anchor, .error err) → Found R e r (.error (.unknownAnchor err))
  | walked {anchor : PageRef} {chain : Chain} {x : Except ResolveError TreePath} :
      r.sought? e.index = some (anchor, .ok chain) →
      Plan.Finds e.loader.fragment? R e.loader anchor (chainBelow R chain) x → Found R e r x

/-- How a task of a request waits. -/
inductive Waits (R : Node) (e : Engine) : Request → Task → Prop
  | planning {r : Request} {anchor : PageRef} {chain : Chain} {purpose : Purpose} {w : Plan.Waiting} :
      r.sought? e.index = some (anchor, .ok chain) →
      Plan.Reached e.loader.fragment? R e.tree e.loader anchor (chainBelow R chain) (.waiting w) →
      Waits R e r (.planning purpose w)
  | expanding {path : TreePath} {h : Handle} {id : FetchId} {n d : Node} :
      e.loader.Holds h id → R.atIn? e.loader.fragment? path = some n → n.handle? = some h →
      e.tree.at? path = some d → Waits R e (.expand path) (.expanding path h id)

variable {may : Handle → Answer → Prop} {R : Node} {e e' : Engine} {r : Request}

theorem Grows.refl (may : Handle → Answer → Prop) (e : Engine) : e.Grows may e := ⟨.refl, .refl _ _, rfl⟩

theorem Grows.sub (hs : e.Sound R) (hg : e.Grows may e') :
    Fragments.Sub e.loader.fragment? e'.loader.fragment? :=
  fun _ _ => hg.moves.fragment hs.loader

theorem Grows.sound (hs : e.Sound R) (hg : e.Grows may e') : e'.Sound R where
  loader := hg.moves.sound hs.loader
  tree := (hs.tree.of_sub (hg.sub hs)).trans hg.tree

theorem Grows.trans {e'' : Engine} (hs : e.Sound R) (hg : e.Grows may e') (hg' : e'.Grows may e'') :
    e.Grows may e'' where
  moves := hg.moves.trans hg'.moves
  tree := (hg.tree.of_sub (hg'.sub (hg.sound hs))).trans hg'.tree
  index := hg'.index.trans hg.index

theorem Grows.mono {may' : Handle → Answer → Prop} (hm : ∀ h a, may h a → may' h a) (hg : e.Grows may e') :
    e.Grows may' e' := ⟨hg.moves.mono hm, hg.tree, hg.index⟩

/-- The view has no part in how an engine grows. -/
theorem Grows.of_view (e : Engine) (v : View) : e.Grows may { e with view := v } := ⟨.refl, .refl _ _, rfl⟩

/-- Nor has it a part in what a plan finds. -/
theorem Found.of_view {x : Except ResolveError TreePath} (h : e.Found R r x) (v : View) :
    { e with view := v }.Found R r x := by
  cases h with
  | unknown hsought => exact .unknown hsought
  | walked hsought hf => exact .walked hsought hf

/-- A task that waits still waits at the same node when the engine has moved on. -/
theorem Waits.grow {t : Task} (hs : e.Sound R) (hg : e.Grows may e') (h : e.Waits R r t) : e'.Waits R r t := by
  cases h with
  | planning hsought hr =>
    exact .planning (hg.index ▸ hsought) (hr.grow hs.tree (hg.sub hs) hg.tree hg.moves)
  | expanding hh hn hk hd =>
    obtain ⟨d', hd', -⟩ := hg.tree.at? hd
    exact .expanding (hg.moves.holds hh) (Node.atIn?_of_sub (hg.sub hs) hn) hk hd'

/-! ## Turns -/

/-- What a turn of a request may come to, beside what the request's plan has found in it: it waits, its plan
has failed or has arrived, or, with no plan to make, it has failed or opens its node. Whatever it comes to,
the view has not changed before it lands or opens its node. -/
inductive Turns (may : Handle → Answer → Prop) (R : Node) (e : Engine) (r : Request) (purpose? : Option Purpose) :
    Turn → Option (Except ResolveError TreePath) → Prop
  | waits {e' : Engine} {t : Task} : e.Grows may e' → e'.view = e.view → e'.Waits R r t → t.purpose? = purpose? →
      Turns may R e r purpose? { engine := e', progress := .waiting t } none
  | fails {e' : Engine} {err : ResolveError} : e.Grows may e' → e'.view = e.view → e'.Found R r (.error err) →
      Turns may R e r purpose? (e'.fail err) (some (.error err))
  | lands {e' : Engine} {purpose : Purpose} {p : TreePath} : e.Grows may e' → e'.view = e.view →
      e'.Found R r (.ok p) → purpose? = some purpose →
      Turns may R e r purpose? (e'.land purpose p) (some (.ok p))
  | refuses {e' : Engine} {path : TreePath} {err : ResolveError} : e.Grows may e' → e'.view = e.view →
      r = .expand path → purpose? = none → Turns may R e r purpose? (e'.fail err) none
  | opens {e' : Engine} {path : TreePath} : e.Grows may e' → e'.view = e.view → r = .expand path →
      purpose? = none → Turns may R e r purpose? (e'.openNode path) none

theorem land_engine (e : Engine) (purpose : Purpose) (p : TreePath) :
    (e.land purpose p).engine = { e with view := (e.land purpose p).engine.view } := by
  cases purpose <;> rfl

/-- A navigation that lands is revealed, ignored or superseded. -/
theorem land_cases (e : Engine) {purpose : Purpose} {ticket : Ticket} (h : purpose.ticket? = some ticket)
    (p : TreePath) :
    (ticket = e.view.latest ∧ (e.land purpose p).progress = .ended (.ok (.landed (.revealed p))) ∧
      (e.land purpose p).engine.view = (e.view.reveal p).1) ∨
    (purpose = .inbound ticket ∧ ticket = e.view.latest ∧
      (e.land purpose p).progress = .ended (.ok (.landed .ignored)) ∧
      (e.land purpose p).engine.view = e.view ∧ (e.land purpose p).sent = []) ∨
    (ticket ≠ e.view.latest ∧ (e.land purpose p).progress = .ended (.ok (.landed .superseded)) ∧
      (e.land purpose p).engine.view = e.view ∧ (e.land purpose p).sent = []) := by
  by_cases hc : ticket = e.view.latest
  · cases purpose with
    | locate => cases h
    | deepLink anchor t =>
      cases h
      simp [land, View.completeDeepLink, View.isCurrent, hc]
    | inbound t =>
      cases h
      by_cases hl : e.view.mode.isLinked
      · simp [land, View.completeInbound, View.isCurrent, hc, hl]
      · simp [land, View.completeInbound, View.isCurrent, hc, hl]
  · cases purpose with
    | locate => cases h
    | deepLink _ _ | inbound _ =>
      cases h
      simp [land, View.completeDeepLink, View.completeInbound, View.isCurrent, hc]

theorem openNode_engine (e : Engine) (path : TreePath) :
    (e.openNode path).engine = { e with view := (e.openNode path).engine.view } := by
  unfold openNode
  split
  · rfl
  · split <;> rfl

theorem Turns.grows {purpose? : Option Purpose} {turn : Turn} {x : Option (Except ResolveError TreePath)}
    (hs : e.Sound R) (h : Turns may R e r purpose? turn x) : e.Grows may turn.engine := by
  cases h with
  | waits hg _ _ _ | fails hg _ _ | refuses hg _ _ _ => exact hg
  | lands hg _ _ _ =>
    rw [land_engine]
    exact hg.trans hs (.of_view _ _)
  | opens hg _ _ _ =>
    rw [openNode_engine]
    exact hg.trans hs (.of_view _ _)

theorem Turns.waiting {purpose? : Option Purpose} {turn : Turn} {x : Option (Except ResolveError TreePath)}
    (h : Turns may R e r purpose? turn x) {t : Task} (ht : turn.progress = .waiting t) :
    turn.engine.Waits R r t ∧ t.purpose? = purpose? := by
  cases h with
  | waits _ _ hw hp =>
    cases ht
    exact ⟨hw, hp⟩
  | fails | refuses => cases ht
  | @lands _ purpose _ _ _ _ _ => cases purpose <;> cases ht
  | opens =>
    unfold openNode at ht
    split at ht
    · cases ht
    · split at ht <;> cases ht

/-- The engine may grow before the turn, as long as the view stays. -/
theorem Turns.after {purpose? : Option Purpose} {turn : Turn} {x : Option (Except ResolveError TreePath)}
    (hs : e.Sound R) (hg : e.Grows may e') (hv : e'.view = e.view) (h : Turns may R e' r purpose? turn x) :
    Turns may R e r purpose? turn x := by
  cases h with
  | waits hg' hv' hw hp => exact .waits (hg.trans hs hg') (hv'.trans hv) hw hp
  | fails hg' hv' hf => exact .fails (hg.trans hs hg') (hv'.trans hv) hf
  | lands hg' hv' hf hp => exact .lands (hg.trans hs hg') (hv'.trans hv) hf hp
  | refuses hg' hv' hr hp => exact .refuses (hg.trans hs hg') (hv'.trans hv) hr hp
  | opens hg' hv' hr hp => exact .opens (hg.trans hs hg') (hv'.trans hv) hr hp

/-! ## What a turn makes of a plan -/

section
variable {anchor : PageRef} {chain : Chain} {purpose : Purpose}

/-- The engine takes over what a plan has come to, whatever the plan is for. -/
theorem advance_turns (hs : e.Sound R) (hsought : r.sought? e.index = some (anchor, .ok chain))
    {x : Plan.Progress × Loader} (hm : Loader.Moves may e.loader x.2)
    (hx : Plan.Reached x.2.fragment? R e.tree x.2 anchor (chainBelow R chain) x.1) (v : View) :
    Turns may R { e with view := v } r (some purpose) ({ e with view := v }.advance purpose x)
      (e.advance .locate x).located? := by
  obtain ⟨p, l⟩ := x
  have hg : ∀ {T : Node}, Unfolds l.fragment? e.tree T →
      Grows may { e with view := v } { e with tree := T, loader := l, view := v } := fun hT => ⟨hm, hT, rfl⟩
  cases p with
  | waiting w => exact .waits (hg (.refl _ _)) rfl (.planning hsought hx) rfl
  | failed err =>
    cases hx with
    | failed hf => exact .fails (hg (.refl _ _)) rfl (.walked hsought hf)
  | arrived p staged =>
    cases hx with
    | arrived hf hst =>
      obtain ⟨T, -, hT, heT, -⟩ := hst.commit (hs.tree.of_sub fun _ _ => hm.fragment hs.loader)
      simp only [advance, hT]
      exact .lands (hg heT) rfl (.walked hsought hf) rfl

/-- The walk of a plan that begins comes to where the chain leads from the root. -/
theorem beginWalk_reached (hs : e.Sound R) (anchor : PageRef) (chain : Chain) :
    let x := Plan.walk e.tree anchor (chainBelow e.tree chain) {} e.loader
    Loader.Moves Loader.silent e.loader x.2 ∧
      Plan.Reached x.2.fragment? R e.tree x.2 anchor (chainBelow R chain) x.1 := by
  simp only [hs.tree.chainBelow_eq]
  have hstart := Plan.spot_start e.loader.fragment? R e.tree
  obtain ⟨hm, hx⟩ := Plan.walk_reached hs.tree hs.loader rfl (List.nil_append _).symm (.here R) hstart
  rw [← hm.fragment_silent] at hx
  exact ⟨hm, hx⟩

/-- The first turn of a plan. -/
theorem beginPlan_turns (hs : e.Sound R) {found : Except UnknownAnchor Chain}
    (hsought : r.sought? e.index = some (anchor, found)) (v : View) :
    Turns may R { e with view := v } r (some purpose) ({ e with view := v }.beginPlan purpose anchor found)
      (e.beginPlan .locate anchor found).located? := by
  cases found with
  | error err => exact .fails (.refl may _) rfl (.unknown hsought)
  | ok chain =>
    obtain ⟨hm, hx⟩ := beginWalk_reached hs anchor chain
    exact advance_turns hs hsought hm.of_silent hx v

/-- A later turn of a plan, whose fetch has an outcome. -/
theorem resumePlan_turns (hs : e.Sound R) {w : Plan.Waiting} (hw : e.Waits R r (.planning purpose w))
    {o : Outcome} (ho : e.loader.fetches[w.fetch]? = some { handle := w.handle, outcome? := some o }) :
    Turns may R e r (some purpose) (e.advance purpose (Plan.resume e.tree w o e.loader))
      (e.advance .locate (Plan.resume e.tree w o e.loader)).located? := by
  cases hw with
  | planning hsought hr =>
    obtain ⟨hm, hx⟩ := Plan.resume_reached hs.tree hs.loader rfl hr ho
    rw [← hm.fragment_silent] at hx
    exact advance_turns hs hsought hm.of_silent hx e.view

end

/-! ## What a turn makes of an expansion -/

section
variable {path : TreePath} {h : Handle} {n d : Node}

/-- The fragment of the node is there, or will never be. -/
theorem finishExpand_turns (hs : e.Sound R) {id : FetchId} {o : Outcome}
    (ho : e.loader.fetches[id]? = some { handle := h, outcome? := some o })
    (hn : R.atIn? e.loader.fragment? path = some n) (hk : n.handle? = some h) (hd : e.tree.at? path = some d) :
    Turns may R e (.expand path) none (e.finishExpand path o) none := by
  cases o with
  | error err => exact .refuses (.refl may e) rfl rfl rfl
  | ok fragment =>
    have hst : Plan.Stages e.loader.fragment? R e.tree [] path := ⟨by simp, e.tree, d, rfl, hd⟩
    have hfrag := Loader.fragment?_of_fetch hs.loader ho
    obtain ⟨T, -, hT, heT, -⟩ := (hst.stage hs.tree hn hk hfrag).1.commit hs.tree
    simp only [List.nil_append] at hT
    simp only [finishExpand, hT]
    exact .opens ⟨.refl, heT, rfl⟩ rfl rfl rfl

/-- The node is missing, is open, or is deferred: then its fetch is in flight or has an outcome. -/
theorem beginExpand_cases (hs : e.Sound R) (path : TreePath) :
    (e.tree.at? path = none ∧ e.beginExpand path = e.fail (.tree (.missing path))) ∨
    (∃ d, e.tree.at? path = some d ∧ d.handle? = none ∧ e.beginExpand path = e.openNode path) ∨
    ∃ d h id l, e.tree.at? path = some d ∧ d.handle? = some h ∧ e.loader.join h = (id, l) ∧
      Loader.Moves Loader.silent e.loader l ∧ l.Holds h id ∧ R.atIn? l.fragment? path = some d ∧
      (l.poll h id none = (none, l) ∧ e.beginExpand path =
          { engine := { e with loader := l }, progress := .waiting (.expanding path h id) } ∨
        ∃ o, l.poll h id none = (some o, l) ∧ l.fetches[id]? = some { handle := h, outcome? := some o } ∧
          e.beginExpand path = { e with loader := l }.finishExpand path o) := by
  unfold beginExpand Node.find
  cases hd : e.tree.at? path with
  | none => exact .inl ⟨rfl, rfl⟩
  | some d =>
    right
    simp only
    cases hk : d.handle? with
    | none => exact .inl ⟨d, rfl, hk, rfl⟩
    | some h =>
      right
      obtain ⟨n, hn, hnd⟩ := hs.tree.atIn? hd
      obtain rfl := hnd.eq_of_deferred (by simp [Node.isDeferred, hk])
      have hm := Loader.join_moves e.loader h
      have hh := Loader.holds_join hs.loader h
      rw [← hm.fragment_silent] at hn
      refine ⟨d, h, _, _, rfl, hk, rfl, hm, hh, hn, ?_⟩
      rcases Loader.poll_cases (hm.sound hs.loader) hh none with ⟨o, ho, hp⟩ | ⟨-, -, hp⟩ | ⟨b, -, hb, -⟩
      · refine .inr ⟨o, hp, ho, ?_⟩
        simp only [hp]
        rfl
      · refine .inl ⟨hp, ?_⟩
        simp only [hp]
        rfl
      · cases hb

theorem beginExpand_turns (hs : e.Sound R) (path : TreePath) :
    Turns may R e (.expand path) none (e.beginExpand path) none := by
  rcases beginExpand_cases hs path with ⟨-, he⟩ | ⟨d, -, -, he⟩ | ⟨d, h, id, l, hd, hk, -, hm, hh, hn, hl⟩
  · rw [he]
    exact .refuses (.refl may e) rfl rfl rfl
  · rw [he]
    exact .opens (.refl may e) rfl rfl rfl
  · have hg : e.Grows may { e with loader := l } := ⟨hm.of_silent, .refl _ _, rfl⟩
    rcases hl with ⟨-, he⟩ | ⟨o, -, ho, he⟩
    · rw [he]
      exact .waits hg rfl (.expanding hh hn hk hd) rfl
    · rw [he]
      exact (finishExpand_turns (hg.sound hs) ho hn hk hd).after hs hg rfl

end

/-! ## The two kinds of turns -/

/-- The turn in which a request begins. A page that the content pane goes to while the panes are not linked
is not looked for. -/
theorem begin_turns (hs : e.Sound R) (may : Handle → Answer → Prop) (r : Request) :
    (Turns may R (e.entered r) r (r.purpose? (e.entered r).view.latest) (e.begin r) (e.planned? r) ∧
      ∀ ticket, (r.purpose? ticket).bind Purpose.ticket? = if r.navigates e.view then some ticket else none) ∨
    (∃ page, r = .follow page) ∧ r.navigates e.view = false ∧ e.planned? r = none ∧
      e.begin r = { engine := e, progress := .ended (.ok (.landed .ignored)) } := by
  cases r with
  | plan anchor => exact .inl ⟨beginPlan_turns hs rfl e.view, fun _ => rfl⟩
  | planPage anchor => exact .inl ⟨beginPlan_turns hs rfl e.view, fun _ => rfl⟩
  | navigate anchor => exact .inl ⟨beginPlan_turns hs rfl _, fun _ => rfl⟩
  | expand path => exact .inl ⟨beginExpand_turns hs path, fun _ => rfl⟩
  | follow page =>
    cases hl : e.view.mode.isLinked with
    | false => exact .inr ⟨⟨page, rfl⟩, hl, by simp [planned?, Request.bare?, hl], by simp [begin, hl]⟩
    | true =>
      left
      simp only [entered, Request.navigates, planned?, Request.bare?, begin, hl, if_true, Option.bind_some]
      exact ⟨beginPlan_turns hs rfl _, fun _ => rfl⟩

theorem Waits.holds {t : Task} (hw : e.Waits R r t) : e.loader.Holds t.handle t.fetch := by
  cases hw with
  | planning _ hr =>
    cases hr with
    | waiting _ _ _ _ hh _ => exact hh
  | expanding hh _ _ _ => exact hh

/-- What a waiting task gets from its fetch when it is run. -/
theorem poll_waiting (hs : e.Sound R) {t : Task} (hw : e.Waits R r t) (answer : Option Answer)
    (hmay : ∀ a, answer = some a → may t.handle a) :
    e.loader.poll t.handle t.fetch answer = (none, e.loader) ∨
    ∃ o l, Loader.Moves may e.loader l ∧ l.fetches[t.fetch]? = some { handle := t.handle, outcome? := some o } ∧
      e.loader.poll t.handle t.fetch answer = (some o, l) := by
  rcases Loader.poll_cases hs.loader hw.holds answer with ⟨o, ho, hp⟩ | ⟨-, -, hp⟩ | ⟨b, hf, hb, hp⟩
  · exact .inr ⟨o, _, .refl, ho, hp⟩
  · exact .inl hp
  · refine .inr ⟨_, _, .single (.answer hf (hmay b hb)), ?_, hp⟩
    rw [Loader.fetches_answered hf, List.getElem?_set_self (List.getElem?_eq_some_iff.1 hf).1]

/-- A task whose fetch has no outcome yet goes on waiting, and its plan with it. -/
theorem run_waiting {t : Task} {answer : Option Answer}
    (hp : e.loader.poll t.handle t.fetch answer = (none, e.loader)) :
    e.run t answer = { engine := e, progress := .waiting t } ∧ e.plannedAgain? t answer = none := by
  have hrun : ∀ t', t'.handle = t.handle → t'.fetch = t.fetch →
      e.run t' answer = { engine := e, progress := .waiting t' } := by
    intro t' h1 h2
    simp only [run, h1, h2, hp]
  refine ⟨hrun t rfl rfl, ?_⟩
  cases t with
  | planning purpose w => simp [plannedAgain?, Task.bare?, hrun (.planning .locate w) rfl rfl, Turn.located?]
  | expanding path h id => rfl

/-- The turn in which a task is run again. -/
theorem run_turns (hs : e.Sound R) {t : Task} (hw : e.Waits R r t) (answer : Option Answer)
    (hmay : ∀ a, answer = some a → may t.handle a) :
    Turns may R e r t.purpose? (e.run t answer) (e.plannedAgain? t answer) := by
  rcases poll_waiting hs hw answer hmay with hp | ⟨o, l, hm, ho, hp⟩
  · obtain ⟨hrun, hnone⟩ := run_waiting hp
    rw [hrun, hnone]
    exact .waits (.refl may e) rfl hw rfl
  · -- Once the fetch has an outcome the task goes on.
    have hg : e.Grows may { e with loader := l } := ⟨hm, .refl _ _, rfl⟩
    have hs' := hg.sound hs
    have hw' := hw.grow hs hg
    refine Turns.after hs hg rfl ?_
    cases t with
    | planning purpose w =>
      simp only [plannedAgain?, Task.bare?, Task.purpose?, Option.bind_some, run, Task.handle, Task.fetch] at hp ⊢
      simp only [hp]
      exact resumePlan_turns hs' hw' ho
    | expanding path h id =>
      simp only [plannedAgain?, Task.bare?, Task.purpose?, Option.bind_none, run, Task.handle, Task.fetch] at hp ⊢
      simp only [hp]
      cases hw' with
      | expanding _ hn hk hd => exact finishExpand_turns hs' ho hn hk hd

end Engine
end DocNav
