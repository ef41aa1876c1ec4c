import DocNav.Proofs.Desk
import DocNav.Proofs.Staging
/-!
# What an event puts into the tree

`Writes` says once what may become of the tree at an event, beside how the request ends that had its turn: the
tree stays, or a plan has arrived and the nodes above its path are opened, or a node is expanded and opened, or
there is no node to expand. `Desk.step_writes` is the main result, and what is proved of the tree is a case
analysis of it.

Two facts carry it. What has been staged fits the tree whenever it comes to be put in place (`Plan.Stages`), and
it was staged for nodes above the plan's path only, which a waiting task remembers (`Desk.Above`).
-/

namespace DocNav

/-! ## What is put into the tree -/

/-- What an expansion puts into the tree when its fetch has this outcome. -/
def stagedAt (path : TreePath) : Outcome → List (TreePath × List Node)
  | .ok fragment => [(path, fragment)]
  | .error _ => []

/-- What a waiting task has staged belongs above the node that it has reached. -/
def Task.Above : Task → Prop
  | .planning _ w => Plan.StagedAbove w.spot.staged w.spot.path
  | .expanding _ _ _ => True

namespace Engine

/-- What the plan for an anchor puts into the tree in its first turn. -/
def stagedFor (e : Engine) (anchor : PageRef) : Except UnknownAnchor Chain → List (TreePath × List Node)
  | .error _ => []
  | .ok chain => (Plan.walk e.tree anchor (chainBelow e.tree chain) {} e.loader).1.staged

/-- What the expansion of a node puts into the tree in its first turn. -/
def stagedForNode (e : Engine) (path : TreePath) : List (TreePath × List Node) :=
  match (e.tree.at? path).bind Node.handle? with
  | none => []
  | some h => ((e.loader.join h).2.poll h (e.loader.join h).1 none).1.elim [] (stagedAt path)

/-- What a request puts into the tree in the turn in which it begins. -/
def staged (e : Engine) (r : Request) : List (TreePath × List Node) :=
  match r with
  | .expand path => e.stagedForNode path
  | .plan _ | .planPage _ | .navigate _ | .follow _ =>
    match (r.bare? e.view).bind (Request.sought? e.index) with
    | none => []
    | some (anchor, found) => e.stagedFor anchor found

/-- What a task puts into the tree when it is run. -/
def stagedAgain (e : Engine) (t : Task) (answer : Option Answer) : List (TreePath × List Node) :=
  match e.loader.poll t.handle t.fetch answer with
  | (none, _) => []
  | (some o, loader) =>
    match t with
    | .planning _ w => (Plan.resume e.tree w o loader).1.staged
    | .expanding path _ _ => stagedAt path o

end Engine

namespace Desk

/-- What an event puts into the tree. -/
def staged (d : Desk) : Event → List (TreePath × List Node)
  | .begin r => d.engine.staged r
  | .run number now =>
    match d.pending.find? (·.number = number) with
    | none => []
    | some p => d.engine.stagedAgain p.task (now p.task.handle)
  | .select _ | .collapse _ | .toggle | .close => []

end Desk

/-- The request goes on, is ignored or has failed, though not for want of a node of the tree. -/
def Idle (ending? : Option Ending) : Prop :=
  ∀ ending, ending? = some ending →
    ending = .ok (.landed .ignored) ∨ ∃ err, ending = .error err ∧ ∀ t, err ≠ .tree t

/-- What may become of the tree `T` at an event, beside the engine that the event leaves, how a request has
ended, what a plan has found and what was put into the tree. -/
inductive Writes (T : Node) (r? : Option Request) (e : Engine) :
    Option Ending → Option (Except ResolveError TreePath) → List (TreePath × List Node) → Prop
  | keeps {ending? : Option Ending} {found? : Option (Except ResolveError TreePath)} : e.tree = T → Idle ending? →
      (∀ p, found? ≠ some (.ok p)) → Writes T r? e ending? found? []
  | arrives {p : TreePath} {a : Answered} {c : Node} {staged : List (TreePath × List Node)} :
      Plan.commit T staged = .ok e.tree → e.tree = T.openAbove e.loader.fragment? p → e.tree.at? p = some c →
      Writes T r? e (some (.ok a)) (some (.ok p)) staged
  | expands {path : TreePath} {c : Node} {staged : List (TreePath × List Node)} : r? = some (.expand path) →
      Plan.commit T staged = .ok e.tree → e.tree = T.openAt e.loader.fragment? path → T.at? path = some c →
      (c.opened e.loader.fragment?).isDeferred = false → Writes T r? e (some (.ok .expanded)) none staged
  | misses {path : TreePath} : r? = some (.expand path) → T.at? path = none → e.tree = T →
      Writes T r? e (some (.error (.tree (.missing path)))) none []

theorem Writes.same {T : Node} {r? : Option Request} {e : Engine} (h : e.tree = T) : Writes T r? e none none [] :=
  .keeps h nofun nofun

theorem Writes.ignores {T : Node} {r? : Option Request} {e : Engine} (h : e.tree = T) :
    Writes T r? e (some (.ok (.landed .ignored))) none [] := by
  refine .keeps h ?_ nofun
  rintro _ ⟨⟩
  exact .inl rfl

theorem Writes.fails {T : Node} {r? : Option Request} {e : Engine} {err : ResolveError}
    {found? : Option (Except ResolveError TreePath)} (h : e.tree = T) (herr : ∀ t, err ≠ .tree t)
    (hfound : ∀ p, found? ≠ some (.ok p)) : Writes T r? e (some (.error err)) found? [] := by
  refine .keeps h ?_ hfound
  rintro _ ⟨⟩
  exact .inr ⟨err, rfl, herr⟩

/-- Whatever is put into the tree, the tree takes all of it. -/
theorem Writes.commit {T : Node} {r? : Option Request} {e : Engine} {ending? : Option Ending}
    {found? : Option (Except ResolveError TreePath)} {staged : List (TreePath × List Node)}
    (h : Writes T r? e ending? found? staged) : Plan.commit T staged = .ok e.tree := by
  cases h with
  | keeps ht _ _ | misses _ _ ht =>
    rw [ht]
    rfl
  | arrives hc _ _ | expands _ hc _ _ _ => exact hc

/-- Where a plan has arrived, there is a node. -/
theorem Writes.arrived {T : Node} {r? : Option Request} {e : Engine} {ending? : Option Ending} {p : TreePath}
    {staged : List (TreePath × List Node)} (h : Writes T r? e ending? (some (.ok p)) staged) :
    ∃ c, e.tree.at? p = some c := by
  cases h with
  | keeps _ _ hp => exact absurd rfl (hp p)
  | arrives _ _ hat => exact ⟨_, hat⟩

/-- A node that has been expanded is no longer deferred. -/
theorem Writes.expanded {T : Node} {e : Engine} {path : TreePath} {staged : List (TreePath × List Node)}
    (h : Writes T (some (.expand path)) e (some (.ok .expanded)) none staged) :
    ∃ c, e.tree.at? path = some c ∧ c.isDeferred = false := by
  cases h with
  | keeps _ hidle _ => rcases hidle _ rfl with h | ⟨_, h, -⟩ <;> cases h
  | expands hr _ ht hat hopen =>
    cases hr
    rw [ht]
    exact ⟨_, Node.at?_openAt hat, hopen⟩

/-! ## What a turn of a plan puts into the tree -/

namespace Plan

theorem Finds.not_tree {K : Fragments} {R : Node} {l : Loader} {anchor : PageRef} {links : Chain} {err : ResolveError}
    (h : Finds K R l anchor links (.error err)) (t : TreeError) : err ≠ .tree t := by
  cases h with
  | lost | unloaded => nofun

end Plan

namespace Engine

variable {R : Node} {e : Engine} {r : Request} {purpose : Purpose}

theorem land_ending (e : Engine) (purpose : Purpose) (p : TreePath) :
    ∃ a, (e.land purpose p).ending? = some (.ok a) := by
  cases purpose <;> exact ⟨_, rfl⟩

theorem advance_writes {may : Handle → Answer → Prop} (hs : e.Sound R) {x : Plan.Progress × Loader} {anchor : PageRef}
    {links : Chain} (hm : Loader.Moves may e.loader x.2)
    (hx : Plan.Reached x.2.fragment? R e.tree x.2 anchor links x.1) (ha : x.1.Above) (r? : Option Request) (v : View) :
    Writes e.tree r? ({ e with view := v }.advance purpose x).engine ({ e with view := v }.advance purpose x).ending?
      (e.advance .locate x).located? x.1.staged := by
  obtain ⟨p, l⟩ := x
  cases p with
  | waiting w => exact .same rfl
  | failed err =>
    cases hx with
    | failed hf => exact .fails rfl hf.not_tree nofun
  | arrived p staged =>
    cases hx with
    | arrived hf hst =>
      obtain ⟨hc, c, hat⟩ := hst.openAbove (hs.tree.of_sub fun _ _ => hm.fragment hs.loader) ha
      simp only [advance, hc]
      obtain ⟨a, hend⟩ := land_ending
        { e with tree := e.tree.openAbove l.fragment? p, loader := l, view := v } purpose p
      rw [hend, land_engine]
      exact .arrives hc rfl hat

theorem beginPlan_writes (hs : e.Sound R) (anchor : PageRef) (found : Except UnknownAnchor Chain)
    (r? : Option Request) (v : View) :
    Writes e.tree r? ({ e with view := v }.beginPlan purpose anchor found).engine
      ({ e with view := v }.beginPlan purpose anchor found).ending? (e.beginPlan .locate anchor found).located?
      (e.stagedFor anchor found) := by
  cases found with
  | error err => exact .fails rfl nofun nofun
  | ok chain =>
    obtain ⟨hm, hx⟩ := beginWalk_reached hs anchor chain
    exact advance_writes hs hm hx (Plan.walk_above Plan.stagedAbove_start) r? v

theorem resumePlan_writes (hs : e.Sound R) {w : Plan.Waiting} (hw : e.Waits R r (.planning purpose w))
    (ha : (Task.planning purpose w).Above) {o : Outcome}
    (ho : e.loader.fetches[w.fetch]? = some { handle := w.handle, outcome? := some o }) (r? : Option Request) :
    Writes e.tree r? (e.advance purpose (Plan.resume e.tree w o e.loader)).engine
      (e.advance purpose (Plan.resume e.tree w o e.loader)).ending?
      (e.advance .locate (Plan.resume e.tree w o e.loader)).located? (Plan.resume e.tree w o e.loader).1.staged := by
  cases hw with
  | planning _ hr =>
    obtain ⟨hm, hx⟩ := Plan.resume_reached hs.tree hs.loader rfl hr ho
    rw [← hm.fragment_silent] at hx
    exact advance_writes hs hm hx (Plan.resume_above ha) r? e.view

/-! ## What a turn of an expansion puts into the tree -/

section
variable {path : TreePath} {h : Handle} {n c : Node}

theorem openNode_expanded (e : Engine) (hc : e.tree.at? path = some c) :
    (e.openNode path).ending? = some (.ok .expanded) := by
  simp only [openNode, Node.find, hc]
  split <;> rfl

/-- The node is opened, or its fragment cannot be loaded. -/
theorem finishExpand_writes (hs : e.Sound R) {id : FetchId} {o : Outcome}
    (ho : e.loader.fetches[id]? = some { handle := h, outcome? := some o })
    (hn : R.atIn? e.loader.fragment? path = some n) (hk : n.handle? = some h) (hc : e.tree.at? path = some c) :
    Writes e.tree (some (.expand path)) (e.finishExpand path o).engine (e.finishExpand path o).ending? none
      (stagedAt path o) := by
  cases o with
  | error err => exact .fails rfl nofun nofun
  | ok fragment =>
    have hfits : Plan.Fits e.loader.fragment? R (path, fragment) :=
      ⟨n, h, hn, hk, Loader.fragment?_of_fetch hs.loader ho⟩
    have hfill := Plan.fill_eq_openAt hs.tree hfits hc
    have hcommit : Plan.commit e.tree [(path, fragment)] = .ok (e.tree.openAt e.loader.fragment? path) := by
      rw [Plan.commit_cons hc, ← hfill]
      rfl
    have hat := Node.at?_openAt (K := e.loader.fragment?) hc
    -- What was put in place is the opened node, so that one is not deferred.
    have hopen : (c.opened e.loader.fragment?).isDeferred = false := by
      have hat' := Node.at?_modifyAt (Node.fill fragment) hc
      rw [hfill, hat] at hat'
      rw [Option.some.inj hat']
      exact Node.isDeferred_fill c fragment
    simp only [finishExpand, hcommit]
    rw [openNode_expanded _ hat, openNode_engine]
    exact .expands rfl hcommit rfl hc hopen

theorem beginExpand_writes (hs : e.Sound R) (path : TreePath) :
    Writes e.tree (some (.expand path)) (e.beginExpand path).engine (e.beginExpand path).ending? none
      (e.stagedForNode path) := by
  unfold stagedForNode
  rcases beginExpand_cases hs path with ⟨hc, he⟩ | ⟨c, hc, hk, he⟩ | ⟨c, h, id, l, hc, hk, hj, hm, -, hn, hl⟩
  · rw [he, hc]
    exact .misses rfl hc rfl
  · have hopen : c.isDeferred = false := Node.isDeferred_eq_false.2 hk
    rw [he, openNode_expanded e hc, openNode_engine]
    simp only [hc, hk, Option.bind_some]
    refine .expands rfl rfl (Node.openAt_of_not_deferred hc hopen).symm hc ?_
    rw [Node.opened_of_not_deferred hopen]
    exact hopen
  · have hg : e.Grows Loader.silent { e with loader := l } := ⟨hm, .refl _ _, rfl⟩
    simp only [hc, hk, hj, Option.bind_some]
    rcases hl with ⟨hp, he⟩ | ⟨o, hp, ho, he⟩
    · rw [he, hp]
      exact .same rfl
    · rw [he, hp]
      exact finishExpand_writes (hg.sound hs) ho hn hk hc

end

/-! ## The two kinds of turns -/

theorem begin_writes (hs : e.Sound R) (r : Request) :
    Writes e.tree (some r) (e.begin r).engine (e.begin r).ending? (e.planned? r) (e.staged r) := by
  cases r with
  | plan anchor | planPage anchor | navigate anchor => exact beginPlan_writes hs anchor _ _ _
  | expand path => exact beginExpand_writes hs path
  | follow page =>
    cases hl : e.view.mode.isLinked with
    | true =>
      simp only [begin, planned?, staged, Request.bare?, hl, if_true, Option.bind_some, Request.sought?]
      exact beginPlan_writes hs page _ _ _
    | false =>
      simp only [begin, planned?, staged, Request.bare?, hl, Bool.false_eq_true, if_false, Option.bind_none]
      exact .ignores rfl

theorem run_writes {may : Handle → Answer → Prop} (hs : e.Sound R) {t : Task} (hw : e.Waits R r t) (ha : t.Above)
    (answer : Option Answer) (hmay : ∀ a, answer = some a → may t.handle a) :
    Writes e.tree (some r) (e.run t answer).engine (e.run t answer).ending? (e.plannedAgain? t answer)
      (e.stagedAgain t answer) := by
  rcases poll_waiting hs hw answer hmay with hp | ⟨o, l, hm, ho, hp⟩
  · obtain ⟨hrun, hnone⟩ := run_waiting hp
    rw [hrun, hnone]
    simp only [stagedAgain, hp]
    exact .same rfl
  · have hg : e.Grows may { e with loader := l } := ⟨hm, .refl _ _, rfl⟩
    have hs' := hg.sound hs
    have hw' := hw.grow hs hg
    cases t with
    | planning purpose w =>
      simp only [run, stagedAgain, plannedAgain?, Task.bare?, Task.handle, Task.fetch, Option.bind_some] at hp ⊢
      simp only [hp]
      exact resumePlan_writes hs' hw' ha ho _
    | expanding path h id =>
      simp only [run, stagedAgain, plannedAgain?, Task.bare?, Task.handle, Task.fetch, Option.bind_none] at hp ⊢
      simp only [hp]
      cases hw' with
      | expanding _ hn hk hc => exact finishExpand_writes hs' ho hn hk hc

/-! ## A waiting task has staged above -/

theorem advance_above {x : Plan.Progress × Loader} (ha : x.1.Above) {t : Task}
    (h : (e.advance purpose x).progress = .waiting t) : t.Above := by
  obtain ⟨p, l⟩ := x
  cases p with
  | waiting w =>
    cases h
    exact ha
  | failed err => cases h
  | arrived p staged =>
    simp only [advance] at h
    split at h
    · cases h
    · cases purpose <;> cases h

theorem beginPlan_above {anchor : PageRef} {found : Except UnknownAnchor Chain} {t : Task}
    (h : (e.beginPlan purpose anchor found).progress = .waiting t) : t.Above := by
  cases found with
  | error err => cases h
  | ok chain => exact advance_above (Plan.walk_above Plan.stagedAbove_start) h

/-- An expansion stages nothing while it waits. -/
theorem Waits.above_of_expand {path : TreePath} {t : Task} (hw : e.Waits R (.expand path) t) : t.Above := by
  cases hw with
  | planning hsought _ => cases hsought
  | expanding => trivial

theorem begin_above (hs : e.Sound R) {t : Task} (h : (e.begin r).progress = .waiting t) : t.Above := by
  cases r with
  | plan anchor | planPage anchor | navigate anchor => exact beginPlan_above h
  | follow page =>
    simp only [begin] at h
    split at h
    · exact beginPlan_above h
    · cases h
  | expand path =>
    have hturn : Turns Loader.silent R e (.expand path) none (e.beginExpand path) none := beginExpand_turns hs path
    exact (hturn.waiting h).1.above_of_expand

theorem run_above {t t' : Task} {answer : Option Answer} (ha : t.Above) (h : (e.run t answer).progress = .waiting t')
    (hw : e.Waits R r t) (hw' : (e.run t answer).engine.Waits R r t') : t'.Above := by
  cases t with
  | planning purpose w =>
    simp only [run] at h
    split at h
    · cases h
      exact ha
    · exact advance_above (Plan.resume_above ha) h
  | expanding path handle id =>
    cases hw
    exact hw'.above_of_expand

end Engine

/-! ## What an event puts into the tree -/

namespace Desk

/-- Every waiting task has staged above the node that it has reached. -/
def Above (d : Desk) : Prop := ∀ p ∈ d.pending, p.task.Above

variable {R : Node} {d : Desk}

theorem start_above (data : NavData) (settings : Settings) (remembered : Option Bool) :
    (start data settings remembered).Above := by
  simp [Above, start]

theorem Above.take (ha : d.Above) {number : Nat} {r : Request} {navigates : Bool} {turn : Turn}
    (planned : Option (Except ResolveError TreePath)) (hw : ∀ t, turn.progress = .waiting t → t.Above) :
    (d.take number r navigates turn planned).1.Above := by
  intro p hp
  rcases mem_take hp with ⟨hp, -⟩ | ⟨t, ht, rfl⟩
  · exact ha p hp
  · exact hw t ht

theorem step_above (hd : d.Sound R) (ha : d.Above) (ev : Event) : (d.step ev).1.Above := by
  cases ev with
  | begin r => exact ha.take (d.engine.planned? r) fun t h => Engine.begin_above hd.engine h
  | run number now =>
    simp only [step]
    cases hp : d.pending.find? (·.number = number) with
    | none => exact ha
    | some p =>
      have hmem := List.mem_of_find?_eq_some hp
      exact ha.take (d.engine.plannedAgain? p.task (now p.task.handle)) fun t h =>
        Engine.run_above (ha p hmem) h (hd.pending p hmem).waits ((hd.run_turns hmem number now).waiting h).1
  | select path =>
    simp only [step]
    cases d.engine.select path <;> exact ha
  | collapse path => exact ha
  | toggle => exact ha
  | close => exact ha

/-- What holds of a desk after any events. -/
theorem after_start (data : NavData) (settings : Settings) (remembered : Option Bool) (events : List Event) :
    ((start data settings remembered).after events).Sound data.root ∧
      ((start data settings remembered).after events).Above := by
  have hd := start_sound data settings remembered
  exact ⟨(after_sound hd events).2,
    after_inv (fun _ ev hd ha => step_above hd ha ev) hd (start_above data settings remembered) events⟩

/-- What any event may do to the tree. -/
theorem step_writes (hd : d.Sound R) (ha : d.Above) (ev : Event) :
    Writes d.engine.tree (d.step ev).2.request (d.step ev).1.engine (d.step ev).2.ending (d.step ev).2.planned
      (d.staged ev) := by
  cases ev with
  | begin r => exact Engine.begin_writes hd.engine r
  | run number now =>
    simp only [step, staged]
    cases hp : d.pending.find? (·.number = number) with
    | none => exact .same rfl
    | some p =>
      have hmem := List.mem_of_find?_eq_some hp
      exact Engine.run_writes hd.engine (hd.pending p hmem).waits (ha p hmem) _ fun a h =>
        show (Event.run number now).answers p.task.handle a from h
  | select path =>
    simp only [step, Engine.select]
    cases d.engine.tree.find path <;> exact .same rfl
  | collapse path | toggle | close => exact .same rfl

end Desk
end DocNav
