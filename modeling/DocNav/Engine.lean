import DocNav.Plan
import DocNav.View
/-!
# The navigation engine

The engine owns the tree, the anchor index, the loader and the view, and carries out what the panes ask for.
A request that has to wait for a fragment leaves a task behind; the engine takes other requests meanwhile, and
the task goes on when it is run again after its fetch has ended. Between two such points nothing else happens,
so every run of the engine is a sequence of requests begun and tasks run again, in whatever order.
-/

namespace DocNav

/-- The settings of an engine: whether the panes start out linked where nothing is remembered, and labels that
take the place of those in the data. -/
structure Settings where
  enabled : Bool := true
  whileLinked : Option String := none
  whileUnlinked : Option String := none
deriving DecidableEq, Repr, Inhabited

/-- What the panes ask for that may have to wait for fragments. -/
inductive Request where
  /-- Locate an anchor. -/
  | plan (anchor : PageRef)
  /-- Locate an anchor, or its page where the anchor itself is not indexed. -/
  | planPage (anchor : PageRef)
  /-- Open a deep link. -/
  | navigate (anchor : PageRef)
  /-- Follow the content pane, which went to a page. -/
  | follow (page : PageRef)
  /-- Show the children of a node. -/
  | expand (path : TreePath)
deriving DecidableEq, Repr

/-- What a plan is made for. -/
inductive Purpose where
  | locate
  | deepLink (anchor : PageRef) (ticket : Ticket)
  | inbound (ticket : Ticket)
deriving DecidableEq, Repr

inductive Task where
  | planning (purpose : Purpose) (waiting : Plan.Waiting)
  | expanding (path : TreePath) (handle : Handle) (fetch : FetchId)

namespace Task

def handle : Task → Handle
  | planning _ w => w.handle
  | expanding _ h _ => h

def fetch : Task → FetchId
  | planning _ w => w.fetch
  | expanding _ _ id => id

/-- How many more fragments the task may have to wait for, the present one included. -/
def remaining : Task → Nat
  | planning _ w => w.rest.length + 1
  | expanding _ _ _ => 1

end Task

inductive Answered where
  | located (path : TreePath)
  | landed (landing : Landing)
  | expanded
deriving DecidableEq, Repr

/-- The path that an answer tells; the root's where it tells none. -/
def Answered.path : Answered → TreePath
  | located p | landed (.revealed p) => p
  | landed .ignored | landed .superseded | expanded => []

abbrev Ending := Except ResolveError Answered

inductive Progress where
  | ended (ending : Ending)
  | waiting (task : Task)

structure Engine where
  tree : Node
  index : AnchorIndex
  loader : Loader := {}
  view : View := {}

/-- The engine after it was given a turn, what it sent to the panes, and how far the request has come. -/
structure Turn where
  engine : Engine
  sent : List Command := []
  progress : Progress

namespace Engine

def fail (e : Engine) (err : ResolveError) : Turn := { engine := e, progress := .ended (.error err) }

/-- The path of a plan is known and its fragments are in the tree. -/
def land (e : Engine) (purpose : Purpose) (path : TreePath) : Turn :=
  match purpose with
  | .locate => { engine := e, progress := .ended (.ok (.located path)) }
  | .deepLink anchor ticket =>
    let (landing, view, sent) := e.view.completeDeepLink ticket anchor path
    { engine := { e with view }, sent, progress := .ended (.ok (.landed landing)) }
  | .inbound ticket =>
    let (landing, view, sent) := e.view.completeInbound ticket path
    { engine := { e with view }, sent, progress := .ended (.ok (.landed landing)) }

/-- Takes over how far a plan has come. -/
def advance (e : Engine) (purpose : Purpose) : Plan.Progress × Loader → Turn
  | (.waiting w, loader) => { engine := { e with loader }, progress := .waiting (.planning purpose w) }
  | (.failed err, loader) => { e with loader }.fail err
  | (.arrived path staged, loader) =>
    match Plan.commit e.tree staged with
    | .error err => { e with loader }.fail (.tree err)
    | .ok tree => { e with tree, loader }.land purpose path

/-- Begins to locate an anchor by the chain that the index gives for it. -/
def beginPlan (e : Engine) (purpose : Purpose) (anchor : PageRef) (found : Except UnknownAnchor Chain) :
    Turn :=
  match found with
  | .error err => e.fail (.unknownAnchor err)
  | .ok chain => e.advance purpose (Plan.walk e.tree anchor (chainBelow e.tree chain) {} e.loader)

/-- The children of the node, if it has any, are in the tree. A leaf is not expanded. -/
def openNode (e : Engine) (path : TreePath) : Turn :=
  match e.tree.find path with
  | .error err => e.fail (.tree err)
  | .ok n =>
    if n.isLeaf then { engine := e, progress := .ended (.ok .expanded) }
    else
      let (view, sent) := e.view.expand path
      { engine := { e with view }, sent, progress := .ended (.ok .expanded) }

def finishExpand (e : Engine) (path : TreePath) : Outcome → Turn
  | .error err => e.fail (.load err)
  | .ok fragment =>
    match Plan.commit e.tree [(path, fragment)] with
    | .error err => e.fail (.tree err)
    | .ok tree => { e with tree }.openNode path

def beginExpand (e : Engine) (path : TreePath) : Turn :=
  match e.tree.find path with
  | .error err => e.fail (.tree err)
  | .ok n =>
    match n.handle? with
    | none => e.openNode path
    | some h =>
      let (id, loader) := e.loader.join h
      match loader.poll h id none with
      | (none, loader) => { engine := { e with loader }, progress := .waiting (.expanding path h id) }
      | (some o, loader) => { e with loader }.finishExpand path o

/-- Begins a request; it ends at once or has to wait. -/
def begin (e : Engine) : Request → Turn
  | .plan anchor => e.beginPlan .locate anchor (e.index.resolve anchor)
  | .planPage anchor => e.beginPlan .locate anchor (e.index.resolvePage anchor)
  | .navigate anchor =>
    let (ticket, view) := e.view.begin
    { e with view }.beginPlan (.deepLink anchor ticket) anchor (e.index.resolve anchor)
  | .follow page =>
    if e.view.mode.isLinked then
      let (ticket, view) := e.view.begin
      { e with view }.beginPlan (.inbound ticket) page (e.index.resolvePage page)
    else { engine := e, progress := .ended (.ok (.landed .ignored)) }
  | .expand path => e.beginExpand path

/-- Runs a task again, given what the source answers to its fetch, if it answers by now. -/
def run (e : Engine) (t : Task) (answer : Option Answer) : Turn :=
  match e.loader.poll t.handle t.fetch answer with
  | (none, loader) => { engine := { e with loader }, progress := .waiting t }
  | (some o, loader) =>
    match t with
    | .planning purpose w => { e with loader }.advance purpose (Plan.resume e.tree w o loader)
    | .expanding path _ _ => { e with loader }.finishExpand path o

/-! ## Requests that never wait -/

def select (e : Engine) (path : TreePath) : Except TreeError (Engine × List Command) :=
  match e.tree.find path with
  | .error err => .error err
  | .ok n =>
    let (view, sent) := e.view.select path n.link
    .ok ({ e with view }, sent)

def collapse (e : Engine) (path : TreePath) : Bool × Engine :=
  let (was, view) := e.view.collapse path
  (was, { e with view })

def toggle (e : Engine) : Engine := { e with view := e.view.toggle }

/-! ## Running a task to its end -/

theorem remaining_of_advance {e : Engine} {purpose : Purpose} {p : Plan.Progress × Loader} {t : Task}
    {n : Nat} (hp : ∀ w l, p = (.waiting w, l) → w.rest.length < n)
    (h : (e.advance purpose p).progress = .waiting t) : t.remaining ≤ n := by
  obtain ⟨p, l⟩ := p
  cases p with
  | waiting w =>
    simp only [advance, Progress.waiting.injEq] at h
    subst h
    exact hp w l rfl
  | failed err => simp [advance, fail] at h
  | arrived path staged =>
    simp only [advance] at h
    split at h
    · simp [fail] at h
    · cases purpose <;> simp [land] at h

theorem remaining_of_run {e : Engine} {t t' : Task} {a : Answer}
    (h : (e.run t (some a)).progress = .waiting t') : t'.remaining < t.remaining := by
  unfold run at h
  split at h
  · rename_i l hl
    exact absurd hl (Loader.poll_answered_ne_none _ _ _ _ _)
  · cases t with
    | planning purpose w => exact Nat.lt_succ_of_le (remaining_of_advance (fun _ _ => Plan.rest_of_resume) h)
    | expanding path h' id =>
      rename_i o _ _
      cases o with
      | error err => simp [finishExpand, fail] at h
      | ok fragment =>
        simp only [finishExpand] at h
        split at h
        · simp [fail] at h
        · unfold openNode at h
          split at h
          · simp [fail] at h
          · split at h <;> simp at h

/-- Runs a task on answers of a source until it ends. -/
def settle {m : Type → Type} [Monad m] (fetch : Handle → m Answer) (e : Engine) (t : Task) :
    m (Engine × Ending) := do
  let a ← fetch t.handle
  match h : (e.run t (some a)).progress with
  | .ended ending => return ((e.run t (some a)).engine, ending)
  | .waiting t' =>
    have := remaining_of_run h
    settle fetch (e.run t (some a)).engine t'
termination_by t.remaining

/-- Carries out a request to its end. -/
def perform {m : Type → Type} [Monad m] (fetch : Handle → m Answer) (e : Engine) (r : Request) :
    m (Engine × Ending) :=
  let turn := e.begin r
  match turn.progress with
  | .ended ending => return (turn.engine, ending)
  | .waiting t => settle fetch turn.engine t

end Engine
end DocNav
