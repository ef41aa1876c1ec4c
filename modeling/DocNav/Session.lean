import DocNav.Engine
import DocNav.NavData
import DocNav.Schedule
import DocNav.Source.Folder
import DocNav.Source.Library
import DocNav.Store
/-!
# Sessions

A session is an engine in use, with the data and settings it was made from and a store that remembers its
toggle. It can be restarted: a new engine takes over, made from the same data and settings and from what the
store remembers, while tasks that still wait go on with the engine they belong to, unseen.
-/

namespace DocNav

/-- A store of the toggle, kept in a value of `σ`. -/
structure ToggleStore (σ : Type) where
  get : σ → Option Bool
  set : Bool → σ → σ

namespace ToggleStore

/-- Remembers nothing. -/
def nowhere {σ : Type} : ToggleStore σ := ⟨fun _ => none, fun _ s => s⟩

/-- Remembers what was set last. -/
def memory : ToggleStore (Option Bool) := ⟨id, fun enabled _ => some enabled⟩

/-- Remembers in the state folder of a file tree. -/
def folder (workingDir dir : FilePath) : ToggleStore FileTree where
  get files := (StateFolder.get (FileTree.host workingDir []) dir files).1
  set enabled files := (StateFolder.set (FileTree.host workingDir []) dir enabled files).2

/-- A store kept in a part of a value. -/
def within {σ τ : Type} (store : ToggleStore σ) (part : τ → σ) (replace : σ → τ → τ) : ToggleStore τ where
  get t := store.get (part t)
  set enabled t := replace (store.set enabled (part t)) t

end ToggleStore

/-- A new engine for the data. The panes are linked as the store remembers or else as the settings say; the
labels are those of the settings, or else of the data, or else the usual ones. -/
def Engine.start (data : NavData) (settings : Settings) (remembered : Option Bool) : Engine where
  tree := data.root
  index := .build data.root data.anchors data.bootstrap
  view :=
    let usual : ToggleLabels := {}
    { mode := .ofEnabled (remembered.getD settings.enabled)
      labels :=
        { whileLinked := (settings.whileLinked <|> data.whileLinked).getD usual.whileLinked
          whileUnlinked := (settings.whileUnlinked <|> data.whileUnlinked).getD usual.whileUnlinked } }

structure Session (σ : Type) where
  data : NavData
  settings : Settings
  store : ToggleStore σ
  /-- What the store keeps. -/
  kept : σ
  engine : Engine
  /-- The engines before it, in the order of use. -/
  retired : List Engine := []
  /-- What the engine in use has sent to the panes. -/
  outbox : List Command := []
  /-- Every handle that any of the engines has fetched. -/
  calls : List Handle := []

/-- A task and the place of its engine among those of the session. -/
structure OwnedTask where
  owner : Nat
  task : Task

namespace Session

variable {σ : Type}

def start (data : NavData) (settings : Settings) (store : ToggleStore σ) (kept : σ) : Session σ :=
  { data, settings, store, kept, engine := .start data settings (store.get kept) }

/-- The engine in use comes after the retired ones. -/
def current (s : Session σ) : Nat := s.retired.length

def owner? (s : Session σ) (n : Nat) : Option Engine :=
  if n = s.current then some s.engine else s.retired[n]?

/-- Takes over an engine's turn. -/
def take (s : Session σ) (n : Nat) (before : Engine) (turn : Turn) : Session σ × (OwnedTask ⊕ Ending) :=
  let started := turn.engine.loader.fetches.drop before.loader.fetchCount
  let s := { s with calls := s.calls ++ started.map Fetch.handle }
  let s :=
    if n = s.current then { s with engine := turn.engine, outbox := s.outbox ++ turn.sent }
    else { s with retired := s.retired.set n turn.engine }
  match turn.progress with
  | .ended ending => (s, .inr ending)
  | .waiting task => (s, .inl ⟨n, task⟩)

def begin (s : Session σ) (r : Request) : Session σ × (OwnedTask ⊕ Ending) :=
  s.take s.current s.engine (s.engine.begin r)

def run (s : Session σ) (t : OwnedTask) (answer : Option Answer) : Session σ × (OwnedTask ⊕ Ending) :=
  match s.owner? t.owner with
  | none => (s, .inl t)
  | some e => s.take t.owner e (e.run t.task answer)

def machine : Machine (Session σ) OwnedTask Ending where
  run := run
  handle t := t.task.handle
  key t := ⟨t.owner, t.task.fetch⟩
  inFlight s t := (s.owner? t.owner).all fun e => (e.loader.outcome? t.task.fetch).isNone
  remaining t := t.task.remaining

def select (s : Session σ) (path : TreePath) : Except TreeError (Session σ) :=
  match s.engine.select path with
  | .error e => .error e
  | .ok (engine, sent) => .ok { s with engine, outbox := s.outbox ++ sent }

def collapse (s : Session σ) (path : TreePath) : Bool × Session σ :=
  let (was, engine) := s.engine.collapse path
  (was, { s with engine })

/-- Flips the mode and has the store remember it. -/
def toggle (s : Session σ) : Session σ :=
  let engine := s.engine.toggle
  { s with engine, kept := s.store.set engine.view.mode.isLinked s.kept }

def remembered (s : Session σ) : Option Bool := s.store.get s.kept

/-- The panes stop listening. -/
def close (s : Session σ) : Session σ :=
  { s with engine := { s.engine with view := { s.engine.view with listening := false } } }

def restart (s : Session σ) : Session σ :=
  { s with engine := .start s.data s.settings s.remembered, retired := s.retired ++ [s.engine] }

/-- The session with nothing in its outbox. -/
def emptied (s : Session σ) : Session σ := { s with outbox := [] }

end Session
end DocNav
