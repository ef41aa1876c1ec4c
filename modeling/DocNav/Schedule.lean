import DocNav.Loader
/-!
# Running tasks against a source behind a gate

A `Machine` is anything whose tasks wait for fetches: it says how a task is run, given what the source
answers, if it answers by now. A `Bench` keeps a machine's state and its waiting tasks, numbered in the order
in which they first waited, and runs them against a source of which some handles are gated.

A task that is run goes on as long as the source answers. A fetch of a gated handle gets no answer until a
release names the handle, and then only if it was in flight at that moment. A release runs every waiting task
once, in the order of their numbers.
-/

namespace DocNav

/-- A fetch among those of several loaders. -/
structure FetchKey where
  loader : Nat
  fetch : FetchId
deriving DecidableEq, Repr

structure Machine (S T R : Type) where
  run : S → T → Option Answer → S × (T ⊕ R)
  handle : T → Handle
  key : T → FetchKey
  /-- Whether the fetch of a task has no outcome yet. -/
  inFlight : S → T → Bool
  /-- How many more fetches a task may have to wait for. -/
  remaining : T → Nat

structure Bench (S T R : Type) where
  state : S
  /-- By number, in ascending order. -/
  waiting : List (Nat × T) := []
  /-- How many tasks have waited so far. -/
  numbered : Nat := 0

inductive Performed (R : Type) where
  | ended (result : R)
  | pending (number : Nat)

namespace Machine

variable {S T R : Type}

/-- Runs a task as long as its fetches have outcomes or get answers, `turns` times at most. -/
def settle (m : Machine S T R) (answer : S → T → Option Answer) : (turns : Nat) → S → T → S × (T ⊕ R)
  | 0, s, t => (s, .inl t)
  | turns + 1, s, t =>
    let a := answer s t
    if m.inFlight s t && a.isNone then (s, .inl t)
    else
      match m.run s t a with
      | (s, .inr r) => (s, .inr r)
      | (s, .inl t) => m.settle answer turns s t

/-- What the source answers to a task: nothing to a gated fetch that has not been let through. -/
def gate (m : Machine S T R) (source : S → Handle → Answer) (gated : List Handle) (through : List FetchKey)
    (s : S) (t : T) : Option Answer :=
  if m.handle t ∈ gated ∧ m.key t ∉ through then none else some (source s (m.handle t))

end Machine

namespace Bench

variable {S T R : Type}

/-- Goes on with what a request led to when it was begun, until it ends or waits. -/
def perform (b : Bench S T R) (m : Machine S T R) (source : S → Handle → Answer) (gated : List Handle)
    (begun : S × (T ⊕ R)) : Bench S T R × Performed R :=
  match begun with
  | (s, .inr r) => ({ b with state := s }, .ended r)
  | (s, .inl t) =>
    match m.settle (m.gate source gated []) (m.remaining t) s t with
    | (s, .inr r) => ({ b with state := s }, .ended r)
    | (s, .inl t) =>
      ({ state := s, waiting := b.waiting ++ [(b.numbered, t)], numbered := b.numbered + 1 },
        .pending b.numbered)

/-- Runs each of the tasks once; gives those that wait again and the results of those that end. -/
def runAll (m : Machine S T R) (answer : S → T → Option Answer) (s : S) :
    List (Nat × T) → S × List (Nat × T) × List (Nat × R)
  | [] => (s, [], [])
  | (n, t) :: rest =>
    match m.settle answer (m.remaining t) s t with
    | (s, .inr r) =>
      let (s, waiting, ended) := runAll m answer s rest
      (s, waiting, (n, r) :: ended)
    | (s, .inl t) =>
      let (s, waiting, ended) := runAll m answer s rest
      (s, (n, t) :: waiting, ended)

/-- Lets through the fetches of these handles that are in flight, and runs the waiting tasks. -/
def release (b : Bench S T R) (m : Machine S T R) (source : S → Handle → Answer)
    (gated handles : List Handle) : Bench S T R × List (Nat × R) :=
  let through := (b.waiting.filter fun w => m.inFlight b.state w.2 && handles.contains (m.handle w.2)).map
    fun w => m.key w.2
  let (s, waiting, ended) := runAll m (m.gate source gated through) b.state b.waiting
  ({ b with state := s, waiting := waiting }, ended)

end Bench
end DocNav
