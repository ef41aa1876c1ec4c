import DocNav.Source.Error
/-!
# Loading fragments once

A `Loader` shares fetches. Whoever asks for a handle joins the fetch that is cached for it, in flight or done,
or starts one where none is. A fetch ends when one of its waiters is run and the source has an answer by
then; the other waiters get the same outcome when they are run. A waiter that gets a failure clears the cache
of that very fetch, so that the next one to ask starts anew, and leaves a newer fetch of the handle alone.
-/

namespace DocNav

structure LoadError where
  handle : Handle
  kind : SourceErrorKind
  advice : RetryAdvice
  /-- What the source said. -/
  words : String
deriving DecidableEq, Repr

def LoadError.message (e : LoadError) : String :=
  "Failed to load subtree " ++ e.handle.key ++ ": " ++ e.words

abbrev Outcome := Except LoadError (List Node)

def Outcome.ofAnswer (h : Handle) : Answer → Outcome
  | .ok fragment => .ok fragment
  | .error e => .error ⟨h, e.kind, e.advice, e.message⟩

/-- A fetch by its place in the order of starting. -/
abbrev FetchId := Nat

structure Fetch where
  handle : Handle
  /-- Nothing while in flight. -/
  outcome? : Option Outcome := none

structure Loader where
  /-- Every fetch so far, in the order of starting. -/
  fetches : List Fetch := []
  /-- The fetch that asking for a handle joins. -/
  cache : List (Handle × FetchId) := []

namespace Loader

def fetchCount (l : Loader) : Nat := l.fetches.length

def isCached (l : Loader) (h : Handle) : Bool := (l.cache.lookup h).isSome

def cachedCount (l : Loader) : Nat := l.cache.length

def outcome? (l : Loader) (id : FetchId) : Option Outcome :=
  l.fetches[id]?.bind (·.outcome?)

/-- Joins the cached fetch of a handle, or starts one. -/
def join (l : Loader) (h : Handle) : FetchId × Loader :=
  match l.cache.lookup h with
  | some id => (id, l)
  | none =>
    let id := l.fetches.length
    (id, { fetches := l.fetches ++ [{ handle := h }], cache := (h, id) :: l.cache })

/-- Sets the outcome of a fetch in flight. -/
def finish (l : Loader) (id : FetchId) (o : Outcome) : Loader :=
  { l with fetches := l.fetches.modify id fun f => { f with outcome? := f.outcome? <|> some o } }

/-- Clears the cache of a handle, if it still holds this fetch. -/
def evict (l : Loader) (h : Handle) (id : FetchId) : Loader :=
  if l.cache.lookup h = some id then { l with cache := l.cache.filter (·.1 ≠ h) } else l

/-- Hands an outcome to a waiter. -/
def deliver (l : Loader) (h : Handle) (id : FetchId) (o : Outcome) : Outcome × Loader :=
  match o with
  | .ok fragment => (.ok fragment, l)
  | .error e => (.error e, l.evict h id)

/-- Runs a waiter of fetch `id`, given what the source answers, if it answers by now. The waiter goes on
waiting only if the fetch stays in flight. -/
def poll (l : Loader) (h : Handle) (id : FetchId) (answer : Option Answer) : Option Outcome × Loader :=
  match l.outcome? id, answer with
  | some o, _ => let (o, l) := l.deliver h id o; (some o, l)
  | none, none => (none, l)
  | none, some a =>
    let o := Outcome.ofAnswer h a
    let (o, l) := (l.finish id o).deliver h id o
    (some o, l)

theorem poll_answered_ne_none (l : Loader) (h : Handle) (id : FetchId) (a : Answer) (l' : Loader) :
    l.poll h id (some a) ≠ (none, l') := by
  unfold poll
  split <;> simp_all

end Loader
end DocNav
