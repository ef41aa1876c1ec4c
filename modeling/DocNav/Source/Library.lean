import DocNav.Source.Error
/-!
# Fragments held in memory

A `Library` answers with the fragments it holds, and says that it is unavailable for handles it is told to
fail on. A `SlowLibrary` gives the same answers, but lets a fetch wait for some polls first; it keeps a record
of the handles that were asked for.
-/

namespace DocNav

structure Library where
  fragments : List (Handle × List Node) := []
  failing : List Handle := []
deriving Repr, Inhabited

def Library.backend : String := "Mock"

def Library.answer (l : Library) (h : Handle) : Answer :=
  if h ∈ l.failing then
    .error { kind := .unavailable, advice := .persistent, handle := some h, backend := some backend }
  else
    match l.fragments.lookup h with
    | some fragment => .ok fragment
    | none => .error { kind := .notFound, handle := some h, backend := some backend }

/-- A fetch from a slow library: it begins with its first poll and waits for a number of further ones. -/
inductive SlowFetch where
  | unstarted (handle : Handle)
  | waiting (handle : Handle) (polls : Nat)
  | over
deriving DecidableEq, Repr

inductive PollResult where
  | pending
  | answered (answer : Answer)
  | overBefore

structure SlowLibrary where
  library : Library
  latency : Nat := 0
  calls : List Handle := []
  fetches : List SlowFetch := []

namespace SlowLibrary

def fetch (s : SlowLibrary) (h : Handle) : Nat × SlowLibrary :=
  (s.fetches.length, { s with fetches := s.fetches ++ [.unstarted h] })

/-- Lets fetch `n`, which has `polls` left, take a poll. -/
def wait (s : SlowLibrary) (n : Nat) (h : Handle) : Nat → PollResult × SlowLibrary
  | 0 => (.answered (s.library.answer h), { s with fetches := s.fetches.set n .over })
  | polls + 1 => (.pending, { s with fetches := s.fetches.set n (.waiting h polls) })

def poll (s : SlowLibrary) (n : Nat) : PollResult × SlowLibrary :=
  match s.fetches[n]? with
  | some (.unstarted h) => { s with calls := s.calls ++ [h] }.wait n h s.latency
  | some (.waiting h polls) => s.wait n h polls
  | some .over | none => (.overBefore, s)

def fetchCount (s : SlowLibrary) (h : Handle) : Nat := s.calls.countP (· = h)

/-- How many fetches have begun and are not over. -/
def inFlight (s : SlowLibrary) : Nat :=
  s.fetches.countP fun
    | .waiting _ _ => true
    | .unstarted _ | .over => false

end SlowLibrary
end DocNav
