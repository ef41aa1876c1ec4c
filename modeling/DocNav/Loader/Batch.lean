import DocNav.Schedule
/-!
# Loading handles one after another

A batch is a task of a loader: it loads its handles in turn, whatever came of those before, and ends with the
outcome of each. `Loader.machine` runs batches; its state also records every handle that was fetched.
-/

namespace DocNav

structure Batch where
  /-- The handle whose fetch the batch waits for, and those still to load. -/
  handle : Handle
  fetch : FetchId
  rest : List Handle
  /-- What came of those before. -/
  outcomes : List Outcome

namespace Loader

/-- The loads of a batch, up to the first that has to wait. -/
def beginBatch (l : Loader) (outcomes : List Outcome) : List Handle → Loader × (Batch ⊕ List Outcome)
  | [] => (l, .inr outcomes)
  | h :: rest =>
    let (id, l) := l.join h
    match l.poll h id none with
    | (none, l) => (l, .inl ⟨h, id, rest, outcomes⟩)
    | (some o, l) => l.beginBatch (outcomes ++ [o]) rest

def runBatch (l : Loader) (b : Batch) (answer : Option Answer) : Loader × (Batch ⊕ List Outcome) :=
  match l.poll b.handle b.fetch answer with
  | (none, l) => (l, .inl b)
  | (some o, l) => l.beginBatch (b.outcomes ++ [o]) b.rest

/-- The handles fetched so far, in the order of starting. -/
def calls (l : Loader) : List Handle := l.fetches.map (·.handle)

def machine : Machine Loader Batch (List Outcome) where
  run := runBatch
  handle b := b.handle
  key b := ⟨0, b.fetch⟩
  inFlight l b := (l.outcome? b.fetch).isNone
  remaining b := b.rest.length + 1

end Loader
end DocNav
