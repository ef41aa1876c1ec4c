import DocNav.PageRef
/-!
# The explicit anchor table

The data may list, for an anchor, the chain of links that leads to it from the root. A chain is never empty
and ends with its anchor; anything else is refused. Entries stay in the order of insertion, repeats included.
-/

namespace DocNav

/-- The links from the root down to an anchor, which is the last of them. -/
abbrev Chain := List PageRef

inductive AnchorError where
  | emptyChain (anchor : PageRef)
  | endsElsewhere (anchor last : PageRef)
deriving DecidableEq, Repr

def AnchorError.message : AnchorError → String
  | emptyChain a => "Anchor entry for " ++ a.text ++ " is empty"
  | endsElsewhere a l => "Anchor entry for " ++ a.text ++ " ends with " ++ l.text

structure AnchorTable where
  entries : List (PageRef × Chain) := []
deriving DecidableEq, Repr, Inhabited

namespace AnchorTable

def insert (t : AnchorTable) (anchor : PageRef) (chain : Chain) : Except AnchorError AnchorTable :=
  match chain.getLast? with
  | none => .error (.emptyChain anchor)
  | some last =>
    if last = anchor then .ok ⟨t.entries ++ [(anchor, chain)]⟩ else .error (.endsElsewhere anchor last)

/-- The table with the entries inserted in turn, up to the first that is refused. -/
def insertAll (t : AnchorTable) : List (PageRef × Chain) → Except AnchorError AnchorTable
  | [] => .ok t
  | (a, c) :: rest =>
    match t.insert a c with
    | .error e => .error e
    | .ok t' => t'.insertAll rest

/-- The table followed by the entries of another. -/
def append (t u : AnchorTable) : AnchorTable := ⟨t.entries ++ u.entries⟩

end AnchorTable
end DocNav
