import DocNav.Tree
/-!
# The view of the tree pane

A `View` is what the tree pane shows: the selected node, the expanded nodes and whether the pane is linked to
the content pane. What the panes are to do is sent to them as commands, as long as someone listens.

Only a selection and a deep link make the content pane display a page; revealing a node never does, so the
panes cannot drive each other in a circle. Each navigation takes a ticket when it starts, and one that ends
after a newer has started changes nothing.
-/

namespace DocNav

inductive SyncMode where
  | linked
  | unlinked
deriving DecidableEq, Repr, Inhabited

namespace SyncMode

def ofEnabled (enabled : Bool) : SyncMode := if enabled then linked else unlinked

def isLinked (m : SyncMode) : Bool := m = linked

def toggled : SyncMode → SyncMode
  | linked => unlinked
  | unlinked => linked

def text : SyncMode → String
  | linked => "linked"
  | unlinked => "unlinked"

end SyncMode

/-- The labels of the toggle: what it does while the panes are linked, and while they are not. -/
structure ToggleLabels where
  whileLinked : String := "click to disable panel synchronisation"
  whileUnlinked : String := "click to enable panel synchronisation"
deriving DecidableEq, Repr, Inhabited

inductive Command where
  /-- The content pane shows a page. -/
  | display (page : PageRef)
  /-- The tree pane opens the way to a node, selects it and scrolls to it. -/
  | reveal (path : TreePath)
  /-- The tree pane shows the children of a node. -/
  | expand (path : TreePath)
deriving DecidableEq, Repr

/-- The number of a navigation; a later one has a greater number. -/
abbrev Ticket := Nat

/-- What became of a navigation whose node was found. -/
inductive Landing where
  | revealed (path : TreePath)
  | ignored
  | superseded
deriving DecidableEq, Repr

/-- Adds a path to a list of paths in lexicographic order. -/
def insertPath (p : TreePath) : List TreePath → List TreePath
  | [] => [p]
  | q :: qs => if p = q then q :: qs else if p < q then p :: q :: qs else q :: insertPath p qs

/-- The proper prefixes of a path, the shortest first. -/
def TreePath.above (p : TreePath) : List TreePath :=
  (List.range p.length).map fun n => p.take n

structure View where
  mode : SyncMode := .linked
  labels : ToggleLabels := {}
  selection : Option TreePath := none
  /-- In lexicographic order. -/
  expanded : List TreePath := []
  /-- The ticket of the navigation that started last. -/
  latest : Ticket := 0
  /-- Whether anyone receives commands. -/
  listening : Bool := true
deriving DecidableEq, Repr, Inhabited

namespace View

def toggleLabel (v : View) : String :=
  match v.mode with
  | .linked => v.labels.whileLinked
  | .unlinked => v.labels.whileUnlinked

def toggle (v : View) : View := { v with mode := v.mode.toggled }

def isExpanded (v : View) (p : TreePath) : Bool := p ∈ v.expanded

/-- What reaches the panes when a command is sent. -/
def send (v : View) (c : Command) : List Command := if v.listening then [c] else []

def begin (v : View) : Ticket × View := (v.latest + 1, { v with latest := v.latest + 1 })

def isCurrent (v : View) (t : Ticket) : Bool := t = v.latest

/-- The user selects a node, which is a navigation of its own. -/
def select (v : View) (p : TreePath) (link : Option PageRef) : View × List Command :=
  let v := { v.begin.2 with selection := some p }
  (v, link.elim [] fun k => v.send (.display k))

def reveal (v : View) (p : TreePath) : View × List Command :=
  ({ v with expanded := p.above.foldl (fun e q => insertPath q e) v.expanded, selection := some p },
    v.send (.reveal p))

def expand (v : View) (p : TreePath) : View × List Command :=
  ({ v with expanded := insertPath p v.expanded }, v.send (.expand p))

def collapse (v : View) (p : TreePath) : Bool × View :=
  (v.isExpanded p, { v with expanded := v.expanded.filter (· ≠ p) })

/-- The node of a page that the content pane went to is found. -/
def completeInbound (v : View) (t : Ticket) (p : TreePath) : Landing × View × List Command :=
  if !v.isCurrent t then (.superseded, v, [])
  else if !v.mode.isLinked then (.ignored, v, [])
  else (.revealed p, v.reveal p)

/-- The node of a deep link is found. It is revealed in either mode, and displayed while linked. -/
def completeDeepLink (v : View) (t : Ticket) (anchor : PageRef) (p : TreePath) :
    Landing × View × List Command :=
  if !v.isCurrent t then (.superseded, v, [])
  else
    let (v, sent) := v.reveal p
    (.revealed p, v, if v.mode.isLinked then sent ++ v.send (.display anchor) else sent)

end View
end DocNav
