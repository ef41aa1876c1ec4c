import DocNav.Node
/-!
# Trees and index paths

A tree is its root node. A node of it is addressed by the indexes that lead to it from the root: `[]` is the
root and `[2, 0]` the first child of the root's third child. Loading a fragment puts children below a node
that had none, so every path that was valid before stays valid.
-/

namespace DocNav

abbrev TreePath := List Nat

/-- The path as it is printed: `[2, 0, 1]`. -/
def TreePath.text (p : TreePath) : String :=
  "[" ++ String.intercalate ", " (p.map fun i => toString i) ++ "]"

/-- Why a path cannot be used; it is always the path that was asked for. -/
inductive TreeError where
  | missing (path : TreePath)
  | notDeferred (path : TreePath)
deriving DecidableEq, Repr

def TreeError.message : TreeError → String
  | missing p => "No node at path " ++ p.text
  | notDeferred p => "Node at path " ++ p.text ++ " is not deferred"

namespace Node

/-- The node that the path leads to, if there is one. -/
def at? (n : Node) : TreePath → Option Node
  | [] => some n
  | i :: p =>
    match n.child? i with
    | none => none
    | some c => c.at? p

def find (n : Node) (p : TreePath) : Except TreeError Node :=
  match n.at? p with
  | none => .error (.missing p)
  | some c => .ok c

/-- The tree with the node at the path changed; the same tree if there is none. -/
def modifyAt (f : Node → Node) : TreePath → Node → Node
  | [], n => f n
  | i :: p, inline l k cs => inline l k (cs.modify i (modifyAt f p))
  | _ :: _, n => n

def isDeferredAt (n : Node) (p : TreePath) : Except TreeError Bool :=
  (n.find p).map isDeferred

/-- Puts a fragment in place at the path of a deferred node. -/
def materialize (n : Node) (p : TreePath) (fragment : List Node) : Except TreeError Node :=
  match n.at? p with
  | none => .error (.missing p)
  | some c => if c.isDeferred then .ok (n.modifyAt (fill fragment) p) else .error (.notDeferred p)

/-- The labels on the way from a node down the path, without its own. A missing node is reported by the
shortest part of the path that has none. -/
def labelsBelow (n : Node) (above : TreePath) : TreePath → Except TreeError (List String)
  | [] => .ok []
  | i :: p =>
    match n.child? i with
    | none => .error (.missing (above ++ [i]))
    | some c => (c.labelsBelow (above ++ [i]) p).map (c.label :: ·)

/-- The labels from the root down to the node at the path, both included. -/
def labels (n : Node) (p : TreePath) : Except TreeError (List String) :=
  (n.labelsBelow [] p).map (n.label :: ·)

end Node
end DocNav
