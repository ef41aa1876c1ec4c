import DocNav.Anchor.Index
import DocNav.Loader
import DocNav.Tree
/-!
# Locating an anchor in the tree

A plan follows the chain of an anchor down from the root: at each node it descends into the child that the
next link names, and where the node is deferred it first loads its fragment. It walks through loaded fragments
apart from the tree and stages them; only when the whole chain is found are they put into the tree, the outer
before the inner, each only where the tree still has the node deferred.
-/

namespace DocNav

inductive ResolveError where
  | unknownAnchor (e : UnknownAnchor)
  /-- No child of the node at the path links to an element of the anchor's chain. -/
  | unresolved (anchor ancestor : PageRef) (path : TreePath)
  | tree (e : TreeError)
  | load (e : LoadError)
deriving DecidableEq, Repr

def ResolveError.message : ResolveError → String
  | unknownAnchor e => e.message
  | unresolved anchor ancestor path =>
    "Cannot resolve " ++ anchor.text ++ ": no child linking to " ++ ancestor.text ++ " under " ++ path.text
  | tree e => e.message
  | load e => e.message

/-- Where among siblings a link leads: to the first that has this very link or, for a link with a fragment,
to the first that links to its page. -/
def childIndex? (siblings : List Node) (link : PageRef) : Option Nat :=
  match siblings.findIdx? (·.link = some link) with
  | some i => some i
  | none =>
    if link.fragment?.isSome then siblings.findIdx? (·.link = some link.withoutFragment) else none

/-- The links to follow below the root: a chain may begin with the root's own. -/
def chainBelow (root : Node) : Chain → Chain
  | [] => []
  | first :: rest => if root.link = some first then rest else first :: rest

namespace Plan

/-- How far a plan has come. -/
structure Spot where
  path : TreePath := []
  /-- The fragments loaded on the way, the outermost first, by the paths of their nodes. -/
  staged : List (TreePath × List Node) := []
  /-- The node reached, where it lies in a fragment and not in the tree. -/
  detached : Option Node := none

def Spot.node (s : Spot) (root : Node) : Except TreeError Node :=
  match s.detached with
  | some n => .ok n
  | none => root.find s.path

/-- A plan that waits for the fragment of the node it has reached. -/
structure Waiting where
  anchor : PageRef
  spot : Spot
  handle : Handle
  fetch : FetchId
  /-- The link to follow next, and those after it. -/
  link : PageRef
  rest : Chain

inductive Progress where
  | arrived (path : TreePath) (staged : List (TreePath × List Node))
  | failed (e : ResolveError)
  | waiting (w : Waiting)

/-- One level down along a link, among these children. Below a fragment the way stays apart from the tree. -/
def Spot.descend (s : Spot) (anchor link : PageRef) (children : List Node) (apart : Bool) :
    Except ResolveError Spot :=
  match childIndex? children link with
  | none => .error (.unresolved anchor link s.path)
  | some i => .ok { s with path := s.path ++ [i], detached := if apart then children[i]? else none }

/-- One level down into a fragment, which is staged. -/
def Spot.enter (s : Spot) (anchor link : PageRef) (fragment : List Node) : Except ResolveError Spot :=
  { s with staged := s.staged ++ [(s.path, fragment)] }.descend anchor link fragment true

/-- Follows the links until all are followed, one leads nowhere, or a fragment is not there yet. -/
def walk (root : Node) (anchor : PageRef) : Chain → Spot → Loader → Progress × Loader
  | [], s, l => (.arrived s.path s.staged, l)
  | link :: rest, s, l =>
    match s.node root with
    | .error e => (.failed (.tree e), l)
    | .ok n =>
      match n.handle? with
      | none =>
        match s.descend anchor link n.children s.detached.isSome with
        | .error e => (.failed e, l)
        | .ok s' => walk root anchor rest s' l
      | some h =>
        let (id, l) := l.join h
        match l.poll h id none with
        | (none, l) => (.waiting ⟨anchor, s, h, id, link, rest⟩, l)
        | (some (.error e), l) => (.failed (.load e), l)
        | (some (.ok fragment), l) =>
          match s.enter anchor link fragment with
          | .error e => (.failed e, l)
          | .ok s' => walk root anchor rest s' l

/-- Goes on with a plan that waited, once its fetch has an outcome. -/
def resume (root : Node) (w : Waiting) (o : Outcome) (l : Loader) : Progress × Loader :=
  match o with
  | .error e => (.failed (.load e), l)
  | .ok fragment =>
    match w.spot.enter w.anchor w.link fragment with
    | .error e => (.failed e, l)
    | .ok s => walk root w.anchor w.rest s l

theorem rest_of_walk {root : Node} {anchor : PageRef} {rest : Chain} {s : Spot} {l l' : Loader} {w : Waiting}
    (h : walk root anchor rest s l = (.waiting w, l')) : w.rest.length < rest.length := by
  induction rest generalizing s l with
  | nil => simp [walk] at h
  | cons link rest ih =>
    simp only [walk] at h
    split at h
    · simp at h
    · split at h
      · split at h
        · simp at h
        · exact Nat.lt_succ_of_lt (ih h)
      · split at h
        · simp only [Prod.mk.injEq, Progress.waiting.injEq] at h
          simp [← h.1]
        · simp at h
        · split at h
          · simp at h
          · exact Nat.lt_succ_of_lt (ih h)

theorem rest_of_resume {root : Node} {w w' : Waiting} {o : Outcome} {l l' : Loader}
    (h : resume root w o l = (.waiting w', l')) : w'.rest.length < w.rest.length := by
  unfold resume at h
  split at h
  · simp at h
  · split at h
    · simp at h
    · exact rest_of_walk h

/-- Puts staged fragments into the tree, where their nodes are still deferred. -/
def commit (root : Node) : List (TreePath × List Node) → Except TreeError Node
  | [] => .ok root
  | (p, fragment) :: rest =>
    match root.isDeferredAt p with
    | .error e => .error e
    | .ok false => commit root rest
    | .ok true =>
      match root.materialize p fragment with
      | .error e => .error e
      | .ok root' => commit root' rest

end Plan
end DocNav
