import DocNav.Engine
/-!
# The outline of a tree

The outline has a line for each node down to a level, indented by two blanks per level: its label, its link
in parentheses, and the handle of a fragment that is not loaded as `[+handle]`. Before it is printed, the
deferred nodes whose children it would show can be loaded, level by level: each round loads those that the
tree shows then, and a node whose fragment cannot be loaded is warned of and left as it is.
-/

namespace DocNav.Outline

/-- Whether the children of a node at this level belong to an outline of a depth. -/
def opens (depth : Option Nat) (level : Nat) : Bool := depth.all fun d => level < d

/-! ## Lines -/

def line (level : Nat) (n : Node) : String :=
  let link := n.link.elim "" fun k => " (" ++ k.text ++ ")"
  let handle := n.handle?.elim "" fun h => " [+" ++ h.key ++ "]"
  "".pushn ' ' (2 * level) ++ n.label ++ link ++ handle

mutual
def lines (depth : Option Nat) (level : Nat) : Node → List String
  | .leaf l k => [line level (.leaf l k)]
  | .deferred l k h => [line level (.deferred l k h)]
  | .inline l k cs =>
    line level (.inline l k cs) :: if opens depth level then linesAll depth (level + 1) cs else []

def linesAll (depth : Option Nat) (level : Nat) : List Node → List String
  | [] => []
  | n :: ns => lines depth level n ++ linesAll depth level ns
end

/-! ## Loading -/

mutual
/-- The deferred nodes whose children the outline would show, in document order. -/
def deferredPaths (depth : Option Nat) (path : TreePath) : Node → List TreePath
  | .leaf _ _ => []
  | .deferred _ _ _ => if opens depth path.length then [path] else []
  | .inline _ _ cs => if opens depth path.length then deferredPathsAll depth path 0 cs else []

def deferredPathsAll (depth : Option Nat) (path : TreePath) (index : Nat) : List Node → List TreePath
  | [] => []
  | n :: ns => deferredPaths depth (path ++ [index]) n ++ deferredPathsAll depth path (index + 1) ns
end

/-- The engine with what came of loading so far: the nodes that failed, and why, in the order of trying. -/
structure Loaded where
  engine : Engine
  failed : List (TreePath × ResolveError) := []

/-- The nodes that the next round tries. -/
def Loaded.pending (x : Loaded) (depth : Option Nat) : List TreePath :=
  (deferredPaths depth [] x.engine.tree).filter fun p => !(x.failed.any fun f => f.1 = p)

variable {m : Type → Type} [Monad m]

/-- Expands the nodes at the paths, one after the other. -/
def Loaded.expandAll (expand : Engine → TreePath → m (Engine × Ending)) (x : Loaded) : List TreePath → m Loaded
  | [] => return x
  | p :: ps => do
    match ← expand x.engine p with
    | (engine, .ok _) => expandAll expand { x with engine } ps
    | (engine, .error e) => expandAll expand { engine, failed := x.failed ++ [(p, e)] } ps

/-- Rounds of expanding, until nothing is left to try or all `rounds` are done. -/
def Loaded.expandRounds (expand : Engine → TreePath → m (Engine × Ending)) (depth : Option Nat) :
    (rounds : Nat) → Loaded → m Loaded
  | 0, x => return x
  | rounds + 1, x =>
    match x.pending depth with
    | [] => return x
    | ps => do expandRounds expand depth rounds (← x.expandAll expand ps)

def Loaded.tryAll (fetch : Handle → m Answer) (x : Loaded) (ps : List TreePath) : m Loaded :=
  x.expandAll (fun e p => e.perform fetch (.expand p)) ps

/-- Rounds of loading, from a source that gives the fragments. -/
def Loaded.load (fetch : Handle → m Answer) (depth : Option Nat) (rounds : Nat) (x : Loaded) : m Loaded :=
  expandRounds (fun e p => e.perform fetch (.expand p)) depth rounds x

end DocNav.Outline
