import DocNav.Anchor.Table
import DocNav.Node
/-!
# The anchor index

The index gives each known anchor its chain. Entries come from the explicit table and from the part of the
tree that is inline at the start. An anchor's first entry counts: the table comes before the tree, and the
tree is read in document order. A child without a link ends its branch, and so does a child that repeats
the link of an earlier sibling, since a chain through that link leads to the first of them.
-/

namespace DocNav

structure UnknownAnchor where
  anchor : PageRef
deriving DecidableEq, Repr

def UnknownAnchor.message (e : UnknownAnchor) : String :=
  "Cannot locate page in navigation: " ++ e.anchor.text

mutual
/-- The entries below a node, where `above` is the chain that leads to it. -/
def derivedBelow (above : Chain) : Node → List (PageRef × Chain)
  | .inline _ _ cs => derivedAmong above [] cs
  | .leaf _ _ | .deferred _ _ _ => []

/-- The entries of siblings and below them, where `seen` are the links of earlier ones. -/
def derivedAmong (above : Chain) (seen : List PageRef) : List Node → List (PageRef × Chain)
  | [] => []
  | n :: ns =>
    match n.link with
    | none => derivedAmong above seen ns
    | some k =>
      if k ∈ seen then derivedAmong above seen ns
      else (k, above ++ [k]) :: derivedBelow (above ++ [k]) n ++ derivedAmong above (k :: seen) ns
end

/-- The entries that the tree yields; the root's own link comes first. -/
def derivedEntries (root : Node) : List (PageRef × Chain) :=
  match root.link with
  | none => derivedBelow [] root
  | some k => (k, [k]) :: derivedBelow [k] root

/-- The first entry of each anchor. -/
def firstEntries : List (PageRef × Chain) → List (PageRef × Chain)
  | [] => []
  | e :: es => e :: (firstEntries es).filter fun f => f.1 ≠ e.1

structure AnchorIndex where
  entries : List (PageRef × Chain) := []
  /-- The deep links the data lists, in its order. -/
  bootstrap : List PageRef := []
deriving Repr, Inhabited

namespace AnchorIndex

def build (root : Node) (table : AnchorTable) (bootstrap : List PageRef) : AnchorIndex where
  entries := firstEntries (table.entries ++ derivedEntries root)
  bootstrap := bootstrap

def ofTree (root : Node) : AnchorIndex := build root {} []

def find? (ix : AnchorIndex) (anchor : PageRef) : Option Chain := ix.entries.lookup anchor

def contains (ix : AnchorIndex) (anchor : PageRef) : Bool := (ix.find? anchor).isSome

def size (ix : AnchorIndex) : Nat := ix.entries.length

def anchors (ix : AnchorIndex) : List PageRef := ix.entries.map (·.1)

def resolve (ix : AnchorIndex) (anchor : PageRef) : Except UnknownAnchor Chain :=
  match ix.find? anchor with
  | some chain => .ok chain
  | none => .error ⟨anchor⟩

/-- The entry of the anchor, or of its page where only the page is indexed. -/
def resolvePage (ix : AnchorIndex) (anchor : PageRef) : Except UnknownAnchor Chain :=
  match ix.find? anchor with
  | some chain => .ok chain
  | none =>
    match anchor.fragment?, ix.find? anchor.withoutFragment with
    | some _, some chain => .ok chain
    | _, _ => .error ⟨anchor⟩

/-- The first and the last of the bootstrap list. -/
def smokeAnchors? (ix : AnchorIndex) : Option (PageRef × PageRef) :=
  match ix.bootstrap.head?, ix.bootstrap.getLast? with
  | some first, some last => some (first, last)
  | _, _ => none

end AnchorIndex
end DocNav
