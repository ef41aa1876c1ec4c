import DocNav.PageRef
/-!
# Nodes of the navigation tree

A node has a label and, unless it only groups others, a link. It is a leaf, holds its children, or is
deferred: its children are a fragment that has not been loaded, known by its handle. A deferred node always
has a link.
-/

namespace DocNav

inductive Node where
  | leaf (label : String) (link : Option PageRef)
  | inline (label : String) (link : Option PageRef) (children : List Node)
  | deferred (label : String) (link : PageRef) (handle : Handle)
deriving Repr, Inhabited

namespace Node

def label : Node → String
  | leaf l _ | inline l _ _ | deferred l _ _ => l

def link : Node → Option PageRef
  | leaf _ k | inline _ k _ => k
  | deferred _ k _ => some k

def inlineChildren? : Node → Option (List Node)
  | inline _ _ cs => some cs
  | _ => none

/-- The children that can be walked into: none for a leaf and for a deferred node. -/
def children (n : Node) : List Node := n.inlineChildren?.getD []

def handle? : Node → Option Handle
  | deferred _ _ h => some h
  | _ => none

def isDeferred (n : Node) : Bool := n.handle?.isSome

def isLeaf : Node → Bool
  | leaf _ _ => true
  | _ => false

def child? (n : Node) (i : Nat) : Option Node := n.children[i]?

/-- The node with its fragment in place: a deferred node becomes an inline one, any other stays. -/
def fill (fragment : List Node) : Node → Node
  | deferred l k _ => inline l (some k) fragment
  | n => n

mutual
/-- How many nodes of the subtree, itself included, are deferred. -/
def deferredCount : Node → Nat
  | leaf _ _ => 0
  | inline _ _ cs => deferredCountAll cs
  | deferred _ _ _ => 1

def deferredCountAll : List Node → Nat
  | [] => 0
  | n :: ns => deferredCount n + deferredCountAll ns
end

/-! ## Equality is decidable -/

mutual
private def sameNode : (a b : Node) → Decidable (a = b)
  | leaf l k, leaf l' k' => decidable_of_iff (l = l' ∧ k = k') (by simp)
  | inline l k cs, inline l' k' cs' =>
    match sameNodes cs cs' with
    | isTrue h => decidable_of_iff (l = l' ∧ k = k') (by simp [h])
    | isFalse h => isFalse (by simp [h])
  | deferred l k h, deferred l' k' h' => decidable_of_iff (l = l' ∧ k = k' ∧ h = h') (by simp)
  | leaf _ _, inline _ _ _ => isFalse nofun
  | leaf _ _, deferred _ _ _ => isFalse nofun
  | inline _ _ _, leaf _ _ => isFalse nofun
  | inline _ _ _, deferred _ _ _ => isFalse nofun
  | deferred _ _ _, leaf _ _ => isFalse nofun
  | deferred _ _ _, inline _ _ _ => isFalse nofun

private def sameNodes : (as bs : List Node) → Decidable (as = bs)
  | [], [] => isTrue rfl
  | [], _ :: _ => isFalse nofun
  | _ :: _, [] => isFalse nofun
  | a :: as, b :: bs =>
    match sameNode a b with
    | isFalse h => isFalse (by simp [h])
    | isTrue h =>
      match sameNodes as bs with
      | isTrue hs => isTrue (by rw [h, hs])
      | isFalse hs => isFalse (by simp [hs])
end

instance : DecidableEq Node := sameNode

end Node
end DocNav
