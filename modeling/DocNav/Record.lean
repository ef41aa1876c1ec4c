import DocNav.Json.Value
import DocNav.Tree
/-!
# Records of the navigation data

Generators write a node as a record `[label, link, children]`: the link is text or `null`, and the children
are `null` for a leaf, an array of records, or the key of a fragment. The empty key asks for the handle that
the link gives. A record whose children are a key must have a link.
-/

namespace DocNav

inductive Record where
  | leaf (label : String) (link : Option String)
  | group (label : String) (link : Option String) (children : List Record)
  | keyed (label : String) (link : Option String) (key : String)
deriving Repr, Inhabited

/-- The most brackets that may be open at once in a text whose values are used. -/
def bracketLimit : Nat := 127

namespace Record

mutual
/-- The record that a value is, with `room` for so many open brackets. -/
def ofJson? (room : Nat) : Json → Option Record
  | .array [label, link, children] =>
    if room = 0 then none
    else
      match label.asText?, link.asOptionalText? with
      | some label, some link =>
        match children with
        | .null => some (.leaf label link)
        | .string (some key) => some (.keyed label link key)
        | .array items => if room = 1 then none else (listOfJson? (room - 2) items).map (.group label link)
        | _ => none
      | _, _ => none
  | _ => none

def listOfJson? (room : Nat) : List Json → Option (List Record)
  | [] => some []
  | j :: js =>
    match ofJson? room j, listOfJson? room js with
    | some r, some rs => some (r :: rs)
    | _, _ => none
end

/-- A record with a key and no link, by its label and the path of its node. -/
structure Unlinked where
  label : String
  path : TreePath
deriving DecidableEq, Repr

def Unlinked.message (u : Unlinked) : String :=
  "Deferred node '" ++ u.label ++ "' at " ++ u.path.text ++ " has no link"

mutual
/-- The node that a record describes, at this path. -/
def toNode (path : TreePath) : Record → Except Unlinked Node
  | leaf label link => .ok (.leaf label (link.map PageRef.mk))
  | group label link rs =>
    match toNodes path 0 rs with
    | .error e => .error e
    | .ok ns => .ok (.inline label (link.map PageRef.mk) ns)
  | keyed label none _ => .error ⟨label, path⟩
  | keyed label (some link) key =>
    .ok (.deferred label ⟨link⟩ (if key = "" then Handle.ofLink ⟨link⟩ else ⟨key⟩))

/-- The nodes of siblings below a path, where the first has this index. -/
def toNodes (path : TreePath) (index : Nat) : List Record → Except Unlinked (List Node)
  | [] => .ok []
  | r :: rs =>
    match toNode (path ++ [index]) r with
    | .error e => .error e
    | .ok n =>
      match toNodes path (index + 1) rs with
      | .error e => .error e
      | .ok ns => .ok (n :: ns)
end

end Record
end DocNav
