import DocNav.Anchor.Table
import DocNav.Files.Host
import DocNav.Json.Reader
import DocNav.Record
import DocNav.Script
/-!
# Navigation data

The data that an engine starts from: the root of the tree, the deep links that the generator lists, the
explicit anchor table and the labels of the toggle. It is written as one JSON value, or as a script that
assigns the tree to `NAVTREE`, the list to `NAVTREEINDEX` and the labels to `SYNCONMSG` and `SYNCOFFMSG`.
-/

namespace DocNav

structure NavData where
  root : Node
  bootstrap : List PageRef := []
  anchors : AnchorTable := {}
  whileLinked : Option String := none
  whileUnlinked : Option String := none
deriving DecidableEq, Repr

inductive DataError where
  | unreadable (path : FilePath) (fault : FileFault)
  /-- The text is no JSON, or not of the shape that is asked for. -/
  | malformed
  | missingVariable (name : String)
  | unsupportedFormat (path : FilePath)
  | emptyRoot
  | unlinked (record : Record.Unlinked)
  | anchor (e : AnchorError)
deriving DecidableEq, Repr

/-- What stands for the details of a malformed text. -/
def DataError.malformedWords : String := "not JSON of the shape expected"

def DataError.message : DataError → String
  | unreadable path fault => "Failed to read " ++ path.text ++ ": " ++ fault.message
  | malformed => "Invalid navigation data: " ++ malformedWords
  | missingVariable name => "Variable \x60" ++ name ++ "\x60 not found in navigation script"
  | unsupportedFormat path => "Unsupported navigation data format: " ++ path.text
  | emptyRoot => "Navigation tree is empty"
  | unlinked r => r.message
  | anchor e => e.message

/-! ## Parts -/

/-- Takes what a reader gives, where nothing means malformed text. -/
def orMalformed {α : Type} : Option α → Except DataError α
  | some a => .ok a
  | none => .error .malformed

/-- The children of a deferred node: an array of records. -/
def readFragment (s : List Char) : Except DataError (List Node) := do
  let rs ← orMalformed do
    match ← Json.read? s with
    | .array items => Record.listOfJson? (bracketLimit - 1) items
    | _ => none
  (Record.toNodes [] 0 rs).mapError .unlinked

def anchorsOfJson? (j : Json) : Option (List (PageRef × Chain)) := do
  let fields ← j.asFields?
  fields.mapM fun f => do
    let chain ← f.2.asTexts?
    return (⟨f.1⟩, chain.map PageRef.mk)

def readAnchors (s : List Char) : Except DataError AnchorTable := do
  let entries ← orMalformed ((Json.read? s).bind anchorsOfJson?)
  (AnchorTable.insertAll {} entries).mapError .anchor

namespace NavData

/-! ## The JSON form -/

/-- The fields of the data before the tree and the anchors are checked. -/
structure Fields where
  tree : Record
  index : List String
  anchors : List (PageRef × Chain)
  whileLinked : Option String
  whileUnlinked : Option String

def fieldNames : List String := ["tree", "index", "anchors", "sync_on_message", "sync_off_message"]

def fieldsOfJson? (j : Json) : Option Fields := do
  match ← j.asRecord? fieldNames with
  | [some tree, index, anchors, on, off] =>
    let tree ← Record.ofJson? (bracketLimit - 1) tree
    let index ← (index.map Json.asTexts?).getD (some [])
    let anchors ← (anchors.map anchorsOfJson?).getD (some [])
    let on ← (on.map Json.asOptionalText?).getD (some none)
    let off ← (off.map Json.asOptionalText?).getD (some none)
    return ⟨tree, index, anchors, on, off⟩
  | _ => none

def readJson (s : List Char) : Except DataError NavData := do
  let f ← orMalformed ((Json.read? s).bind fieldsOfJson?)
  let root ← (Record.toNode [] f.tree).mapError .unlinked
  let anchors ← (AnchorTable.insertAll {} f.anchors).mapError .anchor
  return { root, bootstrap := f.index.map PageRef.mk, anchors,
           whileLinked := f.whileLinked, whileUnlinked := f.whileUnlinked }

/-! ## The script form -/

/-- Reads a list of records, of which only the first is the root. -/
def readRoot (s : List Char) : Except DataError Node := do
  let rs ← orMalformed do
    match ← Json.read? s with
    | .array items => Record.listOfJson? (bracketLimit - 1) items
    | _ => none
  match rs with
  | [] => .error .emptyRoot
  | r :: _ => (Record.toNode [] r).mapError .unlinked

def readScript (s : List Char) : Except DataError NavData := do
  match Script.listLiteral? "NAVTREE".toList s with
  | none => .error (.missingVariable "NAVTREE")
  | some tree =>
    let root ← readRoot tree
    let index ←
      match Script.listLiteral? "NAVTREEINDEX".toList s with
      | none => pure []
      | some list => orMalformed ((Json.read? list).bind Json.asTexts?)
    return { root, bootstrap := index.map PageRef.mk,
             whileLinked := (Script.message? "SYNCONMSG".toList s).map String.ofList,
             whileUnlinked := (Script.message? "SYNCOFFMSG".toList s).map String.ofList }

/-! ## Files -/

inductive Format where
  | json
  | script
deriving DecidableEq, Repr

def Format.ofPath? (p : FilePath) : Option Format :=
  match p.extension? with
  | some "json" => some json
  | some "js" => some script
  | _ => none

def read (format : Format) (text : String) : Except DataError NavData :=
  match format with
  | .json => readJson text.toList
  | .script => readScript text.toList

/-- The data with the entries of a further table behind its own. -/
def withAnchors (d : NavData) (t : AnchorTable) : NavData := { d with anchors := d.anchors.append t }

variable {m : Type → Type} [Monad m]

/-- Reads a data file; its name says the format, which counts only once the file is read. -/
def load (host : Host m) (path : FilePath) : m (Except DataError NavData) := do
  match ← host.readText path with
  | .error fault => return .error (.unreadable path fault)
  | .ok text =>
    match Format.ofPath? path with
    | none => return .error (.unsupportedFormat path)
    | some format => return read format text

end NavData

/-- Reads a file that holds an anchor table. -/
def AnchorTable.load {m : Type → Type} [Monad m] (host : Host m) (path : FilePath) :
    m (Except DataError AnchorTable) := do
  match ← host.readText path with
  | .error fault => return .error (.unreadable path fault)
  | .ok text => return readAnchors text.toList

end DocNav
