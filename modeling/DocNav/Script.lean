import DocNav.Text.CharClass
/-!
# Literals in navigation scripts

Generators also write their data as a script of assignments, `var NAME = literal;`, in which lists are
written as JSON and messages in single or double quotes. An assignment is found where `var` does not continue
a word; blanks may stand around the name and the equals sign.

`Script.balanced` cuts the bracketed literal that a text starts with, `Script.listLiteral?` finds the one
assigned to a name, and `Script.message?` the quoted one.
-/

namespace DocNav.Script

open CharClass (isBlank isWord)

/-! ## Bracketed literals -/

/-- Where a scan stands: outside quotes, inside those opened by a mark, or behind a backslash inside them. -/
inductive Quoting where
  | outside
  | inside (mark : Char)
  | escaped (mark : Char)
deriving DecidableEq, Repr

/-- The state of a scan: how many brackets are open, square and curly counted alike. -/
structure ScanState where
  depth : Nat := 0
  quoting : Quoting := .outside
deriving DecidableEq, Repr

def ScanState.next (s : ScanState) (c : Char) : ScanState :=
  match s.quoting with
  | .escaped q => { s with quoting := .inside q }
  | .inside q =>
    if c = '\\' then { s with quoting := .escaped q }
    else if c = q then { s with quoting := .outside }
    else s
  | .outside =>
    if c = '"' ∨ c = '\x27' then { s with quoting := .inside c }
    else if c = '[' ∨ c = '\x7b' then { s with depth := s.depth + 1 }
    else if c = ']' ∨ c = '\x7d' then { s with depth := s.depth - 1 }
    else s

/-- The text up to the bracket that closes the last open one. -/
def closeFrom (s : ScanState) : List Char → Option (List Char)
  | [] => none
  | c :: rest =>
    if s.quoting = .outside ∧ s.depth = 1 ∧ (c = ']' ∨ c = '\x7d') then some [c]
    else (closeFrom (s.next c) rest).map (c :: ·)

/-- The bracketed literal at the front of a text. -/
def balanced : List Char → Option (List Char)
  | [] => none
  | c :: rest =>
    if c = '[' ∨ c = '\x7b' then (closeFrom { depth := 1 } rest).map (c :: ·) else none

/-! ## Quoted literals -/

/-- A message behind its opening quote: a backslash gives the character behind it, which may be any but a
line feed. -/
def readQuoted (mark : Char) : List Char → Option (List Char)
  | [] => none
  | '\\' :: c :: rest => if c = '\n' then none else (readQuoted mark rest).map (c :: ·)
  | c :: rest =>
    if c = mark then some []
    else if c = '\\' then none
    else (readQuoted mark rest).map (c :: ·)

def quoted? : List Char → Option (List Char)
  | '\x27' :: rest => readQuoted '\x27' rest
  | '"' :: rest => readQuoted '"' rest
  | _ => none

/-! ## Assignments -/

/-- What may follow the blanks at the front, of which one at least is passed over; most of them come first. -/
def behindBlanks : List Char → List (List Char)
  | [] => []
  | c :: rest => if isBlank c then behindBlanks rest ++ [rest] else []

/-- What follows `NAME =` at the front of a text, and the blanks behind it. -/
def behindName (name s : List Char) : Option (List Char) :=
  if name.isPrefixOf s then
    match (s.drop name.length).dropWhile isBlank with
    | '=' :: rest => some (rest.dropWhile isBlank)
    | _ => none
  else none

/-- What follows `var NAME =` at the front of a text; a name that starts with blanks may be read in several
ways. -/
def assignedAt (name : List Char) : List Char → List (List Char)
  | 'v' :: 'a' :: 'r' :: rest => (behindBlanks rest).filterMap (behindName name)
  | _ => []

/-- The first assignment to a name whose value is accepted. -/
def findAssigned {α : Type} (name : List Char) (accept : List Char → Option α) (inWord : Bool) :
    List Char → Option α
  | [] => none
  | c :: rest =>
    match if inWord then none else (assignedAt name (c :: rest)).findSome? accept with
    | some a => some a
    | none => findAssigned name accept (isWord c) rest

/-- The bracketed literal of the first assignment to a name. -/
def listLiteral? (name s : List Char) : Option (List Char) :=
  (findAssigned name some false s).bind balanced

/-- The message of the first assignment of a message to a name. -/
def message? (name s : List Char) : Option (List Char) := findAssigned name quoted? false s

end DocNav.Script
