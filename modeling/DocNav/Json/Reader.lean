import DocNav.Json.Value
import DocNav.Text.Digits
/-!
# Reading JSON

The grammar is that of RFC 8259, with nothing added: no comments, no trailing commas, no byte order mark.
Each function reads from the front of the text and gives what it read and the rest. `Json.read?` reads a whole
text. Nesting is bounded only by the length of the text.
-/

namespace DocNav.Json

def isBlank (c : Char) : Bool := c = ' ' || c = '\n' || c = '\t' || c = '\r'

def skipBlanks (s : List Char) : List Char := s.dropWhile isBlank

/-! ## Strings -/

def hexUnit? (a b c d : Char) : Option Nat := do
  let a ← Digits.value? a
  let b ← Digits.value? b
  let c ← Digits.value? c
  let d ← Digits.value? d
  return ((a * 16 + b) * 16 + c) * 16 + d

def simpleEscape? : Char → Option Char
  | '"' => some '"'
  | '\\' => some '\\'
  | '/' => some '/'
  | 'b' => some '\x08'
  | 'f' => some '\x0c'
  | 'n' => some '\n'
  | 'r' => some '\r'
  | 't' => some '\t'
  | _ => none

/-- A part of a string: a character, or half of a surrogate pair. -/
inductive StringPart where
  | char (c : Char)
  | half (unit : Nat)
deriving DecidableEq, Repr

def StringPart.ofUnit (unit : Nat) : StringPart :=
  if 0xd800 ≤ unit ∧ unit < 0xe000 then .half unit else .char (Char.ofNat unit)

/-- The parts of a string behind its opening quote, and the text behind the closing one. -/
def readParts : List Char → Option (List StringPart × List Char)
  | [] => none
  | '"' :: rest => some ([], rest)
  | '\\' :: 'u' :: a :: b :: c :: d :: rest =>
    match hexUnit? a b c d, readParts rest with
    | some unit, some (ps, r) => some (.ofUnit unit :: ps, r)
    | _, _ => none
  | '\\' :: c :: rest =>
    match simpleEscape? c, readParts rest with
    | some e, some (ps, r) => some (.char e :: ps, r)
    | _, _ => none
  | c :: rest =>
    if c = '\\' ∨ c.toNat < 0x20 then none
    else
      match readParts rest with
      | some (ps, r) => some (.char c :: ps, r)
      | none => none

/-- The text that the parts stand for: halves come in pairs, a high one before a low one. -/
def joinParts : List StringPart → Option (List Char)
  | [] => some []
  | .char c :: ps => (joinParts ps).map (c :: ·)
  | .half high :: .half low :: ps =>
    if high < 0xdc00 ∧ 0xdc00 ≤ low then
      (joinParts ps).map (Char.ofNat (0x10000 + (high - 0xd800) * 0x400 + (low - 0xdc00)) :: ·)
    else none
  | .half _ :: _ => none

/-- A string behind its opening quote. -/
def readString (s : List Char) : Option (Option String × List Char) :=
  (readParts s).map fun (ps, rest) => ((joinParts ps).map String.ofList, rest)

/-! ## Numbers -/

/-- One digit or more. -/
def readDigits (s : List Char) : Option (List Char × List Char) :=
  match s.takeWhile Char.isDigit with
  | [] => none
  | ds => some (ds, s.dropWhile Char.isDigit)

/-- The digits before the point, without needless zeros. -/
def readWhole : List Char → Option (List Char × List Char)
  | '0' :: rest => if (rest.head?).any Char.isDigit then none else some (['0'], rest)
  | s => readDigits s

/-- What follows a mark, if the mark is there. -/
def readMarked (marks : List Char) (body : List Char → Option (List Char × List Char)) :
    List Char → Option (List Char × List Char)
  | [] => some ([], [])
  | c :: rest =>
    if c ∈ marks then (body rest).map fun (ds, r) => (c :: ds, r) else some ([], c :: rest)

def readSigned (signs : List Char) (s : List Char) (body : List Char → Option (List Char × List Char)) :
    Option (List Char × List Char) :=
  match s with
  | c :: rest => if c ∈ signs then (body rest).map fun (ds, r) => (c :: ds, r) else body s
  | [] => body s

def readUnsigned (s : List Char) : Option (List Char × List Char) := do
  let (whole, s) ← readWhole s
  let (part, s) ← readMarked ['.'] readDigits s
  let (power, s) ← readMarked ['e', 'E'] (readSigned ['+', '-'] · readDigits) s
  return (whole ++ part ++ power, s)

def readNumber (s : List Char) : Option (List Char × List Char) := readSigned ['-'] s readUnsigned

/-! ## Values -/

/-- A word such as `null`, if the text starts with it. -/
def readWord (word : String) (v : Json) (s : List Char) : Option (Json × List Char) :=
  if word.toList.isPrefixOf s then some (v, s.drop word.length) else none

mutual
/-- A value, which may follow blanks. -/
def readValue : (fuel : Nat) → List Char → Option (Json × List Char)
  | 0, _ => none
  | fuel + 1, s =>
    match skipBlanks s with
    | '"' :: rest => (readString rest).map fun (t, r) => (.string t, r)
    | '[' :: rest =>
      match skipBlanks rest with
      | ']' :: r => some (.array [], r)
      | _ => (readItems fuel rest).map fun (js, r) => (.array js, r)
    | '\x7b' :: rest =>
      match skipBlanks rest with
      | '\x7d' :: r => some (.object [], r)
      | _ => (readFields fuel rest).map fun (fs, r) => (.object fs, r)
    | 'n' :: rest => readWord "null" .null ('n' :: rest)
    | 't' :: rest => readWord "true" (.bool true) ('t' :: rest)
    | 'f' :: rest => readWord "false" (.bool false) ('f' :: rest)
    | rest => (readNumber rest).map fun (ds, r) => (.number ds, r)

/-- The items of an array, of which there is one at least, up to its closing bracket. -/
def readItems : (fuel : Nat) → List Char → Option (List Json × List Char)
  | 0, _ => none
  | fuel + 1, s =>
    match readValue fuel s with
    | none => none
    | some (j, r) =>
      match skipBlanks r with
      | ',' :: r => (readItems fuel r).map fun (js, r) => (j :: js, r)
      | ']' :: r => some ([j], r)
      | _ => none

/-- The fields of an object, of which there is one at least, up to its closing bracket. -/
def readFields : (fuel : Nat) → List Char → Option (List (Option String × Json) × List Char)
  | 0, _ => none
  | fuel + 1, s =>
    match skipBlanks s with
    | '"' :: r =>
      match readString r with
      | none => none
      | some (name, r) =>
        match skipBlanks r with
        | ':' :: r =>
          match readValue fuel r with
          | none => none
          | some (j, r) =>
            match skipBlanks r with
            | ',' :: r => (readFields fuel r).map fun (fs, r) => ((name, j) :: fs, r)
            | '\x7d' :: r => some ([(name, j)], r)
            | _ => none
        | _ => none
    | _ => none
end

/-- Enough for any text: two steps lie between two characters at most. -/
def fuelFor (s : List Char) : Nat := 2 * s.length + 2

/-- A text that is one value and nothing else but blanks. -/
def read? (s : List Char) : Option Json :=
  match readValue (fuelFor s) s with
  | some (j, rest) => if (skipBlanks rest).isEmpty then some j else none
  | none => none

end DocNav.Json
