import DocNav.Toml.Moment
import DocNav.Toml.Value
/-!
# Reading TOML

The grammar is that of TOML 1.1, where tables in braces may run over lines and numbers are not yet worked out
(see `Numeral`). Each function reads from the front of the text and gives what it read and the rest. Two
limits come on top: at most 80 brackets are open at once, and a dotted key has at most 80 parts. `Toml.read?`
reads a whole document.
-/

namespace DocNav.Toml

abbrev Text := List Char

/-! ## Blanks, comments and line ends -/

def isSpace (c : Char) : Bool := c = ' ' || c = '\t'

def skipSpaces (s : Text) : Text := s.dropWhile isSpace

/-- Control characters other than the tab, which no comment and no string holds as they are. -/
def isControl (c : Char) : Bool := (c.toNat < 0x20 && c ≠ '\t') || c = '\x7f'

/-- A line end, if the text starts with one. -/
def lineEnd? : Text → Option Text
  | '\n' :: rest => some rest
  | '\r' :: '\n' :: rest => some rest
  | _ => none

/-- The text behind a comment, if there is one. -/
def skipComment : Text → Text
  | '#' :: rest => rest.dropWhile fun c => !isControl c
  | s => s

theorem length_of_lineEnd {s rest : Text} (h : lineEnd? s = some rest) : rest.length < s.length := by
  unfold lineEnd? at h
  split at h
  · cases h
    exact Nat.lt_succ_self _
  · cases h
    exact Nat.lt_add_of_pos_right Nat.two_pos
  · cases h

/-- The text behind the blanks and the comment that it starts with. -/
def skipRemark (s : Text) : Text := skipComment (skipSpaces s)

theorem length_skipRemark (s : Text) : (skipRemark s).length ≤ s.length := by
  have spaces : (skipSpaces s).length ≤ s.length := (List.dropWhile_sublist isSpace).length_le
  unfold skipRemark skipComment
  split
  · rename_i rest h
    have := (List.dropWhile_sublist (fun c => !isControl c) (l := rest)).length_le
    rw [h, List.length_cons] at spaces
    omega
  · exact spaces

/-- Passes over blanks, comments and line ends. -/
def skipLines (s : Text) : Text :=
  match h : lineEnd? (skipRemark s) with
  | some rest =>
    have := Nat.lt_of_lt_of_le (length_of_lineEnd h) (length_skipRemark s)
    skipLines rest
  | none => skipRemark s
termination_by s.length

/-! ## Strings -/

def charOf? (code : Nat) : Option Char :=
  if h : code.isValidChar then some (Char.ofNatAux code h) else none

/-- The character of so many hexadecimal digits. -/
def readHex (count : Nat) (s : Text) : Option (Char × Text) :=
  let ds := s.take count
  if ds.length < count then none
  else do
    let vs ← ds.mapM Digits.value?
    let c ← charOf? (vs.foldl (fun n d => n * 16 + d) 0)
    return (c, s.drop count)

/-- An escape behind its backslash. -/
def readEscape : Text → Option (Char × Text)
  | 'b' :: r => some ('\x08', r)
  | 't' :: r => some ('\t', r)
  | 'n' :: r => some ('\n', r)
  | 'f' :: r => some ('\x0c', r)
  | 'r' :: r => some ('\r', r)
  | 'e' :: r => some ('\x1b', r)
  | '"' :: r => some ('"', r)
  | '\\' :: r => some ('\\', r)
  | 'x' :: r => readHex 2 r
  | 'u' :: r => readHex 4 r
  | 'U' :: r => readHex 8 r
  | _ => none

/-- A string of one line behind its opening mark; only one in double quotes has escapes. -/
def readLineString (mark : Char) : (fuel : Nat) → Text → Option (Text × Text)
  | 0, _ => none
  | _, [] => none
  | fuel + 1, c :: rest =>
    if c = mark then some ([], rest)
    else if isControl c then none
    else if c = '\\' ∧ mark = '"' then
      match readEscape rest with
      | none => none
      | some (e, r) => (readLineString mark fuel r).map fun (cs, r) => (e :: cs, r)
    else (readLineString mark fuel rest).map fun (cs, r) => (c :: cs, r)

def skipBlankLines : Text → Text
  | ' ' :: rest | '\t' :: rest | '\n' :: rest => skipBlankLines rest
  | '\r' :: '\n' :: rest => skipBlankLines rest
  | s => s

/-- The text behind a backslash that ends its line: the blanks and line ends that follow count for nothing. -/
def foldedLine? (s : Text) : Option Text := (lineEnd? (skipSpaces s)).map skipBlankLines

/-- A string of many lines behind its opening marks. It ends with three marks, before which up to two more
belong to it. -/
def readBlockString (mark : Char) : (fuel : Nat) → Text → Option (Text × Text)
  | 0, _ => none
  | _, [] => none
  | fuel + 1, c :: rest =>
    if c = mark then
      let marks := 1 + (rest.takeWhile (· = mark)).length
      let behind := rest.dropWhile (· = mark)
      if 3 ≤ marks then
        if marks ≤ 5 then some (List.replicate (marks - 3) mark, behind) else none
      else (readBlockString mark fuel behind).map fun (cs, r) => (List.replicate marks mark ++ cs, r)
    else if c = '\\' ∧ mark = '"' then
      match foldedLine? rest with
      | some r => readBlockString mark fuel r
      | none =>
        match readEscape rest with
        | none => none
        | some (e, r) => (readBlockString mark fuel r).map fun (cs, r) => (e :: cs, r)
    else
      match lineEnd? (c :: rest) with
      | some r =>
        (readBlockString mark fuel r).map fun (cs, r') =>
          ((c :: rest).take (rest.length + 1 - r.length) ++ cs, r')
      | none =>
        if isControl c then none
        else (readBlockString mark fuel rest).map fun (cs, r) => (c :: cs, r)

def dropLineEnd (s : Text) : Text := (lineEnd? s).getD s

/-- A string, whichever of the four forms the text starts with. -/
def readString : Text → Option (Text × Text)
  | '"' :: '"' :: '"' :: rest => readBlockString '"' (rest.length + 1) (dropLineEnd rest)
  | '\x27' :: '\x27' :: '\x27' :: rest => readBlockString '\x27' (rest.length + 1) (dropLineEnd rest)
  | '"' :: rest => readLineString '"' (rest.length + 1) rest
  | '\x27' :: rest => readLineString '\x27' (rest.length + 1) rest
  | _ => none

/-! ## Keys -/

def isBareKey (c : Char) : Bool := c.isAlphanum || c = '-' || c = '_'

def readKey : Text → Option (String × Text)
  | '"' :: rest => (readLineString '"' (rest.length + 1) rest).map fun (cs, r) => (String.ofList cs, r)
  | '\x27' :: rest => (readLineString '\x27' (rest.length + 1) rest).map fun (cs, r) => (String.ofList cs, r)
  | s =>
    match s.takeWhile isBareKey with
    | [] => none
    | cs => some (String.ofList cs, s.dropWhile isBareKey)

/-- The most parts of a dotted key. -/
def keyLimit : Nat := 80

/-- Keys with dots between them, and the blanks around, in `room` for so many. -/
def readKeysIn : (room : Nat) → Text → Option (List String × Text)
  | 0, _ => none
  | room + 1, s => do
    let (key, s) ← readKey (skipSpaces s)
    match skipSpaces s with
    | '.' :: rest => do
      let (keys, s) ← readKeysIn room rest
      return (key :: keys, s)
    | s => return ([key], s)

def readKeys (s : Text) : Option (List String × Text) := readKeysIn keyLimit s

/-! ## Values -/

/-- The characters that end a word. Quotes are not among them. -/
def endsWord (c : Char) : Bool :=
  isSpace c || c = '\n' || c = '\r' || c = '[' || c = ']' || c = '\x7b' || c = '\x7d' || c = ',' || c = '=' ||
    c = '#'

/-- Whether a word follows the blanks at the front. A quote there begins a string. -/
def wordFollows (s : Text) : Bool :=
  match skipSpaces s with
  | [] => false
  | c :: _ => !endsWord c && c ≠ '"' && c ≠ '\x27'

/-- A word, and those that follow it with nothing but blanks between. -/
def readWords : Text → Text × Text
  | [] => ([], [])
  | c :: rest =>
    if !endsWord c || (isSpace c && wordFollows rest) then
      let (cs, r) := readWords rest
      (c :: cs, r)
    else ([], c :: rest)

/-- A boolean, a number or a moment. -/
def readScalar (s : Text) : Option (Toml × Text) :=
  let (word, rest) := readWords s
  if word = "true".toList then some (.boolean true, rest)
  else if word = "false".toList then some (.boolean false, rest)
  else
    match Numeral.ofWord? word with
    | some n => some (.number n, rest)
    | none => if Moment.isMoment word then some (.moment, rest) else none

mutual
/-- A value, in `room` for so many more brackets. -/
def readValue : (fuel room : Nat) → Text → Option (TomlSyntax × Text)
  | 0, _, _ => none
  | fuel + 1, room, s =>
    match s with
    | '[' :: rest =>
      if room = 0 then none else (readItems fuel (room - 1) rest).map fun (xs, r) => (.list xs, r)
    | '\x7b' :: rest =>
      if room = 0 then none else (readPairs fuel (room - 1) rest).map fun (ps, r) => (.braces ps, r)
    | '"' :: _ | '\x27' :: _ => (readString s).map fun (cs, r) => (.value (.text (String.ofList cs)), r)
    | s => (readScalar s).map fun (v, r) => (.value v, r)

/-- The items of an array up to its closing bracket; a comma may follow the last. -/
def readItems : (fuel room : Nat) → Text → Option (List TomlSyntax × Text)
  | 0, _, _ => none
  | fuel + 1, room, s =>
    match skipLines s with
    | ']' :: rest => some ([], rest)
    | s =>
      match readValue fuel room s with
      | none => none
      | some (x, s) =>
        match skipLines s with
        | ',' :: rest => (readItems fuel room rest).map fun (xs, r) => (x :: xs, r)
        | ']' :: rest => some ([x], rest)
        | _ => none

/-- The pairs of a table in braces up to its closing one. Lines may end on either side of a `=`, and a comma
may follow the last pair. -/
def readPairs : (fuel room : Nat) → Text → Option (List (List String × TomlSyntax) × Text)
  | 0, _, _ => none
  | fuel + 1, room, s =>
    match skipLines s with
    | '\x7d' :: rest => some ([], rest)
    | s =>
      match readKeys s with
      | none => none
      | some (path, s) =>
        match skipLines s with
        | '=' :: s =>
          match readValue fuel room (skipLines s) with
          | none => none
          | some (x, s) =>
            match skipLines s with
            | ',' :: rest => (readPairs fuel room rest).map fun (ps, r) => ((path, x) :: ps, r)
            | '\x7d' :: rest => some ([(path, x)], rest)
            | _ => none
        | _ => none
end

/-! ## Documents -/

/-- The most brackets and braces that may be open at once. -/
def nestingLimit : Nat := 80

def readPair (s : Text) : Option (TomlStatement × Text) :=
  match readKeys s with
  | some (path, '=' :: s) =>
    (readValue (2 * s.length + 2) nestingLimit (skipSpaces s)).map fun (x, r) => (.pair path x, r)
  | _ => none

def readStatement : Text → Option (TomlStatement × Text)
  | '[' :: '[' :: s =>
    match readKeys s with
    | some (path, ']' :: ']' :: r) => some (.arrayHeader path, r)
    | _ => none
  | '[' :: s =>
    match readKeys s with
    | some (path, ']' :: r) => some (.header path, r)
    | _ => none
  | s => readPair s

/-- Statements, each of which ends its line. -/
def readStatements : (fuel : Nat) → Text → Option (List TomlStatement)
  | 0, _ => none
  | fuel + 1, s =>
    match skipLines s with
    | [] => some []
    | s =>
      match readStatement s with
      | none => none
      | some (x, s) =>
        match skipRemark s with
        | [] => some [x]
        | s =>
          match lineEnd? s with
          | none => none
          | some rest => (readStatements fuel rest).map (x :: ·)

/-- A document, which may begin with a byte order mark. -/
def read? (s : Text) : Option Entries :=
  let s := if s.head? = some '\ufeff' then s.drop 1 else s
  (readStatements (s.length + 1) s).bind (ofStatements [] [])

end DocNav.Toml
