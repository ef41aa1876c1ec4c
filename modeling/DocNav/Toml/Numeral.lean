import DocNav.Text.Digits
/-!
# Numbers in TOML

Reading a document only looks at how a number is written; `Numeral.ofWord?` says which words are numbers.
Whether a number has a value shows when the value is asked for, and `Numeral.hasValue` answers that: an
integer has one if it has digits, nothing else but `_`, and fits in 128 bits, a float if it does not round to
infinity.
-/

namespace DocNav

/-- A number as it is written. -/
inductive Numeral where
  /-- Digits of a base, with what stands between them. -/
  | integer (negative : Bool) (base : Nat) (digits : List Char)
  /-- The number that the digits make, times a power of ten. -/
  | float (digits : List Char) (power : Int)
  | infinity
  | notANumber
deriving DecidableEq, Repr

namespace Numeral

/-- Whether digits stand with at most one `_` between two of them. -/
def wellSpaced (isDigit : Char → Bool) : List Char → Bool
  | [] => false
  | [c] => isDigit c
  | c :: '_' :: rest => isDigit c && wellSpaced isDigit rest
  | c :: rest => isDigit c && wellSpaced isDigit rest

/-- Whether each `_` stands between two hexadecimal digits, whatever the other characters are. -/
def wellJoined : List Char → Bool
  | [] => true
  | c :: '_' :: rest => Digits.isDigitOf 16 c && rest.head?.any (Digits.isDigitOf 16) && wellJoined rest
  | _ :: rest => wellJoined rest

/-- Digits as the whole part of a number has them: without needless zeros. -/
def isWhole (ds : List Char) : Bool :=
  wellSpaced Char.isDigit ds && (ds.length = 1 || ds.head? ≠ some '0')

def isPower (c : Char) : Bool := c = 'e' || c = 'E'

/-- A power of ten behind its mark. -/
def readPower? (s : List Char) : Option Int :=
  let (negative, ds) :=
    match s with
    | '-' :: ds => (true, ds)
    | '+' :: ds => (false, ds)
    | ds => (false, ds)
  if wellSpaced Char.isDigit ds then
    some (if negative then -(Digits.number 10 ds : Int) else Digits.number 10 ds)
  else none

/-- Digits with a point between them, a power of ten behind them, or both. -/
def readFloat? (s : List Char) : Option Numeral := do
  let number := s.takeWhile fun c => !isPower c
  let whole := number.takeWhile (· ≠ '.')
  let places ←
    match number.dropWhile (· ≠ '.') with
    | _ :: ds => if wellSpaced Char.isDigit ds then some (ds.filter Char.isDigit) else none
    | [] => some []
  let power ←
    match s.dropWhile fun c => !isPower c with
    | _ :: s => readPower? s
    | [] => some 0
  if isWhole whole then some (.float (whole.filter Char.isDigit ++ places) (power - places.length)) else none

/-- A number of base ten behind its sign. Once a `_` follows the first digits, any characters but the space
may follow. -/
def readUnsigned? (negative : Bool) (s : List Char) : Option Numeral :=
  if s = ['i', 'n', 'f'] then some .infinity
  else if s = ['n', 'a', 'n'] then some .notANumber
  else
    let ds := s.takeWhile Char.isDigit
    let rest := s.dropWhile Char.isDigit
    if ds.isEmpty then none
    else if rest.any fun c => c = '.' || isPower c then readFloat? s
    else if 1 < s.length ∧ s.head? = some '0' then none
    else if rest.isEmpty ∨ (rest.head? = some '_' ∧ ' ' ∉ rest ∧ wellJoined s) then
      some (.integer negative 10 s)
    else none

/-- An integer behind the mark of its base, where the digits may be missing. -/
def readBased? (base : Nat) (ds : List Char) : Option Numeral :=
  if ds.isEmpty || wellSpaced (Digits.isDigitOf base) ds then some (.integer false base ds) else none

/-- The number that a word writes, if it writes one. -/
def ofWord? : List Char → Option Numeral
  | '0' :: 'x' :: ds => readBased? 16 ds
  | '0' :: 'o' :: ds => readBased? 8 ds
  | '0' :: 'b' :: ds => readBased? 2 ds
  | '+' :: s => readUnsigned? false s
  | '-' :: s => readUnsigned? true s
  | s => readUnsigned? false s

/-- Whether digits times a power of ten round to less than infinity. -/
def isFinite (digits : List Char) (power : Int) : Bool :=
  let n := Digits.number 10 digits
  n = 0 || power + digits.length ≤ 0 ||
    (power < 400 && n * Nat.pow 10 power.toNat < (Nat.pow 2 1024 - Nat.pow 2 970) * Nat.pow 10 (-power).toNat)

/-- Whether the number can be held. -/
def hasValue : Numeral → Bool
  | integer negative base digits =>
    let ds := digits.filter (· ≠ '_')
    let n := Digits.number base ds
    !ds.isEmpty && ds.all (Digits.isDigitOf base) && if negative then n ≤ Nat.pow 2 127 else n < Nat.pow 2 128
  | float digits power => isFinite digits power
  | infinity | notANumber => true

end Numeral
end DocNav
