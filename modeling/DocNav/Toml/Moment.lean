import DocNav.Text.Digits
/-!
# Dates and times in TOML

A moment is a date, a time of day, or both with an offset or without. `isMoment` says which words are moments;
each must be one of the calendar, and a minute may have 61 seconds.
-/

namespace DocNav.Moment

/-- A number of so many digits within bounds. -/
def readField (count low high : Nat) (s : List Char) : Option (Nat × List Char) :=
  let ds := s.take count
  let n := Digits.number 10 ds
  if ds.length = count ∧ ds.all Char.isDigit ∧ low ≤ n ∧ n ≤ high then some (n, s.drop count) else none

def expect (c : Char) : List Char → Option (List Char)
  | d :: rest => if d = c then some rest else none
  | [] => none

def daysIn (year month : Nat) : Nat :=
  if month = 2 then if year % 4 = 0 ∧ (year % 100 ≠ 0 ∨ year % 400 = 0) then 29 else 28
  else if month = 4 ∨ month = 6 ∨ month = 9 ∨ month = 11 then 30
  else 31

def readDate (s : List Char) : Option (List Char) := do
  let (year, s) ← readField 4 0 9999 s
  let (month, s) ← readField 2 1 12 (← expect '-' s)
  let (_, s) ← readField 2 1 (daysIn year month) (← expect '-' s)
  return s

/-- A time of day; the seconds may be left out, and may have decimals. -/
def readTime (s : List Char) : Option (List Char) := do
  let (_, s) ← readField 2 0 23 s
  let (_, s) ← readField 2 0 59 (← expect ':' s)
  match s with
  | ':' :: s => do
    let (_, s) ← readField 2 0 60 s
    match s with
    | '.' :: s => if (s.takeWhile Char.isDigit).isEmpty then none else return s.dropWhile Char.isDigit
    | s => return s
  | s => return s

def readOffset : List Char → Option (List Char)
  | 'Z' :: s | 'z' :: s => some s
  | '+' :: s | '-' :: s => do
    let (_, s) ← readField 2 0 23 s
    let (_, s) ← readField 2 0 59 (← expect ':' s)
    return s
  | s => some s

def isTimeMark (c : Char) : Bool := c = 'T' || c = 't' || c = ' '

def isMoment (s : List Char) : Bool :=
  match readDate s with
  | none => readTime s = some []
  | some [] => true
  | some (c :: s) => isTimeMark c && ((readTime s).bind readOffset) = some []

end DocNav.Moment
