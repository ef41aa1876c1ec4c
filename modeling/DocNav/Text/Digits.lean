/-!
# Digits

The digits of bases up to sixteen, letters in either case. `Digits.number` is what a row of digits stands for.
-/

namespace DocNav.Digits

def value? (c : Char) : Option Nat :=
  if '0' ≤ c ∧ c ≤ '9' then some (c.toNat - 48)
  else if 'a' ≤ c ∧ c ≤ 'f' then some (c.toNat - 87)
  else if 'A' ≤ c ∧ c ≤ 'F' then some (c.toNat - 55)
  else none

/-- Whether a character is a digit of the base. -/
def isDigitOf (base : Nat) (c : Char) : Bool := (value? c).any (· < base)

/-- The number that digits of a base make; other characters between them count for nothing. -/
def number (base : Nat) (ds : List Char) : Nat :=
  (ds.filterMap value?).foldl (fun n d => n * base + d) 0

end DocNav.Digits
