import Sexpr.Number.Rational

/-!
Numbers, exact integers or fractions, and their decimal notation.
-/

namespace Sexpr

/-- A fraction stays a fraction even when its denominator is one. -/
inductive Number
  | integer (n : Int)
  | rational (q : Rational)
  deriving DecidableEq, Repr

namespace Number

def text (limit : DigitLimit) : Number → Except DigitsError String
  | .integer n => Integer.text limit n
  | .rational q => q.text limit

/-- A fraction that is a whole number becomes an integer. -/
def ofRational (q : Rational) : Number :=
  if q.isInteger then .integer q.numerator else .rational q

end Number

namespace Decimal

def isDigit (c : Char) : Bool := '0' ≤ c && c ≤ '9'

def digit (c : Char) : Nat := c.toNat - 48

/-- What the characters so far denote: the number above a slash, and the one below it once there is
a slash. Whether the latest of the two has digits yet is kept too. -/
structure Parts where
  upper : Int
  lower? : Option Int
  digits : Bool

namespace Parts

def start : Parts := ⟨0, none, false⟩

/-- Only a digit can follow, or the first slash after a digit. -/
def add (p : Parts) (c : Char) : Option Parts :=
  if isDigit c then
    match p.lower? with
    | none => some ⟨Integer.mulAdd p.upper 10 (digit c), none, true⟩
    | some lower => some ⟨p.upper, some (Integer.mulAdd lower 10 (digit c)), true⟩
  else if c = '/' ∧ p.lower? = none ∧ p.digits = true then some ⟨p.upper, some 0, false⟩
  else none

/-- A zero denominator denotes no number. -/
def number? (negative : Bool) (p : Parts) : Option Number :=
  if p.digits then
    let upper := if negative then -p.upper else p.upper
    match p.lower? with
    | none => some (.integer upper)
    | some lower => (Rational.ofInts? upper lower).map Number.ofRational
  else none

end Parts

/-- The number that a run of digits denotes, or two runs with a slash between them. -/
def number? (negative : Bool) (cs : List Char) : Option Number :=
  (cs.foldlM Parts.add .start).bind (Parts.number? negative)

end Decimal

end Sexpr
