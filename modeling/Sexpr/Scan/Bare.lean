import Sexpr.Dialect
import Sexpr.Token

/-!
What a run of symbol characters means: a dot, a number, a keyword or a symbol.
-/

namespace Sexpr

/-- A run may be a number if it begins with a digit, or with a minus sign. -/
def bareNumber? : List Char → Option Number
  | [] => none
  | c :: cs =>
      if Decimal.isDigit c then Decimal.number? false (c :: cs)
      else if c = '-' then Decimal.number? true cs
      else none

/-- What is no dot and no number is a keyword if it begins or ends with a colon. -/
def bareAtom (cs : List Char) : Atom :=
  match bareNumber? cs with
  | some n => .number n
  | none =>
      if cs.head? = some ':' then .leadingKeyword (String.ofList cs.tail)
      else if cs.getLast? = some ':' then .trailingKeyword (String.ofList cs.dropLast)
      else .symbol (String.ofList cs)

def bareToken (fmt : Format) (cs : List Char) : Token :=
  if cs = ['.'] ∧ fmt.hasDottedPairs = true then .dot else .atom (bareAtom cs)

end Sexpr
