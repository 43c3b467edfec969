import Sexpr.Datum.Basic
import Sexpr.Text.Quoted

/-!
How numbers, atoms and data are shown in messages and in traces: class and contents.
-/

namespace Sexpr

def Rational.inspect (limit : DigitLimit) (q : Rational) : Except DigitsError String := do
  let upper ← Integer.text limit q.numerator
  let lower ← Integer.text limit q.denominator
  return "Rational(" ++ upper ++ ", " ++ lower ++ ")"

def Number.inspect (limit : DigitLimit) : Number → Except DigitsError String
  | .integer n => do return "Integer(" ++ (← Integer.text limit n) ++ ")"
  | .rational q => q.inspect limit

namespace Atom

def className : Atom → String
  | .bool _ => "Bool"
  | .char _ => "Char"
  | .string _ => "String"
  | .symbol _ => "Symbol"
  | .uninterned _ => "UninternedSymbol"
  | .leadingKeyword _ => "Keyword1"
  | .trailingKeyword _ => "Keyword2"
  | .special _ => "Special"
  | .number _ => "Number"
  | .plain _ => "Atom"

def inspectLabel : Option String → String
  | none => "None"
  | some s => Text.quoted s

def payload (limit : DigitLimit) : Atom → Except DigitsError String
  | .bool b => .ok (if b then "True" else "False")
  | .char c => .ok (Text.quoted (String.singleton c))
  | .string s | .symbol s | .uninterned s | .leadingKeyword s | .trailingKeyword s =>
      .ok (Text.quoted s)
  | .special x => .ok (Text.quoted x.name)
  | .number n => n.inspect limit
  | .plain label => .ok (inspectLabel label)

def inspect (limit : DigitLimit) (a : Atom) : Except DigitsError String := do
  return a.className ++ "(" ++ (← a.payload limit) ++ ")"

end Atom

def Bracket.inspect : Bracket → String
  | .round => "ROUND"
  | .square => "SQUARE"
  | .curly => "CURLY"

def Pos.inspect (p : Pos) : String := s!"Pos(line={p.line}, col={p.col})"

/-- The position of a dot is shown, other positions are not. -/
def Datum.inspect (limit : DigitLimit) : Datum → Except DigitsError String
  | .atom a _ => a.inspect limit
  | .list k items dot _ => do
      let shown ← inspectAll limit items
      let dotText := match dot with
        | none => ""
        | some p => ", dot=" ++ p.inspect
      return "List(" ++ k.inspect ++ ", [" ++ ", ".intercalate shown ++ "]" ++ dotText ++ ")"
where
  inspectAll (limit : DigitLimit) : List Datum → Except DigitsError (List String)
    | [] => return []
    | d :: ds => return (← inspect limit d) :: (← inspectAll limit ds)

end Sexpr
