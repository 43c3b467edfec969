import Sexpr.Datum.Basic
import Sexpr.Text.Quoted

/-!
What can be wrong with a text, as causes: faults of the characters, found while tokens are made,
and faults of the order of the tokens, found while data are made.
-/

namespace Sexpr

/-- What the text ended inside of. -/
inductive Unfinished
  | delimited
  | comment
  | hashColon
  deriving DecidableEq, Repr

inductive LexicalFault
  | sourceFailed (message : String)
  | unexpectedEnd (inside : Unfinished)
  | tooManySemicolons
  | invalidEscape (c : Char)
  | nonHexDigit (c : Char)
  | invalidCodePoint (code : Nat)
  | missingDelimiter (delimiter : Char)
  | tooManyDigits
  | invalidHash
  | invalidSpecial (name : String)
  deriving DecidableEq, Repr

inductive StructuralFault
  | missingItemAfterDot
  | moreThanOneItemAfterDot
  | dotWithoutPrecedingItem
  | dotOutsideList
  | dotInWrongList (kind : Bracket)
  | misplacedDot
  | improperListForbidden
  | nestingTooDeep
  | mismatch (opened : Bracket) (openPos : Pos) (closed : Bracket)
  | unexpectedClosing (kind : Bracket)
  | unclosed (kind : Bracket)
  | missingDatumAfter (mark : String)
  | unknownToken
  deriving DecidableEq, Repr

inductive Fault
  | lexical (f : LexicalFault)
  | structural (f : StructuralFault)
  deriving DecidableEq, Repr

structure ReadError where
  fault : Fault
  pos : Pos
  deriving DecidableEq, Repr

def Unfinished.name : Unfinished → String
  | .delimited => "string/symbol/keyword"
  | .comment => "comment"
  | .hashColon => "keyword or uninterned symbol"

/-- What is wrong, in words, if a number in them can be written out. -/
def LexicalFault.describe (limit : DigitLimit) : LexicalFault → Except DigitsError String
  | .sourceFailed message => .ok ("IO error (" ++ message ++ ") after")
  | .unexpectedEnd inside => .ok ("unexpected EOF reading " ++ inside.name ++ " starting")
  | .tooManySemicolons => .ok "too many semicolons to start a comment"
  | .invalidEscape c => .ok ("invalid escaped character " ++ Text.quoted (String.singleton c))
  | .nonHexDigit c => .ok ("not a hex digit: " ++ Text.quoted (String.singleton c))
  | .invalidCodePoint code => (Integer.text limit code).map ("invalid code point " ++ ·)
  | .missingDelimiter c => .ok ("missing delimiter " ++ Text.quoted (String.singleton c) ++
      " after code sequence")
  | .tooManyDigits => .ok "too many digits in code sequence"
  | .invalidHash => .ok "invalid '#' token"
  | .invalidSpecial name => .ok ("invalid '#!' name " ++ Text.quoted name)

/-- A character between single quotes, never escaped. -/
def inQuotes (c : Char) : String := String.ofList ['\x27', c, '\x27']

def StructuralFault.describe : StructuralFault → String
  | .missingItemAfterDot => "missing item after '.'"
  | .moreThanOneItemAfterDot => "expecting exactly one item after '.'"
  | .dotWithoutPrecedingItem => "'.' without preceding item"
  | .dotOutsideList => "'.' outside of list context"
  | .dotInWrongList kind => "'.' only allowed in (..) lists, but used in " ++
      String.singleton kind.opening ++ ".." ++ String.singleton kind.closing
  | .misplacedDot => "improperly placed '.'"
  | .improperListForbidden => "improper lists disallowed in given mode"
  | .nestingTooDeep => "nesting too deep"
  | .mismatch opened openPos closed => inQuotes opened.opening ++ " " ++ openPos.label ++
      " expects " ++ inQuotes opened.closing ++ ", got " ++ inQuotes closed.closing
  | .unexpectedClosing kind => "unexpected closing character " ++ inQuotes kind.closing
  | .unclosed kind => "premature EOF while expecting closing character " ++
      inQuotes kind.closing ++ " for " ++ inQuotes kind.opening
  | .missingDatumAfter mark => "missing expression after " ++ mark
  | .unknownToken => "unknown token Token()"

def Fault.describe (limit : DigitLimit) : Fault → Except DigitsError String
  | .lexical f => f.describe limit
  | .structural f => .ok f.describe

/-- A token of no known class has no place in a text, so its fault is told without a position. The
message is made when the error is found: if it cannot be, that is what is told instead. -/
def ReadError.message (limit : DigitLimit) (e : ReadError) : Except DigitsError String :=
  match e.fault with
  | .structural .unknownToken => e.fault.describe limit
  | f => (f.describe limit).map (· ++ " " ++ e.pos.label)

end Sexpr
