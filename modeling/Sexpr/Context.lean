import Sexpr.Error

/-!
Where an input came from, and errors told together with it.
-/

namespace Sexpr

inductive Context
  | file (path : String)
  | named (name : String)
  deriving DecidableEq, Repr

namespace Context

def withPos (c : Context) (pos : Pos) : String :=
  match c with
  | .file path => "in " ++ Text.quoted path ++ pos.label
  | .named name => "from (" ++ name ++ ")" ++ pos.label

def withoutPos : Context → String
  | .file path => Text.quoted path
  | .named name => "(" ++ name ++ ")"

/-- The message of an error in an input from here. -/
def describe (limit : DigitLimit) (c : Context) (e : ReadError) : Except DigitsError String :=
  (e.fault.describe limit).map (· ++ " " ++ c.withPos e.pos)

end Context

end Sexpr
