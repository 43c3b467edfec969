import Sexpr.Reader.Basic

/-!
The lines of a trace: one for each token that is taken, one for each token that means something,
with the stack before it.
-/

namespace Sexpr.Reader

def Frame.inspect : Frame → String
  | .list fuel pos .. => s!"<List {fuel} {pos.label}>"
  | .mark fuel pos _ => s!"<Pref {fuel} {pos.label}>"
  | .discard fuel pos => s!"<Disc {fuel} {pos.label}>"

/-- The outermost frame is shown first. -/
def inspectStack (stack : Stack) : String :=
  "[" ++ ", ".intercalate (s!"<Top {maxDepth} None>" :: stack.reverse.map Frame.inspect) ++ "]"

def tokenLine (limit : DigitLimit) (t : Token) (pos : Pos) : Except DigitsError String :=
  (t.inspect limit).map fun shown => "TK: " ++ pos.label ++ " " ++ shown

def stackLine (limit : DigitLimit) (stack : Stack) (t : Token) (pos : Pos) :
    Except DigitsError String :=
  (t.inspect limit).map fun shown =>
    "RD: " ++ pos.label ++ " " ++ shown ++ " " ++ inspectStack stack

/-- The trace of reading all data, as far as the first fault. -/
def trace (limit : DigitLimit) (modes : Modes) (stack : Stack) :
    List (Token × Pos) → List (Except DigitsError String)
  | [] => []
  | (t, pos) :: rest =>
      let lines := tokenLine limit t pos ::
        if t.isSkipped then [] else [stackLine limit stack t pos]
      match feed modes .dotOutsideList stack t pos with
      | .error _ => lines
      | .ok (.datum _) => lines ++ trace limit modes [] rest
      | .ok (.stack s) => lines ++ trace limit modes s rest

end Sexpr.Reader
