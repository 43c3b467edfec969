import Sexpr.Datum.Basic
import Sexpr.Number.Arithmetic

/-!
Atoms made from payloads of unknown type, with the reason where a payload does not fit.
-/

namespace Sexpr

inductive MakeError
  | notCharacter (p : Payload)
  | unknownSpecial (p : Payload)
  | arithmetic (e : ArithmeticError)

def MakeError.message (limit : DigitLimit) : MakeError → Except DigitsError String
  | .notCharacter p => (p.inspect limit).map ("not a single character " ++ ·)
  | .unknownSpecial p => (p.inspect limit).map ("unknown special " ++ ·)
  | .arithmetic e => e.message limit

namespace Atom

def ofTruth (p : Payload) : Atom := .bool p.isTrue

def makeChar (p : Payload) : Except MakeError Atom :=
  match p with
  | .text s =>
      match s.toList with
      | [c] => .ok (.char c)
      | _ => .error (.notCharacter p)
  | _ => .error (.notCharacter p)

def makeSpecial (p : Payload) : Except MakeError Atom :=
  match p with
  | .text s =>
      match Special.named? s with
      | some x => .ok (.special x)
      | none => .error (.unknownSpecial p)
  | _ => .error (.unknownSpecial p)

/-- A truth value is refused as an integer, anything else that is no integer as a number. -/
def makeNumber : Operand → Except MakeError Atom
  | .bare n | .exact n => .ok (.number (.integer n))
  | .other (.flag b) => .error (.arithmetic (.notInteger (.flag b)))
  | .other p => .error (.arithmetic (.notNumber p))

def makeRational (n d : Operand) : Except MakeError Atom :=
  match Rational.ofOperands n d with
  | .ok q => .ok (.number (.rational q))
  | .error e => .error (.arithmetic e)

end Atom

end Sexpr
