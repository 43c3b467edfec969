import Sexpr.Number.Rational
import Sexpr.Payload

/-!
Arithmetic on exact integers with operands that may be no integers at all.
-/

namespace Sexpr

/-- A bare integer, an exact integer object, or something else. -/
inductive Operand
  | bare (n : Int)
  | exact (n : Int)
  | other (p : Payload)

inductive ArithmeticError
  | notInteger (p : Payload)
  | notNumber (p : Payload)
  | zeroDenominator (n : Int)
  | division (e : Integer.DivisionError)

/-- What is wrong is shown in the message, if it can be. -/
def ArithmeticError.message (limit : DigitLimit) : ArithmeticError → Except DigitsError String
  | .notInteger p => (p.inspect limit).map ("not an integer " ++ ·)
  | .notNumber p => (p.inspect limit).map ("not a number " ++ ·)
  | .zeroDenominator n => (Integer.text limit n).map (· ++ "/0")
  | .division e => .ok e.message

namespace Operand

def toInt : Operand → Except ArithmeticError Int
  | .bare n | .exact n => .ok n
  | .other p => .error (.notInteger p)

/-- Only an exact integer object is equal to one. -/
def equals (x : Operand) (n : Int) : Bool :=
  match x with
  | .exact m => n = m
  | _ => false

end Operand

def Rational.ofOperands (n d : Operand) : Except ArithmeticError Rational := do
  let n ← n.toInt
  let d ← d.toInt
  match Rational.ofInts? n d with
  | some q => .ok q
  | none => .error (.zeroDenominator n)

/-- The greatest common divisor; the first operand is looked at first. -/
def Integer.gcdOperands (a b : Operand) : Except ArithmeticError Int := do
  let a ← a.toInt
  let b ← b.toInt
  .ok (Integer.gcd a b)

/-- What turns one exact integer into another. -/
inductive Operation
  | set (x : Operand)
  | add (x : Operand)
  | sub (x : Operand)
  | subFrom (x : Operand)
  | mul (x : Operand)
  | quotient (x : Operand)
  | remainder (x : Operand)
  | gcd (x : Operand)
  | neg
  | abs
  | mulAdd (radix digit : Int)

def Operation.apply (n : Int) : Operation → Except ArithmeticError Int
  | .set x => x.toInt
  | .add x => x.toInt.map fun m => n + m
  | .sub x => x.toInt.map fun m => n - m
  | .subFrom x => x.toInt.map fun m => m - n
  | .mul x => x.toInt.map fun m => n * m
  | .quotient x => x.toInt.bind fun m => (Integer.quotient n m).mapError .division
  | .remainder x => x.toInt.bind fun m => (Integer.remainder n m).mapError .division
  | .gcd x => Integer.gcdOperands (.exact n) x
  | .neg => .ok (-n)
  | .abs => .ok n.natAbs
  | .mulAdd radix digit => .ok (Integer.mulAdd n radix digit)

inductive Comparison
  | lt
  | le
  | gt
  | ge
  | eq
  | ne
  deriving DecidableEq, Repr

/-- The order accepts bare integers, equality does not. -/
def Comparison.holds (n : Int) (x : Operand) : Comparison → Except ArithmeticError Bool
  | .lt => x.toInt.map fun m => decide (n < m)
  | .le => x.toInt.map fun m => decide (n ≤ m)
  | .gt => x.toInt.map fun m => decide (m < n)
  | .ge => x.toInt.map fun m => decide (m ≤ n)
  | .eq => .ok (x.equals n)
  | .ne => .ok (!x.equals n)

end Sexpr
