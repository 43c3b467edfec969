/-!
Exact integers: their size class, floor division and Euclid's algorithm.
Main statement: the algorithm computes the greatest common divisor of the absolute values.
-/

namespace Sexpr

/-- An integer is small when it fits a signed machine word of 64 bits. -/
inductive Size
  | small
  | big
  deriving DecidableEq, Repr

namespace Integer

def smallest : Int := -9223372036854775808

def largest : Int := 9223372036854775807

def size (n : Int) : Size :=
  if smallest ≤ n ∧ n ≤ largest then .small else .big

/-- The number after one more digit in a radix. -/
def mulAdd (n radix digit : Int) : Int := n * radix + digit

inductive DivisionError
  | quotientByZero
  | remainderByZero
  deriving DecidableEq, Repr

def DivisionError.message : DivisionError → String
  | .quotientByZero => "integer division or modulo by zero"
  | .remainderByZero => "integer modulo by zero"

/-- Division rounds toward negative infinity. -/
def quotient (n d : Int) : Except DivisionError Int :=
  if d = 0 then .error .quotientByZero else .ok (n.fdiv d)

/-- The remainder has the sign of the divisor. -/
def remainder (n d : Int) : Except DivisionError Int :=
  if d = 0 then .error .remainderByZero else .ok (n.fmod d)

def euclid (a b : Nat) : Nat :=
  if b = 0 then a else euclid b (a % b)
termination_by b
decreasing_by exact Nat.mod_lt _ (by omega)

def gcd (a b : Int) : Int := euclid a.natAbs b.natAbs

theorem euclid_eq_gcd (a b : Nat) : euclid a b = Nat.gcd a b := by
  fun_induction euclid a b with
  | case1 a => simp
  | case2 a b _ ih => rw [ih, Nat.gcd_comm a b, Nat.gcd_rec b a, Nat.gcd_comm]

theorem euclid_dvd_left (a b : Nat) : euclid a b ∣ a :=
  euclid_eq_gcd a b ▸ Nat.gcd_dvd_left a b

theorem euclid_dvd_right (a b : Nat) : euclid a b ∣ b :=
  euclid_eq_gcd a b ▸ Nat.gcd_dvd_right a b

theorem euclid_pos (a b : Nat) (h : 0 < b) : 0 < euclid a b :=
  euclid_eq_gcd a b ▸ Nat.gcd_pos_of_pos_right a h

end Integer

end Sexpr
