import Sexpr.Number.Digits
import Sexpr.Number.Integer

/-!
Rational numbers in lowest terms. The sign is on the numerator, and a whole number keeps the
denominator one.
-/

namespace Sexpr

structure Rational where
  numerator : Int
  denominator : Nat
  denominator_pos : 0 < denominator
  reduced : Nat.gcd numerator.natAbs denominator = 1

namespace Rational

theorem ext_iff_parts (q r : Rational) :
    q = r ↔ q.numerator = r.numerator ∧ q.denominator = r.denominator := by
  cases q; cases r; simp

instance : DecidableEq Rational := fun q r =>
  decidable_of_iff _ (ext_iff_parts q r).symm

instance : Repr Rational where
  reprPrec q _ := repr q.numerator ++ "/" ++ repr q.denominator

/-- The fraction `n/d` in lowest terms. -/
def ofNonzero (n d : Int) (h : d ≠ 0) : Rational where
  numerator := if d < 0 then -(n / Integer.gcd n d) else n / Integer.gcd n d
  denominator := d.natAbs / Integer.euclid n.natAbs d.natAbs
  denominator_pos := by
    have hd : 0 < d.natAbs := Int.natAbs_pos.2 h
    exact Nat.div_pos (Nat.le_of_dvd hd (Integer.euclid_dvd_right _ _))
      (Integer.euclid_pos _ _ hd)
  reduced := by
    have hd : 0 < d.natAbs := Int.natAbs_pos.2 h
    have hn : (n / Integer.gcd n d).natAbs = n.natAbs / Integer.euclid n.natAbs d.natAbs := by
      rw [Integer.gcd, Int.natAbs_ediv_of_dvd, Int.natAbs_natCast]
      exact Int.ofNat_dvd_left.2 (Integer.euclid_dvd_left _ _)
    have hs : (if d < 0 then -(n / Integer.gcd n d) else n / Integer.gcd n d).natAbs =
        n.natAbs / Integer.euclid n.natAbs d.natAbs := by
      split
      · rw [Int.natAbs_neg, hn]
      · exact hn
    rw [hs, Integer.euclid_eq_gcd]
    exact Nat.gcd_div_gcd_div_gcd_of_pos_right hd

/-- The fraction `n/d` in lowest terms, if `d` is not zero. -/
def ofInts? (n d : Int) : Option Rational :=
  if h : d = 0 then none else some (ofNonzero n d h)

def isInteger (q : Rational) : Bool := q.denominator = 1

def neg (q : Rational) : Rational where
  numerator := -q.numerator
  denominator := q.denominator
  denominator_pos := q.denominator_pos
  reduced := by rw [Int.natAbs_neg]; exact q.reduced

def text (limit : DigitLimit) (q : Rational) : Except DigitsError String :=
  (Integer.text limit q.numerator).bind fun upper =>
    (Integer.text limit q.denominator).map fun lower => upper ++ "/" ++ lower

end Rational

end Sexpr
