import Mathlib.Data.Rat.Lemmas
import Sexpr.Number.Decimal

/-!
The number that one integer divided by another is.

- `Rational.isQuotient_ofNonzero`: lowest terms keep the value.
- `Rational.IsQuotient.unique`: they are determined by it.
- `Number.quotient_eq_some`: so each quotient is one number, an integer if the division leaves
  nothing and a fraction if not.
-/

namespace Sexpr

variable {n d : Int}

namespace Rational

variable {q r : Rational}

/-- The fraction has the value `n/d`. -/
def IsQuotient (q : Rational) (n d : Int) : Prop := q.numerator * d = n * q.denominator

theorem gcd_eq (n d : Int) : Integer.gcd n d = Int.gcd n d := by
  rw [Integer.gcd, Integer.euclid_eq_gcd, Int.gcd]

/-- The divisions by the common divisor leave nothing. -/
theorem ofNonzero_mul_gcd (n : Int) (nonzero : d ≠ 0) :
    (ofNonzero n d nonzero).numerator * Int.gcd n d = d.sign * n ∧
      (ofNonzero n d nonzero).denominator * Int.gcd n d = d.natAbs := by
  constructor
  · have exact : n / Int.gcd n d * Int.gcd n d = n :=
      Int.ediv_mul_cancel (Int.gcd_dvd_left n d)
    have numerator : (ofNonzero n d nonzero).numerator =
        if d < 0 then -(n / Int.gcd n d) else n / Int.gcd n d := by
      simp only [ofNonzero, gcd_eq]
    rw [numerator]
    by_cases negative : d < 0
    · rw [if_pos negative, Int.sign_eq_neg_one_of_neg negative, Int.neg_mul, exact,
        Int.neg_one_mul]
    · have positive : 0 < d := by omega
      rw [if_neg negative, Int.sign_eq_one_of_pos positive, exact, Int.one_mul]
  · have denominator : (ofNonzero n d nonzero).denominator = d.natAbs / Int.gcd n d := by
      simp only [ofNonzero, Integer.euclid_eq_gcd, Int.gcd]
    rw [denominator]
    exact Nat.div_mul_cancel (Nat.gcd_dvd_right n.natAbs d.natAbs)

theorem isQuotient_ofNonzero (n : Int) (nonzero : d ≠ 0) :
    (ofNonzero n d nonzero).IsQuotient n d := by
  obtain ⟨upper, lower⟩ := ofNonzero_mul_gcd n nonzero
  have common : (Int.gcd n d : Int) ≠ 0 := by
    simp [nonzero]
  apply Int.eq_of_mul_eq_mul_right common
  calc (ofNonzero n d nonzero).numerator * d * Int.gcd n d
      = (ofNonzero n d nonzero).numerator * Int.gcd n d * d := Int.mul_right_comm ..
    _ = n * (d.sign * d) := by rw [upper, Int.mul_comm d.sign, Int.mul_assoc]
    _ = n * ((ofNonzero n d nonzero).denominator * Int.gcd n d : Nat) := by
        rw [Int.sign_mul_self_eq_natAbs, lower]
    _ = n * (ofNonzero n d nonzero).denominator * Int.gcd n d := by
        rw [Nat.cast_mul, Int.mul_assoc]

/-- The same fraction as a number of the library, where both sides of a quotient are one. -/
def toRat (q : Rational) : ℚ where
  num := q.numerator
  den := q.denominator
  den_nz := q.denominator_pos.ne'
  reduced := q.reduced

theorem toRat_injective : Function.Injective toRat := by
  intro q r same
  exact (ext_iff_parts q r).2 ⟨congrArg Rat.num same, congrArg Rat.den same⟩

theorem isQuotient_iff_toRat (nonzero : d ≠ 0) : q.IsQuotient n d ↔ q.toRat = n / d := by
  have positive : (q.denominator : ℚ) ≠ 0 := by
    exact_mod_cast q.denominator_pos.ne'
  have divisor : (d : ℚ) ≠ 0 := by
    exact_mod_cast nonzero
  have value : q.toRat = q.numerator / q.denominator := (Rat.num_div_den q.toRat).symm
  rw [value, div_eq_div_iff positive divisor, IsQuotient]
  norm_cast

theorem IsQuotient.unique (nonzero : d ≠ 0) (h : q.IsQuotient n d) (h' : r.IsQuotient n d) :
    q = r := by
  apply toRat_injective
  rw [(isQuotient_iff_toRat nonzero).1 h, (isQuotient_iff_toRat nonzero).1 h']

theorem IsQuotient.isInteger_iff (nonzero : d ≠ 0) (h : q.IsQuotient n d) :
    q.isInteger = true ↔ d ∣ n := by
  have one : q.isInteger = true ↔ q.denominator = 1 := decide_eq_true_iff
  rw [one]
  constructor
  · intro whole
    refine ⟨q.numerator, ?_⟩
    rw [IsQuotient, whole, Nat.cast_one, Int.mul_one] at h
    rw [← h, Int.mul_comm]
  · rintro ⟨z, rfl⟩
    -- lowest terms have no common divisor, and the denominator is one
    have exact : q.numerator = z * q.denominator := by
      apply Int.eq_of_mul_eq_mul_right nonzero
      rw [h, Int.mul_comm d z, Int.mul_right_comm]
    have divides : q.denominator ∣ q.numerator.natAbs := by
      rw [exact, Int.natAbs_mul, Int.natAbs_natCast]
      exact Nat.dvd_mul_left ..
    rw [← q.reduced, Nat.gcd_eq_right divides]

end Rational

namespace Number

/-- The number is `n` divided by `d`: an integer if nothing is left, and a fraction in lowest terms
if something is. -/
inductive IsQuotient (n d : Int) : Number → Prop
  | whole {z : Int} (exact : n = z * d) : IsQuotient n d (.integer z)
  | broken {q : Rational} (value : q.IsQuotient n d) (rest : ¬ d ∣ n) : IsQuotient n d (.rational q)

theorem isQuotient_ofRational {q : Rational} (nonzero : d ≠ 0) (h : q.IsQuotient n d) :
    IsQuotient n d (ofRational q) := by
  have whole := h.isInteger_iff nonzero
  by_cases divides : d ∣ n
  · rw [ofRational, if_pos (whole.2 divides)]
    have one : q.denominator = 1 := of_decide_eq_true (whole.2 divides)
    rw [Rational.IsQuotient, one, Nat.cast_one, Int.mul_one] at h
    exact .whole h.symm
  · rw [ofRational, if_neg (mt whole.1 divides)]
    exact .broken h divides

theorem IsQuotient.unique {x y : Number} (nonzero : d ≠ 0) (h : IsQuotient n d x)
    (h' : IsQuotient n d y) : x = y := by
  cases h with
  | @whole z exact =>
    cases h' with
    | whole exact' => rw [Int.eq_of_mul_eq_mul_right nonzero (exact.symm.trans exact')]
    | broken _ rest => exact absurd ⟨z, by rw [exact, Int.mul_comm]⟩ rest
  | broken value rest =>
    cases h' with
    | @whole z exact => exact absurd ⟨z, by rw [exact, Int.mul_comm]⟩ rest
    | broken value' => rw [value.unique nonzero value']

theorem exists_isQuotient (n : Int) (nonzero : d ≠ 0) : ∃ x, IsQuotient n d x :=
  ⟨_, isQuotient_ofRational nonzero (Rational.isQuotient_ofNonzero n nonzero)⟩

/-- There is one quotient for each divisor but zero. -/
theorem quotient_eq_some {x : Number} :
    (Rational.ofInts? n d).map ofRational = some x ↔ d ≠ 0 ∧ IsQuotient n d x := by
  by_cases zero : d = 0
  · simp [Rational.ofInts?, zero]
  · have quotient := isQuotient_ofRational zero (Rational.isQuotient_ofNonzero n zero)
    rw [Rational.ofInts?, dif_neg zero, Option.map_some, Option.some.injEq]
    constructor
    · rintro rfl
      exact ⟨zero, quotient⟩
    · rintro ⟨-, h⟩
      exact quotient.unique zero h

end Number

end Sexpr
