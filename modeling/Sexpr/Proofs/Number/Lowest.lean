import Sexpr.Number.Arithmetic
import Sexpr.Number.Hashing
import Sexpr.Proofs.Number.Fractions
import Sexpr.Proofs.Number.Numerals

/-!
Fractions in lowest terms: each value has one, whatever it was made from.

- `Rational.ofNonzero_fdiv`: the divisions that make it leave nothing.
- `Rational.ofNonzero_eq_iff`: two are the same if and only if their values are.
- `Rational.lowest_terms`: what this means for the constructor and its operands.
-/

namespace Sexpr

variable {x y x' y' : Operand} {n d n' d' : Int}

/-! ## The common divisor -/

theorem Integer.gcdOperands_eq (left : x.toInt = .ok n) (right : y.toInt = .ok d) :
    gcdOperands x y = .ok (gcd n d) := by
  rw [gcdOperands, left, right]
  rfl

namespace Rational

variable {q r : Rational}

/-- The common divisor with the sign of the denominator. -/
def divisor (n d : Int) : Int := if d < 0 then -Integer.gcd n d else Integer.gcd n d

theorem divisor_eq (n : Int) (nonzero : d ≠ 0) : divisor n d = d.sign * Int.gcd n d := by
  rw [divisor, gcd_eq]
  by_cases negative : d < 0
  · rw [if_pos negative, Int.sign_eq_neg_one_of_neg negative, Int.neg_one_mul]
  · have positive : 0 < d := by omega
    rw [if_neg negative, Int.sign_eq_one_of_pos positive, Int.one_mul]

theorem divisor_ne_zero (n : Int) (nonzero : d ≠ 0) : divisor n d ≠ 0 := by
  rw [divisor_eq n nonzero]
  apply mul_ne_zero
  · exact Int.sign_eq_zero_iff_zero.not.2 nonzero
  · simp [nonzero]

theorem ofNonzero_mul_divisor (n : Int) (nonzero : d ≠ 0) :
    (ofNonzero n d nonzero).numerator * divisor n d = n ∧
      (ofNonzero n d nonzero).denominator * divisor n d = d := by
  obtain ⟨upper, lower⟩ := ofNonzero_mul_gcd n nonzero
  have sign : d.sign * d.sign = 1 := by
    rcases lt_or_gt_of_ne nonzero with negative | positive
    · rw [Int.sign_eq_neg_one_of_neg negative]
      rfl
    · rw [Int.sign_eq_one_of_pos positive]
      rfl
  rw [divisor_eq n nonzero]
  constructor
  · calc (ofNonzero n d nonzero).numerator * (d.sign * Int.gcd n d)
        = d.sign * ((ofNonzero n d nonzero).numerator * Int.gcd n d) := Int.mul_left_comm ..
      _ = d.sign * d.sign * n := by rw [upper, Int.mul_assoc]
      _ = n := by rw [sign, Int.one_mul]
  · calc ((ofNonzero n d nonzero).denominator : Int) * (d.sign * Int.gcd n d)
        = d.sign * ((ofNonzero n d nonzero).denominator * Int.gcd n d : Nat) := by
          rw [Nat.cast_mul, Int.mul_left_comm]
      _ = d := by rw [lower, Int.sign_mul_natAbs]

/-- Both parts are got by divisions that round down, and nothing is left to round. -/
theorem ofNonzero_fdiv (n : Int) (nonzero : d ≠ 0) :
    (ofNonzero n d nonzero).numerator = n.fdiv (divisor n d) ∧
      (ofNonzero n d nonzero).denominator = d.fdiv (divisor n d) ∧
      n.fmod (divisor n d) = 0 ∧ d.fmod (divisor n d) = 0 := by
  have divides := divisor_ne_zero n nonzero
  obtain ⟨upper, lower⟩ := ofNonzero_mul_divisor n nonzero
  have exact {a : Int} {q : Int} (product : q * divisor n d = a) :
      q = a.fdiv (divisor n d) ∧ a.fmod (divisor n d) = 0 := by
    rw [← product]
    exact ⟨(Int.mul_fdiv_cancel q divides).symm, Int.mul_fmod_left q _⟩
  exact ⟨(exact upper).1, (exact lower).1, (exact upper).2, (exact lower).2⟩

/-! ## One fraction for each value -/

theorem ofNonzero_eq_iff (nonzero : d ≠ 0) (nonzero' : d' ≠ 0) :
    ofNonzero n d nonzero = ofNonzero n' d' nonzero' ↔ n * d' = n' * d := by
  have value := (isQuotient_iff_toRat nonzero).1 (isQuotient_ofNonzero n nonzero)
  have value' := (isQuotient_iff_toRat nonzero').1 (isQuotient_ofNonzero n' nonzero')
  have divisor : (d : ℚ) ≠ 0 := by exact_mod_cast nonzero
  have divisor' : (d' : ℚ) ≠ 0 := by exact_mod_cast nonzero'
  rw [← toRat_injective.eq_iff, value, value', div_eq_div_iff divisor divisor']
  norm_cast

/-- A text is that of one fraction, since reading it gives the fraction back. -/
theorem numeral_injective (same : q.numeral = r.numeral) : q = r := by
  have number : Number.ofRational q = .ofRational r := by
    rw [← Option.some.injEq, ← bareNumber?_fraction, ← bareNumber?_fraction, same]
  have denominator {q : Rational} : q.isInteger = true ↔ q.denominator = 1 := decide_eq_true_iff
  unfold Number.ofRational at number
  by_cases whole : q.isInteger = true
  · by_cases whole' : r.isInteger = true
    · rw [if_pos whole, if_pos whole', Number.integer.injEq] at number
      exact (ext_iff_parts q r).2 ⟨number, (denominator.1 whole).trans (denominator.1 whole').symm⟩
    · rw [if_pos whole, if_neg whole'] at number
      cases number
  · by_cases whole' : r.isInteger = true
    · rw [if_neg whole, if_pos whole'] at number
      cases number
    · rw [if_neg whole, if_neg whole', Number.rational.injEq] at number
      exact number

/-- If one of two fractions has a text, the other has it only if they are the same. -/
theorem text_eq_iff {limit : DigitLimit} {s : String} (told : q.text limit = .ok s) :
    r.text limit = .ok s ↔ q = r := by
  constructor
  · intro told'
    exact numeral_injective ((text_eq_ok.1 told).2.symm.trans (text_eq_ok.1 told').2)
  · rintro rfl
    exact told

theorem forall_text_eq_iff : (∀ limit, q.text limit = r.text limit) ↔ q = r := by
  constructor
  · intro same
    have both (q : Rational) : q.text .unlimited = .ok q.numeral :=
      text_eq_ok.2 ⟨⟨DigitLimit.allows_unlimited _, DigitLimit.allows_unlimited _⟩, rfl⟩
    exact (text_eq_iff (both q)).1 ((same .unlimited).symm.trans (both q))
  · rintro rfl limit
    rfl

/-! ## The sign -/

theorem neg_neg (q : Rational) : q.neg.neg = q :=
  (ext_iff_parts _ _).2 ⟨Int.neg_neg q.numerator, rfl⟩

theorem ofInts?_neg (q : Rational) : ofInts? (-q.numerator) q.denominator = some q.neg :=
  ofInts?_parts q.neg

theorem neg_ofNonzero (n : Int) (nonzero : d ≠ 0) :
    (ofNonzero n d nonzero).neg = ofNonzero (-n) d nonzero := by
  have value := isQuotient_ofNonzero n nonzero
  refine IsQuotient.unique nonzero ?_ (isQuotient_ofNonzero (-n) nonzero)
  rw [IsQuotient] at value ⊢
  rw [neg, Int.neg_mul, value, Int.neg_mul]

/-! ## The constructor -/

theorem ofOperands_eq (top : x.toInt = .ok n) (bottom : y.toInt = .ok d) :
    ofOperands x y = match ofInts? n d with
      | some q => .ok q
      | none => .error (.zeroDenominator n) := by
  rw [ofOperands, top, bottom]
  rfl

theorem ofOperands_zero (top : x.toInt = .ok n) (bottom : y.toInt = .ok 0) :
    ofOperands x y = .error (.zeroDenominator n) :=
  ofOperands_eq top bottom

theorem ofOperands_ofNonzero (top : x.toInt = .ok n) (bottom : y.toInt = .ok d) (nonzero : d ≠ 0) :
    ofOperands x y = .ok (ofNonzero n d nonzero) := by
  rw [ofOperands_eq top bottom, ofInts?, dif_neg nonzero]

theorem ofOperands_eq_ok (top : x.toInt = .ok n) (bottom : y.toInt = .ok d)
    (made : ofOperands x y = .ok q) : ∃ nonzero : d ≠ 0, ofNonzero n d nonzero = q := by
  by_cases zero : d = 0
  · subst zero
    rw [ofOperands_zero top bottom] at made
    cases made
  · rw [ofOperands_ofNonzero top bottom zero, Except.ok.injEq] at made
    exact ⟨zero, made⟩

/-- The common divisor of two integers is there for all of them, and every other one divides it. A
fraction is refused if and only if its denominator is zero. What is made of the others is in lowest
terms with the value that was asked for, by divisions that leave nothing; it has the sign changed by
changing that of its numerator, before or after; and two fractions are equal if and only if their
values are, and then they have one hash, and under each limit of digits one text or none. -/
theorem lowest_terms (hashing : Hashing) (top : x.toInt = .ok n) (bottom : y.toInt = .ok d)
    (top' : x'.toInt = .ok n') (bottom' : y'.toInt = .ok d') :
    (∃ g, Integer.gcdOperands x y = .ok g ∧ 0 ≤ g ∧ g ∣ n ∧ g ∣ d ∧
      (∀ c, c ∣ n → c ∣ d → c ∣ g) ∧ (n = 0 → g = d.natAbs)) ∧
    ((∃ e, ofOperands x y = .error e) ↔ d = 0) ∧
    (d = 0 → ofOperands x y = .error (.zeroDenominator n)) ∧
    ∀ q, ofOperands x y = .ok q →
      0 < q.denominator ∧ Nat.gcd q.numerator.natAbs q.denominator = 1 ∧
      q.numerator * d = n * q.denominator ∧
      (q.numerator = n.fdiv (divisor n d) ∧ q.denominator = d.fdiv (divisor n d) ∧
        n.fmod (divisor n d) = 0 ∧ d.fmod (divisor n d) = 0) ∧
      q.neg.numerator = -q.numerator ∧ q.neg.denominator = q.denominator ∧ q.neg.neg = q ∧
      ofOperands (.bare (-q.numerator)) (.exact q.denominator) = .ok q.neg ∧
      ofOperands (.bare (-n)) y = .ok q.neg ∧
      ∀ r, ofOperands x' y' = .ok r →
        (q = r ↔ n * d' = n' * d) ∧
        ((∀ limit, q.text limit = r.text limit) ↔ n * d' = n' * d) ∧
        (∀ limit s, q.text limit = .ok s → (r.text limit = .ok s ↔ n * d' = n' * d)) ∧
        (n * d' = n' * d → q.hash hashing = r.hash hashing) := by
  refine ⟨⟨Integer.gcd n d, Integer.gcdOperands_eq top bottom, ?_⟩, ?_, ?_, ?_⟩
  · rw [gcd_eq]
    refine ⟨Int.natCast_nonneg _, Int.gcd_dvd_left n d, Int.gcd_dvd_right n d,
      fun c left right => Int.dvd_coe_gcd left right, ?_⟩
    rintro rfl
    rw [Int.gcd_zero_left]
  · by_cases zero : d = 0
    · subst zero
      simp [ofOperands_zero top bottom]
    · simp [ofOperands_ofNonzero top bottom zero, zero]
  · rintro rfl
    exact ofOperands_zero top bottom
  · intro q made
    obtain ⟨nonzero, rfl⟩ := ofOperands_eq_ok top bottom made
    refine ⟨denominator_pos _, reduced _, isQuotient_ofNonzero n nonzero, ofNonzero_fdiv n nonzero,
      rfl, rfl, neg_neg _, ?_, ?_, ?_⟩
    · rw [ofOperands_eq rfl rfl, ofInts?_neg]
    · rw [ofOperands_ofNonzero rfl bottom nonzero, neg_ofNonzero]
    · intro r made'
      obtain ⟨nonzero', rfl⟩ := ofOperands_eq_ok top' bottom' made'
      have equal := @ofNonzero_eq_iff n d n' d' nonzero nonzero'
      refine ⟨equal, ?_, ?_, ?_⟩
      · rw [← equal]
        exact forall_text_eq_iff
      · intro limit s told
        rw [← equal]
        exact text_eq_iff told
      · intro cross
        rw [equal.2 cross]

/-- Six over minus four and minus three over two are the same. -/
theorem lowest_terms_negative :
    ∃ q, ofOperands (.bare 6) (.exact (-4)) = .ok q ∧ q.numerator * -4 = 6 * q.denominator ∧
      ofOperands (.bare (-6)) (.exact (-4)) = .ok q.neg ∧
      ∃ r, ofOperands (.bare (-3)) (.bare 2) = .ok r ∧ q = r ∧
        ∀ limit, q.text limit = r.text limit := by
  let hashing : Hashing := ⟨fun n => n, fun _ fields => fields.foldl (fun h n => 31 * h + n) 7⟩
  have top : Operand.toInt (.bare 6) = .ok 6 := rfl
  have bottom : Operand.toInt (.exact (-4)) = .ok (-4) := rfl
  have top' : Operand.toInt (.bare (-3)) = .ok (-3) := rfl
  have bottom' : Operand.toInt (.bare 2) = .ok 2 := rfl
  obtain ⟨-, -, -, every⟩ := lowest_terms hashing top bottom top' bottom'
  have made := ofOperands_ofNonzero top bottom (by decide)
  have made' := ofOperands_ofNonzero top' bottom' (by decide)
  obtain ⟨-, -, value, -, -, -, -, -, negated, others⟩ := every _ made
  obtain ⟨equal, text, -⟩ := others _ made'
  exact ⟨_, made, value, negated, _, made', equal.2 (by decide), text.2 (by decide)⟩

end Rational

end Sexpr
