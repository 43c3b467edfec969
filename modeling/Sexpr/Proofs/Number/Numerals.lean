import Sexpr.Scan.Bare

/-!
Numerals read back: the digits of a number denote it.

- `number?_eq_runs?`: the digits of a run are read up to a slash, and those after it.
- `bareNumber?_numeral`: the text of a number is a run that means this number, unless it is a
  fraction with the denominator one.
- `Number.text_eq_ok`: a number has this text if it is within the limit of digits.
-/

namespace Sexpr

namespace Decimal

def value (cs : List Char) : Nat :=
  cs.foldl (fun n c => n * 10 + digit c) 0

def signed (negative : Bool) (n : Nat) : Int :=
  if negative then -n else n

/-- Some digits, with nothing between them. -/
def Digits (ds : List Char) : Prop := ds ≠ [] ∧ ∀ c ∈ ds, '0' ≤ c ∧ c ≤ '9'

/-- The number of digits up to a slash and of others after it, if there is a slash. -/
def runs? (negative : Bool) (cs : List Char) : Option Number :=
  let upper := cs.takeWhile isDigit
  if upper = [] then none
  else match cs.dropWhile isDigit with
    | [] => some (.integer (signed negative (value upper)))
    | c :: lower =>
        if c = '/' ∧ lower ≠ [] ∧ lower.all isDigit = true then
          (Rational.ofInts? (signed negative (value upper)) (value lower)).map Number.ofRational
        else none

namespace Parts

variable {ds : List Char}

theorem foldlM_upper (digits : ds.all isDigit = true) (n : Nat) (some' : Bool) :
    ds.foldlM add ⟨n, none, some'⟩ =
      some ⟨(ds.foldl (fun n c => n * 10 + digit c) n : Nat), none, some' || !ds.isEmpty⟩ := by
  induction ds generalizing n some' with
  | nil => simp
  | cons c ds ih =>
    obtain ⟨first, later⟩ := (Bool.and_eq_true _ _).mp digits
    have next : add ⟨n, none, some'⟩ c = some ⟨(n * 10 + digit c : Nat), none, true⟩ := by
      simp [add, first, Integer.mulAdd]
    rw [List.foldlM_cons, next]
    simpa using ih later (n * 10 + digit c) true

theorem foldlM_lower (digits : ds.all isDigit = true) (upper : Int) (n : Nat) (some' : Bool) :
    ds.foldlM add ⟨upper, some (n : Int), some'⟩ =
      some ⟨upper, some ((ds.foldl (fun n c => n * 10 + digit c) n : Nat) : Int),
        some' || !ds.isEmpty⟩ := by
  induction ds generalizing n some' with
  | nil => simp
  | cons c ds ih =>
    obtain ⟨first, later⟩ := (Bool.and_eq_true _ _).mp digits
    have next : add ⟨upper, some (n : Int), some'⟩ c =
        some ⟨upper, some ((n * 10 + digit c : Nat) : Int), true⟩ := by
      simp [add, first, Integer.mulAdd]
    rw [List.foldlM_cons, next]
    simpa using ih later (n * 10 + digit c) true

/-- After a slash nothing but digits can follow. -/
theorem foldlM_broken (other : ds.all isDigit = false) (upper lower : Int) (some' : Bool) :
    ds.foldlM add ⟨upper, some lower, some'⟩ = none := by
  induction ds generalizing lower some' with
  | nil => cases other
  | cons c ds ih =>
    rw [List.foldlM_cons]
    by_cases first : isDigit c = true
    · rw [List.all_cons, first, Bool.true_and] at other
      simp only [add, first, if_true]
      exact ih other _ true
    · simp [add, first]

end Parts

/-- Adding the characters one by one comes to the number of the runs. -/
theorem number?_eq_runs? (negative : Bool) (cs : List Char) :
    number? negative cs = runs? negative cs := by
  have parts := List.takeWhile_append_dropWhile (p := isDigit) (l := cs)
  have all : (cs.takeWhile isDigit).all isDigit = true := List.all_takeWhile
  have stops : ∀ c ∈ (cs.dropWhile isDigit).head?, isDigit c = false := by
    have next := List.head?_dropWhile_not isDigit cs
    intro c hc
    rwa [hc] at next
  rw [number?, ← parts, List.foldlM_append, parts, runs?]
  generalize cs.takeWhile isDigit = ds at all
  generalize cs.dropWhile isDigit = rest at stops
  -- what is taken before the first character that is no digit
  have upper := Parts.foldlM_upper all 0 false
  rw [show Parts.start = ⟨(0 : Nat), none, false⟩ from rfl, upper]
  cases rest with
  | nil => by_cases noDigits : ds = [] <;> simp [noDigits, Parts.number?, signed, value]
  | cons c lower =>
    have other : isDigit c = false := stops c rfl
    by_cases noDigits : ds = []
    · simp [noDigits, Parts.add, other]
    · have filled : ds.isEmpty = false := by simpa using noDigits
      rw [if_neg noDigits, filled]
      by_cases slash : c = '/'
      · subst slash
        have next (upper : Int) :
            Parts.add ⟨upper, none, true⟩ '/' = some ⟨upper, some 0, false⟩ := rfl
        simp only [Bool.not_false, Bool.or_true, Option.bind_eq_bind, Option.bind_some,
          List.foldlM_cons, next]
        cases digits : lower.all isDigit with
        | false => simp [Parts.foldlM_broken digits]
        | true =>
          have below := Parts.foldlM_lower digits (value ds) 0 false
          rw [value, Int.natCast_zero] at below
          by_cases nothing : lower = []
          · simp [nothing, Parts.number?]
          · rw [below]
            simp [nothing, Parts.number?, signed, value]
      · simp [Parts.add, other, slash]

theorem isDigit_iff {c : Char} : isDigit c = true ↔ '0' ≤ c ∧ c ≤ '9' := by
  simp [isDigit]

theorem digits_iff {ds : List Char} : Digits ds ↔ ds ≠ [] ∧ ds.all isDigit = true := by
  simp only [Digits, List.all_eq_true, isDigit_iff]

theorem isDigit_of_mem_toDigits {n : Nat} {c : Char} (h : c ∈ Nat.toDigits 10 n) :
    isDigit c = true := by
  have digit := Nat.isDigit_of_mem_toDigits (by decide) (by decide) h
  simpa [Char.isDigit, isDigit, Char.le_def] using digit

theorem digits_toDigits (n : Nat) : Digits (Nat.toDigits 10 n) := by
  refine ⟨Nat.toDigits_ne_nil, ?_⟩
  intro c hc
  exact isDigit_iff.1 (isDigit_of_mem_toDigits hc)

theorem value_toDigits (n : Nat) : value (Nat.toDigits 10 n) = n := by
  have digits := Nat.ofDigitChars_ten_toDigits (n := n)
  simpa [Nat.ofDigitChars_eq_foldl, value, digit, Nat.mul_comm] using digits

/-- Digits end at the first character that is none. -/
theorem span_digits {ds cs : List Char} (digits : Digits ds)
    (h : ∀ c ∈ cs.head?, isDigit c = false) :
    (ds ++ cs).takeWhile isDigit = ds ∧ (ds ++ cs).dropWhile isDigit = cs := by
  have all : ∀ c ∈ ds, isDigit c = true := by
    intro c hc
    exact isDigit_iff.2 (digits.2 c hc)
  rw [List.takeWhile_append_of_pos all, List.dropWhile_append_of_pos all]
  cases cs with
  | nil => simp
  | cons c cs => simp [h c rfl]

theorem number?_digits (negative : Bool) {ds : List Char} (digits : Digits ds) :
    number? negative ds = some (.integer (signed negative (value ds))) := by
  have run := @span_digits ds [] digits (by simp)
  rw [List.append_nil] at run
  simp [number?_eq_runs?, runs?, run.1, run.2, digits.1]

theorem number?_slash (negative : Bool) {ds es : List Char} (upper : Digits ds)
    (lower : Digits es) :
    number? negative (ds ++ '/' :: es) =
      (Rational.ofInts? (signed negative (value ds)) (value es)).map Number.ofRational := by
  have run := @span_digits ds ('/' :: es) upper (by simp [isDigit])
  obtain ⟨some, all⟩ := digits_iff.1 lower
  simp [number?_eq_runs?, runs?, run.1, run.2, upper.1, some, all]

theorem number?_toDigits (negative : Bool) (n : Nat) :
    number? negative (Nat.toDigits 10 n) = some (.integer (signed negative n)) := by
  rw [number?_digits negative (digits_toDigits n), value_toDigits]

theorem number?_fraction (negative : Bool) (n d : Nat) :
    number? negative (Nat.toDigits 10 n ++ '/' :: Nat.toDigits 10 d) =
      (Rational.ofInts? (signed negative n) d).map Number.ofRational := by
  rw [number?_slash negative (digits_toDigits n) (digits_toDigits d), value_toDigits,
    value_toDigits]

/-- A number is made of digits and at most one slash. -/
theorem mem_of_number? {negative : Bool} {cs : List Char} {n : Number}
    (h : number? negative cs = some n) {c : Char} (hc : c ∈ cs) : isDigit c = true ∨ c = '/' := by
  rw [number?_eq_runs?] at h
  rw [← List.takeWhile_append_dropWhile (p := isDigit) (l := cs), List.mem_append] at hc
  rcases hc with upper | later
  · exact .inl (List.all_eq_true.1 List.all_takeWhile c upper)
  · by_cases none : cs.takeWhile isDigit = []
    · simp [runs?, none] at h
    · cases rest : cs.dropWhile isDigit with
      | nil => simp [rest] at later
      | cons slash lower =>
        by_cases fraction : slash = '/' ∧ lower ≠ [] ∧ lower.all isDigit = true
        · rw [rest] at later
          rcases List.mem_cons.1 later with rfl | later
          · exact .inr fraction.1
          · exact .inl (List.all_eq_true.1 fraction.2.2 c later)
        · simp only [runs?, none, rest, if_false, if_neg fraction] at h
          cases h

theorem signed_natAbs (n : Int) : signed (decide (n < 0)) n.natAbs = n := by
  by_cases negative : n < 0
  · simp only [signed, negative, decide_true, if_true]
    omega
  · simp only [signed, negative, decide_false, Bool.false_eq_true, if_false]
    omega

end Decimal

theorem Rational.ofInts?_parts (q : Rational) :
    Rational.ofInts? q.numerator q.denominator = some q := by
  have positive := q.denominator_pos
  have nonzero : (q.denominator : Int) ≠ 0 := by omega
  have unit : Integer.gcd q.numerator q.denominator = 1 := by
    simp [Integer.gcd, Integer.euclid_eq_gcd, q.reduced]
  have unit' : Integer.euclid q.numerator.natAbs q.denominator = 1 := by
    rw [Integer.euclid_eq_gcd, q.reduced]
  have negative : ¬ (q.denominator : Int) < 0 := by omega
  rw [Rational.ofInts?, dif_neg nonzero, Option.some.injEq, Rational.ext_iff_parts]
  simp [Rational.ofNonzero, unit, unit', negative]

theorem toList_toString_int (n : Int) :
    (toString n).toList =
      (if n < 0 then ['-'] else []) ++ Nat.toDigits 10 n.natAbs := by
  rw [Int.toString_eq_repr, Int.repr_eq_if]
  by_cases negative : n < 0
  · have nonneg : ¬ 0 ≤ n := by omega
    have abs : (-n).toNat = n.natAbs := by omega
    simp [negative, nonneg, abs]
  · have nonneg : 0 ≤ n := by omega
    have abs : n.toNat = n.natAbs := by omega
    simp [negative, nonneg, abs]

/-- The sign is taken off before the digits are read. -/
theorem bareNumber?_toString (n : Int) (cs : List Char) :
    bareNumber? ((toString n).toList ++ cs) =
      Decimal.number? (decide (n < 0)) (Nat.toDigits 10 n.natAbs ++ cs) := by
  rw [toList_toString_int]
  by_cases negative : n < 0
  · simp [negative, bareNumber?, Decimal.isDigit]
  · cases digits : Nat.toDigits 10 n.natAbs with
    | nil => exact absurd digits Nat.toDigits_ne_nil
    | cons c ds =>
      have member : c ∈ Nat.toDigits 10 n.natAbs := by
        rw [digits]
        exact List.mem_cons_self
      have digit := Decimal.isDigit_of_mem_toDigits member
      simp [negative, bareNumber?, digit]

/-! ## Texts of numbers -/

/-- The parts of a fraction with a slash between them. -/
def Rational.numeral (q : Rational) : String := s!"{q.numerator}/{q.denominator}"

/-- The text of a number, where it is not too long. -/
def Number.numeral : Number → String
  | .integer n => toString n
  | .rational q => q.numeral

/-- A number whose digits are not too many for a limit, above and below. -/
def Number.Within (limit : DigitLimit) : Number → Prop
  | .integer n => limit.Allows n
  | .rational q => limit.Allows q.numerator ∧ limit.Allows q.denominator

section
variable {limit : DigitLimit} {q : Rational} {n : Number} {s : String} {e : DigitsError}

theorem Rational.text_eq_ok : q.text limit = .ok s ↔
    (limit.Allows q.numerator ∧ limit.Allows q.denominator) ∧ s = q.numeral := by
  unfold Rational.text
  rcases Integer.text_cases limit q.numerator with ⟨upper, told⟩ | ⟨most, -, upper, told⟩
  · rcases Integer.text_cases limit q.denominator with ⟨lower, told'⟩ | ⟨most, -, lower, told'⟩
    · have digits : toString (q.denominator : Int) = toString q.denominator := rfl
      simp only [told, told', digits, upper, lower, Except.bind, Except.map, Except.ok.injEq,
        and_self, true_and]
      exact eq_comm
    · simp [told, told', lower, Except.bind, Except.map]
  · simp [told, upper, Except.bind]

theorem Rational.text_eq_error (h : q.text limit = .error e) :
    ¬ (limit.Allows q.numerator ∧ limit.Allows q.denominator) ∧ limit.most? = some e.most := by
  unfold Rational.text at h
  cases upper : Integer.text limit q.numerator with
  | error e' =>
    rw [upper] at h
    cases h
    exact (Integer.text_eq_error upper).imp_left fun refused both => refused both.1
  | ok s =>
    cases lower : Integer.text limit q.denominator with
    | error e' =>
      rw [upper, lower] at h
      cases h
      exact (Integer.text_eq_error lower).imp_left fun refused both => refused both.2
    | ok t => simp [upper, lower, Except.bind, Except.map] at h

/-- A number is written out if and only if it is within the limit. -/
theorem Number.text_eq_ok : n.text limit = .ok s ↔ n.Within limit ∧ s = n.numeral := by
  cases n with
  | integer n => exact Integer.text_eq_ok
  | rational q => exact Rational.text_eq_ok

theorem Number.text_eq_error (h : n.text limit = .error e) :
    ¬ n.Within limit ∧ limit.most? = some e.most := by
  cases n with
  | integer n => exact Integer.text_eq_error h
  | rational q => exact Rational.text_eq_error h

end

/-- A fraction with the denominator one is written like one, but reads as an integer. -/
def Number.Lasting : Number → Prop
  | .integer _ => True
  | .rational q => q.denominator ≠ 1

theorem bareNumber?_fraction (q : Rational) :
    bareNumber? q.numeral.toList = some (.ofRational q) := by
  have text : q.numeral.toList = (toString q.numerator).toList ++
      '/' :: Nat.toDigits 10 q.denominator := by
    simp [Rational.numeral, toString]
  rw [text, bareNumber?_toString, Decimal.number?_fraction, Decimal.signed_natAbs,
    Rational.ofInts?_parts, Option.map_some]

theorem bareNumber?_numeral {n : Number} (h : n.Lasting) :
    bareNumber? n.numeral.toList = some n := by
  cases n with
  | integer n =>
    rw [Number.numeral, ← List.append_nil (toString n).toList, bareNumber?_toString,
      List.append_nil, Decimal.number?_toDigits, Decimal.signed_natAbs]
  | rational q =>
    have fraction : q.isInteger = false := decide_eq_false h
    rw [Number.numeral, bareNumber?_fraction, Number.ofRational, fraction]
    rfl

end Sexpr
