import Mathlib.Data.Nat.Digits.Defs
import Sexpr.Proofs.Number.Fractions
import Sexpr.Proofs.Number.Numerals
import Sexpr.Proofs.Text.Digits

/-!
What a bare run means.

- `bareNumber?_eq_some`: the runs that are numbers, with the values they have.
- `bareToken_iff`: the token that a run is.
-/

namespace Sexpr

variable {negative : Bool} {cs : List Char} {x : Number} {fmt : Format} {t : Token}

/-! ## Decimal digits -/

namespace Decimal

/-- The number that digits denote, the last one with the weight one and each other one with ten
times the weight of the next. -/
def positional (ds : List Char) : Nat :=
  Nat.ofDigits 10 (ds.reverse.map fun c => c.toNat - '0'.toNat)

theorem value_eq_positional (ds : List Char) : value ds = positional ds :=
  Text.foldl_eq_ofDigits 10 digit ds

/-- Digits, or digits with a slash between them: what stands above and what below. -/
inductive Unsigned : List Char → Nat → Nat → Prop
  | whole {ds : List Char} (digits : Digits ds) : Unsigned ds (positional ds) 1
  | fraction {ds es : List Char} (upper : Digits ds) (lower : Digits es) :
      Unsigned (ds ++ '/' :: es) (positional ds) (positional es)

/-- The same with a minus sign before it, or with none. -/
inductive Numeral : List Char → Int → Nat → Prop
  | plain {cs : List Char} {n d : Nat} (unsigned : Unsigned cs n d) : Numeral cs n d
  | minus {cs : List Char} {n d : Nat} (unsigned : Unsigned cs n d) : Numeral ('-' :: cs) (-n) d

/-- A number is read from a numeral only, which ends at the end of the run. -/
theorem unsigned_of_number? (h : number? negative cs = some x) :
    ∃ n d, Unsigned cs n d ∧ d ≠ 0 ∧ x.IsQuotient (signed negative n) d := by
  -- the digits that the run begins with, and what is left of it
  have parts := List.takeWhile_append_dropWhile (p := isDigit) (l := cs)
  have all : (cs.takeWhile isDigit).all isDigit = true := List.all_takeWhile
  rw [number?_eq_runs?, runs?] at h
  generalize cs.takeWhile isDigit = ds at parts all h
  generalize cs.dropWhile isDigit = rest at parts h
  subst parts
  by_cases none : ds = []
  · simp [none] at h
  · have upper : Digits ds := digits_iff.2 ⟨none, all⟩
    rw [if_neg none] at h
    cases rest with
    | nil =>
      cases h
      rw [List.append_nil, value_eq_positional]
      exact ⟨_, 1, .whole upper, Nat.one_ne_zero, .whole (by simp)⟩
    | cons slash es =>
      by_cases fraction : slash = '/' ∧ es ≠ [] ∧ es.all isDigit = true
      · dsimp only at h
        rw [if_pos fraction, value_eq_positional, value_eq_positional] at h
        obtain ⟨rfl, lower⟩ := fraction
        obtain ⟨divisor, quotient⟩ := Number.quotient_eq_some.1 h
        exact ⟨_, _, .fraction upper (digits_iff.2 lower), Int.natCast_ne_zero.1 divisor,
          quotient⟩
      · simp only [if_neg fraction] at h
        cases h

theorem number?_of_unsigned {n d : Nat} (unsigned : Unsigned cs n d) (nonzero : d ≠ 0)
    (quotient : x.IsQuotient (signed negative n) d) : number? negative cs = some x := by
  have divisor : (d : Int) ≠ 0 := Int.natCast_ne_zero.2 nonzero
  cases unsigned with
  | whole digits =>
    rw [number?_digits negative digits, value_eq_positional, Option.some.injEq]
    exact Number.IsQuotient.unique divisor (.whole (by simp)) quotient
  | fraction upper lower =>
    rw [number?_slash negative upper lower, value_eq_positional, value_eq_positional]
    exact Number.quotient_eq_some.2 ⟨divisor, quotient⟩

theorem Unsigned.first {n d : Nat} (h : Unsigned cs n d) :
    ∃ c rest, cs = c :: rest ∧ isDigit c = true := by
  have first {ds : List Char} (digits : Digits ds) :
      ∃ c rest, ds = c :: rest ∧ isDigit c = true := by
    obtain ⟨c, rest, rfl⟩ := List.exists_cons_of_ne_nil digits.1
    exact ⟨c, rest, rfl, isDigit_iff.2 (digits.2 c List.mem_cons_self)⟩
  cases h with
  | whole digits => exact first digits
  | fraction upper _ =>
    obtain ⟨c, rest, rfl, digit⟩ := first upper
    exact ⟨c, _, rfl, digit⟩

end Decimal

theorem bareNumber?_eq_some :
    bareNumber? cs = some x ↔ ∃ n d, Decimal.Numeral cs n d ∧ d ≠ 0 ∧ x.IsQuotient n d := by
  constructor
  · intro h
    cases cs with
    | nil => cases h
    | cons c cs =>
      by_cases digit : Decimal.isDigit c = true
      · rw [bareNumber?, if_pos digit] at h
        obtain ⟨n, d, unsigned, nonzero, quotient⟩ := Decimal.unsigned_of_number? h
        exact ⟨n, d, .plain unsigned, nonzero, quotient⟩
      · by_cases minus : c = '-'
        · subst minus
          rw [bareNumber?, if_neg digit, if_pos rfl] at h
          obtain ⟨n, d, unsigned, nonzero, quotient⟩ := Decimal.unsigned_of_number? h
          exact ⟨-n, d, .minus unsigned, nonzero, quotient⟩
        · rw [bareNumber?, if_neg digit, if_neg minus] at h
          cases h
  · rintro ⟨n, d, numeral, nonzero, quotient⟩
    cases numeral with
    | plain unsigned =>
      obtain ⟨c, rest, rfl, digit⟩ := unsigned.first
      rw [bareNumber?, if_pos digit]
      exact Decimal.number?_of_unsigned unsigned nonzero quotient
    | minus unsigned =>
      rw [bareNumber?, if_neg (by decide), if_pos rfl]
      exact Decimal.number?_of_unsigned unsigned nonzero quotient

/-! ## Runs -/

/-- The run is a numeral, and does not divide by zero. -/
def Numeric (cs : List Char) : Prop := ∃ n d, Decimal.Numeral cs n d ∧ d ≠ 0

theorem bareNumber?_eq_none : bareNumber? cs = none ↔ ¬ Numeric cs := by
  rw [Option.eq_none_iff_forall_ne_some]
  constructor
  · rintro none ⟨n, d, numeral, nonzero⟩
    obtain ⟨x, quotient⟩ := Number.exists_isQuotient n (Int.natCast_ne_zero.2 nonzero)
    exact none x (bareNumber?_eq_some.2 ⟨n, d, numeral, nonzero, quotient⟩)
  · intro noNumber x number
    obtain ⟨n, d, numeral, nonzero, -⟩ := bareNumber?_eq_some.1 number
    exact noNumber ⟨n, d, numeral, nonzero⟩

/-- What a run means in a format: a dot, else a number, else a keyword for its first character, else
one for its last, else a symbol. -/
inductive Means (fmt : Format) (cs : List Char) : Token → Prop
  | dot (lone : cs = ['.']) (pairs : fmt.hasDottedPairs = true) : Means fmt cs .dot
  | number {n : Int} {d : Nat} {x : Number} (numeral : Decimal.Numeral cs n d) (nonzero : d ≠ 0)
      (quotient : x.IsQuotient n d) : Means fmt cs (.atom (.number x))
  | leadingKeyword {name : List Char} (noNumber : ¬ Numeric cs) (colon : cs = ':' :: name) :
      Means fmt cs (.atom (.leadingKeyword (String.ofList name)))
  | trailingKeyword {name : List Char} (noNumber : ¬ Numeric cs) (noLeading : cs.head? ≠ some ':')
      (colon : cs = name ++ [':']) :
      Means fmt cs (.atom (.trailingKeyword (String.ofList name)))
  | symbol (noDot : ¬ (cs = ['.'] ∧ fmt.hasDottedPairs = true)) (noNumber : ¬ Numeric cs)
      (noLeading : cs.head? ≠ some ':') (noTrailing : cs.getLast? ≠ some ':') :
      Means fmt cs (.atom (.symbol (String.ofList cs)))

theorem means_bareToken (fmt : Format) (cs : List Char) : Means fmt cs (bareToken fmt cs) := by
  unfold bareToken
  by_cases dot : cs = ['.'] ∧ fmt.hasDottedPairs = true
  · rw [if_pos dot]
    exact .dot dot.1 dot.2
  · rw [if_neg dot, bareAtom]
    cases number : bareNumber? cs with
    | some x =>
      obtain ⟨n, d, numeral, nonzero, quotient⟩ := bareNumber?_eq_some.1 number
      exact .number numeral nonzero quotient
    | none =>
      have noNumber := bareNumber?_eq_none.1 number
      dsimp only
      by_cases leading : cs.head? = some ':'
      · rw [if_pos leading]
        obtain ⟨name, rfl⟩ := List.head?_eq_some_iff.1 leading
        exact .leadingKeyword noNumber rfl
      · rw [if_neg leading]
        by_cases trailing : cs.getLast? = some ':'
        · rw [if_pos trailing]
          obtain ⟨name, rfl⟩ := List.getLast?_eq_some_iff.1 trailing
          rw [List.dropLast_concat]
          exact .trailingKeyword noNumber leading rfl
        · rw [if_neg trailing]
          exact .symbol dot noNumber leading trailing

theorem bareToken_of_noDot (noDot : cs ≠ ['.']) : bareToken fmt cs = .atom (bareAtom cs) := by
  rw [bareToken, if_neg]
  rintro ⟨lone, -⟩
  exact noDot lone

theorem Means.bareToken_eq (h : Means fmt cs t) : bareToken fmt cs = t := by
  cases h with
  | dot lone pairs => rw [bareToken, if_pos ⟨lone, pairs⟩]
  | number numeral nonzero quotient =>
    have number := bareNumber?_eq_some.2 ⟨_, _, numeral, nonzero, quotient⟩
    have noDot : cs ≠ ['.'] := by
      rintro rfl
      cases number
    rw [bareToken_of_noDot noDot, bareAtom, number]
  | leadingKeyword noNumber colon =>
    subst colon
    rw [bareToken_of_noDot (by simp), bareAtom, bareNumber?_eq_none.2 noNumber]
    rfl
  | @trailingKeyword name noNumber noLeading colon =>
    subst colon
    have noDot : name ++ [':'] ≠ ['.'] := by
      intro lone
      cases name <;> simp at lone
    rw [bareToken_of_noDot noDot, bareAtom, bareNumber?_eq_none.2 noNumber]
    dsimp only
    rw [if_neg noLeading, if_pos List.getLast?_concat, List.dropLast_concat]
  | symbol noDot noNumber noLeading noTrailing =>
    rw [bareToken, if_neg noDot, bareAtom, bareNumber?_eq_none.2 noNumber]
    dsimp only
    rw [if_neg noLeading, if_neg noTrailing]

/-- A run with any character is the token that it means, in every format. -/
theorem bareToken_iff (fmt : Format) (c : Char) (cs : List Char) (t : Token) :
    bareToken fmt (c :: cs) = t ↔ Means fmt (c :: cs) t := by
  constructor
  · rintro rfl
    exact means_bareToken fmt (c :: cs)
  · exact Means.bareToken_eq

/-- A slash with no digits after it is no number. -/
example : bareToken .gambit "-07/".toList = .atom (.symbol "-07/") := by rfl

end Sexpr
