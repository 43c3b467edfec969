/-!
How many digits an integer may have to be written out.
-/

namespace Sexpr

/-- The most digits that are written out, if there is such a limit. None below 640 can be set, which
is more than the codes of characters have. -/
structure DigitLimit where
  most? : Option Nat
  enough : ∀ most ∈ most?, 640 ≤ most

namespace DigitLimit

def unlimited : DigitLimit := ⟨none, nofun⟩

/-- The limit where none is set. -/
def standard : DigitLimit := ⟨some 4300, by simp⟩

/-- An integer with at most so many digits, its sign not counted. -/
def Allows (limit : DigitLimit) (n : Int) : Prop :=
  ∀ most ∈ limit.most?, (Nat.toDigits 10 n.natAbs).length ≤ most

theorem allows_unlimited (n : Int) : unlimited.Allows n := nofun

/-- Every limit allows as many digits as can be the least. -/
theorem allows_of_length {limit : DigitLimit} {n : Int}
    (few : (Nat.toDigits 10 n.natAbs).length ≤ 640) : limit.Allows n :=
  fun most set => Nat.le_trans few (limit.enough most set)

end DigitLimit

/-- An integer has more than `most` digits. -/
structure DigitsError where
  most : Nat
  deriving DecidableEq, Repr

def DigitsError.message (e : DigitsError) : String :=
  s!"Exceeds the limit ({e.most} digits) for integer string conversion; " ++
    "use sys.set_int_max_str_digits() to increase the limit"

namespace Integer

/-- The decimal digits of an integer, after a minus if it is negative. -/
def text (limit : DigitLimit) (n : Int) : Except DigitsError String :=
  match limit.most? with
  | none => .ok (toString n)
  | some most => if n.natAbs.repr.length ≤ most then .ok (toString n) else .error ⟨most⟩

variable {limit : DigitLimit} {n : Int}

theorem text_cases (limit : DigitLimit) (n : Int) :
    (limit.Allows n ∧ text limit n = .ok (toString n)) ∨
      ∃ most, limit.most? = some most ∧ ¬ limit.Allows n ∧ text limit n = .error ⟨most⟩ := by
  cases set : limit.most? with
  | none => exact .inl ⟨by simp [DigitLimit.Allows, set], by simp [text, set]⟩
  | some most =>
    have few : n.natAbs.repr.length ≤ most ↔ limit.Allows n := by
      simp [DigitLimit.Allows, set, Nat.repr]
    by_cases allowed : limit.Allows n
    · exact .inl ⟨allowed, by simp [text, set, few.2 allowed]⟩
    · exact .inr ⟨most, rfl, allowed, by simp [text, set, mt few.1 allowed]⟩

theorem text_eq_ok {s : String} : text limit n = .ok s ↔ limit.Allows n ∧ s = toString n := by
  rcases text_cases limit n with ⟨allowed, told⟩ | ⟨most, -, refused, told⟩
  · simp [told, allowed, eq_comm]
  · simp [told, refused]

theorem text_eq_error {e : DigitsError} (h : text limit n = .error e) :
    ¬ limit.Allows n ∧ limit.most? = some e.most := by
  rcases text_cases limit n with ⟨-, told⟩ | ⟨most, set, refused, told⟩
  · rw [told] at h
    cases h
  · rw [told] at h
    cases h
    exact ⟨refused, set⟩

end Integer

end Sexpr
