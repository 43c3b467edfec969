import Mathlib.Data.List.Basic
import Mathlib.Data.Nat.Digits.Defs
import Sexpr.Text.Escape

/-!
Digits of the bases sixteen and eight, by the place that a digit has in an alphabet.

- `hexDigit?_eq_some`, `octalDigit?_eq_some`: the characters that are read as digits, and as which.
- `positional_hex`: the digits that a number is written with denote the number.
-/

namespace Sexpr.Text

/-- The digits of the bases up to sixteen, each at the place of its value. -/
def alphabet : List Char :=
  ['0', '1', '2', '3', '4', '5', '6', '7', '8', '9', 'a', 'b', 'c', 'd', 'e', 'f']

/-- A digit of a base; a letter may also be a capital. -/
def IsDigit (base : Nat) (c : Char) : Prop := c.toLower ∈ alphabet.take base

instance (base : Nat) : DecidablePred (IsDigit base) :=
  fun c => inferInstanceAs (Decidable (c.toLower ∈ alphabet.take base))

def digitValue (c : Char) : Nat := alphabet.idxOf c.toLower

/-- The number that digits of a base denote, the last one with the weight one and each other one
with the base times the weight of the next. -/
def positional (base : Nat) (ds : List Char) : Nat := Nat.ofDigits base (ds.reverse.map digitValue)

/-! ## The digits that are read -/

theorem IsDigit.ascii {base : Nat} {c : Char} (h : IsDigit base c) : c.toNat < 128 := by
  by_contra far
  have lower : c.toLower = c := by
    apply dif_neg
    rintro ⟨-, capital⟩
    exact far (Nat.lt_of_le_of_lt (UInt32.le_iff_toNat_le.1 capital) (by decide))
  have small : alphabet.all (fun x => x.toNat < 128) = true := rfl
  rw [IsDigit, lower] at h
  exact far (of_decide_eq_true (List.all_eq_true.1 small c (List.mem_of_mem_take h)))

/-- In ASCII the ranges of the digits agree with the alphabet. -/
theorem digits_ascii : ∀ n < 128,
    hexDigit? (Char.ofNat n) =
      (if IsDigit 16 (Char.ofNat n) then some (digitValue (Char.ofNat n)) else none) ∧
    octalDigit? (Char.ofNat n) =
      if IsDigit 8 (Char.ofNat n) then some (digitValue (Char.ofNat n)) else none := by
  decide

variable {c : Char} {d : Nat}

theorem hexDigit?_eq (c : Char) :
    hexDigit? c = if IsDigit 16 c then some (digitValue c) else none := by
  by_cases ascii : c.toNat < 128
  · have same := (digits_ascii c.toNat ascii).1
    rwa [Char.ofNat_toNat] at same
  · rw [if_neg fun digit => ascii digit.ascii]
    simp only [hexDigit?, Char.le_def, UInt32.le_iff_toNat_le, Char.toNat_val, Char.reduceToNat]
    rw [if_neg (by omega), if_neg (by omega), if_neg (by omega)]

theorem octalDigit?_eq (c : Char) :
    octalDigit? c = if IsDigit 8 c then some (digitValue c) else none := by
  by_cases ascii : c.toNat < 128
  · have same := (digits_ascii c.toNat ascii).2
    rwa [Char.ofNat_toNat] at same
  · rw [if_neg fun digit => ascii digit.ascii]
    simp only [octalDigit?, Char.le_def, UInt32.le_iff_toNat_le, Char.toNat_val, Char.reduceToNat]
    rw [if_neg (by omega)]

theorem hexDigit?_eq_some : hexDigit? c = some d ↔ IsDigit 16 c ∧ digitValue c = d := by
  rw [hexDigit?_eq, Option.ite_none_right_eq_some, Option.some.injEq]

theorem hexDigit?_eq_none : hexDigit? c = none ↔ ¬ IsDigit 16 c := by
  simp [hexDigit?_eq]

theorem octalDigit?_eq_some : octalDigit? c = some d ↔ IsDigit 8 c ∧ digitValue c = d := by
  rw [octalDigit?_eq, Option.ite_none_right_eq_some, Option.some.injEq]

theorem octalDigit?_eq_none : octalDigit? c = none ↔ ¬ IsDigit 8 c := by
  simp [octalDigit?_eq]

/-! ## The numbers that digits denote -/

/-- Reading digits one by one keeps the number that those before denote. -/
theorem foldl_eq_ofDigits (base : Nat) (value : Char → Nat) (ds : List Char) :
    ds.foldl (fun n c => n * base + value c) 0 = Nat.ofDigits base (ds.reverse.map value) := by
  simp [Nat.ofDigits_eq_foldr, List.foldl_map, Nat.mul_comm, Nat.add_comm]

/-- The number that digits denote after digits that denote `code`. -/
def positionalFrom (base code : Nat) (ds : List Char) : Nat :=
  ds.foldl (fun n c => n * base + digitValue c) code

theorem positionalFrom_zero (base : Nat) (ds : List Char) :
    positionalFrom base 0 ds = positional base ds :=
  foldl_eq_ofDigits base digitValue ds

theorem positionalFrom_cons (base code : Nat) (c : Char) (ds : List Char) :
    positionalFrom base code (c :: ds) = positionalFrom base (code * base + digitValue c) ds :=
  rfl

theorem positionalFrom_append (base code : Nat) (cs ds : List Char) :
    positionalFrom base code (cs ++ ds) =
      positionalFrom base (positionalFrom base code cs) ds :=
  List.foldl_append

theorem foldl_hexDigit? {ds : List Char} (digits : ∀ c ∈ ds, IsDigit 16 c) :
    ds.foldl (fun n c => n * 16 + (hexDigit? c).getD 0) 0 = positional 16 ds := by
  rw [← positionalFrom_zero, positionalFrom]
  apply List.foldl_ext
  intro n c hc
  rw [hexDigit?_eq, if_pos (digits c hc), Option.getD_some]

/-! ## The digits that are written -/

theorem digitChar_hex : ∀ d < 16,
    IsDigit 16 (Nat.digitChar d) ∧ digitValue (Nat.digitChar d) = d := by
  decide

theorem positional_toDigits (n : Nat) :
    positionalFrom 16 0 (Nat.toDigits 16 n) = n ∧ ∀ c ∈ Nat.toDigits 16 n, IsDigit 16 c := by
  induction n using Nat.strongRecOn with
  | ind n ih =>
    by_cases single : n < 16
    · obtain ⟨digit, value⟩ := digitChar_hex n single
      simp [Nat.toDigits_of_lt_base single, positionalFrom, value, digit]
    · obtain ⟨digit, last⟩ := digitChar_hex (n % 16) (Nat.mod_lt n (by decide))
      obtain ⟨value, digits⟩ := ih (n / 16) (by omega)
      rw [Nat.toDigits_of_base_le (by decide) (by omega), positionalFrom_append, value,
        positionalFrom_cons, last]
      refine ⟨Nat.div_add_mod' n 16, ?_⟩
      intro c hc
      rcases List.mem_append.1 hc with upper | unit
      · exact digits c upper
      · rwa [List.mem_singleton.1 unit]

theorem positionalFrom_zeros (k : Nat) : positionalFrom 16 0 (List.replicate k '0') = 0 := by
  induction k with
  | zero => rfl
  | succ k ih => exact ih

/-- Zeros before the digits of a number change nothing. -/
theorem positional_hex (width n : Nat) :
    positional 16 (hex width n).toList = n ∧ ∀ c ∈ (hex width n).toList, IsDigit 16 c := by
  obtain ⟨value, digits⟩ := positional_toDigits n
  rw [← positionalFrom_zero, hex, String.toList_ofList, positionalFrom_append,
    positionalFrom_zeros]
  refine ⟨value, ?_⟩
  intro c hc
  rcases List.mem_append.1 hc with zero | digit
  · rw [List.eq_of_mem_replicate zero]
    decide
  · exact digits c digit

theorem length_hex_four {n : Nat} (h : n < 65536) : (hex 4 n).toList.length = 4 := by
  have few := (Nat.length_toDigits_le_iff (b := 16) (k := 4) (by decide) (by decide)).2 h
  simp only [hex, String.toList_ofList, List.length_append, List.length_replicate]
  omega

end Sexpr.Text
