import Mathlib.Data.List.Basic
import Sexpr.Text.Utf8

/-!
Text that was encoded is decoded again, wherever the bytes are broken off.

- `decodeFrom_encoded`: the bytes of a character give the character.
- `decodeFrom_prefix`: what begins encoded characters decodes to the first of them, and keeps the
  bytes of the next one.
-/

namespace Sexpr.Text.Utf8

/-- The bytes of some characters. -/
def encode (cs : List Char) : List UInt8 := cs.flatMap String.utf8EncodeChar

theorem encode_cons (c : Char) (cs : List Char) :
    encode (c :: cs) = String.utf8EncodeChar c ++ encode cs := List.flatMap_cons

theorem toUTF8_toList (s : String) : s.toUTF8.toList = encode s.toList := by
  have loop (bytes : ByteArray) (i : Nat) (found : List UInt8) :
      ByteArray.toList.loop bytes i found = found.reverse ++ bytes.data.toList.drop i := by
    fun_induction ByteArray.toList.loop bytes i found with
    | case1 i found more ih =>
      have inside : i < bytes.data.toList.length := by simpa using more
      rw [ih, List.drop_eq_getElem_cons inside]
      simp [ByteArray.get!, more]
    | case2 i found passed =>
      rw [List.drop_eq_nil_of_le (by simpa using Nat.le_of_not_lt passed)]
      simp
  have data (bytes : ByteArray) : bytes.toList = bytes.data.toList := by
    simp [ByteArray.toList, loop]
  rw [String.toUTF8_eq_toByteArray, ← String.utf8Encode_toList, data, List.utf8Encode,
    List.toList_data_toByteArray, encode]

/-! ## One character -/

/-- Bytes that may follow a first byte: one in a range, and then others in the common one. -/
def Continues (low high : Nat) : List UInt8 → Prop
  | [] => True
  | b :: bs => (low ≤ b.toNat ∧ b.toNat ≤ high) ∧ Continues 0x80 0xbf bs

/-- A code with six more bits from each byte. -/
def codeAfter (code : Nat) (bytes : List UInt8) : Nat :=
  bytes.foldl (fun code b => code * 64 + b.toNat % 64) code

theorem follow_code {more low high : Nat} {bytes : List UInt8} (h : Continues low high bytes)
    (all : bytes.length = more) (code valid : Nat) (rest : List UInt8) :
    follow more low high code valid (bytes ++ rest) = .code (codeAfter code bytes) rest := by
  induction bytes generalizing more low high code valid with
  | nil =>
    subst all
    rfl
  | cons b bs ih =>
    subst all
    rw [List.length_cons, List.cons_append, follow, if_pos h.1, ih h.2 rfl]
    rfl

theorem follow_broken {more low high : Nat} {bytes : List UInt8} (h : Continues low high bytes)
    (few : bytes.length < more) (code valid : Nat) :
    follow more low high code valid bytes = .broken := by
  induction bytes generalizing more low high code valid with
  | nil =>
    obtain ⟨n, rfl⟩ := Nat.exists_eq_add_one_of_ne_zero (Nat.ne_of_gt few)
    rfl
  | cons b bs ih =>
    obtain ⟨n, rfl⟩ := Nat.exists_eq_add_one_of_ne_zero (Nat.ne_zero_of_lt few)
    rw [follow, if_pos h.1]
    exact ih h.2 (Nat.lt_of_succ_lt_succ few) _ _

theorem Continues.of_append {low high : Nat} {bytes more : List UInt8}
    (h : Continues low high (bytes ++ more)) : Continues low high bytes := by
  induction bytes generalizing low high with
  | nil => trivial
  | cons b bs ih => exact ⟨h.1, ih h.2⟩

/-- The bytes of a character: a first one, and as many as it asks for. -/
structure Encodes (c : Char) (first : UInt8) (others : List UInt8) (l : Lead) : Prop where
  lead : lead? first = some l
  length : others.length = l.more
  continues : Continues l.low l.high others
  code : codeAfter l.bits others = c.toNat

theorem lead?_two {b : Nat} (range : 0xc2 ≤ b ∧ b < 0xe0) :
    lead? (.ofNat b) = some ⟨1, 0x80, 0xbf, b - 0xc0⟩ := by
  have byte : b % 256 = b := by omega
  simp only [lead?, UInt8.toNat_ofNat', Nat.reducePow, byte]
  rw [if_neg (by omega), if_neg (by omega), if_pos range.2]

/-- After the first byte of three, the range of the next one leaves out longer forms of shorter
codes, and surrogates. -/
theorem lead?_three {b x : Nat} (range : 0xe0 ≤ b ∧ b < 0xf0) (next : 0x80 ≤ x ∧ x ≤ 0xbf)
    (long : b = 0xe0 → 0xa0 ≤ x) (surrogate : b = 0xed → x ≤ 0x9f) :
    ∃ low high, lead? (.ofNat b) = some ⟨2, low, high, b - 0xe0⟩ ∧ low ≤ x ∧ x ≤ high := by
  by_cases first : b = 0xe0
  · subst first
    exact ⟨_, _, rfl, long rfl, next.2⟩
  · by_cases high : b = 0xed
    · subst high
      exact ⟨_, _, rfl, next.1, surrogate rfl⟩
    · have byte : b % 256 = b := by omega
      refine ⟨_, _, ?_, next⟩
      simp only [lead?, UInt8.toNat_ofNat', Nat.reducePow, byte]
      rw [if_neg (by omega), if_neg (by omega), if_neg (by omega), if_neg first, if_neg high,
        if_pos range.2]

/-- After the first byte of four, the range of the next one leaves out longer forms of shorter
codes, and codes beyond the last one. -/
theorem lead?_four {b x : Nat} (range : 0xf0 ≤ b ∧ b ≤ 0xf4) (next : 0x80 ≤ x ∧ x ≤ 0xbf)
    (long : b = 0xf0 → 0x90 ≤ x) (beyond : b = 0xf4 → x ≤ 0x8f) :
    ∃ low high, lead? (.ofNat b) = some ⟨3, low, high, b - 0xf0⟩ ∧ low ≤ x ∧ x ≤ high := by
  obtain rfl | rfl | rfl | rfl | rfl : b = 0xf0 ∨ b = 0xf1 ∨ b = 0xf2 ∨ b = 0xf3 ∨ b = 0xf4 := by
    omega
  · exact ⟨_, _, rfl, long rfl, next.2⟩
  · exact ⟨_, _, rfl, next⟩
  · exact ⟨_, _, rfl, next⟩
  · exact ⟨_, _, rfl, next⟩
  · exact ⟨_, _, rfl, next.1, beyond rfl⟩

theorem exists_encodes (c : Char) :
    ∃ first others l, String.utf8EncodeChar c = first :: others ∧ Encodes c first others l := by
  have valid : c.toNat < 0xd800 ∨ 0xdfff < c.toNat ∧ c.toNat < 0x110000 := c.valid
  have encoded := String.utf8EncodeChar.eq_1 c
  simp only [Char.toNat_val] at encoded
  have tail (n : Nat) : (UInt8.ofNat (n % 64 + 128)).toNat = n % 64 + 128 := by
    rw [UInt8.toNat_ofNat']
    omega
  -- One case for each number of bytes; in each the code is within the bounds of `encoded`.
  split at encoded
  · rename_i one
    have ascii : c.toNat % 256 < 128 := by omega
    refine ⟨_, _, ⟨0, 0x80, 0xbf, c.toNat⟩, encoded, ?_, rfl, trivial, rfl⟩
    simp [lead?, ascii]
    omega
  split at encoded
  · have lead := @lead?_two (c.toNat / 64 % 32 + 192) (by omega)
    refine ⟨_, _, _, encoded, lead, rfl, ?_, ?_⟩
    · simp only [Continues, tail, and_true]
      omega
    · simp only [codeAfter, List.foldl_cons, List.foldl_nil, tail]
      omega
  split at encoded
  · obtain ⟨low, high, lead, next⟩ :=
      @lead?_three (c.toNat / 4096 % 16 + 224) (c.toNat / 64 % 64 + 128) (by omega) (by omega)
        (by omega) (by omega)
    refine ⟨_, _, _, encoded, lead, rfl, ?_, ?_⟩
    · simp only [Continues, tail, and_true]
      omega
    · simp only [codeAfter, List.foldl_cons, List.foldl_nil, tail]
      omega
  · obtain ⟨low, high, lead, next⟩ :=
      @lead?_four (c.toNat / 262144 % 8 + 240) (c.toNat / 4096 % 64 + 128) (by omega) (by omega)
        (by omega) (by omega)
    refine ⟨_, _, _, encoded, lead, rfl, ?_, ?_⟩
    · simp only [Continues, tail, and_true]
      omega
    · simp only [codeAfter, List.foldl_cons, List.foldl_nil, tail]
      omega

/-! ## Many characters -/

variable {found : List Char} {offset : Nat} {b : UInt8} {bytes rest : List UInt8} {l : Lead}

theorem decodeFrom_code {n : Nat} (lead : lead? b = some l)
    (code : follow l.more l.low l.high l.bits 1 bytes = .code n rest) :
    decodeFrom found offset (b :: bytes) =
      decodeFrom (Char.ofNat n :: found) (offset + l.more + 1) rest := by
  rw [decodeFrom]
  simp only [lead]
  split
  · rename_i broken
    rw [code] at broken
    cases broken
  · rename_i wrong
    rw [code] at wrong
    cases wrong
  · rename_i coded
    rw [code] at coded
    cases coded
    rfl

theorem decodeFrom_broken (lead : lead? b = some l)
    (broken : follow l.more l.low l.high l.bits 1 bytes = .broken) :
    decodeFrom found offset (b :: bytes) = .ok (found.reverse, b :: bytes) := by
  rw [decodeFrom]
  simp only [lead]
  split
  · rfl
  · rename_i wrong
    rw [broken] at wrong
    cases wrong
  · rename_i coded
    rw [broken] at coded
    cases coded

theorem decodeFrom_encoded (c : Char) :
    ∃ offset', decodeFrom found offset (String.utf8EncodeChar c ++ rest) =
      decodeFrom (c :: found) offset' rest := by
  obtain ⟨first, others, l, encoded, h⟩ := exists_encodes c
  have code := follow_code h.continues h.length l.bits 1 rest
  rw [h.code] at code
  refine ⟨offset + l.more + 1, ?_⟩
  rw [encoded, List.cons_append, decodeFrom_code h.lead code, Char.ofNat_toNat]

theorem decodeFrom_encode (cs : List Char) :
    decodeFrom found offset (encode cs) = .ok (found.reverse ++ cs, []) := by
  induction cs generalizing found offset with
  | nil => rw [encode, List.flatMap_nil, decodeFrom, List.append_nil]
  | cons c cs ih =>
    obtain ⟨offset', first⟩ := @decodeFrom_encoded found offset (encode cs) c
    rw [encode_cons, first, ih, List.reverse_cons, List.append_assoc, List.singleton_append]

theorem decode_encode (cs : List Char) : decode (encode cs) = .ok (cs, []) :=
  decodeFrom_encode cs

/-- Bytes that do not suffice for a character are kept. -/
theorem decodeFrom_part {c : Char} {part missing : List UInt8} (some : missing ≠ [])
    (h : String.utf8EncodeChar c = part ++ missing) :
    decodeFrom found offset part = .ok (found.reverse, part) := by
  obtain ⟨first, others, l, encoded, encodes⟩ := exists_encodes c
  cases part with
  | nil => rw [decodeFrom]
  | cons b bytes =>
    rw [encoded, List.cons_append] at h
    obtain ⟨rfl, rfl⟩ := List.cons.inj h
    have few : bytes.length < l.more := by
      rw [← encodes.length, List.length_append]
      exact Nat.lt_add_of_pos_right (List.length_pos_iff.2 some)
    exact decodeFrom_broken encodes.lead (follow_broken encodes.continues.of_append few _ _)

/-- What encoded characters begin with gives the first of them. What is kept, with the bytes that
come after it, gives the others. -/
theorem decodeFrom_prefix {cs : List Char} {later : List UInt8}
    (h : bytes ++ later = encode cs) :
    ∃ ds es part, cs = ds ++ es ∧ part ++ later = encode es ∧
      decodeFrom found offset bytes = .ok (found.reverse ++ ds, part) ∧
      decode part = .ok ([], part) := by
  induction cs generalizing bytes found offset with
  | nil =>
    obtain ⟨rfl, rfl⟩ := List.append_eq_nil_iff.1 h
    exact ⟨[], [], [], rfl, rfl, by rw [decodeFrom, List.append_nil], by rw [decode, decodeFrom]; rfl⟩
  | cons c cs ih =>
    rw [encode_cons] at h
    -- The bytes go on after the first character, or they break off inside it.
    have split : (∃ more, bytes = String.utf8EncodeChar c ++ more ∧ more ++ later = encode cs) ∨
        ∃ missing, missing ≠ [] ∧ String.utf8EncodeChar c = bytes ++ missing := by
      rcases List.append_eq_append_iff.1 h with ⟨missing, split, after⟩ | ⟨more, split, after⟩
      · cases missing with
        | nil => exact .inl ⟨[], by simp [split], after⟩
        | cons => exact .inr ⟨_, by simp, split⟩
      · exact .inl ⟨more, split, after.symm⟩
    rcases split with ⟨more, rfl, after⟩ | ⟨missing, some, split⟩
    · obtain ⟨offset', first⟩ := @decodeFrom_encoded found offset more c
      obtain ⟨ds, es, part, rfl, others, decoded, kept⟩ :=
        @ih (c :: found) offset' more after
      refine ⟨c :: ds, es, part, rfl, others, ?_, kept⟩
      rw [first, decoded, List.reverse_cons, List.append_assoc, List.singleton_append]
    · refine ⟨[], c :: cs, bytes, rfl, by rw [h, encode_cons], ?_, decodeFrom_part some split⟩
      rw [decodeFrom_part some split, List.append_nil]

end Sexpr.Text.Utf8
