import Sexpr.Text.Escape

/-!
Strict UTF-8. Bytes that break off inside a character are kept apart from bytes that can belong to
none, since more bytes may still complete them.
-/

namespace Sexpr.Text.Utf8

inductive Reason
  | invalidStart
  | invalidContinuation
  | unexpectedEnd
  deriving DecidableEq, Repr

def Reason.text : Reason → String
  | .invalidStart => "invalid start byte"
  | .invalidContinuation => "invalid continuation byte"
  | .unexpectedEnd => "unexpected end of data"

/-- Bytes that are no text: the first of them, its offset, and how many they are. -/
structure DecodeError where
  byte : UInt8
  offset : Nat
  count : Nat
  reason : Reason
  deriving DecidableEq, Repr

def DecodeError.message (e : DecodeError) : String :=
  let place :=
    if e.count = 1 then
      "byte 0x" ++ hex 2 e.byte.toNat ++ " in position " ++ toString e.offset
    else
      "bytes in position " ++ toString e.offset ++ "-" ++ toString (e.offset + e.count - 1)
  "'utf-8' codec can't decode " ++ place ++ ": " ++ e.reason.text

/-- What a first byte asks for: the number of bytes that follow, the range of the first of them,
and the bits it gives itself. -/
structure Lead where
  more : Nat
  low : Nat
  high : Nat
  bits : Nat

/-- The ranges leave out longer forms of shorter codes, surrogates and codes beyond U+10FFFF. -/
def lead? (byte : UInt8) : Option Lead :=
  let b := byte.toNat
  if b < 0x80 then some ⟨0, 0x80, 0xbf, b⟩
  else if b < 0xc2 then none
  else if b < 0xe0 then some ⟨1, 0x80, 0xbf, b - 0xc0⟩
  else if b = 0xe0 then some ⟨2, 0xa0, 0xbf, 0⟩
  else if b = 0xed then some ⟨2, 0x80, 0x9f, 13⟩
  else if b < 0xf0 then some ⟨2, 0x80, 0xbf, b - 0xe0⟩
  else if b = 0xf0 then some ⟨3, 0x90, 0xbf, 0⟩
  else if b < 0xf4 then some ⟨3, 0x80, 0xbf, b - 0xf0⟩
  else if b = 0xf4 then some ⟨3, 0x80, 0x8f, 4⟩
  else none

/-- How the bytes after a first byte turn out: a code with the bytes left over, a break in the
middle, or a byte that does not follow the `valid` ones before it. -/
inductive Follow
  | code (n : Nat) (rest : List UInt8)
  | broken
  | wrong (valid : Nat)

def follow (more low high code valid : Nat) (bytes : List UInt8) : Follow :=
  match more, bytes with
  | 0, rest => .code code rest
  | _ + 1, [] => .broken
  | n + 1, b :: rest =>
      if low ≤ b.toNat ∧ b.toNat ≤ high then
        follow n 0x80 0xbf (code * 64 + b.toNat % 64) (valid + 1) rest
      else .wrong valid

theorem follow_rest_length {more low high code valid : Nat} {bytes : List UInt8} {n : Nat}
    {rest : List UInt8} (h : follow more low high code valid bytes = .code n rest) :
    rest.length ≤ bytes.length := by
  fun_induction follow more low high code valid bytes with
  | case1 => cases h; exact Nat.le_refl _
  | case2 => cases h
  | case3 _ _ _ _ _ _ _ _ ih => exact Nat.le_succ_of_le (ih h)
  | case4 => cases h

/-- The characters of some bytes, and the bytes of a character that they break off in. -/
def decodeFrom (found : List Char) (offset : Nat) (bytes : List UInt8) :
    Except DecodeError (List Char × List UInt8) :=
  match bytes with
  | [] => .ok (found.reverse, [])
  | b :: rest =>
      match lead? b with
      | none => .error ⟨b, offset, 1, .invalidStart⟩
      | some l =>
          match _h : follow l.more l.low l.high l.bits 1 rest with
          | .broken => .ok (found.reverse, b :: rest)
          | .wrong valid => .error ⟨b, offset, valid, .invalidContinuation⟩
          | .code n rest' => decodeFrom (Char.ofNat n :: found) (offset + l.more + 1) rest'
termination_by bytes.length
decreasing_by exact Nat.lt_succ_of_le (follow_rest_length _h)

def decode (bytes : List UInt8) : Except DecodeError (List Char × List UInt8) :=
  decodeFrom [] 0 bytes

/-- The bytes of a character that is never completed. -/
def truncated (offset : Nat) (bytes : List UInt8) : DecodeError :=
  ⟨bytes.headD 0, offset, bytes.length, .unexpectedEnd⟩

end Sexpr.Text.Utf8
