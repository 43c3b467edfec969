import Sexpr.Source
import Sexpr.Text.Newline
import Sexpr.Text.Utf8

/-!
Sources from the bytes of a file. The bytes are decoded block by block, so a fault in one block
keeps back none of the text before it, but all of the text of the block itself. How long the blocks
are is left to the system.
-/

namespace Sexpr

/-- The blocks in which the bytes of a file come when its text is read `n` characters at a time. -/
structure Blocking where
  split : Int → List UInt8 → List (List UInt8)
  flatten_split : ∀ n bytes, (split n bytes).flatten = bytes

namespace Blocking

def blocks (size : Nat) (positive : 0 < size) (bytes : List UInt8) : List (List UInt8) :=
  if bytes = [] then []
  else bytes.take size :: blocks size positive (bytes.drop size)
termination_by bytes.length
decreasing_by
  rename_i h
  have := List.length_pos_iff.2 h
  simp only [List.length_drop]
  omega

theorem flatten_blocks {size : Nat} (positive : 0 < size) (bytes : List UInt8) :
    (blocks size positive bytes).flatten = bytes := by
  fun_induction blocks size positive bytes with
  | case1 => rfl
  | case2 bytes some ih => rw [List.flatten_cons, ih, List.take_append_drop]

/-- Blocks of one size. -/
def ofSize (size : Nat) (positive : 0 < size) : Blocking where
  split _ := blocks size positive
  flatten_split _ := flatten_blocks positive

end Blocking

namespace TextStream

/-- Decodes blocks after the bytes of a character that was broken off and perhaps a carriage
return. A broken character is a fault only at the end, and is then told without what came
before it. -/
def ofBlocks (broken : List UInt8) (held : Bool) (found : List Char) :
    List (List UInt8) → TextStream
  | [] =>
      if broken = [] then ⟨found ++ Text.heldNewline held, .complete⟩
      else ⟨found, .failed (Text.Utf8.truncated 0 broken).message⟩
  | block :: more =>
      match Text.Utf8.decode (broken ++ block) with
      | .error e => ⟨found, .failed e.message⟩
      | .ok (cs, broken) =>
          let (cs, held) := Text.unifyNewlines held cs
          ofBlocks broken held (found ++ cs) more

/-- Decodes all bytes at once. -/
def ofBytesWhole (bytes : List UInt8) : TextStream :=
  match Text.Utf8.decode bytes with
  | .error e => ⟨[], .failed e.message⟩
  | .ok (cs, []) =>
      let (cs, held) := Text.unifyNewlines false cs
      ⟨cs ++ Text.heldNewline held, .complete⟩
  | .ok (_, broken) =>
      ⟨[], .failed (Text.Utf8.truncated (bytes.length - broken.length) broken).message⟩

/-- The text of a file that is read `n` characters at a time. -/
def ofBytes (blocking : Blocking) (n : Int) (bytes : List UInt8) : TextStream :=
  if n < 0 then ofBytesWhole bytes else ofBlocks [] false [] (blocking.split n bytes)

end TextStream

namespace Source

/-- How many characters of a file are read at a time. -/
def standardChunk : Int := 4096

/-- How many bytes of a file are decoded at a time where the system does not say otherwise. -/
def standardBlock : Nat := 8192

def ofBytes (blocking : Blocking) (n : Int) (bytes : List UInt8) : Source :=
  (TextStream.ofBytes blocking n bytes).toSource n

end Source

end Sexpr
