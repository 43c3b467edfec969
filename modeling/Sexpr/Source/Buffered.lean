import Sexpr.Source

/-!
Characters with positions, taken one by one from an open text stream. The stream is read in chunks,
and the next chunk is read when all characters of the one before have been taken.
-/

namespace Sexpr

/-- How an open text stream answers. Asked for some characters it gives the next ones, no more than
it was asked for and at least one unless it is at its end; asked for a negative number it gives all
that are left. -/
structure Streaming (σ : Type) where
  read : Int → σ → List Char × σ
  /-- The characters that are still to be read. -/
  left : σ → List Char
  left_eq : ∀ n s, left s = (read n s).1 ++ left (read n s).2
  length_le : ∀ n s, 0 ≤ n → ((read n s).1.length : Int) ≤ n
  ne_nil : ∀ n s, n ≠ 0 → left s ≠ [] → (read n s).1 ≠ []
  all : ∀ n s, n < 0 → (read n s).1 = left s

/-- What is left of the latest chunk, the position of the next character, and the stream. -/
structure Buffered (σ : Type) where
  chunk : List Char
  pos : Pos
  stream : σ

namespace Buffered

variable {σ : Type} (S : Streaming σ) (n : Int)

def ofStream (s : σ) : Buffered σ := ⟨[], .start, s⟩

/-- The characters that are still to be taken. -/
def left (b : Buffered σ) : List Char := b.chunk ++ S.left b.stream

/-- Takes one character. Where nothing is left of the latest chunk, `n` characters are read; if
none come, that is the end. -/
def next? (b : Buffered σ) : Option ((Char × Pos) × Buffered σ) :=
  match b.chunk with
  | c :: cs => some ((c, b.pos), ⟨cs, b.pos.advance c, b.stream⟩)
  | [] =>
      match S.read n b.stream with
      | ([], _) => none
      | (c :: cs, t) => some ((c, b.pos), ⟨cs, b.pos.advance c, t⟩)

variable {S n} in
/-- The character that is taken was the first one left, and stands where the next one was to. -/
theorem next?_eq_some {b b' : Buffered σ} {x : Char × Pos} (h : b.next? S n = some (x, b')) :
    b.left S = x.1 :: b'.left S ∧ x.2 = b.pos ∧ b'.pos = b.pos.advance x.1 := by
  obtain ⟨chunk, pos, stream⟩ := b
  cases chunk with
  | cons c cs =>
    cases h
    exact ⟨rfl, rfl, rfl⟩
  | nil =>
    have chunks := S.left_eq n stream
    rcases answer : S.read n stream with ⟨_ | ⟨c, cs⟩, t⟩
    · simp [next?, answer] at h
    · simp only [next?, answer, Option.some.injEq, Prod.mk.injEq] at h
      obtain ⟨rfl, rfl⟩ := h
      rw [answer] at chunks
      exact ⟨chunks, rfl, rfl⟩

/-- All characters, each taken after the one before, until the end. -/
def input (b : Buffered σ) : Input :=
  match _h : b.next? S n with
  | none => []
  | some (x, b') => x :: input b'
termination_by (b.left S).length
decreasing_by
  rw [(next?_eq_some _h).1]
  exact Nat.lt_succ_self _

/-- The first `k` characters, or fewer at the end, and what is left to be taken after them. -/
def pull : Nat → Buffered σ → Input × Buffered σ
  | 0, b => ([], b)
  | k + 1, b =>
      match b.next? S n with
      | none => ([], b)
      | some (x, b') =>
          let (xs, b) := pull k b'
          (x :: xs, b)

/-- The source of a stream that is read in chunks of `n` characters. -/
def source (s : σ) : Source := ⟨(ofStream s).input S n, .complete⟩

end Buffered

/-- A stream of a text gives as many characters as it is asked for, or what is left of them. -/
def TextStream.streaming : Streaming (List Char) where
  read n cs :=
    let wanted := if n < 0 then cs.length else n.toNat
    (cs.take wanted, cs.drop wanted)
  left := id
  left_eq n cs := (List.take_append_drop _ cs).symm
  length_le n cs h := by
    have positive : ¬ n < 0 := by omega
    simp only [if_neg positive, List.length_take]
    omega
  ne_nil n cs h some := by
    have length := List.length_pos_iff.2 some
    rw [id] at length
    apply List.ne_nil_of_length_pos
    rw [List.length_take]
    split <;> omega
  all n cs h := by simp [h]

end Sexpr
