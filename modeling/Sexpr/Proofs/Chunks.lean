import Sexpr.Reader.Session
import Sexpr.Reader.Source
import Sexpr.Source.Buffered

/-!
Chunks are not to be seen: however many characters a stream is asked for at a time, and however many
it gives, the same characters come at the same positions.

- `Buffered.input_eq`: what is taken from a stream are the characters of its text.
- `TextStream.toSource_complete`: so it is for a stream that is read to its end at once.
- `chunking_invisible`: so tokens, data and the answers of a reader are the same for all chunks.
-/

namespace Sexpr

namespace Buffered

variable {σ : Type} {S : Streaming σ} {n : Int} {b b' : Buffered σ} {x : Char × Pos}

theorem next?_eq_none (nonzero : n ≠ 0) : b.next? S n = none ↔ b.left S = [] := by
  obtain ⟨chunk, pos, stream⟩ := b
  cases chunk with
  | cons c cs => simp [next?, left]
  | nil =>
    have chunks := S.left_eq n stream
    have some := S.ne_nil n stream nonzero
    rcases answer : S.read n stream with ⟨_ | ⟨c, cs⟩, t⟩
    · simp only [answer] at some
      simp only [next?, answer, left, List.nil_append, true_iff]
      apply Classical.byContradiction
      intro more
      exact some more rfl
    · rw [answer] at chunks
      simp [next?, answer, left, chunks]

theorem input_none (h : b.next? S n = none) : b.input S n = [] := by
  rw [input]
  split <;> simp_all

theorem input_some (h : b.next? S n = some (x, b')) : b.input S n = x :: b'.input S n := by
  rw [input]
  split <;> simp_all

/-- All characters that are left come, at the positions that follow the latest one. -/
theorem input_eq (nonzero : n ≠ 0) (b : Buffered σ) :
    b.input S n = Input.ofChars (b.left S) b.pos := by
  fun_induction input S n b with
  | case1 b ended =>
    rw [(next?_eq_none nonzero).1 ended]
    rfl
  | case2 b x b' taken ih =>
    obtain ⟨chars, here, after⟩ := next?_eq_some taken
    rw [ih, chars, after, Input.ofChars_cons, ← here]

/-- However many characters have been taken, those after them are still to come. -/
theorem pull_eq (k : Nat) (b : Buffered σ) :
    (b.pull S n k).1 = (b.input S n).take k ∧
      (b.pull S n k).2.input S n = (b.input S n).drop k := by
  induction k generalizing b with
  | zero => exact ⟨rfl, rfl⟩
  | succ k ih =>
    cases taken : b.next? S n with
    | none => simp [pull, taken, input_none taken]
    | some step =>
      obtain ⟨x, b'⟩ := step
      obtain ⟨front, back⟩ := ih b'
      simp [pull, taken, input_some taken, front, back]

theorem source_eq (nonzero : n ≠ 0) (s : σ) : source S n s = .ofChars (S.left s) .start := by
  rw [source, input_eq nonzero]
  rfl

end Buffered

namespace TextStream

variable {n : Int} {s t : TextStream} {cs : List Char}

/-- A stream that does not fail answers as one of its text does. -/
theorem read_complete (whole : s.ending = .complete) :
    s.read n = .ok ((streaming.read n s.pending).1, ⟨(streaming.read n s.pending).2, .complete⟩) := by
  obtain ⟨pending, ending⟩ := s
  cases whole
  rfl

theorem chunks_complete (nonzero : n ≠ 0) (s : TextStream) (whole : s.ending = .complete) :
    (s.chunks n).1.flatten = s.pending ∧ (s.chunks n).2 = .complete := by
  fun_induction chunks n s with
  | case1 s message failed => simp [read_complete whole] at failed
  | case2 s t ended =>
    rw [read_complete whole, Except.ok.injEq, Prod.mk.injEq] at ended
    refine ⟨?_, rfl⟩
    apply Classical.byContradiction
    intro more
    exact streaming.ne_nil n s.pending nonzero (Ne.symm more) ended.1
  | case3 s c cs t answer more ending rest ih =>
    have split := pending_read answer
    rw [read_complete whole, Except.ok.injEq, Prod.mk.injEq] at answer
    obtain ⟨flat, ends⟩ := ih (by rw [← answer.2])
    rw [rest] at flat ends
    exact ⟨by rw [List.flatten_cons, flat, split], ends⟩

theorem toSource_complete (nonzero : n ≠ 0) (cs : List Char) :
    toSource n ⟨cs, .complete⟩ = .ofChars cs .start := by
  obtain ⟨all, ending⟩ := chunks_complete nonzero ⟨cs, .complete⟩ rfl
  simp only [toSource, all, ending, Source.ofChars]

end TextStream

/-- From a stream that is read in chunks come the characters of its text at their positions, whatever
the size of the chunks is, unless it is zero, and however much the stream gives of what it is asked
for; and so it is after any number of them has been taken. A stream that can be read at once is such
a stream. So the tokens, the data and all answers of a reader are those for any other stream of the
same text in any other chunks. -/
theorem chunking_invisible {σ τ : Type} (S : Streaming σ) (T : Streaming τ) {s : σ} {t : τ}
    (same : T.left t = S.left s) {m n : Int} (hm : m ≠ 0) (hn : n ≠ 0) :
    let text := S.left s
    let source := Buffered.source S m s
    let source' := Buffered.source T n t
    source = .ofChars text .start ∧
    (∀ k, let taken := (Buffered.ofStream s).pull S m k
      taken.1 = (Input.ofChars text .start).take k ∧
      taken.2.input S m = (Input.ofChars text .start).drop k) ∧
    TextStream.toSource m ⟨text, .complete⟩ = source ∧
    ∀ settings : Settings,
      Tokens.ofSource settings source = Tokens.ofSource settings source' ∧
      source.readAll settings = source'.readAll settings ∧
      ∀ requests : List Reader.Request,
        (Reader.ofSource settings source).performAll requests =
          (Reader.ofSource settings source').performAll requests := by
  intro text source source'
  have here : source = .ofChars text .start := Buffered.source_eq hm s
  have there : source' = .ofChars text .start := by
    have all : source' = .ofChars (T.left t) .start := Buffered.source_eq hn t
    rwa [same] at all
  have input : (Buffered.ofStream s).input S m = Input.ofChars text .start :=
    Buffered.input_eq hm (.ofStream s)
  refine ⟨here, ?_, ?_, ?_⟩
  · intro k
    have taken := Buffered.pull_eq (S := S) (n := m) k (.ofStream s)
    rwa [input] at taken
  · rw [here]
    exact TextStream.toSource_complete hm text
  · intro settings
    rw [here, there]
    exact ⟨rfl, rfl, fun _ => rfl⟩

/-- A stream that gives one character at a time, unless all are asked for. -/
def Streaming.dripping : Streaming (List Char) where
  read n cs := if 0 < n then (cs.take 1, cs.drop 1) else if n < 0 then (cs, []) else ([], cs)
  left := id
  left_eq n cs := by
    split
    · exact (List.take_append_drop 1 cs).symm
    · split
      · exact (List.append_nil cs).symm
      · rfl
  length_le n cs h := by
    split
    · have := List.length_take_le 1 cs
      dsimp only
      omega
    · split
      · omega
      · exact h
  ne_nil n cs h some := by
    split
    · cases cs with
      | nil => exact absurd rfl some
      | cons c cs => exact List.cons_ne_nil c _
    · split
      · exact some
      · omega
  all n cs h := by
    rw [if_neg (by omega), if_pos h]
    rfl

/-- A character that is spelled with a backslash and a line feed, read from single characters and
from the whole text. -/
theorem chunking_invisible_dripping :
    let text := ['#', '\\', '\n', 'a']
    let single := Buffered.source .dripping 3 text
    let whole := Buffered.source TextStream.streaming (-1) text
    single = .ofChars text .start ∧
      ((Buffered.ofStream text).pull .dripping 3 2).1 = [('#', ⟨0, 0⟩), ('\\', ⟨0, 1⟩)] ∧
      single.readAll .standard = whole.readAll .standard := by
  intro text single whole
  obtain ⟨source, taken, -, every⟩ :=
    @chunking_invisible _ _ .dripping TextStream.streaming text text rfl 3 (-1)
      (by decide) (by decide)
  exact ⟨source, (taken 2).1, (every .standard).2.1⟩

end Sexpr
