import Sexpr.Error

/-!
Sources of characters: what they deliver, and whether they end or fail after it. A text stream is
read in chunks, and a source made from it shows none of them.
-/

namespace Sexpr

inductive Ending
  | complete
  | failed (message : String)
  deriving DecidableEq, Repr

structure Source where
  input : Input
  ending : Ending

namespace Source

def ofChars (cs : List Char) (p : Pos) : Source := ⟨.ofChars cs p, .complete⟩

def ofString (s : String) : Source := .ofChars s.toList .start

/-- The position of the last character that was delivered. -/
def lastPos (s : Source) : Pos :=
  match s.input.getLast? with
  | some (_, pos) => pos
  | none => .start

/-- What happens at the end of the input, if anything does. -/
def failure? (s : Source) : Option ReadError :=
  match s.ending with
  | .complete => none
  | .failed message => some ⟨.lexical (.sourceFailed message), s.lastPos⟩

/-- The source that delivers so many characters and then fails. -/
def failAfter (s : Source) (n : Nat) (message : String) : Source :=
  ⟨s.input.take n, .failed message⟩

end Source

/-- An open text stream: what is still to be read, and how it ends. -/
structure TextStream where
  pending : List Char
  ending : Ending

namespace TextStream

/-- The next `n` characters, or fewer at the end; a negative `n` asks for all. A stream that fails
before it has so many gives none of them. -/
def read (n : Int) (s : TextStream) : Except String (List Char × TextStream) :=
  let wanted := if n < 0 then s.pending.length else n.toNat
  match s.ending with
  | .failed message =>
      if n < 0 ∨ s.pending.length < wanted then .error message
      else .ok (s.pending.take wanted, { s with pending := s.pending.drop wanted })
  | .complete => .ok (s.pending.take wanted, { s with pending := s.pending.drop wanted })

theorem pending_read {n : Int} {s t : TextStream} {cs : List Char}
    (h : s.read n = .ok (cs, t)) : s.pending = cs ++ t.pending := by
  unfold read at h
  grind [List.take_append_drop]

/-- The characters read by reading `n` at a time until nothing comes, in chunks. -/
def chunks (n : Int) (s : TextStream) : List (List Char) × Ending :=
  match _h : s.read n with
  | .error message => ([], .failed message)
  | .ok ([], _) => ([], .complete)
  | .ok (c :: cs, t) =>
      let (more, ending) := chunks n t
      ((c :: cs) :: more, ending)
termination_by s.pending.length
decreasing_by
  simp only [pending_read _h, List.cons_append, List.length_cons, List.length_append]
  omega

/-- The source of a stream read in chunks of `n` characters. -/
def toSource (n : Int) (s : TextStream) : Source :=
  let (chunks, ending) := s.chunks n
  ⟨.ofChars chunks.flatten .start, ending⟩

end TextStream

end Sexpr
