import Sexpr.Error
import Sexpr.Text.Symbol

/-!
What scanning the beginning of an input gives: a result, the input left over, and whether its
first character, or its end, had to be seen to know where the scanned part stops.
-/

namespace Sexpr

/-- What is not taken of the input that follows, if its first character may have been looked at. -/
def Input.untaken (peeked : Bool) (rest : Input) : Input := if peeked then rest.tail else rest

structure Scan (α : Type) where
  result : Except ReadError α
  rest : Input
  peeked : Bool
  deriving Repr

namespace Scan

variable {α β : Type}

def map (f : α → β) (s : Scan α) : Scan β where
  result := s.result.map f
  rest := s.rest
  peeked := s.peeked

/-- Checks a scanned value once it is complete. -/
def check (f : α → Except ReadError β) (s : Scan α) : Scan β where
  result := s.result.bind f
  rest := s.rest
  peeked := s.peeked

/-- A value whose last character says by itself that it is complete. -/
def done (a : α) (rest : Input) : Scan α := ⟨.ok a, rest, false⟩

/-- A value that was found complete by looking at what follows it. -/
def upTo (a : α) (rest : Input) : Scan α := ⟨.ok a, rest, true⟩

/-- A fault at a character that has been taken. -/
def fault (f : LexicalFault) (pos : Pos) (rest : Input) : Scan α :=
  ⟨.error ⟨.lexical f, pos⟩, rest, false⟩

/-- A fault found by looking at what follows. -/
def faultUpTo (f : LexicalFault) (pos : Pos) (rest : Input) : Scan α :=
  ⟨.error ⟨.lexical f, pos⟩, rest, true⟩

/-- The end of the input was seen, and with it everything that a later piece of the source could
have changed. -/
def sawEnd (s : Scan α) : Bool := s.peeked && s.rest.isEmpty

/-- What has not been taken from the source. -/
def untaken (s : Scan α) : Input := Input.untaken s.peeked s.rest

@[simp, grind =] theorem rest_map (f : α → β) (s : Scan α) : (s.map f).rest = s.rest := rfl

@[simp, grind =] theorem rest_check (f : α → Except ReadError β) (s : Scan α) :
    (s.check f).rest = s.rest := rfl

@[simp, grind =] theorem rest_done (a : α) (rest : Input) : (done a rest).rest = rest := rfl

@[simp, grind =] theorem rest_upTo (a : α) (rest : Input) : (upTo a rest).rest = rest := rfl

@[simp, grind =] theorem rest_fault (f : LexicalFault) (pos : Pos) (rest : Input) :
    (fault f pos rest : Scan α).rest = rest := rfl

@[simp, grind =] theorem rest_faultUpTo (f : LexicalFault) (pos : Pos) (rest : Input) :
    (faultUpTo f pos rest : Scan α).rest = rest := rfl

/-- The longest beginning whose characters all have a property, and what follows it. -/
def run (p : Char → Bool) (input : Input) : List Char × Input :=
  ((input.takeWhile fun x => p x.1).map Prod.fst, input.dropWhile fun x => p x.1)

theorem run_rest_suffix (p : Char → Bool) (input : Input) : (run p input).2 <:+ input :=
  List.dropWhile_suffix _

end Scan

end Sexpr
