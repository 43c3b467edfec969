import Sexpr.Scan.Token
import Sexpr.Source

/-!
The tokens of a source, as far as the first fault. With each token stands what follows it, so that
it can be told how much of the source had been taken when the token was complete.
-/

namespace Sexpr

/-- A token, the input after its last character, and whether the next character was taken too. -/
structure Lexeme where
  token : Token
  pos : Pos
  rest : Input
  peeked : Bool

def Lexeme.untaken (l : Lexeme) : Input := Input.untaken l.peeked l.rest

/-- `stop` is the fault that ends the tokens, if there is one, and `untaken` what it leaves in the
source. -/
structure Tokens where
  lexemes : List Lexeme
  stop : Option ReadError
  untaken : Input

namespace Tokens

/-- The tokens of an input that ends in `failure?`, after those that have been found, in
reverse. -/
def ofInput (settings : Settings) (failure? : Option ReadError) (found : List Lexeme) :
    Input → Tokens
  | [] => ⟨found.reverse, failure?, []⟩
  | (c, pos) :: rest =>
      let s := Scan.token settings c pos rest
      match if s.sawEnd then failure? else none with
      | some e => ⟨found.reverse, some e, []⟩
      | none =>
          match s.result with
          | .error e => ⟨found.reverse, some e, s.untaken⟩
          | .ok none => ofInput settings failure? found s.rest
          | .ok (some t) => ofInput settings failure? (⟨t, pos, s.rest, s.peeked⟩ :: found) s.rest
termination_by input => input.length
decreasing_by
  · exact Nat.lt_succ_of_le (Scan.token_rest_suffix settings c pos rest).length_le
  · exact Nat.lt_succ_of_le (Scan.token_rest_suffix settings c pos rest).length_le

def ofSource (settings : Settings) (s : Source) : Tokens :=
  ofInput settings s.failure? [] s.input

def pairs (ts : Tokens) : List (Token × Pos) := ts.lexemes.map fun l => (l.token, l.pos)

/-- How many of `total` characters have been taken when so many tokens are left to be read, or when
their end has been seen. -/
def taken (ts : Tokens) (total left : Nat) (ended : Bool) : Nat :=
  if ended then total - ts.untaken.length
  else match ts.lexemes.length - left with
    | 0 => 0
    | n + 1 => match ts.lexemes[n]? with
      | some l => total - l.untaken.length
      | none => total

end Tokens

end Sexpr
