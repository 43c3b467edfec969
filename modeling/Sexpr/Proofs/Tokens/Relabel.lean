import Sexpr.Proofs.Scan.Relabel
import Sexpr.Proofs.Tokens.Steps

/-!
Positions are labels of tokens too.

- `ofInput_relabel`: the same characters at other positions give the same tokens, each at the new
  position of its first character.
-/

namespace Sexpr

def Lexeme.relabel (f : Pos → Pos) (l : Lexeme) : Lexeme where
  token := l.token
  pos := f l.pos
  rest := l.rest.relabel f
  peeked := l.peeked

namespace Scan

variable {α : Type} {f : Pos → Pos}

@[simp] theorem sawEnd_relabel (s : Scan α) : (s.relabel f).sawEnd = s.sawEnd := by
  simp [sawEnd, relabel, Input.relabel]

theorem untaken_relabel (s : Scan α) : (s.relabel f).untaken = s.untaken.relabel f := by
  unfold untaken Input.untaken relabel Input.relabel
  dsimp only
  split
  · exact List.map_tail.symm
  · rfl

end Scan

namespace Tokens

def relabel (f : Pos → Pos) (ts : Tokens) : Tokens where
  lexemes := ts.lexemes.map (Lexeme.relabel f)
  stop := ts.stop.map (ReadError.relabel f)
  untaken := ts.untaken.relabel f

variable {f : Pos → Pos} {settings : Settings} {failure? : Option ReadError} {input : Input}
  {ts : Tokens}

theorem pairs_relabel (ts : Tokens) :
    (ts.relabel f).pairs = ts.pairs.map fun x => (x.1, f x.2) := by
  simp [pairs, relabel, Lexeme.relabel, Function.comp_def]

theorem Makes.relabel (h : Makes settings failure? input ts) :
    Makes settings (failure?.map (ReadError.relabel f)) (input.relabel f) (ts.relabel f) := by
  have scans {c : Char} {p : Pos} {input : Input} {s : Scan (Option Token)}
      (scanned : Scan.token settings c p input = s) :
      Scan.token settings c (f p) (input.relabel f) = s.relabel f := by
    rw [Scan.token_relabel, scanned]
  have silent {s : Scan (Option Token)} (goesOn : s.sawEnd = true → failure? = none)
      (ends : (s.relabel f).sawEnd = true) : failure?.map (ReadError.relabel f) = none := by
    rw [goesOn (by rwa [Scan.sawEnd_relabel] at ends)]
    rfl
  induction h with
  | ended => exact .ended
  | @failed c p input e s scanned ends failure =>
    subst failure
    exact .failed (scans scanned) (by rwa [Scan.sawEnd_relabel]) rfl
  | @fault c p input e s scanned goesOn result =>
    have failed : (s.relabel f).result = .error (e.relabel f) := by
      rw [Scan.relabel, result]
      rfl
    have fault := Makes.fault (scans scanned) (silent goesOn) failed
    rwa [Scan.untaken_relabel] at fault
  | @skipped c p input s ts scanned goesOn result more ih =>
    have passed : (s.relabel f).result = .ok none := by
      rw [Scan.relabel, result]
      rfl
    exact .skipped (scans scanned) (silent goesOn) passed ih
  | @token c p input s t ts scanned goesOn result more ih =>
    have found : (s.relabel f).result = .ok (some t) := by
      rw [Scan.relabel, result]
      rfl
    exact .token (scans scanned) (silent goesOn) found ih

/-- The tokens of the same characters at other positions. -/
theorem ofInput_relabel (settings : Settings) (failure? : Option ReadError) (input : Input) :
    ofInput settings (failure?.map (ReadError.relabel f)) [] (input.relabel f) =
      (ofInput settings failure? [] input).relabel f :=
  makes_iff.1 (makes_iff.2 rfl).relabel

end Tokens

end Sexpr
