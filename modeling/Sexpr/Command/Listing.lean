import Sexpr.Command.Options
import Sexpr.Reader.Trace
import Sexpr.Writer

/-!
The listing of tokens: each one indented by the brackets around it, with counts at the end. It
checks that brackets which close match those which are open.
-/

namespace Sexpr.Command

/-- The brackets that are open, the innermost first, with counts of all that were opened. -/
structure Tally where
  toplevel : Nat
  entered : Nat
  parens : List (Bracket × Pos)
  deriving DecidableEq, Repr

def Tally.start : Tally := ⟨0, 0, []⟩

/-- A bracket is as deep as what surrounds it. -/
def Tally.step (s : Tally) (t : Token) (pos : Pos) : Except ReadError (Nat × Tally) :=
  match t with
  | .opening k =>
      .ok (s.parens.length,
        { toplevel := if s.parens = [] then s.toplevel + 1 else s.toplevel
          entered := s.entered + 1
          parens := (k, pos) :: s.parens })
  | .closing k =>
      match s.parens with
      | [] => .error ⟨.structural (.unexpectedClosing k), pos⟩
      | (opened, openPos) :: outer =>
          if opened = k then .ok (outer.length, { s with parens := outer })
          else .error ⟨.structural (.mismatch opened openPos k), pos⟩
  | _ => .ok (s.parens.length, s)

def Tally.text (s : Tally) : String :=
  s!";; count_toplevel = {s.toplevel}, count_enter = {s.entered}\n"

/-- What is to be printed, as far as each line can be written, and the error that ends it. -/
structure Output where
  lines : List (Except WriteError String)
  failure : Option ReadError

/-- What is printed before the first line that cannot be written. -/
def Output.written (x : Output) : Written := .ofLines "" x.lines

def tokenLine (limit : DigitLimit) (o : Options) (indent : Nat) (t : Token) (pos : Pos) :
    Except WriteError String :=
  (t.text limit).map fun text =>
    String.ofList (List.replicate indent ' ') ++ (if o.pos then pos.label ++ " " else "") ++
      text ++ "\n"

/-- A line of a trace. -/
def traced (line : Except DigitsError String) : Except WriteError String :=
  (line.map (· ++ "\n")).mapError .digits

/-- Lists tokens. The counts come last, and only if nothing failed. -/
def listTokens (limit : DigitLimit) (o : Options) (stop : Option ReadError) (s : Tally) :
    List (Token × Pos) → Output
  | [] =>
      match stop with
      | some e => ⟨[], some e⟩
      | none => ⟨[.ok s.text], none⟩
  | (t, pos) :: rest =>
      let before := if o.debug then [traced (Reader.tokenLine limit t pos)] else []
      match s.step t pos with
      | .error e => ⟨before, some e⟩
      | .ok (indent, s) =>
          let shown := if o.print then [tokenLine limit o indent t pos] else []
          let later := listTokens limit o stop s rest
          ⟨before ++ shown ++ later.lines, later.failure⟩

end Sexpr.Command
