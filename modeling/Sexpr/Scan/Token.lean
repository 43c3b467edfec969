import Sexpr.Scan.Bare
import Sexpr.Scan.Hash

/-!
One token from the beginning of an input. Main statement: what is left over is an end of the
input after the first character, so making tokens comes to an end.
-/

namespace Sexpr.Scan

/-- The semicolons after the first one, and the text after them. -/
def splitSemicolons (cs : List Char) : Nat × List Char :=
  ((cs.takeWhile (· == ';')).length, cs.dropWhile (· == ';'))

def lineComment (start : Pos) (cs : List Char) : Except ReadError Token :=
  let (more, text) := splitSemicolons cs
  if more + 1 > Token.maxSemicolons then .error ⟨.lexical .tooManySemicolons, start⟩
  else .ok (.comment (more + 1) (String.ofList text))

/-- The token that begins with `c`, or none where blanks or a comment are not kept. -/
def token (settings : Settings) (c : Char) (start : Pos) (input : Input) : Scan (Option Token) :=
  let fmt := settings.format
  let modes := settings.modes
  match Bracket.ofOpening? c, Bracket.ofClosing? c with
  | some k, _ => .done (some (.opening k)) input
  | none, some k => .done (some (.closing k)) input
  | none, none =>
      if Text.isBlank c then
        let (cs, rest) := run Text.isBlank input
        let blank := Token.blank (String.ofList (c :: cs))
        .upTo (if modes.retainWhitespace then some blank else none) rest
      else if c = ';' then
        let (cs, rest) := run (· != '\n') input
        if modes.retainComments then ((upTo cs rest).check (lineComment start)).map some
        else .upTo none rest
      else if c = '#' then hash fmt modes start input
      else if c = '\x22' then
        (delimited fmt c start input).map fun s => some (.atom (.string s))
      else if c = '|' then
        (delimited fmt c start input).map fun s => some (.atom (.symbol s))
      else if c = '\x27' then .done (some (.mark .quote)) input
      else if c = '\x60' then .done (some (.mark .quasiquote)) input
      else if c = ',' then
        match input with
        | ('@', _) :: rest => .done (some (.mark .unquoteSplicing)) rest
        | rest => .upTo (some (.mark .unquote)) rest
      else
        let (cs, rest) := run Text.isSymbolChar input
        .upTo (some (bareToken fmt (c :: cs))) rest

theorem token_rest_suffix (settings : Settings) (c : Char) (start : Pos) (input : Input) :
    (token settings c start input).rest <:+ input := by
  fun_cases token settings c start input <;>
    grind [List.suffix_cons, List.suffix_refl, hash_rest_suffix, delimited_rest_suffix,
      run_rest_suffix]

end Sexpr.Scan
