import Sexpr.Dialect
import Sexpr.Scan.Basic
import Sexpr.Text.Escape

/-!
Text between delimiters, a sequence of pieces: plain characters, escapes, and line
continuations. Main statement: what is left over is a proper end of the input.
-/

namespace Sexpr.Scan

/-- How the digits of a hexadecimal code end. -/
inductive CodeEnd
  /-- After a fixed number of digits. -/
  | fixed
  /-- At the limit or before the first other character. -/
  | anywhere
  /-- With a semicolon. -/
  | semicolon
  deriving DecidableEq, Repr

/-- The rest of a code, after digits that make up `code` already. -/
def codeDigits (ends : CodeEnd) (limit : Int) (start : Pos) (digits code : Nat) :
    Input → Scan Nat
  | [] =>
      if ends = .anywhere ∧ 0 < digits then .upTo code []
      else .faultUpTo (.unexpectedEnd .delimited) start []
  | (c, pos) :: rest =>
      match Text.hexDigit? c with
      | some d =>
          if (digits : Int) = limit then .fault .tooManyDigits pos rest
          else if ends ≠ .semicolon ∧ (digits + 1 : Int) = limit then .done (code * 16 + d) rest
          else codeDigits ends limit start (digits + 1) (code * 16 + d) rest
      | none =>
          if ends = .semicolon ∧ c = ';' ∧ 0 < digits then .done code rest
          else if digits = 0 ∨ ends = .fixed then .fault (.nonHexDigit c) pos rest
          else if ends = .anywhere then .upTo code ((c, pos) :: rest)
          else .fault (.missingDelimiter ';') pos rest

/-- The character with a code; a code of no character is a fault where its letter stands. -/
def codeChar (pos : Pos) (code : Nat) : Except ReadError Char :=
  match Text.scalar? code with
  | some c => .ok c
  | none => .error ⟨.lexical (.invalidCodePoint code), pos⟩

def hexChar (ends : CodeEnd) (limit : Int) (start pos : Pos) (input : Input) : Scan Char :=
  (codeDigits ends limit start 0 0 input).check (codeChar pos)

/-- At most so many more octal digits. -/
def octalDigits : Nat → Nat → Input → Scan Nat
  | 0, code, input => .done code input
  | _ + 1, code, [] => .upTo code []
  | n + 1, code, (c, pos) :: rest =>
      match Text.octalDigit? c with
      | some d => octalDigits n (code * 8 + d) rest
      | none => .upTo code ((c, pos) :: rest)

/-- A piece of delimited text: the end of it, or the characters it stands for. -/
inductive Piece
  | close
  | chars (cs : List Char)
  deriving DecidableEq, Repr

def Piece.char (c : Char) : Piece := .chars [c]

/-- What follows a backslash. -/
def escape (fmt : Format) (start : Pos) : Input → Scan Piece
  | [] => .faultUpTo (.unexpectedEnd .delimited) start []
  | (e, pos) :: rest =>
      match Text.escaped? e with
      | some c => .done (.char c) rest
      | none =>
          if e = 'u' then (hexChar .fixed 4 start pos rest).map .char
          else if e = 'U' then (hexChar .fixed 8 start pos rest).map .char
          else if e = 'x' then
            let ends := if fmt.hexEscapesEndWithSemicolon then .semicolon else .anywhere
            (hexChar ends fmt.hexEscapeDigits start pos rest).map .char
          else if e = '\n' then .upTo (.chars []) (run Text.isBlank rest).2
          else match Text.octalDigit? e with
            | some d =>
                if fmt.octalEscapes then
                  (octalDigits 2 d rest).map fun code => .char (Char.ofNat code)
                else if e = '0' then .done (.char '\x00') rest
                else .fault (.invalidEscape e) pos rest
            | none => .fault (.invalidEscape e) pos rest

def piece (fmt : Format) (delimiter : Char) (start : Pos) : Input → Scan Piece
  | [] => .faultUpTo (.unexpectedEnd .delimited) start []
  | (c, _) :: rest =>
      if c = delimiter then .done .close rest
      else if c = '\\' then escape fmt start rest
      else .done (.char c) rest

theorem codeDigits_rest_suffix (ends : CodeEnd) (limit : Int) (start : Pos) (digits code : Nat)
    (input : Input) : (codeDigits ends limit start digits code input).rest <:+ input := by
  fun_induction codeDigits ends limit start digits code input <;>
    grind [List.suffix_cons, List.IsSuffix.trans]

theorem octalDigits_rest_suffix (n code : Nat) (input : Input) :
    (octalDigits n code input).rest <:+ input := by
  fun_induction octalDigits n code input <;> grind [List.suffix_cons, List.IsSuffix.trans]

theorem hexChar_rest_suffix (ends : CodeEnd) (limit : Int) (start pos : Pos) (input : Input) :
    (hexChar ends limit start pos input).rest <:+ input :=
  codeDigits_rest_suffix ends limit start 0 0 input

theorem escape_rest_suffix (fmt : Format) (start : Pos) (input : Input) :
    (escape fmt start input).rest <:+ input := by
  fun_cases escape fmt start input <;>
    grind [List.suffix_cons, List.IsSuffix.trans, hexChar_rest_suffix, octalDigits_rest_suffix,
      run_rest_suffix]

theorem piece_rest_suffix (fmt : Format) (delimiter : Char) (start : Pos) (input : Input) :
    (piece fmt delimiter start input).rest <:+ input := by
  fun_cases piece fmt delimiter start input <;>
    grind [List.suffix_cons, List.IsSuffix.trans, escape_rest_suffix]

theorem piece_rest_lt (fmt : Format) (delimiter : Char) (start : Pos) (input : Input) (p : Piece)
    (h : (piece fmt delimiter start input).result = .ok p) :
    (piece fmt delimiter start input).rest.length < input.length := by
  cases input with
  | nil => simp [piece, faultUpTo] at h
  | cons x rest =>
    refine Nat.lt_succ_of_le (List.IsSuffix.length_le ?_)
    simp only [piece]
    grind [escape_rest_suffix]

/-- The text up to the delimiter, after characters that have been found already, in reverse. -/
def delimitedFrom (fmt : Format) (delimiter : Char) (start : Pos) (found : List Char)
    (input : Input) : Scan String :=
  let s := piece fmt delimiter start input
  match _h : s.result with
  | .error e => ⟨.error e, s.rest, s.peeked⟩
  | .ok .close => .done (String.ofList found.reverse) s.rest
  | .ok (.chars cs) => delimitedFrom fmt delimiter start (cs.reverse ++ found) s.rest
termination_by input.length
decreasing_by exact piece_rest_lt fmt delimiter start input _ _h

/-- The text up to the delimiter; the opening one stands at `start` and has been taken. -/
def delimited (fmt : Format) (delimiter : Char) (start : Pos) (input : Input) : Scan String :=
  delimitedFrom fmt delimiter start [] input

theorem delimitedFrom_rest_suffix (fmt : Format) (delimiter : Char) (start : Pos)
    (found : List Char) (input : Input) :
    (delimitedFrom fmt delimiter start found input).rest <:+ input := by
  fun_induction delimitedFrom fmt delimiter start found input with
  | case1 => exact piece_rest_suffix ..
  | case2 => exact piece_rest_suffix ..
  | case3 found input s cs h ih => exact ih.trans (piece_rest_suffix ..)

theorem delimited_rest_suffix (fmt : Format) (delimiter : Char) (start : Pos) (input : Input) :
    (delimited fmt delimiter start input).rest <:+ input :=
  delimitedFrom_rest_suffix ..

end Sexpr.Scan
