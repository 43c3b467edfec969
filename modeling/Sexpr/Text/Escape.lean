import Sexpr.Text.Blank
import Sexpr.Text.Quoted

/-!
Names and codes of characters: the letters after a backslash, the names after a hash and
backslash, and hexadecimal or octal codes.
-/

namespace Sexpr.Text

/-- A letter and the control character it stands for after a backslash. -/
def escapeLetters : List (Char × Char) :=
  [('n', '\n'), ('t', '\t'), ('r', '\r'), ('v', '\x0b'), ('b', '\x08'), ('a', '\x07'),
   ('f', '\x0c')]

def escapeLetter? (c : Char) : Option Char :=
  (escapeLetters.find? fun e => e.2 == c).map Prod.fst

/-- What a character after a backslash stands for, if it needs no digits: a control character, or
one of the quotes, the bar and the backslash themselves. -/
def escaped? (c : Char) : Option Char :=
  if ['\\', '\x22', '\x27', '|'].contains c then some c else escapeLetters.lookup c

/-- The names under which characters are written. -/
def writtenNames : List (String × Char) :=
  [("alarm", '\x07'), ("backspace", '\x08'), ("delete", '\x7f'), ("escape", '\x1b'),
   ("newline", '\n'), ("null", '\x00'), ("return", '\r'), ("space", ' '), ("tab", '\t')]

/-- More names that are understood but never written. -/
def alternativeNames : List (String × Char) :=
  [("linefeed", '\n'), ("nul", '\x00'), ("page", '\x0c'), ("rubout", '\x7f'), ("vtab", '\x0b')]

def nameOf? (c : Char) : Option String :=
  (writtenNames.find? fun e => e.2 == c).map Prod.fst

def charNamed? (name : String) : Option Char :=
  (writtenNames ++ alternativeNames).lookup name

def hexDigit? (c : Char) : Option Nat :=
  if '0' ≤ c ∧ c ≤ '9' then some (c.toNat - 48)
  else if 'a' ≤ c ∧ c ≤ 'f' then some (c.toNat - 87)
  else if 'A' ≤ c ∧ c ≤ 'F' then some (c.toNat - 55)
  else none

def octalDigit? (c : Char) : Option Nat :=
  if '0' ≤ c ∧ c ≤ '7' then some (c.toNat - 48) else none

/-- The character with a code, if the code is at most U+10FFFF and no surrogate. -/
def scalar? (n : Nat) : Option Char :=
  if h : n.isValidChar then some (Char.ofNatAux n h) else none

def isScalar (n : Int) : Bool :=
  0 ≤ n && (scalar? n.toNat).isSome

/-- A control character without a letter has its code with four digits. -/
def delimitedChar (quote c : Char) : String :=
  if c = quote || c = '\\' then String.ofList ['\\', c]
  else match escapeLetter? c with
    | some letter => String.ofList ['\\', letter]
    | none => if isControl c then "\\u" ++ hex 4 c.toNat else String.singleton c

/-- A text between delimiters. -/
def delimited (quote : Char) (s : String) : String :=
  (s.toList.foldl (fun out c => out ++ delimitedChar quote c) (String.singleton quote)).push quote

end Sexpr.Text
