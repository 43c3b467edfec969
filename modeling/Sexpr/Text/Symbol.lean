import Sexpr.Text.Blank

/-!
The characters that a symbol is made of, and the texts that are symbols without delimiters.
-/

namespace Sexpr.Text

/-- The quotes, the comma, the bar, the brackets and the backslash. -/
def delimiters : List Char :=
  ['\x27', '\x60', ',', '\x22', '|', '(', ')', '[', ']', '\x7b', '\x7d', '\\']

/-- Every character but the blanks and the delimiters. -/
def isSymbolChar (c : Char) : Bool := !(isBlank c || delimiters.contains c)

def isAsciiLetter (c : Char) : Bool :=
  ('a' ≤ c && c ≤ 'z') || ('A' ≤ c && c ≤ 'Z')

/-- A text that needs no bars: ASCII letters and digits only, and no digit first. -/
def isBare (s : String) : Bool :=
  match s.toList with
  | [] => false
  | c :: cs => isAsciiLetter c && cs.all fun d => isAsciiLetter d || ('0' ≤ d && d ≤ '9')

end Sexpr.Text
