import Sexpr.Text.Quoted

/-!
Dialects: the format of the written text, the modes of reading, three presets, and settings made
from named changes.
-/

namespace Sexpr

structure Format where
  name : String
  /-- A lone point is a dot and not a symbol. -/
  hasDottedPairs : Bool
  /-- Up to three octal digits may follow a backslash between delimiters. -/
  octalEscapes : Bool
  /-- Between delimiters a code after `\x` is ended by a semicolon. -/
  hexEscapesEndWithSemicolon : Bool
  /-- The most digits a code after `\x` may have; no limit if negative. -/
  hexEscapeDigits : Int
  longBooleans : Bool
  /-- What follows `#:` is a keyword and not an uninterned symbol. -/
  hashColonIsKeyword : Bool
  deriving DecidableEq, Repr

structure Modes where
  retainWhitespace : Bool
  retainComments : Bool
  allowImproperLists : Bool
  deriving DecidableEq, Repr

structure Settings where
  format : Format
  modes : Modes
  deriving DecidableEq, Repr

namespace Format

def gambit : Format where
  name := "gambit"
  hasDottedPairs := true
  octalEscapes := true
  hexEscapesEndWithSemicolon := false
  hexEscapeDigits := 8
  longBooleans := false
  hashColonIsKeyword := false

def r7rs : Format where
  name := "r7rs"
  hasDottedPairs := true
  octalEscapes := false
  hexEscapesEndWithSemicolon := true
  hexEscapeDigits := 8
  longBooleans := false
  hashColonIsKeyword := true

def guile : Format where
  name := "guile"
  hasDottedPairs := true
  octalEscapes := false
  hexEscapesEndWithSemicolon := true
  hexEscapeDigits := 2
  longBooleans := true
  hashColonIsKeyword := true

def presets : List Format := [gambit, guile, r7rs]

def preset? (name : String) : Option Format :=
  presets.find? fun f => f.name == name

end Format

def Modes.standard : Modes where
  retainWhitespace := false
  retainComments := false
  allowImproperLists := true

namespace Settings

def standard : Settings := ⟨.gambit, .standard⟩

def ofFormat (f : Format) : Settings := ⟨f, .standard⟩

end Settings

/-- A value given for a named setting. -/
inductive SettingValue
  | flag (b : Bool)
  | count (n : Int)
  | text (s : String)
  deriving DecidableEq, Repr

namespace SettingValue

def isTrue : SettingValue → Bool
  | .flag b => b
  | .count n => n ≠ 0
  | .text s => s ≠ ""

/-- A text is no number of digits, so it sets no limit. -/
def toCount : SettingValue → Int
  | .flag b => if b then 1 else 0
  | .count n => n
  | .text _ => -1

def toText : SettingValue → String
  | .flag b => if b then "True" else "False"
  | .count n => toString n
  | .text s => s

end SettingValue

namespace Settings

/-- The settings after one change, if there is a setting of that name. -/
def change? (s : Settings) (name : String) (v : SettingValue) : Option Settings :=
  match name with
  | "name" => some { s with format.name := v.toText }
  | "has_dotted_pairs" => some { s with format.hasDottedPairs := v.isTrue }
  | "octal_escapes_in_delimited" => some { s with format.octalEscapes := v.isTrue }
  | "x_escape_terminated_by_semicolon_in_delimited" =>
      some { s with format.hexEscapesEndWithSemicolon := v.isTrue }
  | "x_escape_len" => some { s with format.hexEscapeDigits := v.toCount }
  | "accept_long_false_true" => some { s with format.longBooleans := v.isTrue }
  | "hashcolon_is_keyword" => some { s with format.hashColonIsKeyword := v.isTrue }
  | "retain_whitespace" => some { s with modes.retainWhitespace := v.isTrue }
  | "retain_comments" => some { s with modes.retainComments := v.isTrue }
  | "allow_improper_lists" => some { s with modes.allowImproperLists := v.isTrue }
  | _ => none

def isKnown (name : String) : Bool :=
  (standard.change? name (.flag false)).isSome

/-- Names that are no setting, in order. -/
structure UnknownSettings where
  names : List String
  deriving DecidableEq, Repr

def UnknownSettings.message (e : UnknownSettings) : String :=
  "unknown settings " ++ Text.quotedList e.names

/-- The standard settings after some changes; an unknown name forbids them all. -/
def configure (changes : List (String × SettingValue)) : Except UnknownSettings Settings :=
  let unknown := (changes.map Prod.fst).filter fun name => !isKnown name
  if unknown = [] then
    .ok (changes.foldl (fun s c => (s.change? c.1 c.2).getD s) standard)
  else .error ⟨unknown.mergeSort fun a b => decide (a ≤ b)⟩

/-- The changes that turn the standard format into another one. -/
def changesTo (f : Format) : List (String × SettingValue) :=
  [("name", .text f.name),
   ("has_dotted_pairs", .flag f.hasDottedPairs),
   ("octal_escapes_in_delimited", .flag f.octalEscapes),
   ("x_escape_terminated_by_semicolon_in_delimited", .flag f.hexEscapesEndWithSemicolon),
   ("x_escape_len", .count f.hexEscapeDigits),
   ("accept_long_false_true", .flag f.longBooleans),
   ("hashcolon_is_keyword", .flag f.hashColonIsKeyword)]

end Settings

end Sexpr
