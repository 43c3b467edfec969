import Sexpr.Datum.Render

/-!
Writing data to a text, one to a line, with an empty line between them.
-/

namespace Sexpr

/-- A text that is being written, and the fault that ended the writing. -/
structure Written where
  text : String
  failure : Option WriteError
  deriving DecidableEq, Repr

namespace Written

def write (limit : DigitLimit) (fmt : Format) (out : String) (d : Datum) : Written :=
  match d.render limit fmt with
  | .ok s => ⟨out ++ s, none⟩
  | .error e => ⟨out, some e⟩

def writeLine (limit : DigitLimit) (fmt : Format) (out : String) (d : Datum) : Written :=
  match d.render limit fmt with
  | .ok s => ⟨out ++ s ++ "\n", none⟩
  | .error e => ⟨out, some e⟩

/-- Each later datum comes after an empty line, which is written before the datum is. -/
def writeLater (limit : DigitLimit) (fmt : Format) (out : String) : List Datum → Written
  | [] => ⟨out, none⟩
  | d :: ds =>
      match writeLine limit fmt (out ++ "\n") d with
      | ⟨out, none⟩ => writeLater limit fmt out ds
      | failed => failed

def writeAll (limit : DigitLimit) (fmt : Format) (out : String) : List Datum → Written
  | [] => ⟨out, none⟩
  | d :: ds =>
      match writeLine limit fmt out d with
      | ⟨out, none⟩ => writeLater limit fmt out ds
      | failed => failed

/-- Texts one after another, up to the first that has none. -/
def ofLines (out : String) : List (Except WriteError String) → Written
  | [] => ⟨out, none⟩
  | .ok s :: more => ofLines (out ++ s) more
  | .error e :: _ => ⟨out, some e⟩

/-- The text, and then the fault if there is one. -/
def lines (w : Written) : List (Except WriteError String) :=
  .ok w.text :: w.failure.toList.map .error

end Written

end Sexpr
