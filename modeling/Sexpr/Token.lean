import Sexpr.Datum.Equality
import Sexpr.Datum.Inspect
import Sexpr.Datum.Render
import Sexpr.Error

/-!
Tokens: atoms, brackets, dots, marks before a datum, and the blanks and comments between them.
-/

namespace Sexpr

/-- A mark before a datum, short for a list of the mark's name and the datum. -/
inductive Mark
  | quote
  | quasiquote
  | unquote
  | unquoteSplicing
  deriving DecidableEq, Repr

namespace Mark

def name : Mark → String
  | .quote => "quote"
  | .quasiquote => "quasiquote"
  | .unquote => "unquote"
  | .unquoteSplicing => "unquote-splicing"

def text : Mark → String
  | .quote => String.singleton '\x27'
  | .quasiquote => String.singleton '\x60'
  | .unquote => ","
  | .unquoteSplicing => ",@"

def className : Mark → String
  | .quote => "Quote"
  | .quasiquote => "Quasiquote"
  | .unquote => "Unquote"
  | .unquoteSplicing => "UnquoteSplicing"

end Mark

/-- `datumComment` is `#;`, which comments out the next datum. No text is scanned as a `list`, a
whole list given as one token, or as a token of no known class, which is `unknown`. -/
inductive Token
  | atom (a : Atom)
  | list (kind : Bracket) (items : List Datum) (dot : Option Pos)
  | dot
  | mark (m : Mark)
  | opening (kind : Bracket)
  | closing (kind : Bracket)
  | blank (text : String)
  | datumComment
  | comment (semicolons : Int) (text : String)
  | blockComment (text : String)
  | unknown
  deriving Repr

namespace Token

/-- The most semicolons a comment may begin with. -/
def maxSemicolons : Nat := 255

/-- A token that separates other tokens and means nothing itself. -/
def isSkipped : Token → Bool
  | .blank _ | .comment .. | .blockComment _ => true
  | _ => false

def className : Token → String
  | .atom _ | .list .. => "AtomToken"
  | .dot => "Dot"
  | .mark m => m.className
  | .opening _ => "Open"
  | .closing _ => "Close"
  | .blank _ => "Whitespace"
  | .datumComment => "CommentExpr"
  | .comment .. => "Comment"
  | .blockComment _ => "BComment"
  | .unknown => "Token"

def inspectFields (limit : DigitLimit) : Token → Except DigitsError (List String)
  | .atom a => do return [← a.inspect limit]
  | .list k items d => do return [← (Datum.list k items d none).inspect limit]
  | .opening k | .closing k => .ok [k.inspect]
  | .blank s | .blockComment s => .ok [Text.quoted s]
  | .comment n s => do return [← Integer.text limit n, Text.quoted s]
  | _ => .ok []

def inspect (limit : DigitLimit) (t : Token) : Except DigitsError String := do
  return t.className ++ "(" ++ ", ".intercalate (← t.inspectFields limit) ++ ")"

/-- The names of the fields that a token of a class has. -/
def fieldNames : Token → List String
  | .atom _ | .list .. => ["atom"]
  | .opening _ | .closing _ => ["kind"]
  | .blank _ | .blockComment _ => ["text"]
  | .comment .. => ["semicolons", "text"]
  | _ => []

/-- A token of this class was asked for with another number of fields. -/
structure FieldError where
  className : String
  fields : List String
  deriving DecidableEq, Repr

/-- One name alone is followed by a comma. -/
def FieldError.message (e : FieldError) : String :=
  let names := match e.fields with
    | [name] => Text.quoted name ++ ","
    | names => ", ".intercalate (names.map Text.quoted)
  e.className ++ " takes (" ++ names ++ ")"

/-- The error of giving so many fields to a token like this one, if it has another number. -/
def checkFields (t : Token) (given : Nat) : Except FieldError Unit :=
  if given = t.fieldNames.length then .ok () else .error ⟨t.className, t.fieldNames⟩

/-- Lists are compared as data are, without their positions. -/
def same : Token → Token → Bool
  | .atom a, .atom b => a = b
  | .list k xs d, .list l ys e => (Datum.list k xs d none).same (.list l ys e none)
  | .dot, .dot | .datumComment, .datumComment | .unknown, .unknown => true
  | .mark m, .mark n => m = n
  | .opening k, .opening l | .closing k, .closing l => k = l
  | .blank s, .blank t | .blockComment s, .blockComment t => s = t
  | .comment m s, .comment n t => m = n && s = t
  | _, _ => false

/-- A token can be a key unless a list is in it. -/
def checkKey : Token → Except Datum.AccessError Unit
  | .list .. => .error .listAsKey
  | _ => .ok ()

/-- Atoms and lists are written in the standard format, whatever format they were read in. -/
def text (limit : DigitLimit) : Token → Except WriteError String
  | .atom a => a.render limit .gambit
  | .list k items d => (Datum.list k items d none).render limit .gambit
  | .dot => .ok "."
  | .mark m => .ok m.text
  | .opening k => .ok (String.singleton k.opening)
  | .closing k => .ok (String.singleton k.closing)
  | .blank s => .ok s
  | .datumComment => .ok "#;"
  | .comment n s => .ok (String.ofList (List.replicate n.toNat ';') ++ s)
  | .blockComment s => .ok ("#|" ++ s ++ "|#")
  | .unknown => (inspect limit .unknown).mapError .digits

end Token

end Sexpr
