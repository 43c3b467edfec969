import Sexpr.Datum.Inspect
import Sexpr.Dialect
import Sexpr.Text.Escape
import Sexpr.Text.Symbol

/-!
The written form of a datum under a format. A list is walked with a stack of pieces, texts and
data still to be written, so depth costs no recursion.
-/

namespace Sexpr

inductive WriteError
  | noWrittenForm
  | noDump (label : Option String)
  | digits (e : DigitsError)
  deriving DecidableEq, Repr

def WriteError.message : WriteError → String
  | .noWrittenForm => "implement in subclass"
  | .noDump label => "cannot dump Atom(" ++ Atom.inspectLabel label ++ ")"
  | .digits e => e.message

namespace Atom

def renderChar (c : Char) : String :=
  match Text.nameOf? c with
  | some name => "#\\" ++ name
  | none =>
      if Text.isBlank c || Text.isControl c then "#\\x" ++ Text.hex 1 c.toNat
      else String.ofList ['#', '\\', c]

def renderSymbol (s : String) : String :=
  if Text.isBare s then s else Text.delimited '|' s

def renderLeadingKeyword (fmt : Format) (s : String) : String :=
  if s.toList.all Text.isSymbolChar then ":" ++ s
  else if fmt.hashColonIsKeyword then "#:" ++ Text.delimited '|' s
  else ":" ++ Text.delimited '|' s

def renderTrailingKeyword (s : String) : String :=
  let cs := s.toList
  if cs ≠ [] && cs.head? ≠ some ':' && cs.all Text.isSymbolChar then s ++ ":"
  else Text.delimited '|' s ++ ":"

def render (limit : DigitLimit) (fmt : Format) : Atom → Except WriteError String
  | .bool b => .ok (if b then "#t" else "#f")
  | .char c => .ok (renderChar c)
  | .string s => .ok (Text.delimited '\x22' s)
  | .symbol s => .ok (renderSymbol s)
  | .uninterned s => .ok ("#:" ++ renderSymbol s)
  | .leadingKeyword s => .ok (renderLeadingKeyword fmt s)
  | .trailingKeyword s => .ok (renderTrailingKeyword s)
  | .special x => .ok ("#!" ++ x.name)
  | .number n => (n.text limit).mapError .digits
  | .plain _ => .error .noWrittenForm

end Atom

namespace Datum

inductive Piece
  | text (s : String)
  | datum (d : Datum)

def Piece.weight : Piece → Nat
  | .text _ => 1
  | .datum d => d.weight

def piecesWeight : List Piece → Nat
  | [] => 0
  | p :: ps => p.weight + piecesWeight ps

/-- The items after the first; a dot stands before the last one of an improper list. -/
def laterPieces (improper : Bool) : List Datum → List Piece
  | [] => []
  | [d] => [.text (if improper then " . " else " "), .datum d]
  | d :: ds => .text " " :: .datum d :: laterPieces improper ds

def itemPieces (improper : Bool) : List Datum → List Piece
  | [] => []
  | d :: ds => .datum d :: laterPieces improper ds

def listPieces (k : Bracket) (items : List Datum) (improper : Bool) : List Piece :=
  .text (String.singleton k.opening) :: itemPieces improper items ++
    [.text (String.singleton k.closing)]

theorem piecesWeight_append (ps qs : List Piece) :
    piecesWeight (ps ++ qs) = piecesWeight ps + piecesWeight qs := by
  induction ps with
  | nil => simp [piecesWeight]
  | cons p ps ih => simp only [List.cons_append, piecesWeight, ih]; omega

theorem laterPieces_weight (improper : Bool) (ds : List Datum) :
    piecesWeight (laterPieces improper ds) = forestWeight ds + ds.length := by
  fun_induction laterPieces improper ds with
  | case1 => rfl
  | case2 d => simp [piecesWeight, forestWeight, Piece.weight]; omega
  | case3 d ds _ ih =>
    simp only [piecesWeight, forestWeight, Piece.weight, List.length_cons] at ih ⊢
    omega

theorem listPieces_weight (k : Bracket) (items : List Datum) (improper : Bool) :
    piecesWeight (listPieces k items improper) ≤ forestWeight items + items.length + 2 := by
  have texts : ∀ s, piecesWeight [.text s] = 1 := fun _ => rfl
  rw [listPieces, ← List.singleton_append, List.append_assoc, piecesWeight_append,
    piecesWeight_append, texts, texts]
  cases items with
  | nil => simp [itemPieces, piecesWeight]
  | cons d ds =>
    have := laterPieces_weight improper ds
    simp only [itemPieces, piecesWeight, forestWeight, Piece.weight, List.length_cons]
    omega

/-- Writes the pieces after the text so far. -/
def renderPieces (limit : DigitLimit) (fmt : Format) (out : String) :
    List Piece → Except WriteError String
  | [] => .ok out
  | .text s :: todo => renderPieces limit fmt (out ++ s) todo
  | .datum (.atom a _) :: todo =>
      match a.render limit fmt with
      | .ok s => renderPieces limit fmt (out ++ s) todo
      | .error e => .error e
  | .datum (.list k items dot _) :: todo =>
      renderPieces limit fmt out (listPieces k items dot.isSome ++ todo)
termination_by pieces => piecesWeight pieces
decreasing_by
  · simp [piecesWeight, Piece.weight]
  · simp [piecesWeight, Piece.weight, weight]
  · have := listPieces_weight k items dot.isSome
    rw [piecesWeight_append]
    simp only [piecesWeight, Piece.weight, weight_list]
    omega

def render (limit : DigitLimit) (fmt : Format) (d : Datum) : Except WriteError String :=
  renderPieces limit fmt "" [.datum d]

end Datum

end Sexpr
