import Sexpr.Dialect
import Sexpr.Token

/-!
The reader's stack: the lists, marks and datum comments that are open, each with the depth it may
still spend, and what one token does to them.
-/

namespace Sexpr.Reader

/-- The depth of nesting that reading one datum may use. -/
def maxDepth : Nat := 500

/-- Where a list stands: among its items, after its dot, or after the item that follows the dot. -/
inductive Phase
  | items
  | tail (dot : Pos)
  | close (dot : Option Pos)
  deriving DecidableEq, Repr

/-- Items stand in reverse. -/
inductive Frame
  | list (fuel : Nat) (pos : Pos) (kind : Bracket) (items : List Datum) (phase : Phase)
  | mark (fuel : Nat) (pos : Pos) (m : Mark)
  | discard (fuel : Nat) (pos : Pos)
  deriving Repr

/-- The innermost frame comes first. -/
abbrev Stack := List Frame

namespace Frame

def fuel : Frame → Nat
  | .list fuel .. | .mark fuel .. | .discard fuel _ => fuel

/-- The depth left for what stands inside; what follows a dot has one less. -/
def inner : Frame → Nat
  | .list fuel _ _ _ (.tail _) => fuel - 1
  | f => f.fuel

end Frame

/-- What a token leaves: a stack, or the datum that it completes. -/
inductive Step
  | stack (s : Stack)
  | datum (d : Datum)

def fault (f : StructuralFault) (pos : Pos) : Except ReadError α :=
  .error ⟨.structural f, pos⟩

def innerDepth : Stack → Nat
  | [] => maxDepth
  | f :: _ => f.inner

/-- Opens a frame with one unit of depth less than is left. -/
def push (stack : Stack) (pos : Pos) (frame : Nat → Frame) : Except ReadError Step :=
  match innerDepth stack with
  | 0 => fault .nestingTooDeep pos
  | fuel + 1 => .ok (.stack (frame fuel :: stack))

/-- A datum comment with nothing to comment out does nothing. -/
def dropDiscards : Stack → Stack
  | .discard .. :: stack => dropDiscards stack
  | stack => stack

/-- Hands a complete datum to the stack. After a dot a round list is spliced into its list. -/
def deliver : Stack → Datum → Step
  | [], d => .datum d
  | .discard .. :: stack, _ => .stack stack
  | .mark _ pos m :: stack, d =>
      deliver stack (.list .round [.symbol m.name (some pos), d] none (some pos))
  | .list fuel pos kind items (.tail dot) :: stack, d =>
      match d with
      | .list .round more dot' _ =>
          .stack (.list fuel pos kind (more.reverseAux items) (.close dot') :: stack)
      | d => .stack (.list fuel pos kind (d :: items) (.close (some dot)) :: stack)
  | .list fuel pos kind items phase :: stack, d =>
      .stack (.list fuel pos kind (d :: items) phase :: stack)

/-- `outside` is the fault of a dot that stands in no list. -/
def dot (outside : StructuralFault) (pos : Pos) : Stack → Except ReadError Step
  | [] => fault outside pos
  | .discard .. :: _ | .mark .. :: _ => fault .misplacedDot pos
  | .list fuel start kind items phase :: stack =>
      if kind ≠ .round then fault (.dotInWrongList kind) pos
      else match phase with
        | .tail _ => fault .misplacedDot pos
        | .close _ => fault .moreThanOneItemAfterDot pos
        | .items =>
            if items = [] then fault .dotWithoutPrecedingItem pos
            else if fuel = 0 then fault .nestingTooDeep pos
            else .ok (.stack (.list fuel start kind items (.tail pos) :: stack))

def Phase.dot? : Phase → Option Pos
  | .items => none
  | .tail dot => some dot
  | .close dot => dot

def close (modes : Modes) (closed : Bracket) (pos : Pos) : Stack → Except ReadError Step
  | [] => fault (.unexpectedClosing closed) pos
  | .discard .. :: _ => fault (.unexpectedClosing closed) pos
  | .mark _ start m :: _ => fault (.missingDatumAfter m.name) start
  | .list _ start kind items phase :: stack =>
      match phase with
      | .tail _ => fault .missingItemAfterDot pos
      | phase =>
          if closed ≠ kind then fault (.mismatch kind start closed) pos
          else match phase.dot?, modes.allowImproperLists with
            | some dot, false => fault .improperListForbidden dot
            | dot, _ => .ok (deliver stack (.list kind items.reverse dot (some start)))

/-- A list is complete but for its closing bracket. -/
def expectsClose : Stack → Bool
  | .list _ _ _ _ (.close _) :: _ => true
  | _ => false

/-- What one token does. Tokens that mean nothing do nothing. -/
def feed (modes : Modes) (outside : StructuralFault) (stack : Stack) (t : Token) (pos : Pos) :
    Except ReadError Step :=
  match t with
  | .blank _ | .comment .. | .blockComment _ => .ok (.stack stack)
  | .closing k => close modes k pos (dropDiscards stack)
  | .dot => dot outside pos (dropDiscards stack)
  | .datumComment => push stack pos fun fuel => .discard fuel pos
  | t =>
      if expectsClose stack then fault .moreThanOneItemAfterDot pos
      else match t with
        | .atom a => .ok (deliver stack (.atom a (some pos)))
        | .list k items dot => .ok (deliver stack (.list k items dot (some pos)))
        | .opening k => push stack pos fun fuel => .list fuel pos k [] .items
        | .mark m => push stack pos fun fuel => .mark fuel pos m
        | _ => fault .unknownToken pos

/-- What the end of the tokens means for what is open. -/
def finish : Stack → Except ReadError Unit
  | [] => .ok ()
  | .discard .. :: stack => finish stack
  | .mark _ pos m :: _ => fault (.missingDatumAfter m.name) pos
  | .list _ _ _ _ (.tail dot) :: _ => fault .missingItemAfterDot dot
  | .list _ pos kind _ _ :: _ => fault (.unclosed kind) pos

end Sexpr.Reader
