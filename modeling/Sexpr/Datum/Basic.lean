import Sexpr.Number.Decimal
import Sexpr.Pos

/-!
Data: atoms and bracketed lists, proper or improper, each with the position it was read at.
-/

namespace Sexpr

inductive Bracket
  | round
  | square
  | curly
  deriving DecidableEq, Repr

namespace Bracket

def opening : Bracket → Char
  | .round => '('
  | .square => '['
  | .curly => '\x7b'

def closing : Bracket → Char
  | .round => ')'
  | .square => ']'
  | .curly => '\x7d'

def name : Bracket → String
  | .round => "round"
  | .square => "square"
  | .curly => "curly"

def all : List Bracket := [.round, .square, .curly]

def ofOpening? (c : Char) : Option Bracket := all.find? fun k => k.opening == c

def ofClosing? (c : Char) : Option Bracket := all.find? fun k => k.closing == c

end Bracket

/-- The objects written `#!name`. -/
inductive Special
  | eof
  | void
  | optional
  | rest
  | key
  deriving DecidableEq, Repr

namespace Special

def name : Special → String
  | .eof => "eof"
  | .void => "void"
  | .optional => "optional"
  | .rest => "rest"
  | .key => "key"

def all : List Special := [.eof, .void, .optional, .rest, .key]

def named? (s : String) : Option Special := all.find? fun x => x.name == s

end Special

/-- A keyword has its colon before (`leadingKeyword`) or after (`trailingKeyword`) its name. A
`plain` atom belongs to no class: it has a label but no written form. -/
inductive Atom
  | bool (b : Bool)
  | char (c : Char)
  | string (s : String)
  | symbol (s : String)
  | uninterned (s : String)
  | leadingKeyword (s : String)
  | trailingKeyword (s : String)
  | special (x : Special)
  | number (n : Number)
  | plain (label : Option String)
  deriving DecidableEq, Repr

/-- A list with a dot is improper: its last item stands after the dot. -/
inductive Datum
  | atom (a : Atom) (pos : Option Pos)
  | list (kind : Bracket) (items : List Datum) (dot : Option Pos) (pos : Option Pos)
  deriving Repr

namespace Datum

def pos : Datum → Option Pos
  | .atom _ pos => pos
  | .list _ _ _ pos => pos

def symbol (name : String) (pos : Option Pos) : Datum := .atom (.symbol name) pos

/-- Bounds the steps of a walk: each item of a list adds its own weight and one. -/
def weight : Datum → Nat
  | .atom .. => 1
  | .list _ items _ _ => 3 + weightAll items
where
  weightAll : List Datum → Nat
    | [] => 0
    | d :: ds => weight d + 1 + weightAll ds

def forestWeight : List Datum → Nat
  | [] => 0
  | d :: ds => d.weight + forestWeight ds

theorem weightAll_eq (ds : List Datum) : weight.weightAll ds = forestWeight ds + ds.length := by
  induction ds with
  | nil => rfl
  | cons d ds ih => simp only [weight.weightAll, ih, forestWeight, List.length_cons]; omega

theorem weight_list (k : Bracket) (items : List Datum) (dot pos : Option Pos) :
    (Datum.list k items dot pos).weight = forestWeight items + items.length + 3 := by
  simp only [weight, weightAll_eq]; omega

/-- Why an item or a key cannot be had: the index is outside the list, or the key is a list. -/
inductive AccessError
  | outOfRange
  | listAsKey
  deriving DecidableEq, Repr

def AccessError.message : AccessError → String
  | .outOfRange => "list index out of range"
  | .listAsKey => "unhashable type: 'List'"

/-- A negative index counts from the end. -/
def item (items : List Datum) (i : Int) : Except AccessError Datum :=
  let place : Option Nat :=
    if 0 ≤ i then some i.toNat
    else if i.natAbs ≤ items.length then some (items.length - i.natAbs)
    else none
  match place.bind fun n => items[n]? with
  | some d => .ok d
  | none => .error .outOfRange

/-- An atom can be a key, a list cannot. -/
def key : Datum → Except AccessError Atom
  | .atom a _ => .ok a
  | .list .. => .error .listAsKey

end Datum

end Sexpr
