import Sexpr.Datum.Render

/-!
The dumped form of a datum: every atom becomes a list that says what it is, with characters as
their codes, and every list gets a head that says whether it is improper.
-/

namespace Sexpr

namespace Atom

def codes (s : String) : List Datum :=
  s.toList.map fun c => .atom (.number (.integer c.toNat)) none

def dumpList (head : String) (items : List Datum) (pos : Option Pos) : Datum :=
  .list .round (.symbol head none :: items) none pos

def dump (pos : Option Pos) : Atom → Except WriteError Datum
  | .bool b => .ok (.symbol (if b then "true" else "false") pos)
  | .char c => .ok (dumpList "integer->char" (codes (String.singleton c)) pos)
  | .string s => .ok (dumpList "string" (codes s) pos)
  | .symbol s => .ok (dumpList "symbol" (codes s) pos)
  | .uninterned s => .ok (dumpList "uninterned-symbol" (codes s) pos)
  | .leadingKeyword s => .ok (dumpList "keyword1" (codes s) pos)
  | .trailingKeyword s => .ok (dumpList "keyword2" (codes s) pos)
  | .special x => .ok (dumpList "special" [.symbol x.name none] pos)
  | .number n => .ok (dumpList "number" [.atom (.number n) none] pos)
  | .plain label => .error (.noDump label)

end Atom

namespace Datum

/-- The data with one more at the end of the list that a way leads to. A way is the index of a list,
of a list in it, and so on, and it goes on leading to the same list, since nothing is ever put
before an item. -/
def grow (x : Datum) : List Nat → List Datum → List Datum
  | [], ds => ds ++ [x]
  | i :: way, ds => ds.modify i fun
      | .list k items dot pos => .list k (grow x way items) dot pos
      | d => d

/-- How many items are in the list that a way leads to. -/
def sizeAt : List Nat → List Datum → Nat
  | [], ds => ds.length
  | i :: way, ds =>
      match ds[i]? with
      | some (.list _ items _ _) => sizeAt way items
      | _ => 0

/-- The dump of a list before the items are dumped. -/
def dumpHead (k : Bracket) (dot pos : Option Pos) : Datum :=
  .list k [.symbol (if dot.isSome then "improper-list" else "list") none] none pos

/-- Items that are all to be put where the same way leads to. -/
def allTo (way : List Nat) (items : List Datum) : List (Datum × List Nat) := items.map (·, way)

def todoWeight (todo : List (Datum × List Nat)) : Nat := forestWeight (todo.map Prod.fst)

theorem todoWeight_allTo (way : List Nat) (items : List Datum) (todo : List (Datum × List Nat)) :
    todoWeight (allTo way items ++ todo) = forestWeight items + todoWeight todo := by
  induction items with
  | nil => exact (Nat.zero_add _).symm
  | cons d ds ih =>
    simp only [todoWeight, allTo, List.map_cons, List.cons_append, forestWeight] at ih ⊢
    omega

/-- Dumps the data on a stack, each to the end of the list that its way leads to. The dump of a list
is put there before its items are, and they go on top of the stack. -/
def dumpTodo (root : List Datum) : List (Datum × List Nat) → Except WriteError (List Datum)
  | [] => .ok root
  | (.atom a pos, way) :: todo =>
      match a.dump pos with
      | .ok x => dumpTodo (grow x way root) todo
      | .error e => .error e
  | (.list k items dot pos, way) :: todo =>
      dumpTodo (grow (dumpHead k dot pos) way root)
        (allTo (way ++ [sizeAt way root]) items ++ todo)
termination_by todo => todoWeight todo
decreasing_by
  · simp [todoWeight, forestWeight, weight]
  · rw [todoWeight_allTo]
    simp only [todoWeight, forestWeight, List.map_cons, weight_list]
    omega

/-- One datum on the stack leaves one dump. -/
def dump (d : Datum) : Except WriteError Datum :=
  (dumpTodo [] [(d, [])]).map fun root => root.headD d

end Datum

end Sexpr
