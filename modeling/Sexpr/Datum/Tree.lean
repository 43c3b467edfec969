import Sexpr.Datum.Basic

/-!
The tree of a datum: its atoms, brackets and items without positions. Where the dot of an improper
list stood is forgotten too, that there was one is not.
-/

namespace Sexpr

inductive Tree
  | atom (a : Atom)
  | list (kind : Bracket) (improper : Bool) (items : List Tree)

def Datum.tree : Datum → Tree
  | .atom a _ => .atom a
  | .list k items dot _ => .list k dot.isSome (trees items)
where
  trees : List Datum → List Tree
    | [] => []
    | d :: ds => tree d :: trees ds

namespace Datum

theorem trees_eq_map (ds : List Datum) : tree.trees ds = ds.map tree := by
  induction ds with
  | nil => rfl
  | cons d ds ih => simp [tree.trees, ih]

theorem tree_atom (a : Atom) (pos : Option Pos) : (Datum.atom a pos).tree = .atom a := rfl

theorem tree_list (k : Bracket) (items : List Datum) (dot pos : Option Pos) :
    (Datum.list k items dot pos).tree = .list k dot.isSome (items.map tree) := by
  rw [tree, trees_eq_map]

end Datum

end Sexpr
