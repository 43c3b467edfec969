import Sexpr.Datum.Dump

/-!
The dumped form of a datum by recursion on the datum.

- `dump_eq_dumped`: dumping with a stack gives the same datum, or the same error.
-/

namespace Sexpr.Datum

/-- The first item that cannot be dumped decides the error. -/
def dumped : Datum → Except WriteError Datum
  | .atom a pos => a.dump pos
  | .list k items dot pos =>
      (dumpedItems items).map fun ds =>
        .list k (.symbol (if dot.isSome then "improper-list" else "list") none :: ds) none pos
where
  dumpedItems : List Datum → Except WriteError (List Datum)
    | [] => .ok []
    | d :: ds =>
        match dumped d with
        | .ok x => (dumpedItems ds).map (x :: ·)
        | .error e => .error e

theorem modify_last {α : Type} (f : α → α) (as : List α) (a : α) :
    (as ++ [a]).modify as.length f = as ++ [f a] := by
  induction as with
  | nil => rfl
  | cons b as ih => rw [List.cons_append, List.length_cons, List.modify_succ_cons, ih]; rfl

/-- What grows in a list that was put last is at the end of that list. -/
theorem grow_grow (x : Datum) (k : Bracket) (items : List Datum) (dot pos : Option Pos)
    (way : List Nat) (root : List Datum) :
    grow x (way ++ [sizeAt way root]) (grow (.list k items dot pos) way root) =
      grow (.list k (items ++ [x]) dot pos) way root := by
  induction way generalizing root with
  | nil => exact modify_last _ root _
  | cons i way ih =>
    apply List.ext_getElem?
    intro j
    simp only [List.cons_append, grow, List.getElem?_modify]
    by_cases here : i = j
    · subst here
      cases item : root[i]? with
      | none => rfl
      | some d => cases d with
        | atom => simp
        | list => simp [sizeAt, item, ih]
    · simp [here]

/-- Items that come next on the stack are dumped one after another into the list that was put last,
after those that are in it. -/
theorem dumpTodo_allTo {items : List Datum}
    (each : ∀ d ∈ items, ∀ way root todo, dumpTodo root ((d, way) :: todo) =
      d.dumped.bind fun x => dumpTodo (grow x way root) todo)
    (k : Bracket) (front : List Datum) (pos : Option Pos) (way : List Nat) (root : List Datum)
    (todo : List (Datum × List Nat)) :
    dumpTodo (grow (.list k front none pos) way root)
        (allTo (way ++ [sizeAt way root]) items ++ todo) =
      (dumped.dumpedItems items).bind fun xs =>
        dumpTodo (grow (.list k (front ++ xs) none pos) way root) todo := by
  induction items generalizing front with
  | nil => simp [allTo, dumped.dumpedItems, Except.bind]
  | cons d ds ih =>
    have later := ih fun e he => each e (List.mem_cons_of_mem d he)
    rw [allTo, List.map_cons, List.cons_append, each d List.mem_cons_self, dumped.dumpedItems]
    cases d.dumped with
    | error e => rfl
    | ok x =>
      rw [Except.bind, grow_grow]
      refine (later (front ++ [x])).trans ?_
      cases dumped.dumpedItems ds <;> simp [Except.map, Except.bind]

/-- The datum on top of the stack is dumped to the end of the list that its way leads to, before
anything else on the stack is. -/
theorem dumpTodo_cons : ∀ (d : Datum) (way : List Nat) (root : List Datum)
    (todo : List (Datum × List Nat)),
    dumpTodo root ((d, way) :: todo) = d.dumped.bind fun x => dumpTodo (grow x way root) todo
  | .atom a pos, way, root, todo => by
    rw [dumpTodo, dumped]
    cases a.dump pos <;> rfl
  | .list k items dot pos, way, root, todo => by
    rw [dumpTodo, dumpHead, dumpTodo_allTo (fun d _ => dumpTodo_cons d), dumped]
    cases dumped.dumpedItems items <;> rfl

theorem dump_eq_dumped (d : Datum) : d.dump = d.dumped := by
  rw [dump, dumpTodo_cons]
  cases d.dumped with
  | error e => rfl
  | ok x => simp [dumpTodo, grow, Except.map, Except.bind]

end Sexpr.Datum
