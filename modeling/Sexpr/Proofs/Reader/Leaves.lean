import Sexpr.Proofs.Datum.Spelled
import Sexpr.Proofs.Reader.Steps

/-!
The atoms of the data that are read.

- `leaves_of_readAll`: they are the atoms among the tokens, in order, and a mark counts as its name;
  only datum comments lose any.
-/

namespace Sexpr

namespace Reader

/-- The atoms that a stack holds, the outermost list first. -/
inductive Stands : Stack → List Atom → Prop
  | empty : Stands [] []
  | list {stack : Stack} {atoms : List Atom} {fuel : Nat} {pos : Pos} {kind : Bracket}
      {items : List Datum} {phase : Phase} (below : Stands stack atoms) :
      Stands (.list fuel pos kind items phase :: stack)
        (atoms ++ items.reverse.flatMap Datum.leaves)
  | mark {stack : Stack} {atoms : List Atom} {fuel : Nat} {pos : Pos} {m : Mark}
      (below : Stands stack atoms) : Stands (.mark fuel pos m :: stack) (atoms ++ [.symbol m.name])

def Step.Stands : Step → List Atom → Prop
  | .stack s, atoms => Reader.Stands s atoms
  | .datum d, atoms => d.leaves = atoms

variable {modes : Modes} {outside : StructuralFault} {stop : Option ReadError} {stack : Stack}
  {atoms : List Atom} {t : Token} {pos : Pos} {step : Step}

theorem Stands.dropDiscards (h : Stands stack atoms) : Reader.dropDiscards stack = stack := by
  cases h <;> rfl

theorem Stands.items {fuel : Nat} {kind : Bracket} {phase : Phase} {items items' : List Datum}
    (below : Stands stack atoms) {more : List Atom}
    (h : items'.reverse.flatMap Datum.leaves = items.reverse.flatMap Datum.leaves ++ more) :
    Stands (.list fuel pos kind items' phase :: stack)
      (atoms ++ items.reverse.flatMap Datum.leaves ++ more) := by
  rw [List.append_assoc, ← h]
  exact .list below

theorem deliver_stands (h : Stands stack atoms) (d : Datum) :
    (deliver stack d).Stands (atoms ++ d.leaves) := by
  induction h generalizing d with
  | empty => rfl
  | @mark stack atoms fuel pos m below ih =>
    have quoted := ih (.list .round [.symbol m.name (some pos), d] none (some pos))
    simpa [deliver, Datum.leaves_list, Datum.symbol, Datum.leaves_atom] using quoted
  | @list stack atoms fuel start kind items phase below =>
    cases phase with
    | items | close => exact below.items (by simp)
    | tail dot =>
      cases d with
      | atom => exact below.items (by simp)
      | list k more dot' =>
        cases k with
        | square | curly => exact below.items (by simp)
        | round => exact below.items (by simp [Datum.leaves_list, List.reverseAux_eq])

theorem feed_stands (h : Stands stack atoms) (kept : t ≠ .datumComment)
    (ok : feed modes outside stack t pos = .ok step) : step.Stands (atoms ++ t.atoms) := by
  cases feeds_of_feed ok with
  | skipped skipped =>
    have none : t.atoms = [] := by
      cases t with
      | blank | comment | blockComment => rfl
      | _ => cases skipped
    rw [none, List.append_nil]
    exact h
  | @closing fuel start k items phase below top =>
    rw [h.dropDiscards] at top
    subst top
    cases h with
    | list stands =>
      have closed := deliver_stands stands (.list k items.reverse phase.dot? (some start))
      simpa [Datum.leaves_list, Token.atoms] using closed
  | dot top =>
    rw [h.dropDiscards] at top
    subst top
    cases h with
    | list stands => exact stands.items (by simp [Token.atoms])
  | datumComment => exact absurd rfl kept
  | atom => exact deliver_stands h _
  | @list k items dot =>
    have delivered := deliver_stands h (.list k items dot (some pos))
    rwa [Datum.leaves_list] at delivered
  | opening => exact .list h
  | mark => exact .mark h

theorem readFrom_stands {ts : List (Token × Pos)} (h : Stands stack atoms)
    (kept : ∀ x ∈ ts, x.1 ≠ .datumComment) {result : Option Datum}
    (ok : (readFrom modes outside stop stack ts).result = .ok result) :
    (result.toList.flatMap Datum.leaves) ++
        (readFrom modes outside stop stack ts).rest.flatMap (fun x => x.1.atoms) =
      atoms ++ ts.flatMap fun x => x.1.atoms := by
  induction ts generalizing stack atoms with
  | nil =>
    cases stop with
    | some e => cases ok
    | none =>
      cases h with
      | empty =>
        cases ok
        rfl
      | mark => cases ok
      | @list _ _ _ _ _ _ phase => cases phase <;> cases ok
  | cons x rest ih =>
    obtain ⟨t, pos⟩ := x
    have first := kept (t, pos) List.mem_cons_self
    rw [readFrom_cons] at ok ⊢
    cases fed : feed modes outside stack t pos with
    | error e =>
      rw [fed] at ok
      cases ok
    | ok step =>
      have stands := feed_stands h first fed
      rw [fed] at ok
      cases step with
      | datum d =>
        cases ok
        have leaves : d.leaves = atoms ++ t.atoms := stands
        simp [resume, leaves]
      | stack s =>
        have later : ∀ x ∈ rest, x.1 ≠ .datumComment := by
          intro x hx
          exact kept x (List.mem_cons_of_mem _ hx)
        have more := ih stands later ok
        simpa [resume_stack] using more

theorem leaves_of_collect {found : List Datum} {r : Reader}
    (kept : ∀ x ∈ r.pending, x.1 ≠ .datumComment) (ok : (collect found r).2.1 = none) :
    (collect found r).1.flatMap Datum.leaves =
      found.reverse.flatMap Datum.leaves ++ r.pending.flatMap fun x => x.1.atoms := by
  fun_induction collect found r with
  | case1 found r d rest ended read ih =>
    have leaves := readFrom_stands .empty kept (by rw [read])
    have suffix := readFrom_rest_suffix r.modes .dotOutsideList r.stop [] r.pending
    have left : ∀ x ∈ (r.readWith .dotOutsideList).2.pending, x.1 ≠ .datumComment := by
      intro x hx
      exact kept x (suffix.subset hx)
    rw [ih left ok, ← List.nil_append (r.pending.flatMap _), ← leaves]
    simp [readWith]
  | case2 found r rest ended read =>
    have leaves := readFrom_stands .empty kept (by rw [read])
    rw [rest_eq_nil (by rw [read])] at leaves
    rw [← List.nil_append (r.pending.flatMap _), ← leaves]
    simp
  | case3 => cases ok

theorem leaves_of_readAll {ts : List (Token × Pos)} {ds : List Datum}
    (kept : ∀ x ∈ ts, x.1 ≠ .datumComment)
    (ok : (ofTokens modes ts stop).readAll.1 = .ok ds) :
    ds.flatMap Datum.leaves = ts.flatMap fun x => x.1.atoms := by
  obtain ⟨rfl, noFault⟩ := readAll_eq_ok.1 ok
  exact leaves_of_collect kept noFault

end Reader

end Sexpr
