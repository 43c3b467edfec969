import Sexpr.Datum.Equality
import Sexpr.Datum.Hashing
import Sexpr.Proofs.Datum.Dumped
import Sexpr.Proofs.Datum.Spelled

/-!
Equality of data. It is told by a list of pairs still to be compared, and means that two data are
the same tree.

- `same_iff_sameTree`: what is found equal is the same tree, and the other way round.
- `equality_laws`: so equality is an equivalence, and what is equal has the same hash, the same
  written form and the same dump.
-/

namespace Sexpr.Datum

/-- The same tree: at each node the same atom, or two lists in the same brackets, both proper or
both improper, with as many items, which are the same trees pair by pair. No position is looked at,
not even that of a dot. -/
inductive SameTree : Datum → Datum → Prop
  | atom (a : Atom) (pos pos' : Option Pos) : SameTree (.atom a pos) (.atom a pos')
  | list {k : Bracket} {xs ys : List Datum} {dot dot' pos pos' : Option Pos}
      (improper : dot.isSome = dot'.isSome) (length : xs.length = ys.length)
      (items : ∀ p ∈ xs.zip ys, SameTree p.1 p.2) :
      SameTree (.list k xs dot pos) (.list k ys dot' pos')

variable {a b c : Datum}

theorem tree_eq_of_sameTree (h : SameTree a b) : a.tree = b.tree := by
  induction h with
  | atom => rfl
  | list improper length _ ih =>
    rw [tree_list, tree_list, improper, (forall_zip_tree_iff length).1 ih]

theorem sameTree_of_tree_eq (h : a.tree = b.tree) : SameTree a b := by
  induction a using Datum.induction generalizing b with
  | atom x pos =>
    cases b with
    | atom y pos' =>
      cases h
      exact .atom x pos pos'
    | list => cases h
  | list k xs dot pos ih =>
    cases b with
    | atom => cases h
    | list l ys dot' pos' =>
      rw [tree_list, tree_list] at h
      injection h with kind improper trees
      subst kind
      have length : xs.length = ys.length := by simpa using congrArg List.length trees
      refine .list improper length ?_
      intro p hp
      have same := (forall_zip_tree_iff length).2 trees p hp
      exact ih p.1 (List.of_mem_zip hp).1 same

theorem same_iff_sameTree (a b : Datum) : a.same b = true ↔ SameTree a b := by
  rw [same_iff_tree]
  exact ⟨sameTree_of_tree_eq, tree_eq_of_sameTree⟩

/-! ## What does not tell equal data apart -/

theorem hash_of_tree (h : PayloadHashing) (same : a.tree = b.tree) : a.hash h = b.hash h := by
  cases a with
  | atom x pos =>
    cases b with
    | atom y pos' =>
      cases same
      rfl
    | list => cases same
  | list =>
    cases b with
    | atom => cases same
    | list => rfl

theorem render_of_tree (limit : DigitLimit) (fmt : Format) (same : a.tree = b.tree) :
    a.render limit fmt = b.render limit fmt := by
  rw [render_eq_written, render_eq_written, written_of_tree same]

/-- The dump is at the positions of the datum, but they are not written. -/
theorem render_dump_of_tree (limit : DigitLimit) (fmt : Format) (same : a.tree = b.tree) :
    a.dump.bind (render limit fmt) = b.dump.bind (render limit fmt) := by
  have dumps := dumped_of_tree same
  rw [dump_eq_dumped, dump_eq_dumped]
  cases ha : a.dumped with
  | error e =>
    cases hb : b.dumped with
    | error e' =>
      rw [ha, hb] at dumps
      cases dumps
      rfl
    | ok y => simp [ha, hb, Except.map] at dumps
  | ok x =>
    cases hb : b.dumped with
    | error e' => simp [ha, hb, Except.map] at dumps
    | ok y =>
      rw [ha, hb] at dumps
      exact render_of_tree limit fmt (Except.ok.inj dumps)

/-- Two data are found equal if and only if they are the same tree, so equality is an equivalence,
and inequality is its opposite. Equal data have the same hash if they have one at all, and in every
format the same written form and the same written form of their dumps, or the same faults. -/
theorem equality_laws (h : PayloadHashing) (a b c : Datum) :
    (a.same b = true ↔ SameTree a b) ∧
    a.same a = true ∧ (a.same b = true → b.same a = true) ∧
    (a.same b = true → b.same c = true → a.same c = true) ∧
    (a.differs b = true ↔ ¬ SameTree a b) ∧
    (a.same b = true →
      a.hash h = b.hash h ∧
      ∀ (limit : DigitLimit) (fmt : Format),
        a.render limit fmt = b.render limit fmt ∧
        a.dump.bind (render limit fmt) = b.dump.bind (render limit fmt)) := by
  refine ⟨same_iff_sameTree a b, ?_, ?_, ?_, ?_, ?_⟩
  · exact (same_iff_tree a a).2 rfl
  · simp only [same_iff_tree]
    exact Eq.symm
  · simp only [same_iff_tree]
    exact Eq.trans
  · rw [← same_iff_sameTree, differs, Bool.not_eq_true', Bool.not_eq_true]
  · intro same
    have trees := (same_iff_tree a b).1 same
    exact ⟨hash_of_tree h trees, fun limit fmt =>
      ⟨render_of_tree limit fmt trees, render_dump_of_tree limit fmt trees⟩⟩

end Sexpr.Datum
