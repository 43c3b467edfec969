import Sexpr.Datum.Tree

/-!
Equality of data by a list of the pairs still to be compared.

- `same_iff_tree`: two data are the same when their trees are.
-/

namespace Sexpr.Datum

def pairsWeight (pairs : List (Datum × Datum)) : Nat := forestWeight (pairs.map Prod.fst)

theorem pairsWeight_zip_append (xs ys : List Datum) (todo : List (Datum × Datum)) :
    pairsWeight (xs.zip ys ++ todo) ≤ forestWeight xs + pairsWeight todo := by
  induction xs generalizing ys with
  | nil => simp [pairsWeight, forestWeight]
  | cons x xs ih =>
    cases ys with
    | nil => simp [pairsWeight, forestWeight]
    | cons y ys =>
      have := ih ys
      simp only [pairsWeight, forestWeight, List.zip_cons_cons, List.cons_append,
        List.map_cons] at this ⊢
      omega

/-- Whether the pairs still to be compared are all equal. -/
def sameAll : List (Datum × Datum) → Bool
  | [] => true
  | (.atom a _, .atom b _) :: todo => a = b && sameAll todo
  | (.list k xs d _, .list l ys e _) :: todo =>
      k = l && d.isSome = e.isSome && xs.length = ys.length && sameAll (xs.zip ys ++ todo)
  | _ :: _ => false
termination_by pairs => pairsWeight pairs
decreasing_by
  · simp [pairsWeight, forestWeight, weight]
  · have := pairsWeight_zip_append xs ys todo
    simp only [pairsWeight, forestWeight, List.map_cons, weight_list] at this ⊢
    omega

def same (a b : Datum) : Bool := sameAll [(a, b)]

/-- Inequality is never told by itself, but as the opposite of equality. -/
def differs (a b : Datum) : Bool := !a.same b

theorem forall_zip_tree_iff {xs ys : List Datum} (h : xs.length = ys.length) :
    (∀ p ∈ xs.zip ys, p.1.tree = p.2.tree) ↔ xs.map tree = ys.map tree := by
  induction xs generalizing ys with
  | nil => cases ys with
    | nil => simp
    | cons y ys => simp at h
  | cons x xs ih => cases ys with
    | nil => simp at h
    | cons y ys =>
      simp only [List.zip_cons_cons, List.forall_mem_cons, ih (Nat.succ.inj h), List.map_cons,
        List.cons.injEq]

theorem sameAll_iff (pairs : List (Datum × Datum)) :
    sameAll pairs = true ↔ ∀ p ∈ pairs, p.1.tree = p.2.tree := by
  fun_induction sameAll pairs with
  | case1 => simp
  | case2 a pos b pos' todo ih => simp [tree_atom, ih]
  | case3 k xs d pos l ys e pos' todo ih =>
    simp only [tree_list, Bool.and_eq_true, decide_eq_true_eq, ih, List.mem_append,
      List.forall_mem_cons, Tree.list.injEq]
    constructor
    · rintro ⟨⟨⟨kind, improper⟩, length⟩, all⟩
      refine ⟨⟨kind, improper, ?_⟩, fun p hp => all p (.inr hp)⟩
      exact (forall_zip_tree_iff length).1 fun p hp => all p (.inl hp)
    · rintro ⟨⟨kind, improper, items⟩, all⟩
      have length : xs.length = ys.length := by simpa using congrArg List.length items
      refine ⟨⟨⟨kind, improper⟩, length⟩, fun p hp => ?_⟩
      exact hp.elim ((forall_zip_tree_iff length).2 items p) (all p)
  | case4 pair todo atoms lists =>
    obtain ⟨a | ⟨k, xs, d, pos⟩, b | ⟨l, ys, e, pos'⟩⟩ := pair
    · exact (atoms _ _ _ _ rfl).elim
    · simp [tree_atom, tree_list]
    · simp [tree_atom, tree_list]
    · exact (lists _ _ _ _ _ _ _ _ rfl).elim

theorem same_iff_tree (a b : Datum) : a.same b = true ↔ a.tree = b.tree := by
  simp [same, sameAll_iff]

end Sexpr.Datum
