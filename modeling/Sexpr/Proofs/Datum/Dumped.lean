import Sexpr.Datum.Dumped
import Sexpr.Datum.Equality
import Sexpr.Proofs.Datum.Shape
import Sexpr.Proofs.Scan.Quoting

/-!
What a dump tells. Heads keep the classes of atoms and the lists apart, so the datum can be told
from its dump; and a dump is made of proper lists, symbols and numbers only.

- `undumped?_dumped`: the tree of a datum is found again from its dump.
- `fits_dumped`: a dump can be read back where its lists can.
-/

namespace Sexpr

/-- An atom of one of the classes. -/
def Atom.Concrete : Atom → Prop
  | .plain _ => False
  | _ => True

namespace Tree

def dumpedChar? : Tree → Option Char
  | .atom (.number (.integer n)) => Text.scalar? n.toNat
  | _ => none

/-- The text whose codes are dumped. -/
def dumpedText (codes : List Tree) : String := String.ofList (codes.filterMap dumpedChar?)

/-- The atom that is dumped as a list with this head. -/
def dumpedAtom? (head : String) (items : List Tree) : Option Atom :=
  match head, items with
  | "integer->char", [t] => (dumpedChar? t).map .char
  | "string", codes => some (.string (dumpedText codes))
  | "symbol", codes => some (.symbol (dumpedText codes))
  | "uninterned-symbol", codes => some (.uninterned (dumpedText codes))
  | "keyword1", codes => some (.leadingKeyword (dumpedText codes))
  | "keyword2", codes => some (.trailingKeyword (dumpedText codes))
  | "special", [.atom (.symbol name)] => (Special.named? name).map .special
  | "number", [.atom (.number n)] => some (.number n)
  | _, _ => none

/-- The tree whose dump this is. -/
def undumped? : Tree → Option Tree
  | .atom (.symbol "true") => some (.atom (.bool true))
  | .atom (.symbol "false") => some (.atom (.bool false))
  | .list k false (.atom (.symbol "list") :: items) => (undumpedItems? items).map (.list k false)
  | .list k false (.atom (.symbol "improper-list") :: items) =>
      (undumpedItems? items).map (.list k true)
  | .list _ false (.atom (.symbol head) :: items) => (dumpedAtom? head items).map .atom
  | _ => none
where
  undumpedItems? : List Tree → Option (List Tree)
    | [] => some []
    | t :: ts =>
        match undumped? t with
        | some u => (undumpedItems? ts).map (u :: ·)
        | none => none

theorem dumpedText_codes (s : String) : dumpedText ((Atom.codes s).map Datum.tree) = s := by
  simp [dumpedText, Atom.codes, Function.comp_def, Datum.tree_atom, dumpedChar?,
    Scan.scalar?_toNat]

end Tree

namespace Datum

variable {d e x y : Datum} {ds es xs : List Datum}

theorem dumpedItems_eq_mapM (ds : List Datum) : dumped.dumpedItems ds = ds.mapM dumped := by
  induction ds with
  | nil => rfl
  | cons d ds ih =>
    rw [dumped.dumpedItems, List.mapM_cons, ih]
    cases d.dumped <;> rfl

theorem dumpedItems_eq_ok :
    dumped.dumpedItems ds = .ok xs ↔ List.Forall₂ (fun d x => d.dumped = .ok x) ds xs := by
  rw [dumpedItems_eq_mapM, mapM_eq_ok]

theorem dumped_list_eq_ok {k : Bracket} {dot pos : Option Pos} :
    (Datum.list k ds dot pos).dumped = .ok x ↔
      ∃ xs, List.Forall₂ (fun d x => d.dumped = .ok x) ds xs ∧
        x = .list k (.symbol (if dot.isSome then "improper-list" else "list") none :: xs) none
          pos := by
  rw [dumped]
  constructor
  · intro h
    cases items : dumped.dumpedItems ds with
    | error e => simp [items, Except.map] at h
    | ok xs =>
      simp only [items, Except.map, Except.ok.injEq] at h
      exact ⟨xs, dumpedItems_eq_ok.1 items, h.symm⟩
  · rintro ⟨xs, items, rfl⟩
    rw [dumpedItems_eq_ok.2 items]
    rfl

/-- All that is not plain can be dumped. -/
theorem exists_dumped (h : ∀ a ∈ d.leaves, a.Concrete) : ∃ x, d.dumped = .ok x := by
  induction d using Datum.induction with
  | atom a pos =>
    have concrete := h a List.mem_cons_self
    cases a with
    | plain => cases concrete
    | _ => exact ⟨_, rfl⟩
  | list k items dot pos ih =>
    have all : ∀ d ∈ items, ∃ x, d.dumped = .ok x := by
      intro d hd
      apply ih d hd
      intro a ha
      exact h a (mem_leaves_list.2 ⟨d, hd, ha⟩)
    obtain ⟨xs, dumps⟩ := exists_forall₂ all
    exact ⟨_, dumped_list_eq_ok.2 ⟨xs, dumps, rfl⟩⟩

theorem undumped?_dump {a : Atom} {pos : Option Pos} (h : a.dump pos = .ok x) :
    x.tree.undumped? = some (.atom a) := by
  have head (name : String) (items : List Datum) :
      (Atom.dumpList name items pos).tree =
        .list .round false (.atom (.symbol name) :: items.map tree) := by
    rw [Atom.dumpList, tree_list]
    rfl
  cases a with
  | plain => cases h
  | bool b =>
    cases h
    cases b <;> rfl
  | char c =>
    cases h
    have code : Tree.dumpedChar? (.atom (.number (.integer c.toNat))) = some c :=
      Scan.scalar?_toNat c
    rw [head]
    simp [Atom.codes, Tree.undumped?, Tree.dumpedAtom?, tree_atom, code]
  | string s | symbol s | uninterned s | leadingKeyword s | trailingKeyword s =>
    cases h
    rw [head]
    simp [Tree.undumped?, Tree.dumpedAtom?, Tree.dumpedText_codes]
  | special x =>
    cases h
    cases x <;> rfl
  | number n =>
    cases h
    rfl

theorem undumpedItems?_map
    (h : List.Forall₂ (fun d x => x.tree.undumped? = some d.tree) ds xs) :
    Tree.undumped?.undumpedItems? (xs.map tree) = some (ds.map tree) := by
  induction h with
  | nil => rfl
  | cons first _ ih => simp [Tree.undumped?.undumpedItems?, first, ih]

/-- The tree of a datum is found again from its dump. -/
theorem undumped?_dumped (h : d.dumped = .ok x) : x.tree.undumped? = some d.tree := by
  induction d using Datum.induction generalizing x with
  | atom a pos => exact undumped?_dump h
  | list k items dot pos ih =>
    obtain ⟨xs, dumps, rfl⟩ := dumped_list_eq_ok.1 h
    have found : List.Forall₂ (fun d x => x.tree.undumped? = some d.tree) items xs := by
      refine ((List.forall₂_and_left _ _).2 ⟨fun d hd => @ih d hd, dumps⟩).imp ?_
      rintro d x ⟨inner, dump⟩
      exact inner dump
    rw [tree_list, tree_list, List.map_cons]
    cases dot with
    | none => simp [Datum.symbol, tree_atom, Tree.undumped?, undumpedItems?_map found]
    | some dot => simp [Datum.symbol, tree_atom, Tree.undumped?, undumpedItems?_map found]

theorem dumpedItems_of_map
    (h : ds.map (fun d => d.dumped.map tree) = es.map fun e => e.dumped.map tree) :
    (dumped.dumpedItems ds).map (List.map tree) = (dumped.dumpedItems es).map (List.map tree) := by
  rw [dumpedItems_eq_mapM, dumpedItems_eq_mapM, map_mapM, map_mapM, mapM_of_map h]

/-- Positions change nothing in a dump but positions. -/
theorem dumped_of_tree (h : d.tree = e.tree) : d.dumped.map tree = e.dumped.map tree := by
  induction d using Datum.induction generalizing e with
  | atom a pos =>
    cases e with
    | atom b pos' =>
      cases h
      cases a <;> rfl
    | list => cases h
  | list k items dot pos ih =>
    cases e with
    | atom => cases h
    | list k' items' dot' pos' =>
      rw [tree_list, tree_list] at h
      injection h with kind improper trees
      subst kind
      have each : items.map (fun d => d.dumped.map tree) = items'.map fun e => e.dumped.map tree := by
        apply map_of_trees _ trees
        intro d hd e same
        exact ih d hd same
      have all := dumpedItems_of_map each
      rw [dumped, dumped, improper]
      cases hd : dumped.dumpedItems items <;> cases he : dumped.dumpedItems items' <;>
        simp_all [Except.map, tree_list]

theorem tree_of_dumped (h : d.tree = e.tree) (hd : d.dumped = .ok x) (he : e.dumped = .ok y) :
    x.tree = y.tree := by
  have same := dumped_of_tree h
  rw [hd, he] at same
  exact Except.ok.inj same

/-- Two data are the same if their dumps are, and only then. -/
theorem same_dumped_iff (hd : d.dumped = .ok x) (he : e.dumped = .ok y) :
    x.same y = true ↔ d.same e = true := by
  rw [same_iff_tree, same_iff_tree]
  constructor
  · intro same
    have found := undumped?_dumped he
    rw [← same, undumped?_dumped hd] at found
    exact Option.some.inj found
  · intro same
    exact tree_of_dumped same hd he

/-! ## What a dump is made of -/

/-- How many lists stand in one another. -/
def nesting : Datum → Nat
  | .atom .. => 0
  | .list _ items _ _ => nestingItems items + 1
where
  nestingItems : List Datum → Nat
    | [] => 0
    | d :: ds => max (nesting d) (nestingItems ds)

theorem nesting_le_nestingItems (h : d ∈ ds) : d.nesting ≤ nesting.nestingItems ds := by
  induction ds with
  | nil => cases h
  | cons e es ih =>
    rw [nesting.nestingItems]
    rcases List.mem_cons.1 h with rfl | later
    · exact Nat.le_max_left _ _
    · exact Nat.le_trans (ih later) (Nat.le_max_right _ _)

/-- No rational number with the denominator one. -/
def Lasting (d : Datum) : Prop := ∀ n, .number n ∈ d.leaves → n.Lasting

/-- A proper list fits in its nesting if its items do. -/
theorem fits_list {P : Atom → Prop} {dots : Prop} (k : Bracket) (pos : Option Pos)
    (h : ∀ d ∈ ds, d.Fits P dots d.nesting) :
    (Datum.list k ds none pos).Fits P dots (Datum.list k ds none pos).nesting := by
  rw [nesting]
  apply Fits.proper
  intro d hd
  exact (h d hd).mono (nesting_le_nestingItems hd)

/-- A dump can be read back where its lists can. -/
theorem fits_dumped {fmt : Format} {dots : Prop} (h : d.dumped = .ok x) (lasting : d.Lasting) :
    x.Fits (Atom.Printable fmt) dots x.nesting := by
  induction d using Datum.induction generalizing x with
  | atom a pos =>
    have symbol (name : String) (pos : Option Pos) :
        (Datum.symbol name pos).Fits (Atom.Printable fmt) dots (Datum.symbol name pos).nesting :=
      .atom trivial
    have codes (name s : String) :
        (Atom.dumpList name (Atom.codes s) pos).Fits (Atom.Printable fmt) dots
          (Atom.dumpList name (Atom.codes s) pos).nesting := by
      apply fits_list
      intro d hd
      rcases List.mem_cons.1 hd with rfl | code
      · exact symbol name none
      · obtain ⟨c, -, rfl⟩ := List.mem_map.1 code
        exact .atom trivial
    have single (name : String) {a : Atom} (printable : a.Printable fmt) :
        (Atom.dumpList name [.atom a none] pos).Fits (Atom.Printable fmt) dots
          (Atom.dumpList name [.atom a none] pos).nesting := by
      apply fits_list
      intro d hd
      simp only [List.mem_cons, List.not_mem_nil, or_false] at hd
      rcases hd with rfl | rfl
      · exact symbol name none
      · exact .atom printable
    cases a with
    | plain => cases h
    | bool b =>
      cases h
      exact symbol _ pos
    | char | string | symbol | uninterned | leadingKeyword | trailingKeyword =>
      cases h
      exact codes _ _
    | special =>
      cases h
      exact single _ trivial
    | number n =>
      cases h
      exact single _ (lasting n List.mem_cons_self)
  | list k items dot pos ih =>
    obtain ⟨xs, dumps, rfl⟩ := dumped_list_eq_ok.1 h
    apply fits_list
    intro y hy
    rcases List.mem_cons.1 hy with rfl | inside
    · exact .atom trivial
    · obtain ⟨d, hd, dump⟩ := exists_of_mem_forall₂ dumps inside
      apply ih d hd dump
      intro n hn
      exact lasting n (mem_leaves_list.2 ⟨d, hd, hn⟩)

end Datum

end Sexpr
