import Mathlib.Data.List.Forall2
import Sexpr.Dialect
import Sexpr.Datum.Tree
import Sexpr.Proofs.Number.Numerals
import Sexpr.Text.Symbol

/-!
The shapes of data: what stands at each node, which atoms and lists have a readable written form,
and how much depth reading it takes.

- `fits_of_need`: printable atoms, well shaped lists and little need make a datum that fits.
-/

namespace Sexpr

/-! ## Item by item -/

section
variable {α β ε : Type} {as : List α} {bs : List β}

theorem exists_forall₂ {R : α → β → Prop} (h : ∀ a ∈ as, ∃ b, R a b) :
    ∃ bs, List.Forall₂ R as bs := by
  induction as with
  | nil => exact ⟨[], .nil⟩
  | cons a as ih =>
    obtain ⟨b, first⟩ := h a List.mem_cons_self
    obtain ⟨bs, others⟩ := ih fun c hc => h c (List.mem_cons_of_mem a hc)
    exact ⟨b :: bs, .cons first others⟩

theorem exists_of_mem_forall₂ {R : α → β → Prop} (h : List.Forall₂ R as bs) {b : β} (hb : b ∈ bs) :
    ∃ a ∈ as, R a b := by
  induction h with
  | nil => cases hb
  | @cons a c as bs first _ ih =>
    rcases List.mem_cons.1 hb with rfl | later
    · exact ⟨a, List.mem_cons_self, first⟩
    · obtain ⟨d, hd, related⟩ := ih later
      exact ⟨d, List.mem_cons_of_mem a hd, related⟩

theorem mapM_eq_ok {f : α → Except ε β} :
    as.mapM f = .ok bs ↔ List.Forall₂ (fun a b => f a = .ok b) as bs := by
  induction as generalizing bs with
  | nil => simp [pure, Except.pure, eq_comm]
  | cons a as ih =>
    rw [List.mapM_cons, List.forall₂_cons_left_iff]
    cases first : f a with
    | error e => simp [bind, Except.bind]
    | ok b =>
      cases others : as.mapM f with
      | error e => simp [bind, Except.bind, ← ih, others]
      | ok cs => simp [bind, Except.bind, pure, Except.pure, ← ih, others, eq_comm]

theorem mapM_of_map {γ : Type} {f : α → Except ε β} {g : γ → Except ε β} {cs : List γ}
    (h : as.map f = cs.map g) : as.mapM f = cs.mapM g := by
  have all {δ : Type} (k : δ → Except ε β) (ds : List δ) : ds.mapM k = (ds.map k).mapM id := by
    rw [List.mapM_map]
    rfl
  rw [all f, all g, h]

theorem map_mapM {γ : Type} (f : α → Except ε β) (g : β → γ) (as : List α) :
    (as.mapM f).map (List.map g) = as.mapM fun a => (f a).map g := by
  induction as with
  | nil => rfl
  | cons a as ih =>
    rw [List.mapM_cons, List.mapM_cons, ← ih]
    cases f a with
    | error e => rfl
    | ok b => cases as.mapM f <;> rfl

end

namespace Datum

/-! ## Nodes and leaves -/

/-- A statement about all data follows from the one about atoms and from lists inheriting it. -/
theorem induction {motive : Datum → Prop} (atom : ∀ a pos, motive (.atom a pos))
    (list : ∀ k items dot pos, (∀ d ∈ items, motive d) → motive (.list k items dot pos)) :
    ∀ d, motive d
  | .atom a pos => atom a pos
  | .list k items dot pos => list k items dot pos fun d _ => induction atom list d
termination_by d => d
decreasing_by
  have := List.sizeOf_lt_of_mem ‹d ∈ items›
  simp only [Datum.list.sizeOf_spec]
  omega

/-- A datum and all data inside it. -/
def nodes : Datum → List Datum
  | .atom a pos => [.atom a pos]
  | .list k items dot pos => .list k items dot pos :: nodesAll items
where
  nodesAll : List Datum → List Datum
    | [] => []
    | d :: ds => nodes d ++ nodesAll ds

theorem mem_nodesAll {x : Datum} {ds : List Datum} :
    x ∈ nodes.nodesAll ds ↔ ∃ d ∈ ds, x ∈ d.nodes := by
  induction ds with
  | nil => simp [nodes.nodesAll]
  | cons d ds ih => simp [nodes.nodesAll, ih]

theorem mem_nodes_list {x : Datum} {k : Bracket} {items : List Datum} {dot pos : Option Pos} :
    x ∈ (Datum.list k items dot pos).nodes ↔
      x = .list k items dot pos ∨ ∃ d ∈ items, x ∈ d.nodes := by
  simp [nodes, mem_nodesAll]

/-- The atoms in a datum, in order. -/
def leaves : Datum → List Atom
  | .atom a _ => [a]
  | .list _ items _ _ => leavesAll items
where
  leavesAll : List Datum → List Atom
    | [] => []
    | d :: ds => leaves d ++ leavesAll ds

theorem leaves_atom (a : Atom) (pos : Option Pos) : (Datum.atom a pos).leaves = [a] := rfl

theorem leaves_list (k : Bracket) (items : List Datum) (dot pos : Option Pos) :
    (Datum.list k items dot pos).leaves = items.flatMap leaves := by
  have all (ds : List Datum) : leaves.leavesAll ds = ds.flatMap leaves := by
    induction ds with
    | nil => rfl
    | cons d ds ih => simp [leaves.leavesAll, ih]
  rw [leaves, all]

theorem mem_leaves_list {a : Atom} {k : Bracket} {items : List Datum} {dot pos : Option Pos} :
    a ∈ (Datum.list k items dot pos).leaves ↔ ∃ d ∈ items, a ∈ d.leaves := by
  rw [leaves_list, List.mem_flatMap]

/-! ## What trees decide -/

theorem map_of_trees {β : Type} {f : Datum → β} {ds es : List Datum}
    (h : ∀ d ∈ ds, ∀ e, d.tree = e.tree → f d = f e) (trees : ds.map tree = es.map tree) :
    ds.map f = es.map f := by
  induction ds generalizing es with
  | nil =>
    obtain rfl := List.map_eq_nil_iff.1 trees.symm
    rfl
  | cons d ds ih =>
    obtain ⟨e, es, rfl, first, others⟩ := List.map_eq_cons_iff.1 trees.symm
    have later : ∀ c ∈ ds, ∀ e, c.tree = e.tree → f c = f e := by
      intro c hc
      exact h c (List.mem_cons_of_mem d hc)
    rw [List.map_cons, List.map_cons, h d List.mem_cons_self e first.symm, ih later others.symm]

theorem leaves_of_tree {d e : Datum} (h : d.tree = e.tree) : d.leaves = e.leaves := by
  induction d using Datum.induction generalizing e with
  | atom a pos =>
    cases e with
    | atom b pos' =>
      cases h
      rfl
    | list => cases h
  | list k items dot pos ih =>
    cases e with
    | atom => cases h
    | list k' items' dot' pos' =>
      rw [tree_list, tree_list] at h
      injection h with kind improper trees
      have lists : items.map leaves = items'.map leaves := by
        apply map_of_trees _ trees
        intro d hd e same
        exact ih d hd same
      rw [leaves_list, leaves_list, List.flatMap_def, List.flatMap_def, lists]

def isRoundList : Datum → Bool
  | .list .round .. => true
  | _ => false

/-- The depth that reading the written form takes: one for each list, and one for what follows a
dot. -/
def need : Datum → Nat
  | .atom .. => 0
  | .list _ items dot _ => 1 + needItems dot.isSome items
where
  needItems (improper : Bool) : List Datum → Nat
    | [] => 0
    | [d] => if improper then 1 + need d else need d
    | d :: ds => max (need d) (needItems improper ds)

theorem need_le_needItems (improper : Bool) {d : Datum} {ds : List Datum} (h : d ∈ ds) :
    d.need ≤ need.needItems improper ds := by
  induction ds with
  | nil => cases h
  | cons e es ih =>
    cases es with
    | nil =>
      obtain rfl := List.mem_singleton.1 h
      cases improper <;> simp [need.needItems]
    | cons f fs =>
      rw [need.needItems]
      · rcases List.mem_cons.1 h with rfl | later
        · exact Nat.le_max_left _ _
        · exact Nat.le_trans (ih later) (Nat.le_max_right _ _)
      · simp

theorem need_last_lt (ds : List Datum) (last : Datum) :
    last.need < need.needItems true (ds ++ [last]) := by
  induction ds with
  | nil => simp [need.needItems]
  | cons d ds ih =>
    rw [List.cons_append, need.needItems]
    · exact Nat.lt_of_lt_of_le ih (Nat.le_max_right _ _)
    · simp

end Datum

/-- An atom whose written form in a format reads back as this atom. -/
def Atom.Printable (fmt : Format) : Atom → Prop
  | .bool _ | .char _ | .string _ | .symbol _ | .special _ => True
  | .number n => n.Lasting
  | .uninterned _ => fmt.hashColonIsKeyword = false
  | .leadingKeyword s =>
      (∀ c ∈ s.toList, Text.isSymbolChar c = true) ∨ fmt.hashColonIsKeyword = true
  | .trailingKeyword s =>
      s.toList ≠ [] ∧ (∀ c ∈ s.toList, Text.isSymbolChar c = true) ∧
      ∀ c ∈ s.toList.head?, c ≠ ':' ∧ c ≠ '#' ∧ c ≠ ';'
  | .plain _ => False

namespace Datum

def Printable (fmt : Format) (d : Datum) : Prop := ∀ a ∈ d.leaves, a.Printable fmt

/-- An improper list can be read if the format has dots, if it is round, and if its last item is no
round list, which would be spliced in. -/
def WellShaped (fmt : Format) (d : Datum) : Prop :=
  ∀ k items dot pos, .list k items (some dot) pos ∈ d.nodes →
    fmt.hasDottedPairs = true ∧ k = .round ∧ 2 ≤ items.length ∧
    ∀ last ∈ items.getLast?, last.isRoundList = false

/-- A datum that can be read back within `fuel` units of depth, if atoms are as `P` says and if
improper lists are read at all. -/
inductive Fits (P : Atom → Prop) (dots : Prop) : Nat → Datum → Prop
  | atom {fuel : Nat} {a : Atom} {pos : Option Pos} (holds : P a) : Fits P dots fuel (.atom a pos)
  | proper {fuel : Nat} {k : Bracket} {items : List Datum} {pos : Option Pos}
      (inner : ∀ d ∈ items, Fits P dots fuel d) : Fits P dots (fuel + 1) (.list k items none pos)
  | improper {fuel : Nat} {items : List Datum} {last : Datum} {dot : Pos} {pos : Option Pos}
      (allowed : dots) (nonempty : items ≠ []) (inner : ∀ d ∈ items, Fits P dots (fuel + 1) d)
      (tail : Fits P dots fuel last) (flat : last.isRoundList = false) :
      Fits P dots (fuel + 2) (.list .round (items ++ [last]) (some dot) pos)

variable {P Q : Atom → Prop} {dots : Prop} {m n : Nat} {d : Datum}

theorem Fits.mono (h : Fits P dots m d) (le : m ≤ n) : Fits P dots n d := by
  induction h generalizing n with
  | atom holds => exact .atom holds
  | @proper fuel _ _ _ _ ih =>
    have one : 1 ≤ n := by omega
    obtain ⟨n, rfl⟩ := Nat.exists_eq_add_of_le' one
    apply Fits.proper
    intro d hd
    exact ih d hd (by omega)
  | @improper fuel _ _ _ _ allowed nonempty _ _ flat ih ihTail =>
    have two : 2 ≤ n := by omega
    obtain ⟨n, rfl⟩ := Nat.exists_eq_add_of_le' two
    have less : fuel ≤ n := by omega
    apply Fits.improper allowed nonempty _ (ihTail less) flat
    intro d hd
    exact ih d hd (by omega)

theorem Fits.imp {dots' : Prop} (atoms : ∀ a, P a → Q a) (allowed : dots → dots')
    (h : Fits P dots n d) : Fits Q dots' n d := by
  induction h with
  | atom holds => exact .atom (atoms _ holds)
  | proper _ ih => exact .proper ih
  | improper dotted nonempty _ _ flat ih ihTail =>
    exact .improper (allowed dotted) nonempty ih ihTail flat

theorem Fits.and_leaves (h : Fits P dots n d) (all : ∀ a ∈ d.leaves, Q a) :
    Fits (fun a => P a ∧ Q a) dots n d := by
  induction h with
  | atom holds => exact .atom ⟨holds, all _ (by simp [leaves_atom])⟩
  | proper _ ih =>
    apply Fits.proper
    intro d hd
    apply ih d hd
    intro a ha
    exact all a (mem_leaves_list.2 ⟨d, hd, ha⟩)
  | @improper fuel items last dot pos dotted nonempty _ _ flat ih ihTail =>
    have inside {d : Datum} (hd : d ∈ items ++ [last]) (a : Atom) (ha : a ∈ d.leaves) : Q a :=
      all a (mem_leaves_list.2 ⟨d, hd, ha⟩)
    have member : last ∈ items ++ [last] := by simp
    apply Fits.improper dotted nonempty _ (ihTail (inside member)) flat
    intro d hd
    exact ih d hd (inside (List.mem_append_left _ hd))

theorem Fits.of_mem_leaves (h : Fits P dots n d) : ∀ a ∈ d.leaves, P a := by
  induction h with
  | atom holds =>
    intro a ha
    obtain rfl := List.mem_singleton.1 ha
    exact holds
  | proper _ ih =>
    intro a ha
    obtain ⟨d, hd, inside⟩ := mem_leaves_list.1 ha
    exact ih d hd a inside
  | improper _ _ _ _ _ ih ihTail =>
    intro a ha
    obtain ⟨d, hd, inside⟩ := mem_leaves_list.1 ha
    rcases List.mem_append.1 hd with first | final
    · exact ih d first a inside
    · obtain rfl := List.mem_singleton.1 final
      exact ihTail a inside

/-- What fits goes on fitting inside. -/
theorem Fits.of_mem_nodes (h : Fits P dots n d) : ∀ v ∈ d.nodes, Fits P dots n v := by
  induction h with
  | atom holds =>
    intro v hv
    obtain rfl := List.mem_singleton.1 hv
    exact .atom holds
  | @proper fuel k items pos inner ih =>
    intro v hv
    rcases mem_nodes_list.1 hv with rfl | ⟨d, hd, inside⟩
    · exact .proper inner
    · exact (ih d hd v inside).mono (Nat.le_succ fuel)
  | @improper fuel items last dot pos allowed nonempty inner tail flat ih ihTail =>
    intro v hv
    rcases mem_nodes_list.1 hv with rfl | ⟨d, hd, inside⟩
    · exact .improper allowed nonempty inner tail flat
    · rcases List.mem_append.1 hd with first | final
      · exact (ih d first v inside).mono (Nat.le_succ _)
      · obtain rfl := List.mem_singleton.1 final
        exact (ihTail v inside).mono (Nat.le_add_right fuel 2)

theorem needItems_le {ds : List Datum} (h : ∀ d ∈ ds, d.need ≤ n) :
    need.needItems false ds ≤ n := by
  induction ds with
  | nil => exact Nat.zero_le n
  | cons d ds ih =>
    have first := h d List.mem_cons_self
    cases ds with
    | nil => exact first
    | cons e es =>
      rw [need.needItems]
      · exact Nat.max_le.2 ⟨first, ih fun x hx => h x (List.mem_cons_of_mem d hx)⟩
      · simp

theorem needItems_dotted_le {ds : List Datum} {last : Datum} (h : ∀ d ∈ ds, d.need ≤ n + 1)
    (tail : last.need ≤ n) : need.needItems true (ds ++ [last]) ≤ n + 1 := by
  induction ds with
  | nil =>
    simp only [List.nil_append, need.needItems, if_true]
    omega
  | cons d ds ih =>
    have first := h d List.mem_cons_self
    rw [List.cons_append, need.needItems]
    · exact Nat.max_le.2 ⟨first, ih fun x hx => h x (List.mem_cons_of_mem d hx)⟩
    · simp

/-- What fits needs no more depth than it has. -/
theorem Fits.need_le (h : Fits P dots n d) : d.need ≤ n := by
  induction h with
  | atom => exact Nat.zero_le _
  | proper _ ih =>
    have items := needItems_le ih
    simp only [need, Option.isSome_none]
    omega
  | improper _ _ _ _ _ ih ihTail =>
    have items := needItems_dotted_le ih ihTail
    simp only [need, Option.isSome_some]
    omega

theorem fits_of_need {fmt : Format} (printable : d.Printable fmt) (shaped : d.WellShaped fmt)
    (le : d.need ≤ n) : Fits (Atom.Printable fmt) (fmt.hasDottedPairs = true) n d := by
  induction d using Datum.induction generalizing n with
  | atom a pos => exact .atom (printable a (by simp [leaves_atom]))
  | list k items dot pos ih =>
    have inner {fuel : Nat} (d : Datum) (hd : d ∈ items) (le : d.need ≤ fuel) :
        Fits (Atom.Printable fmt) (fmt.hasDottedPairs = true) fuel d := by
      apply ih d hd _ _ le
      · intro a ha
        exact printable a (mem_leaves_list.2 ⟨d, hd, ha⟩)
      · intro k xs e p hx
        exact shaped k xs e p (mem_nodes_list.2 (.inr ⟨d, hd, hx⟩))
    rw [need] at le
    cases dot with
    | none =>
      simp only [Option.isSome_none] at le
      have one : 1 ≤ n := by omega
      obtain ⟨n, rfl⟩ := Nat.exists_eq_add_of_le' one
      apply Fits.proper
      intro d hd
      have item := need_le_needItems false hd
      exact inner d hd (by omega)
    | some dot =>
      obtain ⟨allowed, rfl, two, flat⟩ :=
        shaped k items dot pos (mem_nodes_list.2 (.inl rfl))
      have some : items ≠ [] := by
        rintro rfl
        simp at two
      obtain ⟨init, last, rfl⟩ : ∃ init last, items = init ++ [last] :=
        ⟨items.dropLast, items.getLast some, (List.dropLast_concat_getLast some).symm⟩
      have nonempty : init ≠ [] := by
        rintro rfl
        simp at two
      have below := need_last_lt init last
      simp only [Option.isSome_some] at le
      have enough : 2 ≤ n := by omega
      obtain ⟨n, rfl⟩ := Nat.exists_eq_add_of_le' enough
      have tail := @inner n last (by simp) (by omega)
      apply Fits.improper allowed nonempty _ tail (flat last (by simp))
      intro d hd
      have member : d ∈ init ++ [last] := List.mem_append_left _ hd
      have item := need_le_needItems true member
      exact inner d member (by omega)

end Datum

end Sexpr
