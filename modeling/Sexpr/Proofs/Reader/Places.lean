import Sexpr.Proofs.Reader.Grammar

/-!
Where the data inside a datum stand among its tokens.

- `Spans.grounded`: each of them has tokens of its own, unless a mark stands for it.
- `Spans.ordered`: the items of a list and its dot stand in order, after the list itself.
-/

namespace Sexpr

namespace Datum

/-- The positions of the items, and that of the dot before the last. -/
def trail (items : List Datum) (dot : Option Pos) : List (Option Pos) :=
  match dot with
  | none => items.map pos
  | some q => items.dropLast.map pos ++ some q :: (items.getLast?.map pos).toList

theorem trail_append (items : List Datum) {more : List Datum} {dot : Option Pos}
    (last : dot.isSome = true → more ≠ []) :
    trail (items ++ more) dot = items.map pos ++ trail more dot := by
  cases dot with
  | none => simp [trail]
  | some q =>
    have nonempty : more ≠ [] := last rfl
    simp [trail, List.dropLast_append_of_ne_nil nonempty, List.getLast?_append,
      List.getLast?_eq_some_getLast nonempty]

/-- Positions that increase along the trail increase along the items, and the dot stands between
the last two. -/
theorem items_of_trail {items : List Datum} {dot : Option Pos} {ps : List Pos}
    (two : dot.isSome = true → 2 ≤ items.length) (places : trail items dot = ps.map some)
    (increase : ps.Pairwise (· < ·)) :
    ∃ qs, items.map pos = qs.map some ∧ qs.Pairwise (· < ·) ∧ qs.head? = ps.head? ∧
      ∀ q ∈ dot, ∃ init a b, qs = init ++ [a, b] ∧ a < q ∧ q < b := by
  cases dot with
  | none => exact ⟨ps, places, increase, rfl, by simp⟩
  | some q =>
    have long : 2 ≤ items.length := two rfl
    obtain ⟨init, a, b, rfl⟩ : ∃ init a b, items = init ++ [a, b] := by
      have reversed : 2 ≤ items.reverse.length := by simpa using long
      match split : items.reverse with
      | b :: a :: init =>
        refine ⟨init.reverse, a, b, ?_⟩
        rw [← List.reverse_reverse items, split]
        simp
      | [] | [_] => simp [split] at reversed
    have shape : trail (init ++ [a, b]) (some q) = init.map pos ++ [a.pos, some q, b.pos] := by
      rw [trail_append init (by simp)]
      rfl
    rw [shape] at places
    obtain ⟨qs, _, rfl, before, after⟩ := List.map_eq_append_iff.1 places.symm
    obtain ⟨p, _, rfl, first, after⟩ := List.map_eq_cons_iff.1 after
    obtain ⟨r, _, rfl, same, after⟩ := List.map_eq_cons_iff.1 after
    obtain ⟨p', _, rfl, second, after⟩ := List.map_eq_cons_iff.1 after
    obtain rfl := List.map_eq_nil_iff.1 after
    obtain rfl : r = q := Option.some.inj same
    have sub : List.Sublist (qs ++ [p, p']) (qs ++ [p, r, p']) := by simp
    refine ⟨qs ++ [p, p'], by simp [before, first, second], increase.sublist sub, ?_, ?_⟩
    · cases qs <;> rfl
    · rintro q' ⟨⟩
      have last : [p, r, p'].Pairwise (· < ·) := increase.sublist (by simp)
      simp only [List.pairwise_cons] at last
      exact ⟨qs, p, p', rfl, last.1 r (by simp), last.2.1 p' (by simp)⟩

end Datum

namespace Reader

variable {modes : Modes} {n : Nat} {d v : Datum} {us : List (Token × Pos)}

/-- The first token of a datum stands at its position. -/
theorem Spans.begins (h : Spans modes n (.datum d) us) :
    ∃ t p rest, us = (t, p) :: rest ∧ d.pos = some p := by
  cases h <;> exact ⟨_, _, _, rfl, rfl⟩

/-- All data inside the data of a part. -/
def Part.nodes : Part → List Datum
  | .gap | .loose => []
  | .datum d => d.nodes
  | .items ds => ds.flatMap Datum.nodes

/-- No list is given as one token. -/
def Plain (us : List (Token × Pos)) : Prop := ∀ k items dot pos, (.list k items dot, pos) ∉ us

theorem Plain.of_inside {us vs : List (Token × Pos)} (h : Plain us) (inside : vs <:+: us) :
    Plain vs := by
  intro k items dot pos hx
  exact h k items dot pos (inside.subset hx)

/-- Some of the tokens make the datum, or it is the name that a mark among them stands for. -/
def Grounded (modes : Modes) (n : Nat) (us : List (Token × Pos)) (v : Datum) : Prop :=
  (∃ k ≤ n, ∃ vs, vs <:+: us ∧ Spans modes k (.datum v) vs) ∨
    ∃ m p, (.mark m, p) ∈ us ∧ v = .symbol m.name (some p)

theorem Grounded.mono {k : Nat} {vs : List (Token × Pos)} (h : Grounded modes k vs v) (le : k ≤ n)
    (inside : vs <:+: us) : Grounded modes n us v := by
  rcases h with ⟨k', le', ws, inner, makes⟩ | ⟨m, p, mark, name⟩
  · exact .inl ⟨k', Nat.le_trans le' le, ws, inner.trans inside, makes⟩
  · exact .inr ⟨m, p, inside.subset mark, name⟩

theorem Spans.grounded_self (h : Spans modes n (.datum d) us) : Grounded modes n us d :=
  .inl ⟨n, Nat.le_refl n, us, List.infix_rfl, h⟩

/-- What is spliced in stands inside the datum after the dot. -/
theorem nodes_joined {ds : List Datum} {dot : Pos} {v : Datum}
    (h : ∃ item ∈ (joined ds dot d).1, v ∈ item.nodes) :
    v ∈ ds.flatMap Datum.nodes ∨ v ∈ d.nodes := by
  obtain ⟨item, member, inside⟩ := h
  have plain (h : item ∈ ds ++ [d]) : v ∈ ds.flatMap Datum.nodes ∨ v ∈ d.nodes := by
    rcases List.mem_append.1 h with before | last
    · exact .inl (List.mem_flatMap.2 ⟨item, before, inside⟩)
    · obtain rfl := List.mem_singleton.1 last
      exact .inr inside
  cases d with
  | atom => exact plain member
  | list k more =>
    cases k with
    | square | curly => exact plain member
    | round =>
      rcases List.mem_append.1 member with before | spliced
      · exact .inl (List.mem_flatMap.2 ⟨item, before, inside⟩)
      · exact .inr (Datum.mem_nodes_list.2 (.inr ⟨item, spliced, inside⟩))

theorem Spans.grounded {part : Part} (h : Spans modes n part us) (plain : Plain us) :
    ∀ v ∈ part.nodes, Grounded modes n us v := by
  induction h with
  | none | skipped | commented | tight | waiting | noItems => simp [Part.nodes]
  | atom =>
    intro v hv
    obtain rfl := List.mem_singleton.1 hv
    exact Spans.atom.grounded_self
  | whole => exact absurd List.mem_cons_self (plain _ _ _ _)
  | @marked n m pos d us vs before datum _ ih =>
    intro v hv
    rcases Datum.mem_nodes_list.1 hv with rfl | ⟨item, member, inside⟩
    · exact (Spans.marked before datum).grounded_self
    · rcases List.mem_cons.1 member with rfl | last
      · obtain rfl := List.mem_singleton.1 inside
        exact .inr ⟨m, pos, List.mem_cons_self, rfl⟩
      · obtain rfl := List.mem_singleton.1 last
        have part : vs <:+: (.mark m, pos) :: (us ++ vs) :=
          (List.suffix_append us vs).isInfix.trans (List.suffix_cons _ _).isInfix
        exact (ih (plain.of_inside part) v inside).mono (Nat.le_succ n) part
  | @proper n k start pos ds us vs items after ih =>
    intro v hv
    rcases Datum.mem_nodes_list.1 hv with rfl | inside
    · exact (Spans.proper items after).grounded_self
    · have part : us <:+: (.opening k, start) :: (us ++ vs ++ [(.closing k, pos)]) :=
        ⟨[(.opening k, start)], vs ++ [(.closing k, pos)], by simp⟩
      have member : v ∈ ds.flatMap Datum.nodes := List.mem_flatMap.2 inside
      exact (ih (plain.of_inside part) v member).mono (Nat.le_succ n) part
  | @dotted n start dot pos ds d us vs ws xs ys items nonempty before gap tail after allowed
      ihItems _ _ ihTail =>
    intro v hv
    rcases Datum.mem_nodes_list.1 hv with rfl | inside
    · exact (Spans.dotted items nonempty before gap tail after allowed).grounded_self
    · rcases nodes_joined inside with first | last
      · have part : us <:+: (.opening .round, start) ::
            (us ++ vs ++ (.dot, dot) :: (ws ++ xs ++ ys ++ [(.closing .round, pos)])) :=
          ⟨[(.opening .round, start)],
            vs ++ (.dot, dot) :: (ws ++ xs ++ ys ++ [(.closing .round, pos)]), by simp⟩
        exact (ihItems (plain.of_inside part) v first).mono (Nat.le_succ _) part
      · have part : xs <:+: (.opening .round, start) ::
            (us ++ vs ++ (.dot, dot) :: (ws ++ xs ++ ys ++ [(.closing .round, pos)])) :=
          ⟨(.opening .round, start) :: (us ++ vs ++ (.dot, dot) :: ws),
            ys ++ [(.closing .round, pos)], by simp⟩
        exact (ihTail (plain.of_inside part) v last).mono (Nat.le_add_right n 2) part
  | @item n ds d us vs ws items gap datum ihItems _ ihDatum =>
    intro v hv
    simp only [Part.nodes, List.flatMap_append, List.flatMap_singleton, List.mem_append] at hv
    rcases hv with first | last
    · have part : us <:+: us ++ vs ++ ws := by
        rw [List.append_assoc]
        exact (List.prefix_append us _).isInfix
      exact (ihItems (plain.of_inside part) v first).mono (Nat.le_refl n) part
    · have part : ws <:+: us ++ vs ++ ws := (List.suffix_append _ ws).isInfix
      exact (ihDatum (plain.of_inside part) v last).mono (Nat.le_refl n) part

/-- The positions in a list and before it, in the order in which they stand among the tokens. The
list that a mark makes stands where its head does. -/
def Part.Ordered (us : List (Token × Pos)) : Part → Prop
  | .gap | .loose | .datum (.atom ..) => True
  | .items ds => ∃ ps, ds.map Datum.pos = ps.map some ∧ List.Sublist ps (us.map Prod.snd)
  | .datum (.list k inner dot pos) =>
      ∃ p ps t rest, pos = some p ∧ us = (t, p) :: rest ∧ Datum.trail inner dot = ps.map some ∧
        List.Sublist ps (us.map Prod.snd) ∧ (dot.isSome = true → 2 ≤ inner.length) ∧
        ((t = .opening k ∧ List.Sublist ps (rest.map Prod.snd)) ∨
          ((∃ m, t = .mark m) ∧ ps.head? = some p))

/-- After a dot the dot and the datum come next, or the items that are spliced in. -/
theorem trail_joined {ds : List Datum} {dot : Pos} (nonempty : ds ≠ [])
    (tail : Spans modes n (.datum d) us) (ordered : (Part.datum d).Ordered us) :
    ((joined ds dot d).2.isSome = true → 2 ≤ (joined ds dot d).1.length) ∧
      ∃ qs, Datum.trail (joined ds dot d).1 (joined ds dot d).2 =
          ds.map Datum.pos ++ qs.map some ∧ List.Sublist qs (dot :: us.map Prod.snd) := by
  obtain ⟨t, q, rest, rfl, place⟩ := tail.begins
  have plain : ((some dot).isSome = true → 2 ≤ (ds ++ [d]).length) ∧
      ∃ qs, Datum.trail (ds ++ [d]) (some dot) = ds.map Datum.pos ++ qs.map some ∧
        List.Sublist qs (dot :: ((t, q) :: rest).map Prod.snd) := by
    have positive := List.length_pos_iff.2 nonempty
    refine ⟨fun _ => by simp; omega, [dot, q], ?_, by simp⟩
    rw [Datum.trail_append ds (by simp)]
    simp [Datum.trail, place]
  cases d with
  | atom => exact plain
  | list k more dot' =>
    cases k with
    | square | curly => exact plain
    | round =>
      obtain ⟨p, ps, _, _, -, -, places, sub, two, -⟩ := ordered
      refine ⟨?_, ps, ?_, sub.cons dot⟩
      · intro improper
        have long := two improper
        simp only [joined, List.length_append]
        omega
      · have last : dot'.isSome = true → more ≠ [] := by
          rintro improper rfl
          have long := two improper
          simp at long
        rw [joined, Datum.trail_append ds last, places]

theorem Spans.ordered {part : Part} (h : Spans modes n part us) (plain : Plain us) :
    part.Ordered us := by
  induction h with
  | none | skipped | commented | tight | waiting | atom => trivial
  | whole => exact absurd List.mem_cons_self (plain _ _ _ _)
  | noItems => exact ⟨[], rfl, List.nil_sublist _⟩
  | @marked n m pos d us vs before datum _ ih =>
    obtain ⟨t, q, rest, rfl, place⟩ := datum.begins
    refine ⟨pos, [pos, q], .mark m, us ++ (t, q) :: rest, rfl, rfl, ?_, ?_, by simp, .inr ?_⟩
    · rw [Datum.trail, List.map_cons, List.map_singleton, place]
      rfl
    · simp
    · exact ⟨⟨m, rfl⟩, rfl⟩
  | @proper n k start pos ds us vs items after ih =>
    have part : us <:+: (.opening k, start) :: (us ++ vs ++ [(.closing k, pos)]) :=
      ⟨[(.opening k, start)], vs ++ [(.closing k, pos)], by simp⟩
    obtain ⟨ps, places, sub⟩ := ih (plain.of_inside part)
    have inside : List.Sublist ps ((us ++ vs ++ [(Token.closing k, pos)]).map Prod.snd) := by
      rw [List.append_assoc, List.map_append]
      exact sub.trans (List.sublist_append_left _ _)
    exact ⟨start, ps, .opening k, _, rfl, rfl, places,
      inside.cons start, by simp, .inl ⟨rfl, inside⟩⟩
  | @dotted n start dot pos ds d us vs ws xs ys items nonempty before gap tail after allowed
      ihItems _ _ ihTail =>
    have first : us <:+: (.opening .round, start) ::
        (us ++ vs ++ (.dot, dot) :: (ws ++ xs ++ ys ++ [(.closing .round, pos)])) :=
      ⟨[(.opening .round, start)],
        vs ++ (.dot, dot) :: (ws ++ xs ++ ys ++ [(.closing .round, pos)]), by simp⟩
    have last : xs <:+: (.opening .round, start) ::
        (us ++ vs ++ (.dot, dot) :: (ws ++ xs ++ ys ++ [(.closing .round, pos)])) :=
      ⟨(.opening .round, start) :: (us ++ vs ++ (.dot, dot) :: ws),
        ys ++ [(.closing .round, pos)], by simp⟩
    obtain ⟨ps, places, sub⟩ := ihItems (plain.of_inside first)
    obtain ⟨two, qs, trail, later⟩ := trail_joined nonempty tail (ihTail (plain.of_inside last))
    have inside : List.Sublist (ps ++ qs)
        ((us ++ vs ++ (Token.dot, dot) :: (ws ++ xs ++ ys ++ [(Token.closing .round, pos)])).map
          Prod.snd) := by
      simp only [List.map_append, List.map_cons, List.append_assoc]
      refine sub.append (List.Sublist.trans ?_ (List.sublist_append_right _ _))
      refine later.trans (List.Sublist.cons_cons dot ?_)
      exact (List.sublist_append_left _ _).trans (List.sublist_append_right _ _)
    refine ⟨start, ps ++ qs, .opening .round, _, rfl, rfl, ?_, inside.cons start, two,
      .inl ⟨rfl, inside⟩⟩
    rw [trail, places, List.map_append]
  | @item n ds d us vs ws items gap datum ihItems _ ihDatum =>
    have part : us <:+: us ++ vs ++ ws := by
      rw [List.append_assoc]
      exact (List.prefix_append us _).isInfix
    obtain ⟨ps, places, sub⟩ := ihItems (plain.of_inside part)
    obtain ⟨t, q, rest, rfl, place⟩ := datum.begins
    refine ⟨ps ++ [q], by simp [places, place], ?_⟩
    rw [List.append_assoc, List.map_append]
    refine sub.append ?_
    simp

end Reader

end Sexpr
