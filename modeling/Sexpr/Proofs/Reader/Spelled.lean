import Sexpr.Proofs.Datum.Spelled
import Sexpr.Proofs.Reader.Steps

/-!
Reading the tokens that data are spelled with.

- `readAll_spelled`: they are read as data of the same trees, if there is depth enough.
-/

namespace Sexpr

theorem Datum.isRoundList_of_tree {d e : Datum} (h : d.tree = e.tree) :
    d.isRoundList = e.isRoundList := by
  cases d with
  | atom =>
    cases e with
    | atom => rfl
    | list => cases h
  | list k =>
    cases e with
    | atom => cases h
    | list l =>
      rw [tree_list, tree_list] at h
      injection h with kind
      subst kind
      cases k <;> rfl

namespace Reader

variable {modes : Modes} {outside : StructuralFault} {stop : Option ReadError}

/-- Tokens that spell a datum hand one with its tree to every stack that waits for a datum and has
so much depth left. -/
def ReadsBack (modes : Modes) (outside : StructuralFault) (stop : Option ReadError) (fuel : Nat)
    (d : Datum) : Prop :=
  ∀ ts : List (Token × Pos), ts.map Prod.fst = d.spelled →
    ∃ back : Datum, back.tree = d.tree ∧
      ∀ (stack : Stack) (rest : List (Token × Pos)), fuel ≤ innerDepth stack →
        expectsClose stack = false →
        readFrom modes outside stop stack (ts ++ rest) =
          resume modes outside stop rest (.ok (deliver stack back))

theorem readFrom_opening {stack : Stack} {fuel : Nat} (depth : fuel + 1 ≤ innerDepth stack)
    (waits : expectsClose stack = false) (k : Bracket) (pos : Pos) (rest : List (Token × Pos)) :
    ∃ n, fuel ≤ n ∧ readFrom modes outside stop stack ((.opening k, pos) :: rest) =
      readFrom modes outside stop (.list n pos k [] .items :: stack) rest := by
  obtain ⟨n, hn⟩ := Nat.exists_eq_add_of_le' (Nat.le_trans (Nat.le_add_left 1 fuel) depth)
  refine ⟨n, by omega, ?_⟩
  rw [readFrom_cons]
  simp only [feed, waits, push, hn, Bool.false_eq_true, if_false]
  rfl

theorem readFrom_closing (fuel : Nat) (start : Pos) (k : Bracket) (items : List Datum)
    (phase : Phase) (stack : Stack) (pos : Pos) (rest : List (Token × Pos))
    (noTail : ∀ dot, phase ≠ .tail dot)
    (allowed : phase.dot?.isSome = true → modes.allowImproperLists = true) :
    readFrom modes outside stop (.list fuel start k items phase :: stack)
        ((.closing k, pos) :: rest) =
      resume modes outside stop rest
        (.ok (deliver stack (.list k items.reverse phase.dot? (some start)))) := by
  rw [readFrom_cons, feed_closing rfl noTail allowed]

theorem readFrom_dot {fuel : Nat} {items : List Datum} (depth : 0 < fuel) (some : items ≠ [])
    (start : Pos) (stack : Stack) (pos : Pos) (rest : List (Token × Pos)) :
    readFrom modes outside stop (.list fuel start .round items .items :: stack)
        ((.dot, pos) :: rest) =
      readFrom modes outside stop (.list fuel start .round items (.tail pos) :: stack) rest := by
  rw [readFrom_cons]
  have spent : fuel ≠ 0 := by omega
  simp only [feed, dropDiscards, dot, some, spent, ne_eq, not_true_eq_false, if_false]
  rfl

/-- The items of a list come to stand in its frame. -/
theorem readFrom_spelledItems {fuel : Nat} {items : List Datum}
    (h : ∀ d ∈ items, ReadsBack modes outside stop fuel d) {ts : List (Token × Pos)}
    (spelled : ts.map Prod.fst = items.flatMap Datum.spelled) :
    ∃ back : List Datum, back.map Datum.tree = items.map Datum.tree ∧
      ∀ (n : Nat) (start : Pos) (k : Bracket) (found : List Datum) (stack : Stack)
        (rest : List (Token × Pos)), fuel ≤ n →
        readFrom modes outside stop (.list n start k found .items :: stack) (ts ++ rest) =
          readFrom modes outside stop
            (.list n start k (back.reverse ++ found) .items :: stack) rest := by
  induction items generalizing ts with
  | nil =>
    obtain rfl := List.map_eq_nil_iff.1 spelled
    exact ⟨[], rfl, fun _ _ _ _ _ _ _ => rfl⟩
  | cons d ds ih =>
    rw [List.flatMap_cons] at spelled
    obtain ⟨us, vs, rfl, first, others⟩ := List.map_eq_append_iff.1 spelled
    obtain ⟨b, tree, reads⟩ := h d List.mem_cons_self us first
    have later : ∀ e ∈ ds, ReadsBack modes outside stop fuel e := by
      intro e he
      exact h e (List.mem_cons_of_mem d he)
    obtain ⟨bs, trees, more⟩ := ih later others
    refine ⟨b :: bs, by simp [tree, trees], ?_⟩
    intro n start k found stack rest le
    have depth : fuel ≤ innerDepth (.list n start k found .items :: stack) := le
    rw [List.append_assoc, reads _ _ depth rfl, List.reverse_cons, List.append_assoc]
    exact more n start k (b :: found) stack rest le

theorem enclosed_of_map {k : Bracket} {us : List Token} {ts : List (Token × Pos)}
    (h : ts.map Prod.fst = .opening k :: (us ++ [.closing k])) :
    ∃ start vs pos, ts = (.opening k, start) :: (vs ++ [(.closing k, pos)]) ∧
      vs.map Prod.fst = us := by
  obtain ⟨⟨t, start⟩, inner, rfl, rfl, rest⟩ := List.map_eq_cons_iff.1 h
  obtain ⟨vs, last, rfl, inside, closing⟩ := List.map_eq_append_iff.1 rest
  obtain ⟨⟨u, pos⟩, none, rfl, rfl, nothing⟩ := List.map_eq_cons_iff.1 closing
  obtain rfl := List.map_eq_nil_iff.1 nothing
  exact ⟨start, vs, pos, rfl, inside⟩

theorem readsBack_of_fits {P : Atom → Prop} {dots : Prop} {fuel : Nat} {d : Datum}
    (h : d.Fits P dots fuel) (whole : ∀ a, P a → a.spelled = [.atom a])
    (improper : dots → modes.allowImproperLists = true) :
    ReadsBack modes outside stop fuel d := by
  induction h with
  | @atom fuel a pos holds =>
    intro ts spelled
    rw [Datum.spelled, whole a holds] at spelled
    obtain ⟨⟨t, p⟩, us, rfl, rfl, nothing⟩ := List.map_eq_cons_iff.1 spelled
    obtain rfl := List.map_eq_nil_iff.1 nothing
    refine ⟨.atom a (some p), rfl, ?_⟩
    intro stack rest _ waits
    rw [List.cons_append, List.nil_append, readFrom_cons]
    simp [feed, waits]
  | @proper fuel k items pos _ ih =>
    intro ts spelled
    rw [Datum.spelled_proper] at spelled
    obtain ⟨start, vs, q, rfl, inside⟩ := enclosed_of_map spelled
    obtain ⟨back, trees, reads⟩ := readFrom_spelledItems ih inside
    refine ⟨.list k back none (some start), by simp [Datum.tree_list, trees], ?_⟩
    intro stack rest depth waits
    rw [List.cons_append, List.append_assoc]
    obtain ⟨n, le, opened⟩ := readFrom_opening depth waits k start _
    rw [opened, reads n start k [] stack _ le, List.singleton_append,
      readFrom_closing n start k _ .items stack q rest (by simp) (by simp [Phase.dot?])]
    simp [Phase.dot?]
  | @improper fuel items last dot pos allowed nonempty _ _ flat ih ihTail =>
    intro ts spelled
    rw [Datum.spelled_improper] at spelled
    obtain ⟨start, us, q, rfl, inside⟩ := enclosed_of_map spelled
    obtain ⟨vs, ws, rfl, before, after⟩ := List.map_eq_append_iff.1 inside
    obtain ⟨⟨t, p⟩, ys, rfl, rfl, tail⟩ := List.map_eq_cons_iff.1 after
    obtain ⟨back, trees, reads⟩ := readFrom_spelledItems ih before
    obtain ⟨b, tree, readsLast⟩ := ihTail ys tail
    have kept : back.reverse ++ [] ≠ [] := by
      rintro none
      apply nonempty
      apply List.map_eq_nil_iff.1
      rw [← trees]
      simpa using none
    have flat : b.isRoundList = false := (Datum.isRoundList_of_tree tree).trans flat
    refine ⟨.list .round (back ++ [b]) (some p) (some start),
      by simp [Datum.tree_list, trees, tree], ?_⟩
    intro stack rest depth waits
    rw [List.cons_append, List.append_assoc, List.append_assoc]
    obtain ⟨n, le, opened⟩ := readFrom_opening depth waits .round start _
    have positive : 0 < n := by omega
    have left : fuel ≤ innerDepth (.list n start .round (back.reverse ++ []) (.tail p) :: stack) :=
      Nat.le_sub_one_of_lt le
    rw [opened, reads n start .round [] stack _ le, List.cons_append,
      readFrom_dot positive kept, readsLast _ _ left rfl, deliver_last flat]
    rw [resume_stack, List.singleton_append,
      readFrom_closing n start .round _ (.close (some p)) stack q rest (by simp)
        fun _ => improper allowed]
    simp [Phase.dot?]

theorem collect_spelled {P : Atom → Prop} {dots : Prop} {ds : List Datum}
    (h : ∀ d ∈ ds, d.Fits P dots maxDepth) (whole : ∀ a, P a → a.spelled = [.atom a])
    (improper : dots → modes.allowImproperLists = true) {ts : List (Token × Pos)}
    (spelled : ts.map Prod.fst = ds.flatMap Datum.spelled) (found : List Datum) (r : Reader)
    (hm : r.modes = modes) (hs : r.stop = none) (hp : r.pending = ts) :
    ∃ back r', back.map Datum.tree = ds.map Datum.tree ∧
      collect found r = (found.reverse ++ back, none, r') := by
  induction ds generalizing ts found r with
  | nil =>
    obtain rfl := List.map_eq_nil_iff.1 spelled
    refine ⟨[], (r.readWith .dotOutsideList).2, rfl, ?_⟩
    rw [collect_end (by rw [hs, hp]; rfl), List.append_nil]
  | cons d ds ih =>
    rw [List.flatMap_cons] at spelled
    obtain ⟨us, vs, rfl, first, others⟩ := List.map_eq_append_iff.1 spelled
    have readsBack : ReadsBack modes .dotOutsideList none maxDepth d :=
      readsBack_of_fits (h d List.mem_cons_self) whole improper
    obtain ⟨b, tree, reads⟩ := readsBack us first
    subst hm
    have read : readFrom r.modes .dotOutsideList r.stop [] r.pending =
        ⟨.ok (some b), vs, false⟩ := by
      rw [hs, hp]
      exact reads [] vs (Nat.le_refl _) rfl
    have later : ∀ e ∈ ds, e.Fits P dots maxDepth := by
      intro e he
      exact h e (List.mem_cons_of_mem d he)
    obtain ⟨bs, r', trees, more⟩ := ih later others (b :: found) (r.readWith .dotOutsideList).2
      rfl (by simp [readWith, hs]) (by simp [readWith, read])
    refine ⟨b :: bs, r', by simp [tree, trees], ?_⟩
    rw [collect_datum (by rw [read]), more]
    simp

/-- Data that fit are read back from their tokens. -/
theorem readAll_spelled {P : Atom → Prop} {dots : Prop} {ds : List Datum}
    (h : ∀ d ∈ ds, d.Fits P dots maxDepth) (whole : ∀ a, P a → a.spelled = [.atom a])
    (improper : dots → modes.allowImproperLists = true) {ts : List (Token × Pos)}
    (spelled : ts.map Prod.fst = ds.flatMap Datum.spelled) :
    ∃ back : List Datum, (ofTokens modes ts none).readAll.1 = .ok back ∧
      back.map Datum.tree = ds.map Datum.tree := by
  obtain ⟨back, r, trees, all⟩ :=
    collect_spelled h whole improper spelled [] (ofTokens modes ts none) rfl rfl rfl
  refine ⟨back, ?_, trees⟩
  apply readAll_eq_ok.2
  simp [all]

end Reader

end Sexpr
