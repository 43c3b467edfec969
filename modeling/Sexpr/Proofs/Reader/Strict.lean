import Sexpr.Proofs.Reader.Feeding
import Sexpr.Proofs.Reader.Places

/-!
Reading with improper lists forbidden, beside reading the same tokens with improper lists allowed.

- `feed_strict`: a token does the same, and one check more where it closes a list.
- `feedAll_strict`: so the first list that closes improper is the only difference.
- `strict_reading`: what this means for reading all data.
-/

namespace Sexpr

/-- The dot of an improper list. -/
def Datum.dot? : Datum → Option Pos
  | .list _ _ dot _ => dot
  | .atom .. => none

namespace Modes

/-- Improper lists are forbidden. -/
def strict (modes : Modes) : Modes := { modes with allowImproperLists := false }

/-- Improper lists are allowed. -/
def lenient (modes : Modes) : Modes := { modes with allowImproperLists := true }

end Modes

namespace Reader

/-- The list on top of a stack, with the items that it has so far. -/
def topList : Stack → Option Datum
  | .list _ start kind items phase :: _ => some (.list kind items.reverse phase.dot? (some start))
  | _ => none

/-- The list that a token closes. -/
def closedBy (stack : Stack) : Token → Option Datum
  | .closing _ => topList (dropDiscards stack)
  | _ => none

/-- The lists that are closed while tokens are fed, in order and up to the first fault. It does not
matter what becomes of them. -/
def closedLists (modes : Modes) (outside : StructuralFault) (m : Made) :
    List (Token × Pos) → List Datum
  | [] => []
  | (t, pos) :: rest =>
      match feed modes outside m.stack t pos with
      | .error _ => []
      | .ok step => (closedBy m.stack t).toList ++ closedLists modes outside (step.made m.data) rest

/-- The dot of the first of these lists that is improper. -/
def firstDot (modes : Modes) (outside : StructuralFault) (m : Made) (us : List (Token × Pos)) :
    Option Pos :=
  (closedLists modes outside m us).findSome? Datum.dot?

variable {modes : Modes} {outside : StructuralFault} {stop : Option ReadError} {m : Made}
  {stack below : Stack} {t : Token} {pos dot : Pos} {d : Datum} {us vs ts : List (Token × Pos)}

theorem closedBy_eq_some :
    closedBy stack t = some d ↔ (∃ k, t = .closing k) ∧ topList (dropDiscards stack) = some d := by
  cases t <;> simp [closedBy]

/-! ## One check more -/

theorem close_strict (k : Bracket) (pos : Pos) (stack : Stack) :
    close modes.strict k pos stack =
      (close modes.lenient k pos stack).bind fun step =>
        match (topList stack).bind Datum.dot? with
        | some dot => fault .improperListForbidden dot
        | none => .ok step := by
  cases stack with
  | nil => rfl
  | cons f below =>
    cases f with
    | mark | discard => rfl
    | list fuel start kind items phase =>
      by_cases kinds : k = kind
      · cases phase with
        | items => simp [close, kinds, Phase.dot?, topList, Datum.dot?, Except.bind]
        | tail => rfl
        | close dot =>
          cases dot <;>
            simp [close, kinds, Phase.dot?, topList, Datum.dot?, Except.bind, Modes.strict,
              Modes.lenient]
      · cases phase <;> simp [close, kinds, fault, Except.bind]

/-- A token does the same whether improper lists are allowed or not. Where they are not, a list that
it closes is checked for a dot. -/
theorem feed_strict (stack : Stack) (t : Token) (pos : Pos) :
    feed modes.strict outside stack t pos =
      (feed modes.lenient outside stack t pos).bind fun step =>
        match (closedBy stack t).bind Datum.dot? with
        | some dot => fault .improperListForbidden dot
        | none => .ok step := by
  have unchecked (result : Except ReadError Step) :
      result = result.bind fun step => .ok step := by
    cases result <;> rfl
  cases t with
  | closing k => exact close_strict k pos (dropDiscards stack)
  | _ => exact unchecked _

theorem closedLists_ok {step : Step} (fed : feed modes outside m.stack t pos = .ok step)
    (rest : List (Token × Pos)) :
    closedLists modes outside m ((t, pos) :: rest) =
      (closedBy m.stack t).toList ++ closedLists modes outside (step.made m.data) rest := by
  rw [closedLists, fed]

theorem firstDot_ok {step : Step} (fed : feed modes outside m.stack t pos = .ok step)
    (rest : List (Token × Pos)) :
    firstDot modes outside m ((t, pos) :: rest) =
      ((closedBy m.stack t).bind Datum.dot?).or
        (firstDot modes outside (step.made m.data) rest) := by
  rw [firstDot, closedLists_ok fed, List.findSome?_append]
  cases closedBy m.stack t with
  | none => rfl
  | some d => cases found : d.dot? <;> simp [found, firstDot]

theorem firstDot_append {m' : Made} (fed : feedAll modes outside m us = .ok m')
    (vs : List (Token × Pos)) :
    firstDot modes outside m (us ++ vs) =
      (firstDot modes outside m us).or (firstDot modes outside m' vs) := by
  induction us generalizing m with
  | nil =>
    cases fed
    rfl
  | cons x us ih =>
    obtain ⟨t, pos⟩ := x
    cases first : feed modes outside m.stack t pos with
    | error e =>
      rw [feedAll_error first] at fed
      cases fed
    | ok step =>
      rw [feedAll_ok first] at fed
      rw [List.cons_append, firstDot_ok first, firstDot_ok first, ih fed, Option.or_assoc]

theorem firstDot_eq_none :
    firstDot modes outside m us = none ↔ ∀ d ∈ closedLists modes outside m us, d.dot? = none :=
  List.findSome?_eq_none_iff

/-- Where improper lists are forbidden tokens do what they do where they are allowed, up to the
first list that closes improper. -/
theorem feedAll_strict (m : Made) (us : List (Token × Pos)) :
    feedAll modes.strict outside m us =
      match firstDot modes.lenient outside m us with
      | some dot => fault .improperListForbidden dot
      | none => feedAll modes.lenient outside m us := by
  induction us generalizing m with
  | nil => rfl
  | cons x us ih =>
    obtain ⟨t, pos⟩ := x
    have checked := @feed_strict modes outside m.stack t pos
    cases fed : feed modes.lenient outside m.stack t pos with
    | error e =>
      rw [fed] at checked
      rw [feedAll_error checked, feedAll_error fed, firstDot, closedLists, fed]
      rfl
    | ok step =>
      rw [fed] at checked
      rw [firstDot_ok fed]
      cases found : (closedBy m.stack t).bind Datum.dot? with
      | some dot =>
        simp only [found, Except.bind] at checked
        rw [feedAll_error checked]
        rfl
      | none =>
        simp only [found, Except.bind] at checked
        rw [feedAll_ok checked, feedAll_ok fed, Option.none_or]
        exact ih (step.made m.data)

/-- What is made without a fault where improper lists are forbidden is made without an improper
list where they are allowed. -/
theorem feedAll_strict_eq_ok {m' : Made} :
    feedAll modes.strict outside m us = .ok m' ↔
      feedAll modes.lenient outside m us = .ok m' ∧
        ∀ d ∈ closedLists modes.lenient outside m us, d.dot? = none := by
  rw [feedAll_strict, ← firstDot_eq_none]
  cases firstDot modes.lenient outside m us <;> simp [fault]

theorem readAll_strict (ts : List (Token × Pos)) :
    (ofTokens modes.strict ts stop).readAll.1 =
      match firstDot modes.lenient .dotOutsideList .empty ts with
      | some dot => fault .improperListForbidden dot
      | none => (ofTokens modes.lenient ts stop).readAll.1 := by
  rw [readAll_feedAll, readAll_feedAll, feedAll_strict]
  cases firstDot modes.lenient .dotOutsideList .empty ts <;> rfl

/-! ## Where dots come from -/

/-- The datum stands in a list that was given as one token, or is that list. -/
def Given (us : List (Token × Pos)) (d : Datum) : Prop :=
  ∃ k items dot pos, (.list k items dot, pos) ∈ us ∧ d ∈ (Datum.list k items dot (some pos)).nodes

/-- No list in the datum is improper, unless it was given so. -/
def Proper (us : List (Token × Pos)) (d : Datum) : Prop :=
  ∀ v ∈ d.nodes, v.dot?.isSome = true → Given us v

/-- The dot stands among the tokens where the list that begins at `start` was on top, above
`below`; or it was given with a list after the dot. -/
def DotOf (modes : Modes) (us : List (Token × Pos)) (fuel : Nat) (start : Pos) (below : Stack)
    (dot : Pos) : Prop :=
  (∃ before after m items, us = before ++ (.dot, dot) :: after ∧
      feedAll modes .dotOutsideList .empty before = .ok m ∧
      dropDiscards m.stack = .list fuel start .round items .items :: below) ∨
    ∃ v, Given us v ∧ v.dot? = some dot

/-- A stack of lists whose items are proper and whose dots are their own. -/
inductive Dotted (modes : Modes) (us : List (Token × Pos)) : Stack → Prop
  | empty : Dotted modes us []
  | mark {fuel : Nat} {pos : Pos} {a : Mark} {below : Stack} (dotted : Dotted modes us below) :
      Dotted modes us (.mark fuel pos a :: below)
  | discard {fuel : Nat} {pos : Pos} {below : Stack} (dotted : Dotted modes us below) :
      Dotted modes us (.discard fuel pos :: below)
  | list {fuel : Nat} {start : Pos} {k : Bracket} {items : List Datum} {phase : Phase}
      {below : Stack} (dotted : Dotted modes us below) (proper : ∀ d ∈ items, Proper us d)
      (own : ∀ dot, phase.dot? = some dot → k = .round ∧ DotOf modes us fuel start below dot) :
      Dotted modes us (.list fuel start k items phase :: below)

structure Made.Dotted (modes : Modes) (us : List (Token × Pos)) (m : Made) : Prop where
  data : ∀ d ∈ m.data, Proper us d
  stack : Reader.Dotted modes us m.stack

theorem Given.more (h : Given us d) (vs : List (Token × Pos)) : Given (us ++ vs) d := by
  obtain ⟨k, items, dot, pos, member, inside⟩ := h
  exact ⟨k, items, dot, pos, List.mem_append_left vs member, inside⟩

theorem Proper.more (h : Proper us d) (vs : List (Token × Pos)) : Proper (us ++ vs) d := by
  intro v hv improper
  exact (h v hv improper).more vs

theorem DotOf.more {fuel : Nat} {start : Pos} (h : DotOf modes us fuel start below dot)
    (vs : List (Token × Pos)) : DotOf modes (us ++ vs) fuel start below dot := by
  rcases h with ⟨before, after, m, items, rfl, fed, top⟩ | ⟨v, given, same⟩
  · exact .inl ⟨before, after ++ vs, m, items, by simp, fed, top⟩
  · exact .inr ⟨v, given.more vs, same⟩

theorem Dotted.more (h : Dotted modes us stack) (vs : List (Token × Pos)) :
    Dotted modes (us ++ vs) stack := by
  induction h with
  | empty => exact .empty
  | mark _ ih => exact .mark ih
  | discard _ ih => exact .discard ih
  | list _ proper own ih =>
    refine .list ih (fun d hd => (proper d hd).more vs) ?_
    intro dot found
    obtain ⟨round, stands⟩ := own dot found
    exact ⟨round, stands.more vs⟩

theorem Dotted.dropDiscards (h : Dotted modes us stack) :
    Dotted modes us (dropDiscards stack) := by
  induction h with
  | empty => exact .empty
  | mark dotted => exact .mark dotted
  | discard _ ih => exact ih
  | list dotted proper own => exact .list dotted proper own

theorem proper_atom (a : Atom) (pos : Option Pos) : Proper us (.atom a pos) := by
  intro v hv improper
  obtain rfl := List.mem_singleton.1 hv
  cases improper

theorem proper_list {k : Bracket} {items : List Datum} (h : ∀ d ∈ items, Proper us d)
    (pos : Option Pos) : Proper us (.list k items none pos) := by
  intro v hv improper
  rcases Datum.mem_nodes_list.1 hv with rfl | ⟨d, hd, inside⟩
  · cases improper
  · exact h d hd v inside improper

theorem Proper.items {k : Bracket} {items : List Datum} {dot pos : Option Pos}
    (h : Proper us (.list k items dot pos)) : ∀ d ∈ items, Proper us d := by
  intro d hd v hv improper
  exact h v (Datum.mem_nodes_list.2 (.inr ⟨d, hd, hv⟩)) improper

/-- Tokens that are no lists give none. -/
theorem Proper.of_plain (h : Proper us d) (plain : Plain us) : ∀ v ∈ d.nodes, v.dot? = none := by
  intro v hv
  cases improper : v.dot? with
  | none => rfl
  | some dot =>
    obtain ⟨k, items, q, pos, member, -⟩ := h v hv (by rw [improper]; rfl)
    exact absurd member (plain k items q pos)

/-- What a datum leaves: after a dot a round list hands its own dot over, and only one that was
given has any. -/
theorem deliver_dotted (h : Dotted modes us stack) (hd : Proper us d) {data : List Datum}
    (all : ∀ d ∈ data, Proper us d) : ((deliver stack d).made data).Dotted modes us := by
  induction h generalizing d with
  | empty => exact ⟨List.forall_mem_cons.2 ⟨hd, all⟩, .empty⟩
  | @mark fuel pos a below _ ih =>
    have name : Proper us (.symbol a.name (some pos)) := proper_atom _ _
    exact ih (proper_list (by simp [name, hd]) _)
  | discard dotted => exact ⟨all, dotted⟩
  | @list fuel start k items phase below dotted proper own =>
    have kept : ∀ e ∈ d :: items, Proper us e := List.forall_mem_cons.2 ⟨hd, proper⟩
    cases phase with
    | items | close => exact ⟨all, .list dotted kept own⟩
    | tail dot =>
      obtain ⟨round, stands⟩ := own dot rfl
      by_cases flat : d.isRoundList = true
      · cases d with
        | atom => cases flat
        | list k' more dot' pos =>
          cases k' with
          | square | curly => cases flat
          | round =>
            refine ⟨all, .list dotted ?_ ?_⟩
            · intro e he
              rw [List.reverseAux_eq] at he
              rcases List.mem_append.1 he with later | before
              · exact hd.items e (List.mem_reverse.1 later)
              · exact proper e before
            · intro q found
              have same : dot' = some q := found
              subst same
              have given : Given us (.list .round more (some q) pos) :=
                hd _ List.mem_cons_self rfl
              exact ⟨round, .inr ⟨_, given, rfl⟩⟩
      · rw [deliver_last (Bool.eq_false_iff.2 flat)]
        exact ⟨all, .list dotted kept own⟩

/-- A token keeps dots where they belong, as long as no list closes improper. -/
theorem feed_dotted {step : Step} (h : m.Dotted modes.lenient us)
    (made : feedAll modes.lenient .dotOutsideList .empty us = .ok m)
    (fed : feed modes.strict .dotOutsideList m.stack t pos = .ok step) :
    (step.made m.data).Dotted modes.lenient (us ++ [(t, pos)]) := by
  have data : ∀ d ∈ m.data, Proper (us ++ [(t, pos)]) d := by
    intro d hd
    exact (h.data d hd).more _
  have stack := h.stack.more [(t, pos)]
  have top := stack.dropDiscards
  have pushed {fuel : Nat} {p : Pos} {k : Bracket} :
      Dotted modes.lenient (us ++ [(t, pos)]) (.list fuel p k [] .items :: m.stack) :=
    .list stack (by simp) (by rintro dot ⟨⟩)
  cases feeds_of_feed fed with
  | skipped => exact ⟨data, stack⟩
  | @closing fuel start k items phase below found noTail allowed =>
    rw [found] at top
    cases top with
    | list dotted proper own =>
      have noDot : phase.dot? = none := by
        cases improper : phase.dot? with
        | none => rfl
        | some dot =>
          rw [improper] at allowed
          cases allowed rfl
      rw [noDot]
      have items : ∀ d ∈ items.reverse, Proper (us ++ [(.closing k, pos)]) d := by
        intro d hd
        exact proper d (List.mem_reverse.1 hd)
      exact deliver_dotted dotted (proper_list items _) data
  | @dot fuel start items below found nonempty deep =>
    rw [found] at top
    cases top with
    | list dotted proper own =>
      refine ⟨data, .list dotted proper ?_⟩
      rintro dot ⟨⟩
      exact ⟨rfl, .inl ⟨us, [], m, items, rfl, made, found⟩⟩
  | datumComment => exact ⟨data, .discard stack⟩
  | atom => exact deliver_dotted stack (proper_atom _ _) data
  | @list k items dot =>
    refine deliver_dotted stack ?_ data
    intro v hv _
    exact ⟨k, items, dot, pos, by simp, hv⟩
  | opening => exact ⟨data, pushed⟩
  | mark => exact ⟨data, .mark stack⟩

theorem feedAll_dotted {m' : Made} (h : m.Dotted modes.lenient us)
    (made : feedAll modes.lenient .dotOutsideList .empty us = .ok m)
    (fed : feedAll modes.strict .dotOutsideList m vs = .ok m') :
    m'.Dotted modes.lenient (us ++ vs) := by
  induction vs generalizing us m with
  | nil =>
    cases fed
    rwa [List.append_nil]
  | cons x vs ih =>
    obtain ⟨t, pos⟩ := x
    cases first : feed modes.strict .dotOutsideList m.stack t pos with
    | error e =>
      rw [feedAll_error first] at fed
      cases fed
    | ok step =>
      rw [feedAll_ok first] at fed
      have one : feedAll modes.strict .dotOutsideList m [(t, pos)] = .ok (step.made m.data) :=
        feedAll_ok first []
      rw [List.append_cons]
      refine ih (feed_dotted h made first) ?_ fed
      rw [feedAll_append, made]
      exact (feedAll_strict_eq_ok.1 one).1

theorem dotted_of_feedAll (fed : feedAll modes.strict .dotOutsideList .empty us = .ok m) :
    m.Dotted modes.lenient us := by
  have empty : Made.empty.Dotted modes.lenient [] := ⟨by rintro d ⟨⟩, .empty⟩
  exact feedAll_dotted empty rfl fed

/-! ## The first list that closes improper -/

/-- After the tokens `before` a bracket at `pos` closes an improper list, the first one. Its dot is
at `dot`. -/
structure ImproperAt (modes : Modes) (before : List (Token × Pos)) (m : Made) (pos dot : Pos) :
    Prop where
  lenient : feedAll modes.lenient .dotOutsideList .empty before = .ok m
  strict : feedAll modes.strict .dotOutsideList .empty before = .ok m
  earlier : ∀ d ∈ closedLists modes.lenient .dotOutsideList .empty before, d.dot? = none
  top : ∃ fuel start items below,
    dropDiscards m.stack = .list fuel start .round items (.close (some dot)) :: below ∧
      DotOf modes.lenient before fuel start below dot
  closes : ∃ step, feed modes.lenient .dotOutsideList m.stack (.closing .round) pos = .ok step
  forbidden : feed modes.strict .dotOutsideList m.stack (.closing .round) pos =
    fault .improperListForbidden dot

def FirstImproper (modes : Modes) (ts : List (Token × Pos)) (dot : Pos) : Prop :=
  ∃ before pos after m, ts = before ++ (.closing .round, pos) :: after ∧
    ImproperAt modes before m pos dot

theorem firstImproper_of_firstDot
    (h : firstDot modes.lenient .dotOutsideList .empty ts = some dot) :
    FirstImproper modes ts dot := by
  have failed : feedAll modes.strict .dotOutsideList .empty ts =
      fault .improperListForbidden dot := by
    rw [feedAll_strict, h]
  obtain ⟨before, t, pos, after, m, rfl, strict, forbidden⟩ := exists_of_feedAll_error failed
  obtain ⟨lenient, earlier⟩ := feedAll_strict_eq_ok.1 strict
  have dotted := (dotted_of_feedAll strict).stack.dropDiscards
  have checked := @feed_strict modes .dotOutsideList m.stack t pos
  rw [forbidden] at checked
  rw [firstDot_append lenient, firstDot_eq_none.2 earlier, Option.none_or] at h
  cases fed : feed modes.lenient .dotOutsideList m.stack t pos with
  | error e =>
    rw [firstDot, closedLists, fed] at h
    cases h
  | ok step =>
    rw [fed] at checked
    cases found : (closedBy m.stack t).bind Datum.dot? with
    | none =>
      rw [Except.bind, found] at checked
      cases checked
    | some q =>
      rw [Except.bind, found] at checked
      cases checked
      obtain ⟨d, closed, improper⟩ := Option.bind_eq_some_iff.1 found
      obtain ⟨⟨k, rfl⟩, top⟩ := closedBy_eq_some.1 closed
      cases feeds_of_feed fed with
      | skipped skipped => cases skipped
      | @closing fuel start k items phase below same noTail =>
        rw [same] at top dotted
        cases top
        cases dotted with
        | list _ _ own =>
          obtain ⟨rfl, stands⟩ := own dot improper
          cases phase with
          | items => cases improper
          | tail q => exact absurd rfl (noTail q)
          | close q =>
            cases improper
            exact ⟨before, pos, after, m, rfl, lenient, strict, earlier,
              ⟨fuel, start, items, below, same, stands⟩, ⟨_, fed⟩, forbidden⟩

/-- It makes no difference that improper lists are forbidden, or the first that closes ends the
reading. -/
theorem readAll_strict_cases (modes : Modes) (stop : Option ReadError) (ts : List (Token × Pos)) :
    ((∀ d ∈ closedLists modes.lenient .dotOutsideList .empty ts, d.dot? = none) ∧
        (ofTokens modes.strict ts stop).readAll.1 = (ofTokens modes.lenient ts stop).readAll.1) ∨
      ∃ dot, (∃ d ∈ closedLists modes.lenient .dotOutsideList .empty ts, d.dot? = some dot) ∧
        FirstImproper modes ts dot ∧
        (ofTokens modes.strict ts stop).readAll.1 = fault .improperListForbidden dot := by
  rw [readAll_strict]
  cases found : firstDot modes.lenient .dotOutsideList .empty ts with
  | none => exact .inl ⟨firstDot_eq_none.1 found, rfl⟩
  | some dot =>
    exact .inr ⟨dot, List.exists_of_findSome?_eq_some found, firstImproper_of_firstDot found, rfl⟩

theorem proper_of_readAll {ds : List Datum}
    (read : (ofTokens modes.strict ts stop).readAll.1 = .ok ds) : ∀ d ∈ ds, Proper ts d := by
  obtain ⟨-, m, made, -, rfl⟩ := readAll_ok_iff_feedAll.1 read
  intro d hd
  exact (dotted_of_feedAll made).data d (List.mem_reverse.1 hd)

theorem readAll_of_feed_error {e : ReadError}
    (made : feedAll modes .dotOutsideList .empty us = .ok m)
    (fed : feed modes .dotOutsideList m.stack t pos = .error e) (after : List (Token × Pos)) :
    (ofTokens modes (us ++ (t, pos) :: after) stop).readAll.1 = .error e := by
  rw [readAll_feedAll_append, made]
  simp only [Except.bind, feedAll_error fed]

/-- A token that is a fault where improper lists are allowed is the same fault where they are not,
unless some list before it has closed improper. -/
theorem strict_of_feed_error {e : ReadError}
    (made : feedAll modes.lenient .dotOutsideList .empty us = .ok m)
    (fed : feed modes.lenient .dotOutsideList m.stack t pos = .error e) :
    (feedAll modes.strict .dotOutsideList .empty us = .ok m ∧
        feed modes.strict .dotOutsideList m.stack t pos = .error e) ∨
      ∃ dot, feedAll modes.strict .dotOutsideList .empty us = fault .improperListForbidden dot ∧
        FirstImproper modes us dot := by
  rw [feedAll_strict]
  cases found : firstDot modes.lenient .dotOutsideList .empty us with
  | none =>
    refine .inl ⟨made, ?_⟩
    rw [feed_strict, fed]
    rfl
  | some dot => exact .inr ⟨dot, rfl, firstImproper_of_firstDot found⟩

/-- Forbidding improper lists is reading with them and one check more. What is read so is read with
them too, and no list in it is improper, unless it was given so as one token. If reading with them
succeeds, reading without them fails exactly if some list closes improper on the way, wherever that
list goes, and then at the first such list, for its own dot. If reading with them fails, reading
without them fails in the same way, at the same token if it was a token, or before that at the
first list that closes improper. -/
theorem strict_reading (modes : Modes) (stop : Option ReadError) (ts : List (Token × Pos)) :
    let strict := (ofTokens modes.strict ts stop).readAll.1
    let lenient := (ofTokens modes.lenient ts stop).readAll.1
    let closed := closedLists modes.lenient .dotOutsideList .empty ts
    (∀ ds, strict = .ok ds → lenient = .ok ds ∧ (∀ d ∈ ds, Proper ts d) ∧
      (Plain ts → ∀ d ∈ ds, ∀ v ∈ d.nodes, v.dot? = none)) ∧
    (∀ ds, lenient = .ok ds →
      ((∃ e, strict = .error e) ↔ ∃ d ∈ closed, d.dot?.isSome = true) ∧
      ∀ e, strict = .error e →
        ∃ dot, e = ⟨.structural .improperListForbidden, dot⟩ ∧ FirstImproper modes ts dot) ∧
    (∀ e, lenient = .error e →
      strict = .error e ∨
        ∃ dot, strict = fault .improperListForbidden dot ∧ FirstImproper modes ts dot) ∧
    ∀ before t pos after m e, ts = before ++ (t, pos) :: after →
      feedAll modes.lenient .dotOutsideList .empty before = .ok m →
      feed modes.lenient .dotOutsideList m.stack t pos = .error e →
        lenient = .error e ∧
          ((strict = .error e ∧ feedAll modes.strict .dotOutsideList .empty before = .ok m ∧
              feed modes.strict .dotOutsideList m.stack t pos = .error e) ∨
            ∃ dot, strict = fault .improperListForbidden dot ∧ FirstImproper modes before dot) := by
  intro strict lenient closed
  have cases := readAll_strict_cases modes stop ts
  refine ⟨?_, ?_, ?_, ?_⟩
  · intro ds read
    have proper : ∀ d ∈ ds, Proper ts d := proper_of_readAll read
    rcases cases with ⟨-, same⟩ | ⟨dot, -, -, forbidden⟩
    · refine ⟨same.symm.trans read, proper, ?_⟩
      intro plain d hd
      exact (proper d hd).of_plain plain
    · cases forbidden.symm.trans read
  · intro ds read
    rcases cases with ⟨none, same⟩ | ⟨dot, ⟨d, hd, improper⟩, first, forbidden⟩
    · have succeeds : ∀ e, strict ≠ .error e := by
        intro e failed
        cases (same.trans read).symm.trans failed
      refine ⟨⟨?_, ?_⟩, ?_⟩
      · rintro ⟨e, failed⟩
        exact absurd failed (succeeds e)
      · rintro ⟨d, hd, improper⟩
        rw [none d hd] at improper
        cases improper
      · intro e failed
        exact absurd failed (succeeds e)
    · refine ⟨⟨fun _ => ⟨d, hd, by rw [improper]; rfl⟩, fun _ => ⟨_, forbidden⟩⟩, ?_⟩
      intro e failed
      cases forbidden.symm.trans failed
      exact ⟨dot, rfl, first⟩
  · intro e failed
    rcases cases with ⟨-, same⟩ | ⟨dot, -, first, forbidden⟩
    · exact .inl (same.trans failed)
    · exact .inr ⟨dot, forbidden, first⟩
  · intro before t pos after m e split made fed
    subst split
    refine ⟨readAll_of_feed_error made fed after, ?_⟩
    rcases strict_of_feed_error made fed with ⟨made', fed'⟩ | ⟨dot, forbidden, first⟩
    · exact .inl ⟨readAll_of_feed_error made' fed' after, made', fed'⟩
    · refine .inr ⟨dot, ?_, first⟩
      show (ofTokens modes.strict (before ++ (t, pos) :: after) stop).readAll.1 = _
      rw [readAll_feedAll_append, forbidden]
      rfl

/-- In `(a . (b . c))` the inner list closes first, and its dot is the one that is forbidden. -/
example : firstDot .standard .dotOutsideList .empty
    [(.opening .round, ⟨0, 0⟩), (.atom (.symbol "a"), ⟨0, 1⟩), (.dot, ⟨0, 3⟩),
      (.opening .round, ⟨0, 5⟩), (.atom (.symbol "b"), ⟨0, 6⟩), (.dot, ⟨0, 8⟩),
      (.atom (.symbol "c"), ⟨0, 10⟩), (.closing .round, ⟨0, 11⟩), (.closing .round, ⟨0, 12⟩)] =
    some ⟨0, 8⟩ := rfl

end Reader

end Sexpr
