import Sexpr.Proofs.Reader.Feeding
import Sexpr.Proofs.Reader.Grammar

/-!
Datum comments.

- `passes_spans`: what tokens make in the grammar they make in every reader, wherever they stand, as
  far as its limits allow.
- `datumComment_erases`: a datum comment erases the next datum and nothing else.
-/

namespace Sexpr.Reader

/-- A fault that tells only what a reader does not allow: more depth, or improper lists. -/
def Limit (modes : Modes) (e : ReadError) : Prop :=
  e.fault = .structural .nestingTooDeep ∨
    modes.allowImproperLists = false ∧ e.fault = .structural .improperListForbidden

/-- The tokens lead from one state to another, unless one of them reaches a limit. -/
def Passes (modes : Modes) (outside : StructuralFault) (m : Made) (us : List (Token × Pos))
    (m' : Made) : Prop :=
  feedAll modes outside m us = .ok m' ∨
    ∃ e, feedAll modes outside m us = .error e ∧ Limit modes e

variable {modes lenient : Modes} {outside : StructuralFault} {stop : Option ReadError}
  {m m' m'' : Made} {t : Token} {pos : Pos} {us vs : List (Token × Pos)} {n : Nat} {d : Datum}

theorem feed_opening {stack : Stack} (waits : expectsClose stack = false) (k : Bracket) (pos : Pos) :
    feed modes outside stack (.opening k) pos =
      push stack pos fun fuel => .list fuel pos k [] .items := by
  simp [feed, waits]

theorem feed_mark {stack : Stack} (waits : expectsClose stack = false) (a : Mark) (pos : Pos) :
    feed modes outside stack (.mark a) pos = push stack pos fun fuel => .mark fuel pos a := by
  simp [feed, waits]

namespace Passes

theorem none (m : Made) : Passes modes outside m [] m := .inl rfl

theorem limit {e : ReadError} (fed : feed modes outside m.stack t pos = .error e)
    (limit : Limit modes e) (rest : List (Token × Pos)) (m' : Made) :
    Passes modes outside m ((t, pos) :: rest) m' :=
  .inr ⟨e, feedAll_error fed rest, limit⟩

theorem token {step : Step} (fed : feed modes outside m.stack t pos = .ok step)
    (more : Passes modes outside (step.made m.data) us m') :
    Passes modes outside m ((t, pos) :: us) m' := by
  unfold Passes
  rwa [feedAll_ok fed]

theorem append (first : Passes modes outside m us m') (second : Passes modes outside m' vs m'') :
    Passes modes outside m (us ++ vs) m'' := by
  unfold Passes
  rw [feedAll_append]
  rcases first with ok | ⟨e, failed, limit⟩
  · rw [ok]
    exact second
  · rw [failed]
    exact .inr ⟨e, rfl, limit⟩

/-- A token that opens a frame needs depth for it. -/
theorem opens {frame : Nat → Frame}
    (fed : feed modes outside m.stack t pos = push m.stack pos frame)
    (more : ∀ fuel, Passes modes outside ⟨m.data, frame fuel :: m.stack⟩ us m') :
    Passes modes outside m ((t, pos) :: us) m' := by
  unfold push at fed
  split at fed
  · exact limit fed (.inl rfl) us m'
  · exact token fed (more _)

theorem dot {fuel : Nat} {start : Pos} {items : List Datum} {below : Stack}
    (top : dropDiscards m.stack = .list fuel start .round items .items :: below)
    (nonempty : items ≠ [])
    (more : Passes modes outside
      ⟨m.data, .list fuel start .round items (.tail pos) :: below⟩ us m') :
    Passes modes outside m ((.dot, pos) :: us) m' := by
  have fed : feed modes outside m.stack .dot pos =
      if fuel = 0 then fault .nestingTooDeep pos
      else .ok (.stack (.list fuel start .round items (.tail pos) :: below)) := by
    simp only [feed, top, Reader.dot, nonempty, ne_eq, not_true_eq_false, if_false]
  split at fed
  · exact limit fed (.inl rfl) us m'
  · exact token fed more

/-- A closing bracket may complete a list that must not be improper. -/
theorem closing {fuel : Nat} {start : Pos} {k : Bracket} {items : List Datum} {phase : Phase}
    {below : Stack} (top : dropDiscards m.stack = .list fuel start k items phase :: below)
    (noTail : ∀ dot, phase ≠ .tail dot) :
    Passes modes outside m [(.closing k, pos)]
      ((deliver below (.list k items.reverse phase.dot? (some start))).made m.data) := by
  by_cases allowed : phase.dot?.isSome = true → modes.allowImproperLists = true
  · exact token (feed_closing top noTail allowed pos) (none _)
  · have fed : feed modes outside m.stack (.closing k) pos =
        (complete modes k start items.reverse phase.dot? k pos).map (deliver below) := by
      simp only [feed, top]
      exact close_list fuel start k items noTail below k pos
    obtain ⟨improper, forbidden⟩ := Classical.not_imp.1 allowed
    obtain ⟨q, dotted⟩ := Option.isSome_iff_exists.1 improper
    have strict : modes.allowImproperLists = false := Bool.eq_false_iff.2 forbidden
    simp only [complete, ne_eq, not_true_eq_false, if_false, dotted, strict] at fed
    exact limit fed (.inr ⟨strict, rfl⟩) _ _

end Passes

/-- What the tokens of a part do to every reader that they do not bring to a limit. -/
def Part.Passed (modes : Modes) (outside : StructuralFault) (us : List (Token × Pos)) : Part → Prop
  | .gap => ∀ m, Passes modes outside m us m
  | .loose => ∀ m, ∃ s, dropDiscards s = dropDiscards m.stack ∧
      Passes modes outside m us ⟨m.data, s⟩
  | .datum d => ∀ m, expectsClose m.stack = false →
      Passes modes outside m us ((deliver m.stack d).made m.data)
  | .items ds => ∀ data fuel start k found below,
      Passes modes outside ⟨data, .list fuel start k found .items :: below⟩ us
        ⟨data, .list fuel start k (ds.reverse ++ found) .items :: below⟩

/-- What the grammar allows with depth enough and with improper lists goes the same way with less,
as far as it goes. -/
theorem passes_spans {part : Part} (h : Spans lenient n part us) :
    part.Passed modes outside us := by
  induction h with
  | none => exact Passes.none
  | skipped skipped _ ih =>
    intro m
    exact .token (feed_skipped skipped m.stack _) (ih m)
  | commented _ _ _ ihBefore ihDatum ihMore =>
    intro m
    refine .opens rfl fun fuel => ?_
    exact ((ihBefore _).append (ihDatum _ rfl)).append (ihMore m)
  | tight _ ih =>
    intro m
    exact ⟨m.stack, rfl, ih m⟩
  | @waiting n pos us vs _ _ ihBefore ihMore =>
    intro m
    -- The frames that are left waiting differ with the depth, so the stack is found with them.
    cases room : innerDepth m.stack with
    | zero =>
      have full : feed modes outside m.stack .datumComment pos = fault .nestingTooDeep pos := by
        simp only [feed, push, room]
      exact ⟨m.stack, rfl, (ihBefore m).append (.limit full (.inl rfl) vs m)⟩
    | succ fuel =>
      have opened : feed modes outside m.stack .datumComment pos =
          .ok (.stack (.discard fuel pos :: m.stack)) := by
        simp only [feed, push, room]
      obtain ⟨s, top, passes⟩ := ihMore ⟨m.data, .discard fuel pos :: m.stack⟩
      exact ⟨s, top, (ihBefore m).append (.token opened passes)⟩
  | atom =>
    intro m waits
    refine .token ?_ (.none _)
    simp [feed, waits]
  | whole =>
    intro m waits
    refine .token ?_ (.none _)
    simp [feed, waits]
  | marked _ _ ihBefore ihDatum =>
    intro m waits
    refine .opens (feed_mark waits _ _) fun fuel => ?_
    exact (ihBefore _).append (ihDatum _ rfl)
  | @proper n k start pos ds us vs _ _ ihItems ihAfter =>
    intro m waits
    refine .opens (feed_opening waits _ _) fun fuel => ?_
    have items := ihItems m.data fuel start k [] m.stack
    obtain ⟨s, top, after⟩ :=
      ihAfter ⟨m.data, .list fuel start k (ds.reverse ++ []) .items :: m.stack⟩
    have closes := @Passes.closing modes outside ⟨m.data, s⟩ pos _ _ _ _ _ _ top (by simp)
    simpa [Phase.dot?] using (items.append after).append closes
  | @dotted n start dot pos ds d us vs ws xs ys _ nonempty _ _ _ _ _ ihItems ihBefore ihGap ihTail
      ihAfter =>
    intro m waits
    refine .opens (feed_opening waits _ _) fun fuel => ?_
    have kept : ds.reverse ++ [] ≠ [] := by simpa using nonempty
    have items := ihItems m.data fuel start .round [] m.stack
    obtain ⟨s, top, before⟩ :=
      ihBefore ⟨m.data, .list fuel start .round (ds.reverse ++ []) .items :: m.stack⟩
    have tail := (ihGap _).append (ihTail
      ⟨m.data, .list fuel start .round (ds.reverse ++ []) (.tail dot) :: m.stack⟩ rfl)
    rw [List.append_nil, Descent.deliver_tail, splice_reverse] at tail
    obtain ⟨s', top', after⟩ := ihAfter ⟨m.data,
      .list fuel start .round (joined ds dot d).1.reverse (.close (joined ds dot d).2) :: m.stack⟩
    have closes := @Passes.closing modes outside ⟨m.data, s'⟩ pos _ _ _ _ _ _ top' (by simp)
    have dotted : Passes modes outside ⟨m.data, s⟩
        ((.dot, dot) :: (ws ++ xs ++ ys ++ [(.closing .round, pos)])) _ :=
      .dot top kept (by simpa using (tail.append after).append closes)
    simpa [Phase.dot?] using (items.append before).append dotted
  | noItems =>
    intro data fuel start k found below
    exact .none _
  | @item n ds d us vs ws _ _ _ ihItems ihGap ihDatum =>
    intro data fuel start k found below
    have items := ihItems data fuel start k found below
    have last := ihDatum ⟨data, .list fuel start k (ds.reverse ++ found) .items :: below⟩ rfl
    simpa [deliver, Step.made] using (items.append (ihGap _)).append last

/-! ## Datum comments -/

/-- The tokens make one datum after a gap, for a reader with depth enough that allows it. -/
def OneDatum (us : List (Token × Pos)) : Prop :=
  ∃ lenient n d before vs, us = before ++ vs ∧ Spans lenient n .gap before ∧
    Spans lenient n (.datum d) vs

/-- So do tokens that are read as one datum. -/
theorem oneDatum_of_readFrom
    (all : readFrom lenient outside stop [] us = ⟨.ok (some d), [], false⟩) : OneDatum us := by
  obtain ⟨before, vs, split, gap, datum⟩ := readFrom_eq_datum.1 all
  exact ⟨lenient, maxDepth, d, before, vs, by simpa using split, gap, datum⟩

theorem commented_passes (datum : OneDatum us) (pos : Pos) (m : Made) :
    Passes modes outside m ((.datumComment, pos) :: us) m := by
  obtain ⟨lenient, n, d, before, vs, rfl, gap, datum⟩ := datum
  refine .opens rfl fun fuel => ?_
  exact (passes_spans gap _).append (passes_spans datum _ rfl)

/-- What can follow a datum comment that comments nothing out: the end, a dot or a closing
bracket. -/
def EndsItems (vs : List (Token × Pos)) : Prop :=
  ∀ x ∈ vs.head?, x.1 = .dot ∨ ∃ k, x.1 = .closing k

/-- A datum comment that is left waiting makes no difference there. -/
theorem whole_waiting (ends : EndsItems vs) (data : List Datum) (fuel : Nat) (pos : Pos)
    (stack : Stack) :
    (feedAll modes outside ⟨data, .discard fuel pos :: stack⟩ vs).bind (Made.whole stop) =
      (feedAll modes outside ⟨data, stack⟩ vs).bind (Made.whole stop) := by
  cases vs with
  | nil => rfl
  | cons x rest =>
    obtain ⟨t, q⟩ := x
    have same : feed modes outside (.discard fuel pos :: stack) t q =
        feed modes outside stack t q := by
      rcases ends (t, q) rfl with rfl | ⟨k, rfl⟩ <;> rfl
    simp only [feedAll, same]

theorem feed_datumComment (stack : Stack) (pos : Pos) :
    feed modes outside stack .datumComment pos = fault .nestingTooDeep pos ∨
      ∃ fuel, feed modes outside stack .datumComment pos =
        .ok (.stack (.discard fuel pos :: stack)) := by
  simp only [feed, push]
  split
  · exact .inl rfl
  · exact .inr ⟨_, rfl⟩

/-- Wherever a datum comment and the tokens of one datum are fed to the reader, they leave the
stack as it was, unless one of them reaches a limit. Before a closing bracket, a dot or the end a
datum comment alone does nothing, unless the depth does not allow it. So both can be left out among
the tokens of all data. -/
theorem datumComment_erases (datum : OneDatum us) (modes : Modes) (outside : StructuralFault)
    (stop : Option ReadError) (pos : Pos) :
    (∀ m, Passes modes outside m ((.datumComment, pos) :: us) m) ∧
    (∀ m vs, (∀ x ∈ vs, x.1.isSkipped = true) →
      feed modes outside m.stack .datumComment pos = fault .nestingTooDeep pos ∨
        ∃ s, feedAll modes outside m ((.datumComment, pos) :: vs) = .ok ⟨m.data, s⟩ ∧
          (∀ k q, feed modes outside s (.closing k) q =
            feed modes outside m.stack (.closing k) q) ∧
          (∀ q, feed modes outside s .dot q = feed modes outside m.stack .dot q) ∧
          finish s = finish m.stack) ∧
    (∀ before after,
      let all := (ofTokens modes (before ++ (.datumComment, pos) :: us ++ after) stop).readAll.1
      all = (ofTokens modes (before ++ after) stop).readAll.1 ∨
        ∃ m e, feedAll modes .dotOutsideList .empty before = .ok m ∧
          feedAll modes .dotOutsideList m ((.datumComment, pos) :: us) = .error e ∧
          Limit modes e ∧ all = .error e) ∧
    ∀ before vs after, (∀ x ∈ vs, x.1.isSkipped = true) → EndsItems after →
      let all := (ofTokens modes (before ++ (.datumComment, pos) :: vs ++ after) stop).readAll.1
      all = (ofTokens modes (before ++ vs ++ after) stop).readAll.1 ∨
        ∃ m, feedAll modes .dotOutsideList .empty before = .ok m ∧
          feed modes .dotOutsideList m.stack .datumComment pos = fault .nestingTooDeep pos ∧
          all = fault .nestingTooDeep pos := by
  refine ⟨commented_passes datum pos, ?_, ?_, ?_⟩
  · intro m vs skipped
    refine (feed_datumComment m.stack pos).imp_right ?_
    rintro ⟨fuel, opened⟩
    refine ⟨.discard fuel pos :: m.stack, ?_, fun _ _ => rfl, fun _ => rfl, rfl⟩
    rw [feedAll_ok opened]
    exact feedAll_skipped skipped _
  · intro before after
    dsimp only
    rw [List.append_assoc, readAll_feedAll_append, readAll_feedAll_append]
    cases made : feedAll modes .dotOutsideList .empty before with
    | error e => exact .inl rfl
    | ok m =>
      simp only [Except.bind]
      rw [feedAll_append]
      rcases commented_passes datum pos m with passed | ⟨e, failed, limit⟩
      · rw [passed]
        exact .inl rfl
      · rw [failed]
        exact .inr ⟨m, e, rfl, failed, limit, rfl⟩
  · intro before vs after skipped ends
    dsimp only
    rw [List.append_assoc, List.append_assoc, List.cons_append, readAll_feedAll_append,
      readAll_feedAll_append]
    cases made : feedAll modes .dotOutsideList .empty before with
    | error e => exact .inl rfl
    | ok m =>
      simp only [Except.bind]
      rcases feed_datumComment m.stack pos with full | ⟨fuel, opened⟩
      · rw [feedAll_error full]
        exact .inr ⟨m, rfl, full, rfl⟩
      · rw [feedAll_ok opened, Step.made, feedAll_append, feedAll_append, feedAll_skipped skipped,
          feedAll_skipped skipped]
        exact .inl (whole_waiting ends m.data fuel pos m.stack)

/-- The tokens of `#;'a` inside a list. -/
theorem datumComment_erases_quoted :
    OneDatum [(.mark .quote, ⟨0, 3⟩), (.atom (.symbol "a"), ⟨0, 4⟩)] ∧
      Passes .standard .misplacedDot ⟨[], [.list 499 ⟨0, 0⟩ .round [] .items]⟩
        [(.datumComment, ⟨0, 1⟩), (.mark .quote, ⟨0, 3⟩), (.atom (.symbol "a"), ⟨0, 4⟩)]
        ⟨[], [.list 499 ⟨0, 0⟩ .round [] .items]⟩ := by
  have datum : OneDatum [(.mark .quote, ⟨0, 3⟩), (.atom (.symbol "a"), ⟨0, 4⟩)] :=
    @oneDatum_of_readFrom .standard .misplacedDot none _ _ rfl
  exact ⟨datum, (datumComment_erases datum .standard .misplacedDot none ⟨0, 1⟩).1 _⟩

end Sexpr.Reader
