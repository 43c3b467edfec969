import Sexpr.Proofs.Reader.Descent
import Sexpr.Proofs.Reader.Spelled

/-!
The grammar of data: which tokens make a datum, and how much depth they need.

- `spans_does`: tokens that make a datum hand it to whatever is open, if its depth is enough.
- `readFrom_eq_datum`: reading gives a datum exactly if tokens make it after a gap.
-/

namespace Sexpr.Reader

/-- What tokens are read as. Blanks, comments and data that are commented out make a gap. Before a
closing bracket or a dot datum comments may have nothing left to comment out, and the gap is
loose. -/
inductive Part
  | gap
  | loose
  | datum (d : Datum)
  | items (ds : List Datum)

/-- Items and the datum after their dot: a round list is spliced in. -/
def joined (ds : List Datum) (dot : Pos) : Datum → List Datum × Option Pos
  | .list .round more dot' _ => (ds ++ more, dot')
  | d => (ds ++ [d], some dot)

/-- The tokens of a part, and units of depth that are enough to read it. -/
inductive Spans (modes : Modes) : Nat → Part → List (Token × Pos) → Prop
  | none {n : Nat} : Spans modes n .gap []
  | skipped {n : Nat} {t : Token} {pos : Pos} {us : List (Token × Pos)}
      (skipped : t.isSkipped = true) (more : Spans modes n .gap us) :
      Spans modes n .gap ((t, pos) :: us)
  | commented {n : Nat} {pos : Pos} {d : Datum} {us vs ws : List (Token × Pos)}
      (before : Spans modes n .gap us) (datum : Spans modes n (.datum d) vs)
      (more : Spans modes (n + 1) .gap ws) :
      Spans modes (n + 1) .gap ((.datumComment, pos) :: (us ++ vs ++ ws))
  | tight {n : Nat} {us : List (Token × Pos)} (gap : Spans modes n .gap us) :
      Spans modes n .loose us
  | waiting {n : Nat} {pos : Pos} {us vs : List (Token × Pos)}
      (before : Spans modes (n + 1) .gap us) (more : Spans modes n .loose vs) :
      Spans modes (n + 1) .loose (us ++ (.datumComment, pos) :: vs)
  | atom {n : Nat} {a : Atom} {pos : Pos} :
      Spans modes n (.datum (.atom a (some pos))) [(.atom a, pos)]
  | whole {n : Nat} {k : Bracket} {ds : List Datum} {dot : Option Pos} {pos : Pos} :
      Spans modes n (.datum (.list k ds dot (some pos))) [(.list k ds dot, pos)]
  | marked {n : Nat} {m : Mark} {pos : Pos} {d : Datum} {us vs : List (Token × Pos)}
      (before : Spans modes n .gap us) (datum : Spans modes n (.datum d) vs) :
      Spans modes (n + 1) (.datum (.list .round [.symbol m.name (some pos), d] none (some pos)))
        ((.mark m, pos) :: (us ++ vs))
  | proper {n : Nat} {k : Bracket} {start pos : Pos} {ds : List Datum}
      {us vs : List (Token × Pos)} (items : Spans modes n (.items ds) us)
      (after : Spans modes n .loose vs) :
      Spans modes (n + 1) (.datum (.list k ds none (some start)))
        ((.opening k, start) :: (us ++ vs ++ [(.closing k, pos)]))
  | dotted {n : Nat} {start dot pos : Pos} {ds : List Datum} {d : Datum}
      {us vs ws xs ys : List (Token × Pos)} (items : Spans modes (n + 1) (.items ds) us)
      (nonempty : ds ≠ []) (before : Spans modes (n + 1) .loose vs) (gap : Spans modes n .gap ws)
      (tail : Spans modes n (.datum d) xs) (after : Spans modes (n + 1) .loose ys)
      (allowed : (joined ds dot d).2.isSome = true → modes.allowImproperLists = true) :
      Spans modes (n + 2)
        (.datum (.list .round (joined ds dot d).1 (joined ds dot d).2 (some start)))
        ((.opening .round, start) ::
          (us ++ vs ++ (.dot, dot) :: (ws ++ xs ++ ys ++ [(.closing .round, pos)])))
  | noItems {n : Nat} : Spans modes n (.items []) []
  | item {n : Nat} {ds : List Datum} {d : Datum} {us vs ws : List (Token × Pos)}
      (items : Spans modes n (.items ds) us) (gap : Spans modes n .gap vs)
      (datum : Spans modes n (.datum d) ws) : Spans modes n (.items (ds ++ [d])) (us ++ vs ++ ws)

variable {modes : Modes} {outside : StructuralFault} {stop : Option ReadError} {n : Nat}
  {d : Datum} {ts : List (Token × Pos)}

/-! ## From the grammar to the reader -/

/-- What the tokens of a part do to a stack with depth enough. -/
def Part.Does (modes : Modes) (outside : StructuralFault) (stop : Option ReadError) (n : Nat)
    (us : List (Token × Pos)) : Part → Prop
  | .gap => ∀ stack rest, n ≤ innerDepth stack →
      readFrom modes outside stop stack (us ++ rest) = readFrom modes outside stop stack rest
  | .loose => ∀ stack t pos rest, n ≤ innerDepth stack → t = .dot ∨ (∃ k, t = .closing k) →
      readFrom modes outside stop stack (us ++ (t, pos) :: rest) =
        readFrom modes outside stop stack ((t, pos) :: rest)
  | .datum d => ∀ stack rest, n ≤ innerDepth stack → expectsClose stack = false →
      readFrom modes outside stop stack (us ++ rest) =
        resume modes outside stop rest (.ok (deliver stack d))
  | .items ds => ∀ fuel start k found stack rest, n ≤ fuel →
      readFrom modes outside stop (.list fuel start k found .items :: stack) (us ++ rest) =
        readFrom modes outside stop (.list fuel start k (ds.reverse ++ found) .items :: stack) rest

/-- A datum comment opens a frame that a dot or a closing bracket drops. -/
theorem readFrom_commented {stack : Stack} (room : n + 1 ≤ innerDepth stack) (pos : Pos)
    (rest : List (Token × Pos)) :
    ∃ fuel, n ≤ fuel ∧ readFrom modes outside stop stack ((.datumComment, pos) :: rest) =
      readFrom modes outside stop (.discard fuel pos :: stack) rest := by
  obtain ⟨fuel, hf⟩ := Nat.exists_eq_add_of_le' (Nat.le_trans (Nat.le_add_left 1 n) room)
  refine ⟨fuel, by omega, ?_⟩
  rw [readFrom_cons]
  simp only [feed, push, hf]
  rfl

theorem readFrom_mark {stack : Stack} (room : n + 1 ≤ innerDepth stack)
    (waits : expectsClose stack = false) (m : Mark) (pos : Pos) (rest : List (Token × Pos)) :
    ∃ fuel, n ≤ fuel ∧ readFrom modes outside stop stack ((.mark m, pos) :: rest) =
      readFrom modes outside stop (.mark fuel pos m :: stack) rest := by
  obtain ⟨fuel, hf⟩ := Nat.exists_eq_add_of_le' (Nat.le_trans (Nat.le_add_left 1 n) room)
  refine ⟨fuel, by omega, ?_⟩
  rw [readFrom_cons]
  simp only [feed, waits, push, hf, Bool.false_eq_true, if_false]
  rfl

theorem splice_reverse (ds : List Datum) (dot : Pos) (d : Datum) :
    Descent.splice ds.reverse dot d = ((joined ds dot d).1.reverse, (joined ds dot d).2) := by
  cases d with
  | atom => simp [Descent.splice, joined]
  | list k more =>
    cases k with
    | round => simp [Descent.splice, joined, List.reverseAux_eq]
    | square | curly => simp [Descent.splice, joined]

theorem spans_does {part : Part} {us : List (Token × Pos)} (h : Spans modes n part us) :
    part.Does modes outside stop n us := by
  induction h with
  | none =>
    intro stack rest _
    rfl
  | skipped skipped _ ih =>
    intro stack rest room
    rw [List.cons_append, readFrom_cons, feed_skipped skipped]
    exact ih stack rest room
  | @commented n pos d us vs ws _ _ _ ihBefore ihDatum ihMore =>
    intro stack rest room
    obtain ⟨fuel, le, opened⟩ := readFrom_commented room pos (us ++ vs ++ ws ++ rest)
    have inside : n ≤ innerDepth (.discard fuel pos :: stack) := le
    rw [List.cons_append, opened, List.append_assoc, List.append_assoc, ihBefore _ _ inside,
      ihDatum _ _ inside rfl]
    exact ihMore stack rest room
  | tight _ ih =>
    intro stack t pos rest room _
    exact ih stack ((t, pos) :: rest) room
  | @waiting n q us vs _ _ ihBefore ihMore =>
    intro stack t pos rest room ends
    obtain ⟨fuel, le, opened⟩ := readFrom_commented room q (vs ++ (t, pos) :: rest)
    have inside : n ≤ innerDepth (.discard fuel q :: stack) := le
    rw [List.append_assoc, ihBefore stack _ room, List.cons_append, opened,
      ihMore _ t pos rest inside ends, readFrom_cons, readFrom_cons]
    rcases ends with rfl | ⟨k, rfl⟩ <;> rfl
  | atom =>
    intro stack rest _ waits
    rw [List.cons_append, List.nil_append, readFrom_cons]
    simp [feed, waits]
  | whole =>
    intro stack rest _ waits
    rw [List.cons_append, List.nil_append, readFrom_cons]
    simp [feed, waits]
  | @marked n m pos d us vs _ _ ihBefore ihDatum =>
    intro stack rest room waits
    obtain ⟨fuel, le, opened⟩ := readFrom_mark room waits m pos (us ++ vs ++ rest)
    have inside : n ≤ innerDepth (.mark fuel pos m :: stack) := le
    rw [List.cons_append, opened, List.append_assoc, ihBefore _ _ inside, ihDatum _ _ inside rfl]
    rfl
  | @proper n k start pos ds us vs _ _ ihItems ihAfter =>
    intro stack rest room waits
    obtain ⟨fuel, le, opened⟩ := readFrom_opening room waits k start _
    have inside : n ≤ innerDepth (.list fuel start k (ds.reverse ++ []) .items :: stack) := le
    rw [List.cons_append, opened, List.append_assoc, List.append_assoc,
      ihItems fuel start k [] stack _ le, List.singleton_append,
      ihAfter _ _ pos rest inside (.inr ⟨k, rfl⟩),
      readFrom_closing fuel start k _ .items stack pos rest (by simp) (by simp [Phase.dot?])]
    simp [Phase.dot?]
  | @dotted n start dot pos ds d us vs ws xs ys _ nonempty _ _ _ _ allowed ihItems ihBefore ihGap
      ihTail ihAfter =>
    intro stack rest room waits
    obtain ⟨fuel, le, opened⟩ := readFrom_opening room waits .round start _
    have kept : ds.reverse ++ [] ≠ [] := by simpa using nonempty
    have positive : 0 < fuel := by omega
    have inside {phase : Phase} (items : List Datum) (noTail : ∀ dot, phase ≠ .tail dot) :
        n + 1 ≤ innerDepth (.list fuel start .round items phase :: stack) := by
      cases phase with
      | tail dot => exact absurd rfl (noTail dot)
      | items | close => exact le
    have inner : n ≤ innerDepth (.list fuel start .round (ds.reverse ++ []) (.tail dot) :: stack) :=
      Nat.le_sub_one_of_lt le
    rw [List.cons_append, opened]
    simp only [List.append_assoc, List.cons_append, List.nil_append]
    rw [ihItems fuel start .round [] stack _ le,
      ihBefore _ _ dot _ (inside _ (by simp)) (.inl rfl), readFrom_dot positive kept,
      ihGap _ _ inner, ihTail _ _ inner rfl, List.append_nil, Descent.deliver_tail, splice_reverse,
      resume_stack, ihAfter _ _ pos rest (inside _ (by simp)) (.inr ⟨_, rfl⟩),
      readFrom_closing fuel start .round _ (.close _) stack pos rest (by simp) allowed]
    simp [Phase.dot?]
  | noItems =>
    intro fuel start k found stack rest _
    rfl
  | @item n ds d us vs ws _ _ _ ihItems ihGap ihDatum =>
    intro fuel start k found stack rest le
    have inside : n ≤ innerDepth (.list fuel start k (ds.reverse ++ found) .items :: stack) := le
    rw [List.append_assoc, List.append_assoc, ihItems fuel start k found stack _ le,
      ihGap _ _ inside, ihDatum _ _ inside rfl]
    simp [resume, deliver]

/-! ## From the reader to the grammar -/

theorem Spans.gap_append {us vs : List (Token × Pos)} {part : Part} (first : Spans modes n part us)
    (isGap : part = .gap) (second : Spans modes n .gap vs) : Spans modes n .gap (us ++ vs) := by
  induction first with
  | none => exact second
  | skipped skipped _ ih => exact .skipped skipped (ih isGap second)
  | commented before datum _ _ _ ih =>
    rw [List.cons_append, List.append_assoc]
    exact .commented before datum (ih isGap second)
  | _ => cases isGap

theorem Spans.gap_append_loose {us vs : List (Token × Pos)} (first : Spans modes n .gap us)
    (second : Spans modes n .loose vs) : Spans modes n .loose (us ++ vs) := by
  cases second with
  | tight gap => exact .tight (first.gap_append rfl gap)
  | waiting before more =>
    rw [← List.append_assoc]
    exact .waiting (first.gap_append rfl before) more

namespace Descent

/-- The tokens before what stands ahead are a gap, and a loose one if that begins no datum. -/
def Ahead.Spanned {m : Nat} (modes : Modes) (n : Nat) (ts : List (Token × Pos)) : Ahead m → Prop
  | .datum t pos rest _ => ∃ us, ts = us ++ (t, pos) :: rest ∧ Spans modes n .gap us
  | .closing k pos rest _ => ∃ us, ts = us ++ (.closing k, pos) :: rest ∧ Spans modes n .loose us
  | .dot pos rest _ => ∃ us, ts = us ++ (.dot, pos) :: rest ∧ Spans modes n .loose us
  | .ended => Spans modes n .loose ts
  | .failed .. => True

/-- The tokens that were taken make the datum, with those before them. -/
def Parsed.Spanned {m : Nat} (modes : Modes) (n : Nat) (before ts : List (Token × Pos)) :
    Parsed Datum m → Prop
  | .found d rest _ => ∃ us, ts = us ++ rest ∧ Spans modes n (.datum d) (before ++ us)
  | .failed .. => True

variable {m m' : Nat} {ahead' : Ahead m} {parsed : Parsed Datum m}

theorem Ahead.Spanned.widen (h : m ≤ m') (spanned : ahead'.Spanned modes n ts) :
    (ahead'.widen h).Spanned modes n ts := by
  cases ahead' <;> exact spanned

theorem Parsed.Spanned.widen {before : List (Token × Pos)} (h : m ≤ m')
    (spanned : parsed.Spanned modes n before ts) : (parsed.widen h).Spanned modes n before ts := by
  cases parsed <;> exact spanned

/-- What stands ahead after a gap stands ahead of it. -/
theorem Ahead.Spanned.after {us : List (Token × Pos)} (gap : Spans modes n .gap us)
    (spanned : ahead'.Spanned modes n ts) : ahead'.Spanned modes n (us ++ ts) := by
  cases ahead' with
  | datum t pos rest =>
    obtain ⟨vs, rfl, later⟩ := spanned
    exact ⟨us ++ vs, by rw [List.append_assoc], gap.gap_append rfl later⟩
  | closing k pos rest =>
    obtain ⟨vs, rfl, later⟩ := spanned
    exact ⟨us ++ vs, by rw [List.append_assoc], gap.gap_append_loose later⟩
  | dot pos rest =>
    obtain ⟨vs, rfl, later⟩ := spanned
    exact ⟨us ++ vs, by rw [List.append_assoc], gap.gap_append_loose later⟩
  | ended => exact gap.gap_append_loose spanned
  | failed => trivial

/-- More tokens of a datum may count as taken before. -/
theorem Parsed.Spanned.after {before us : List (Token × Pos)}
    (spanned : parsed.Spanned modes n (before ++ us) ts) :
    parsed.Spanned modes n before (us ++ ts) := by
  cases parsed with
  | found d rest =>
    obtain ⟨vs, rfl, datum⟩ := spanned
    exact ⟨us ++ vs, by rw [List.append_assoc], by rwa [← List.append_assoc]⟩
  | failed => trivial

/-- A list that is complete at its closing bracket. -/
theorem complete_spanned {kind k : Bracket} {start pos : Pos} {items : List Datum}
    {dot : Option Pos} {before us rest : List (Token × Pos)} (shorter : rest.length < m)
    (listed : (dot.isSome = true → modes.allowImproperLists = true) →
      Spans modes n (.datum (.list kind items dot (some start)))
        (before ++ (us ++ [(.closing kind, pos)]))) :
    (Parsed.ofResult rest shorter (complete modes kind start items dot k pos)).Spanned modes n
      before (us ++ (.closing k, pos) :: rest) := by
  cases completed : complete modes kind start items dot k pos with
  | error e => trivial
  | ok d =>
    obtain ⟨rfl, allowed, rfl⟩ := complete_eq_ok.1 completed
    exact ⟨us ++ [(.closing k, pos)], by simp, listed allowed⟩

mutual

theorem ahead_spanned (n : Nat) (ts : List (Token × Pos)) :
    (ahead modes stop n ts).Spanned modes n ts := by
  match ts with
  | [] =>
    rw [ahead]
    exact .tight .none
  | (t, pos) :: rest =>
    cases t with
    | blank | comment | blockComment =>
      simp only [ahead]
      exact ((ahead_spanned n rest).after (.skipped rfl .none)).widen _
    | closing k =>
      simp only [ahead]
      exact ⟨[], rfl, .tight .none⟩
    | dot =>
      simp only [ahead]
      exact ⟨[], rfl, .tight .none⟩
    | datumComment =>
      cases n with
      | zero =>
        simp only [ahead]
        trivial
      | succ n =>
        have first := ahead_spanned n rest
        simp only [ahead]
        revert first
        cases ahead modes stop n rest with
        | datum t p rest' shorter =>
          rintro ⟨us, rfl, gap⟩
          have datum := datumFrom_spanned n t p rest'
          revert datum
          dsimp only
          cases datumFrom modes stop n t p rest' with
          | found d rest'' shorter' =>
            rintro ⟨vs, rfl, datum⟩
            have commented : Spans modes (n + 1) .gap
                ((.datumComment, pos) :: (us ++ ((t, p) :: vs) ++ [])) :=
              .commented gap datum .none
            have later := (ahead_spanned (n + 1) rest'').after commented
            simpa using later.widen _
          | failed => exact fun _ => trivial
        | closing k p rest' =>
          rintro ⟨us, rfl, loose⟩
          exact ⟨(.datumComment, pos) :: us, rfl, .waiting .none loose⟩
        | dot p rest' =>
          rintro ⟨us, rfl, loose⟩
          exact ⟨(.datumComment, pos) :: us, rfl, .waiting .none loose⟩
        | ended =>
          intro loose
          exact .waiting .none loose
        | failed => exact fun _ => trivial
    | atom | list | mark | opening | unknown =>
      simp only [ahead]
      exact ⟨[], rfl, .none⟩
termination_by (ts.length, 0)

theorem datumFrom_spanned (n : Nat) (t : Token) (pos : Pos) (ts : List (Token × Pos)) :
    (datumFrom modes stop n t pos ts).Spanned modes n [(t, pos)] ts := by
  cases t with
  | atom =>
    simp only [datumFrom]
    exact ⟨[], rfl, .atom⟩
  | list =>
    simp only [datumFrom]
    exact ⟨[], rfl, .whole⟩
  | unknown | blank | comment | blockComment | closing | dot | datumComment =>
    simp only [datumFrom]
    trivial
  | mark m =>
    cases n with
    | zero =>
      simp only [datumFrom]
      trivial
    | succ n =>
      have first := ahead_spanned n ts
      simp only [datumFrom]
      revert first
      cases ahead modes stop n ts with
      | datum t p rest shorter =>
        rintro ⟨us, rfl, gap⟩
        have datum := datumFrom_spanned n t p rest
        revert datum
        dsimp only
        cases datumFrom modes stop n t p rest with
        | found d rest' shorter' =>
          rintro ⟨vs, rfl, datum⟩
          have marked : Spans modes (n + 1) (.datum _) ((.mark m, pos) :: (us ++ ((t, p) :: vs))) :=
            .marked gap datum
          exact ⟨us ++ (t, p) :: vs, by simp, marked⟩
        | failed => exact fun _ => trivial
      | closing | dot | ended | failed => exact fun _ => trivial
  | opening k =>
    cases n with
    | zero =>
      simp only [datumFrom]
      trivial
    | succ n =>
      simp only [datumFrom]
      exact (items_spanned n k pos ts .noItems).widen _
termination_by (ts.length, 2)

theorem items_spanned (n : Nat) (kind : Bracket) (start : Pos) (ts : List (Token × Pos))
    {found : List Datum} {before : List (Token × Pos)}
    (listed : Spans modes n (.items found.reverse) before) :
    (items modes stop n kind start found ts).Spanned modes (n + 1)
      ((.opening kind, start) :: before) ts := by
  have first := ahead_spanned n ts
  rw [items]
  revert first
  cases ahead modes stop n ts with
  | datum t pos rest shorter =>
    rintro ⟨us, rfl, gap⟩
    have datum := datumFrom_spanned n t pos rest
    revert datum
    dsimp only
    cases datumFrom modes stop n t pos rest with
    | found d rest' shorter' =>
      rintro ⟨vs, rfl, datum⟩
      have more : Spans modes n (.items (d :: found).reverse) (before ++ us ++ (t, pos) :: vs) := by
        rw [List.reverse_cons]
        exact .item listed gap datum
      have later := items_spanned n kind start rest' more
      rw [List.append_assoc, ← List.cons_append] at later
      refine Parsed.Spanned.widen _ ?_
      simpa using later.after
    | failed => exact fun _ => trivial
  | closing k pos rest shorter =>
    rintro ⟨us, rfl, loose⟩
    refine complete_spanned shorter fun _ => ?_
    rw [List.cons_append, ← List.append_assoc]
    exact .proper listed loose
  | dot pos rest shorter =>
    rintro ⟨us, rfl, loose⟩
    dsimp only
    by_cases round : kind = .round
    · subst round
      by_cases first : found = []
      · simp only [first, ne_eq, not_true_eq_false, if_false, if_true]
        trivial
      · cases n with
        | zero =>
          simp only [first, ne_eq, not_true_eq_false, if_false]
          trivial
        | succ n =>
          simp only [first, ne_eq, not_true_eq_false, if_false]
          have later := tail_spanned n start pos rest first listed loose
          rw [List.append_assoc, ← List.cons_append] at later
          refine Parsed.Spanned.widen _ ?_
          simpa using later.after
    · simp only [round, ne_eq, not_false_eq_true, if_true]
      trivial
  | ended | failed => exact fun _ => trivial
termination_by (ts.length, 1)

theorem tail_spanned (n : Nat) (start dot : Pos) (ts : List (Token × Pos)) {found : List Datum}
    {before us : List (Token × Pos)} (nonempty : found ≠ [])
    (listed : Spans modes (n + 1) (.items found.reverse) before)
    (loose : Spans modes (n + 1) .loose us) :
    (tail modes stop n .round start found dot ts).Spanned modes (n + 2)
      ((.opening .round, start) :: (before ++ us ++ [(.dot, dot)])) ts := by
  have first := ahead_spanned n ts
  rw [tail]
  revert first
  cases ahead modes stop n ts with
  | datum t pos rest shorter =>
    rintro ⟨ws, rfl, gap⟩
    have datum := datumFrom_spanned n t pos rest
    revert datum
    dsimp only
    cases datumFrom modes stop n t pos rest with
    | found d rest' shorter' =>
      rintro ⟨xs, rfl, datum⟩
      have spliced := splice_reverse found.reverse dot d
      rw [List.reverse_reverse] at spliced
      dsimp only
      rw [spliced]
      refine Parsed.Spanned.widen _ ?_
      have later : (ending modes stop (n + 1) .round start (joined found.reverse dot d).1.reverse
          (joined found.reverse dot d).2 rest').Spanned modes (n + 2)
            ((.opening .round, start) :: (before ++ us ++ [(.dot, dot)]) ++ (ws ++ (t, pos) :: xs))
            rest' := by
        apply ending_spanned
        intro ys close after allowed
        rw [List.reverse_reverse]
        have kept : found.reverse ≠ [] := by simpa using nonempty
        have whole := @Spans.dotted modes n start dot close _ _ _ _ _ _ _ listed kept loose gap datum
          after allowed
        simpa using whole
      simpa using later.after
    | failed => exact fun _ => trivial
  | closing | dot | ended | failed => exact fun _ => trivial
termination_by (ts.length, 1)

theorem ending_spanned (n : Nat) (start : Pos) (ts : List (Token × Pos)) {found : List Datum}
    {dot : Option Pos} {before : List (Token × Pos)}
    (ends : ∀ us pos, Spans modes n .loose us →
      (dot.isSome = true → modes.allowImproperLists = true) →
        Spans modes (n + 1) (.datum (.list .round found.reverse dot (some start)))
          (before ++ (us ++ [(.closing .round, pos)]))) :
    (ending modes stop n .round start found dot ts).Spanned modes (n + 1) before ts := by
  have first := ahead_spanned n ts
  rw [ending]
  revert first
  cases ahead modes stop n ts with
  | datum | dot | ended | failed => exact fun _ => trivial
  | closing k pos rest shorter =>
    rintro ⟨us, rfl, loose⟩
    exact complete_spanned shorter fun allowed => ends us pos loose allowed
termination_by (ts.length, 1)

end

end Descent

/-- Reading gives a datum exactly if the next tokens, after a gap, make it with the depth there
is. -/
theorem readFrom_eq_datum {rest : List (Token × Pos)} :
    readFrom modes outside stop [] ts = ⟨.ok (some d), rest, false⟩ ↔
      ∃ us vs, ts = us ++ (vs ++ rest) ∧ Spans modes maxDepth .gap us ∧
        Spans modes maxDepth (.datum d) vs := by
  constructor
  · have first := @Descent.ahead_spanned modes stop maxDepth ts
    rw [Descent.readFrom_descent]
    unfold Descent.read
    revert first
    cases Descent.ahead modes stop maxDepth ts with
    | datum t pos rest' shorter =>
      rintro ⟨us, rfl, gap⟩
      have datum := @Descent.datumFrom_spanned modes stop maxDepth t pos rest'
      revert datum
      dsimp only
      cases Descent.datumFrom modes stop maxDepth t pos rest' with
      | found d' left shorter' =>
        rintro ⟨vs, rfl, datum⟩ same
        cases same
        exact ⟨us, (t, pos) :: vs, rfl, gap, datum⟩
      | failed =>
        intro _ same
        cases same
    | closing | dot | failed =>
      intro _ same
      cases same
    | ended =>
      intro _ same
      cases stop <;> cases same
  · rintro ⟨us, vs, rfl, gap, datum⟩
    rw [spans_does gap [] _ (Nat.le_refl _), spans_does datum [] _ (Nat.le_refl _) rfl]
    rfl

end Sexpr.Reader
