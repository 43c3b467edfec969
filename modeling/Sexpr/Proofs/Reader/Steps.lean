import Sexpr.Proofs.Datum.Shape
import Sexpr.Reader.Basic

/-!
The reader one token and one datum at a time.

- `feeds_of_feed`: all that one token can do to a stack.
- `readAll_meant`: blanks and comments among the tokens change nothing that is read.
-/

namespace Sexpr.Reader

/-- Reads on after a step. -/
def resume (modes : Modes) (outside : StructuralFault) (stop : Option ReadError)
    (rest : List (Token × Pos)) : Except ReadError Step → Reading
  | .error e => ⟨.error e, rest, false⟩
  | .ok (.datum d) => ⟨.ok (some d), rest, false⟩
  | .ok (.stack s) => readFrom modes outside stop s rest

variable {modes : Modes} {outside : StructuralFault} {stop : Option ReadError}

theorem resume_stack (s : Stack) (rest : List (Token × Pos)) :
    resume modes outside stop rest (.ok (.stack s)) = readFrom modes outside stop s rest := rfl

theorem readFrom_cons (stack : Stack) (t : Token) (pos : Pos) (rest : List (Token × Pos)) :
    readFrom modes outside stop stack ((t, pos) :: rest) =
      resume modes outside stop rest (feed modes outside stack t pos) := by
  rw [readFrom]
  cases feed modes outside stack t pos with
  | error e => rfl
  | ok step => cases step <;> rfl

/-- After a dot, what is no round list is the last item. -/
theorem deliver_last {d : Datum} (flat : d.isRoundList = false) (fuel : Nat) (start : Pos)
    (k : Bracket) (items : List Datum) (dot : Pos) (stack : Stack) :
    deliver (.list fuel start k items (.tail dot) :: stack) d =
      .stack (.list fuel start k (d :: items) (.close (some dot)) :: stack) := by
  cases d with
  | atom => rfl
  | list l =>
    cases l with
    | round => cases flat
    | square | curly => rfl

/-- No datum is found only at the end of the tokens. -/
theorem rest_eq_nil {stack : Stack} {ts : List (Token × Pos)}
    (h : (readFrom modes outside stop stack ts).result = .ok none) :
    (readFrom modes outside stop stack ts).rest = [] := by
  fun_induction readFrom modes outside stop stack ts with
  | case1 | case2 => rfl
  | case3 | case4 => cases h
  | case5 _ _ _ _ _ _ ih => exact ih h

/-! ## What a token can do -/

/-- What one token does when it is no fault. A list is closed or gets its dot once the datum
comments inside it that comment nothing out are dropped; what begins a datum needs a place for
one. -/
inductive Feeds (modes : Modes) (stack : Stack) (pos : Pos) : Token → Step → Prop
  | skipped {t : Token} (skipped : t.isSkipped = true) : Feeds modes stack pos t (.stack stack)
  | closing {fuel : Nat} {start : Pos} {k : Bracket} {items : List Datum} {phase : Phase}
      {below : Stack} (top : dropDiscards stack = .list fuel start k items phase :: below)
      (noTail : ∀ dot, phase ≠ .tail dot)
      (allowed : phase.dot?.isSome = true → modes.allowImproperLists = true) :
      Feeds modes stack pos (.closing k)
        (deliver below (.list k items.reverse phase.dot? (some start)))
  | dot {fuel : Nat} {start : Pos} {items : List Datum} {below : Stack}
      (top : dropDiscards stack = .list fuel start .round items .items :: below)
      (nonempty : items ≠ []) (deep : 0 < fuel) :
      Feeds modes stack pos .dot (.stack (.list fuel start .round items (.tail pos) :: below))
  | datumComment {fuel : Nat} (room : innerDepth stack = fuel + 1) :
      Feeds modes stack pos .datumComment (.stack (.discard fuel pos :: stack))
  | atom {a : Atom} (waits : expectsClose stack = false) :
      Feeds modes stack pos (.atom a) (deliver stack (.atom a (some pos)))
  | list {k : Bracket} {items : List Datum} {dot : Option Pos}
      (waits : expectsClose stack = false) :
      Feeds modes stack pos (.list k items dot) (deliver stack (.list k items dot (some pos)))
  | opening {fuel : Nat} {k : Bracket} (waits : expectsClose stack = false)
      (room : innerDepth stack = fuel + 1) :
      Feeds modes stack pos (.opening k) (.stack (.list fuel pos k [] .items :: stack))
  | mark {fuel : Nat} {m : Mark} (waits : expectsClose stack = false)
      (room : innerDepth stack = fuel + 1) :
      Feeds modes stack pos (.mark m) (.stack (.mark fuel pos m :: stack))

theorem push_eq_ok {stack : Stack} {pos : Pos} {frame : Nat → Frame} {step : Step}
    (ok : push stack pos frame = .ok step) :
    ∃ fuel, innerDepth stack = fuel + 1 ∧ step = .stack (frame fuel :: stack) := by
  unfold push at ok
  cases room : innerDepth stack with
  | zero =>
    rw [room] at ok
    cases ok
  | succ fuel =>
    rw [room] at ok
    cases ok
    exact ⟨fuel, rfl, rfl⟩

theorem dot_eq_ok {stack : Stack} {pos : Pos} {step : Step}
    (ok : dot outside pos stack = .ok step) :
    ∃ fuel start items below, stack = .list fuel start .round items .items :: below ∧
      items ≠ [] ∧ 0 < fuel ∧
      step = .stack (.list fuel start .round items (.tail pos) :: below) := by
  cases stack with
  | nil => cases ok
  | cons f below =>
    cases f with
    | mark | discard => cases ok
    | list fuel start kind items phase =>
      by_cases round : kind = .round
      · subst round
        cases phase with
        | tail | close => simp [dot, fault] at ok
        | items =>
          by_cases first : items = []
          · simp [dot, first, fault] at ok
          · by_cases spent : fuel = 0
            · simp [dot, first, spent, fault] at ok
            · have positive : 0 < fuel := by omega
              simp only [dot, first, spent, ne_eq, not_true_eq_false, if_false,
                Except.ok.injEq] at ok
              exact ⟨fuel, start, items, below, rfl, first, positive, ok.symm⟩
      · simp [dot, round, fault] at ok

/-- A list with all its items, at its closing bracket. -/
def complete (modes : Modes) (kind : Bracket) (start : Pos) (items : List Datum)
    (dot : Option Pos) (closed : Bracket) (pos : Pos) : Except ReadError Datum :=
  if closed ≠ kind then fault (.mismatch kind start closed) pos
  else match dot, modes.allowImproperLists with
    | some dot, false => fault .improperListForbidden dot
    | dot, _ => .ok (.list kind items dot (some start))

theorem complete_eq_ok {kind closed : Bracket} {start pos : Pos} {items : List Datum}
    {dot : Option Pos} {d : Datum} :
    complete modes kind start items dot closed pos = .ok d ↔
      closed = kind ∧ (dot.isSome = true → modes.allowImproperLists = true) ∧
        d = .list kind items dot (some start) := by
  unfold complete
  by_cases kinds : closed = kind
  · cases dot <;> cases modes.allowImproperLists <;> simp [kinds, fault, eq_comm]
  · simp [kinds, fault]

theorem top_dropDiscards {stack below : Stack} {fuel : Nat} {pos : Pos} :
    dropDiscards stack ≠ .discard fuel pos :: below := by
  fun_induction dropDiscards stack with
  | case1 _ _ stack ih => exact ih
  | case2 stack other => exact other fuel pos below

/-- Closing a list completes it and hands it to what is around it. -/
theorem close_list (fuel : Nat) (start : Pos) (kind : Bracket) (items : List Datum) {phase : Phase}
    (noTail : ∀ dot, phase ≠ .tail dot) (stack : Stack) (k : Bracket) (pos : Pos) :
    close modes k pos (.list fuel start kind items phase :: stack) =
      (complete modes kind start items.reverse phase.dot? k pos).map (deliver stack) := by
  by_cases kinds : k = kind
  · cases phase with
    | tail dot => exact absurd rfl (noTail dot)
    | items => simp [close, complete, Phase.dot?, kinds, Except.map]
    | close dot =>
      cases dot <;> cases allow : modes.allowImproperLists <;>
        simp [close, complete, Phase.dot?, kinds, allow, fault, Except.map]
  · cases phase with
    | tail dot => exact absurd rfl (noTail dot)
    | items | close => simp [close, complete, kinds, fault, Except.map]

/-- A closing bracket hands over the list that it completes. -/
theorem feed_closing {fuel : Nat} {start : Pos} {k : Bracket} {items : List Datum} {phase : Phase}
    {stack below : Stack} (top : dropDiscards stack = .list fuel start k items phase :: below)
    (noTail : ∀ dot, phase ≠ .tail dot)
    (allowed : phase.dot?.isSome = true → modes.allowImproperLists = true) (pos : Pos) :
    feed modes outside stack (.closing k) pos =
      .ok (deliver below (.list k items.reverse phase.dot? (some start))) := by
  have completed : complete modes k start items.reverse phase.dot? k pos = .ok _ :=
    complete_eq_ok.2 ⟨rfl, allowed, rfl⟩
  simp only [feed, top]
  rw [close_list fuel start k items noTail, completed]
  rfl

theorem close_eq_ok {stack : Stack} {k : Bracket} {pos : Pos} {step : Step}
    (ok : close modes k pos stack = .ok step) :
    ∃ fuel start items phase below, stack = .list fuel start k items phase :: below ∧
      (∀ dot, phase ≠ .tail dot) ∧
      (phase.dot?.isSome = true → modes.allowImproperLists = true) ∧
      step = deliver below (.list k items.reverse phase.dot? (some start)) := by
  cases stack with
  | nil => cases ok
  | cons f below =>
    cases f with
    | mark | discard => cases ok
    | list fuel start kind items phase =>
      have noTail : ∀ dot, phase ≠ .tail dot := by
        rintro dot rfl
        cases ok
      rw [close_list fuel start kind items noTail] at ok
      cases completed : complete modes kind start items.reverse phase.dot? k pos with
      | error e =>
        rw [completed] at ok
        cases ok
      | ok d =>
        rw [completed] at ok
        cases ok
        obtain ⟨rfl, allowed, rfl⟩ := complete_eq_ok.1 completed
        exact ⟨fuel, start, items, phase, below, rfl, noTail, allowed, rfl⟩

theorem feeds_of_feed {stack : Stack} {t : Token} {pos : Pos} {step : Step}
    (ok : feed modes outside stack t pos = .ok step) : Feeds modes stack pos t step := by
  have enters {other : Except ReadError Step}
      (ok : (if expectsClose stack then fault .moreThanOneItemAfterDot pos else other) =
        .ok step) : expectsClose stack = false ∧ other = .ok step := by
    cases waits : expectsClose stack with
    | true =>
      rw [waits] at ok
      cases ok
    | false =>
      rw [waits] at ok
      exact ⟨rfl, ok⟩
  cases t with
  | blank | comment | blockComment =>
    cases ok
    exact .skipped rfl
  | closing k =>
    obtain ⟨fuel, start, items, phase, below, top, noTail, allowed, rfl⟩ := close_eq_ok ok
    exact .closing top noTail allowed
  | dot =>
    obtain ⟨fuel, start, items, below, top, nonempty, deep, rfl⟩ := dot_eq_ok ok
    exact .dot top nonempty deep
  | datumComment =>
    obtain ⟨fuel, room, rfl⟩ := push_eq_ok ok
    exact .datumComment room
  | atom a =>
    obtain ⟨waits, ⟨⟩⟩ := enters ok
    exact .atom waits
  | list k items dot =>
    obtain ⟨waits, ⟨⟩⟩ := enters ok
    exact .list waits
  | opening k =>
    obtain ⟨waits, ok⟩ := enters ok
    obtain ⟨fuel, room, rfl⟩ := push_eq_ok ok
    exact .opening waits room
  | mark m =>
    obtain ⟨waits, ok⟩ := enters ok
    obtain ⟨fuel, room, rfl⟩ := push_eq_ok ok
    exact .mark waits room
  | unknown =>
    obtain ⟨-, ok⟩ := enters ok
    cases ok

/-! ## Tokens that mean nothing -/

/-- The tokens that mean something. -/
def meant (ts : List (Token × Pos)) : List (Token × Pos) := ts.filter fun x => !x.1.isSkipped

theorem feed_skipped {t : Token} (h : t.isSkipped = true) (stack : Stack) (pos : Pos) :
    feed modes outside stack t pos = .ok (.stack stack) := by
  cases t with
  | blank | comment | blockComment => rfl
  | _ => cases h

theorem readFrom_meant (stack : Stack) (ts : List (Token × Pos)) :
    readFrom modes outside stop stack (meant ts) =
      { readFrom modes outside stop stack ts with
        rest := meant (readFrom modes outside stop stack ts).rest } := by
  induction ts generalizing stack with
  | nil => cases stop <;> rfl
  | cons x rest ih =>
    obtain ⟨t, pos⟩ := x
    cases skipped : t.isSkipped with
    | true =>
      have dropped : meant ((t, pos) :: rest) = meant rest :=
        List.filter_cons_of_neg (by simp [skipped])
      rw [dropped, readFrom_cons, feed_skipped skipped]
      exact ih stack
    | false =>
      have kept : meant ((t, pos) :: rest) = (t, pos) :: meant rest :=
        List.filter_cons_of_pos (by simp [skipped])
      rw [kept, readFrom_cons, readFrom_cons]
      cases feed modes outside stack t pos with
      | error e => rfl
      | ok step =>
        cases step with
        | datum d => rfl
        | stack s => exact ih s

/-! ## Several tokens -/

/-- The stacks that tokens lead to. -/
inductive Leads (modes : Modes) (outside : StructuralFault) :
    Stack → List (Token × Pos) → Stack → Prop
  | none (stack : Stack) : Leads modes outside stack [] stack
  | token {stack next last : Stack} {t : Token} {pos : Pos} {ts : List (Token × Pos)}
      (fed : feed modes outside stack t pos = .ok (.stack next))
      (more : Leads modes outside next ts last) : Leads modes outside stack ((t, pos) :: ts) last

theorem readFrom_leads {stack last : Stack} {ts : List (Token × Pos)}
    (h : Leads modes outside stack ts last) (rest : List (Token × Pos)) :
    readFrom modes outside stop stack (ts ++ rest) = readFrom modes outside stop last rest := by
  induction h with
  | none => rfl
  | token fed _ ih =>
    rw [List.cons_append, readFrom_cons, fed]
    exact ih

/-- A token that is a fault or completes a datum: reading stops with it. -/
inductive Stops (modes : Modes) (outside : StructuralFault) (stack : Stack) (t : Token)
    (pos : Pos) : Except ReadError (Option Datum) → Prop
  | fault {e : ReadError} (fed : feed modes outside stack t pos = .error e) :
      Stops modes outside stack t pos (.error e)
  | datum {d : Datum} (fed : feed modes outside stack t pos = .ok (.datum d)) :
      Stops modes outside stack t pos (.ok (some d))

theorem Stops.readFrom {stack : Stack} {t : Token} {pos : Pos}
    {result : Except ReadError (Option Datum)} (h : Stops modes outside stack t pos result)
    (rest : List (Token × Pos)) :
    readFrom modes outside stop stack ((t, pos) :: rest) = ⟨result, rest, false⟩ := by
  rw [readFrom_cons]
  cases h with
  | fault fed | datum fed => rw [fed]; rfl

/-- A reading that has not seen the end of its tokens has stopped with the last that it took. -/
theorem stops_of_readFrom {stack : Stack} {ts : List (Token × Pos)}
    (h : (readFrom modes outside stop stack ts).ended = false) :
    ∃ used last t pos, ts = used ++ (t, pos) :: (readFrom modes outside stop stack ts).rest ∧
      Leads modes outside stack used last ∧
      Stops modes outside last t pos (readFrom modes outside stop stack ts).result := by
  induction ts generalizing stack with
  | nil => cases stop <;> cases h
  | cons x rest ih =>
    obtain ⟨t, pos⟩ := x
    rw [readFrom_cons] at h ⊢
    cases fed : feed modes outside stack t pos with
    | error e => exact ⟨[], stack, t, pos, rfl, .none stack, .fault fed⟩
    | ok step =>
      cases step with
      | datum d => exact ⟨[], stack, t, pos, rfl, .none stack, .datum fed⟩
      | stack next =>
        rw [fed] at h
        obtain ⟨used, last, u, q, split, leads, stops⟩ := ih h
        refine ⟨(t, pos) :: used, last, u, q, ?_, .token fed leads, stops⟩
        rw [List.cons_append]
        exact congrArg _ split

/-! ## All data -/

theorem collect_datum {found : List Datum} {r : Reader} {d : Datum}
    (h : (readFrom r.modes .dotOutsideList r.stop [] r.pending).result = .ok (some d)) :
    collect found r = collect (d :: found) (r.readWith .dotOutsideList).2 := by
  rw [collect]
  split <;> simp_all

theorem collect_end {found : List Datum} {r : Reader}
    (h : (readFrom r.modes .dotOutsideList r.stop [] r.pending).result = .ok none) :
    collect found r = (found.reverse, none, (r.readWith .dotOutsideList).2) := by
  rw [collect]
  split <;> simp_all

theorem collect_error {found : List Datum} {r : Reader} {e : ReadError}
    (h : (readFrom r.modes .dotOutsideList r.stop [] r.pending).result = .error e) :
    collect found r = (found.reverse, some e, (r.readWith .dotOutsideList).2) := by
  rw [collect]
  split <;> simp_all

theorem readAll_eq_ok {r : Reader} {ds : List Datum} :
    r.readAll.1 = .ok ds ↔ (collect [] r).1 = ds ∧ (collect [] r).2.1 = none := by
  unfold readAll
  obtain ⟨found, failure, r'⟩ := collect [] r
  cases failure <;> simp

/-- The same reader, before the tokens that mean something. -/
def ofMeant (r : Reader) : Reader := { r with pending := meant r.pending }

theorem readWith_ofMeant (outside : StructuralFault) (r : Reader) :
    (ofMeant r).readWith outside =
      ((r.readWith outside).1, ofMeant (r.readWith outside).2) := by
  simp only [readWith, ofMeant, readFrom_meant]

theorem collect_ofMeant (found : List Datum) (r : Reader) :
    collect found (ofMeant r) =
      ((collect found r).1, (collect found r).2.1, ofMeant (collect found r).2.2) := by
  have result (r : Reader) : (readFrom r.modes .dotOutsideList r.stop [] (meant r.pending)).result =
      (readFrom r.modes .dotOutsideList r.stop [] r.pending).result := by
    rw [readFrom_meant]
  fun_induction collect found r with
  | case1 found r d _ _ h ih =>
    rw [collect_datum (r := ofMeant r) ((result r).trans (by rw [h])), readWith_ofMeant, ih]
  | case2 found r _ _ h =>
    rw [collect_end (r := ofMeant r) ((result r).trans (by rw [h])), readWith_ofMeant]
  | case3 found r e _ _ h =>
    rw [collect_error (r := ofMeant r) ((result r).trans (by rw [h])), readWith_ofMeant]

theorem readAll_meant (ts : List (Token × Pos)) :
    (ofTokens modes (meant ts) stop).readAll.1 = (ofTokens modes ts stop).readAll.1 := by
  have collected : collect [] (ofTokens modes (meant ts) stop) = _ :=
    collect_ofMeant [] (ofTokens modes ts stop)
  unfold readAll
  rw [collected]
  obtain ⟨ds, failure, r⟩ := collect [] (ofTokens modes ts stop)
  cases failure <;> rfl

end Sexpr.Reader
