import Sexpr.Proofs.Reader.Session

/-!
All tokens fed to the reader one after another.

- `readAll_feedAll`: reading all data is feeding all tokens to an empty stack.
-/

namespace Sexpr.Reader

/-- What tokens have made: the data that are complete, the latest first, and what is open. -/
structure Made where
  data : List Datum
  stack : Stack

/-- What is made after a step, with the data from before it. -/
def Step.made (data : List Datum) : Step → Made
  | .datum d => ⟨d :: data, []⟩
  | .stack s => ⟨data, s⟩

namespace Made

def empty : Made := ⟨[], []⟩

/-- What the end of the tokens makes of it, if it is a fault in `stop`. -/
def whole (stop : Option ReadError) (m : Made) : Except ReadError (List Datum) :=
  match stop with
  | some e => .error e
  | none => (finish m.stack).map fun _ => m.data.reverse

end Made

def feedAll (modes : Modes) (outside : StructuralFault) (m : Made) :
    List (Token × Pos) → Except ReadError Made
  | [] => .ok m
  | (t, pos) :: rest =>
      match feed modes outside m.stack t pos with
      | .error e => .error e
      | .ok step => feedAll modes outside (step.made m.data) rest

variable {modes : Modes} {outside : StructuralFault} {stop : Option ReadError} {m m' : Made}
  {t : Token} {pos : Pos} {e : ReadError} {us vs : List (Token × Pos)}

theorem feedAll_error (fed : feed modes outside m.stack t pos = .error e)
    (rest : List (Token × Pos)) : feedAll modes outside m ((t, pos) :: rest) = .error e := by
  rw [feedAll, fed]

theorem feedAll_ok {step : Step} (fed : feed modes outside m.stack t pos = .ok step)
    (rest : List (Token × Pos)) :
    feedAll modes outside m ((t, pos) :: rest) = feedAll modes outside (step.made m.data) rest := by
  rw [feedAll, fed]

theorem feedAll_append (m : Made) (us vs : List (Token × Pos)) :
    feedAll modes outside m (us ++ vs) =
      (feedAll modes outside m us).bind fun m' => feedAll modes outside m' vs := by
  induction us generalizing m with
  | nil => rfl
  | cons x us ih =>
    obtain ⟨t, pos⟩ := x
    rw [List.cons_append]
    cases fed : feed modes outside m.stack t pos with
    | error e =>
      rw [feedAll_error fed, feedAll_error fed]
      rfl
    | ok step => rw [feedAll_ok fed, feedAll_ok fed, ih]

/-- Feeding fails at one of the tokens. -/
theorem exists_of_feedAll_error (fed : feedAll modes outside m us = .error e) :
    ∃ before t pos after m', us = before ++ (t, pos) :: after ∧
      feedAll modes outside m before = .ok m' ∧ feed modes outside m'.stack t pos = .error e := by
  induction us generalizing m with
  | nil => cases fed
  | cons x us ih =>
    obtain ⟨t, pos⟩ := x
    cases first : feed modes outside m.stack t pos with
    | error e' =>
      rw [feedAll_error first] at fed
      cases fed
      exact ⟨[], t, pos, us, m, rfl, rfl, first⟩
    | ok step =>
      rw [feedAll_ok first] at fed
      obtain ⟨before, u, q, after, m', rfl, upTo, failed⟩ := ih fed
      refine ⟨(t, pos) :: before, u, q, after, m', rfl, ?_, failed⟩
      rw [feedAll_ok first]
      exact upTo

theorem feedAll_skipped (skipped : ∀ x ∈ us, x.1.isSkipped = true) (m : Made) :
    feedAll modes outside m us = .ok m := by
  induction us with
  | nil => rfl
  | cons x us ih =>
    obtain ⟨here, later⟩ := List.forall_mem_cons.1 skipped
    rw [feedAll_ok (feed_skipped here m.stack x.2)]
    exact ih later

/-! ## Modes -/

/-- Of the modes only that of improper lists matters. -/
theorem feed_modes {modes' : Modes}
    (same : modes.allowImproperLists = modes'.allowImproperLists) (stack : Stack) (t : Token)
    (pos : Pos) : feed modes outside stack t pos = feed modes' outside stack t pos := by
  cases t with
  | closing k => simp only [feed, close, same]
  | _ => rfl

theorem feedAll_modes {modes' : Modes}
    (same : modes.allowImproperLists = modes'.allowImproperLists) (m : Made)
    (us : List (Token × Pos)) : feedAll modes outside m us = feedAll modes' outside m us := by
  induction us generalizing m with
  | nil => rfl
  | cons x us ih =>
    obtain ⟨t, pos⟩ := x
    rw [feedAll, feedAll, feed_modes same]
    cases feed modes' outside m.stack t pos with
    | error e => rfl
    | ok step => exact ih _

/-! ## Reading all data -/

/-- The datum that reading completes is the next one that feeding completes. -/
theorem feedAll_readFrom (m : Made) (ts : List (Token × Pos)) :
    (feedAll modes outside m ts).bind (Made.whole stop) =
      match (readFrom modes outside stop m.stack ts).result with
      | .error e => .error e
      | .ok none => .ok m.data.reverse
      | .ok (some d) =>
          (feedAll modes outside ⟨d :: m.data, []⟩
            (readFrom modes outside stop m.stack ts).rest).bind (Made.whole stop) := by
  induction ts generalizing m with
  | nil =>
    cases stop with
    | some e => rfl
    | none =>
      simp only [feedAll, readFrom, Except.bind, Made.whole]
      cases finish m.stack <;> rfl
  | cons x rest ih =>
    obtain ⟨t, pos⟩ := x
    rw [readFrom_cons]
    cases fed : feed modes outside m.stack t pos with
    | error e =>
      rw [feedAll_error fed]
      rfl
    | ok step =>
      rw [feedAll_ok fed]
      cases step with
      | datum d => rfl
      | stack s => exact ih ⟨m.data, s⟩

theorem collect_feedAll (found : List Datum) (r : Reader) :
    (match (collect found r).2.1 with
      | none => .ok (collect found r).1
      | some e => .error e) =
      (feedAll r.modes .dotOutsideList ⟨found, []⟩ r.pending).bind (Made.whole r.stop) := by
  fun_induction collect found r with
  | case1 found r d rest ended read ih =>
    have going : ended = false := by
      have := ended_of_datum (by rw [read])
      rwa [read] at this
    have stays : (r.readWith .dotOutsideList).2.stop = r.stop := by
      simp [readWith, read, going]
    have left : (r.readWith .dotOutsideList).2.pending = rest := by
      rw [readWith, read]
    rw [ih, feedAll_readFrom ⟨found, []⟩ r.pending, read, stays, left]
    rfl
  | case2 found r _ _ read =>
    rw [feedAll_readFrom ⟨found, []⟩ r.pending, read]
  | case3 found r e _ _ read =>
    rw [feedAll_readFrom ⟨found, []⟩ r.pending, read]

theorem readAll_feedAll (ts : List (Token × Pos)) :
    (ofTokens modes ts stop).readAll.1 =
      (feedAll modes .dotOutsideList .empty ts).bind (Made.whole stop) := by
  rw [fst_readAll]
  exact collect_feedAll [] (ofTokens modes ts stop)

/-- All data are read if feeding makes them and nothing is left that the end would find fault
with. -/
theorem readAll_ok_iff_feedAll {ds : List Datum} :
    (ofTokens modes us stop).readAll.1 = .ok ds ↔
      stop = none ∧ ∃ m, feedAll modes .dotOutsideList .empty us = .ok m ∧
        finish m.stack = .ok () ∧ m.data.reverse = ds := by
  rw [readAll_feedAll]
  cases feedAll modes .dotOutsideList .empty us with
  | error e => simp [Except.bind]
  | ok m =>
    cases stop with
    | some e => simp [Except.bind, Made.whole]
    | none => cases ends : finish m.stack <;> simp [Except.bind, Made.whole, ends, Except.map]

theorem readAll_modes {modes' : Modes}
    (same : modes.allowImproperLists = modes'.allowImproperLists) (ts : List (Token × Pos)) :
    (ofTokens modes ts stop).readAll.1 = (ofTokens modes' ts stop).readAll.1 := by
  rw [readAll_feedAll, readAll_feedAll, feedAll_modes same]

theorem readAll_feedAll_append (us vs : List (Token × Pos)) :
    (ofTokens modes (us ++ vs) stop).readAll.1 =
      (feedAll modes .dotOutsideList .empty us).bind fun m =>
        (feedAll modes .dotOutsideList m vs).bind (Made.whole stop) := by
  rw [readAll_feedAll, feedAll_append]
  cases feedAll modes .dotOutsideList .empty us <;> rfl

end Sexpr.Reader
