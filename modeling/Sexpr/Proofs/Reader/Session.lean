import Sexpr.Proofs.Reader.Steps
import Sexpr.Proofs.Tokens.Failing
import Sexpr.Reader.Session
import Sexpr.Reader.Source

/-!
Sessions with one reader, whatever is asked of it and in which order.

- `perform_serve`: without a fault a reader is a queue of the data that are left.
- `failed_reading`: a fault leaves the tokens after the one that it was found at, or none.
- `session_interleaved`: what this means for every session.
-/

namespace Sexpr.Reader

variable {modes : Modes} {outside other : StructuralFault} {stop : Option ReadError}
  {stack : Stack} {t : Token} {pos : Pos} {r : Reader} {ds : List Datum} {e : ReadError}

/-! ## Faults of the order of tokens -/

/-- No fault but one of the order of the tokens. -/
def Structural {α : Type} (result : Except ReadError α) : Prop :=
  ∀ e, result = .error e → ∃ f p, e = ⟨.structural f, p⟩

@[simp] theorem structural_fault {α : Type} (f : StructuralFault) (p : Pos) :
    Structural (fault f p : Except ReadError α) := by
  rintro e ⟨⟩
  exact ⟨f, p, rfl⟩

@[simp] theorem structural_ok {α : Type} (a : α) : Structural (.ok a) := by
  rintro e ⟨⟩

theorem push_structural (frame : Nat → Frame) : Structural (push stack pos frame) := by
  unfold push
  split <;> simp

theorem dot_structural : Structural (dot outside pos stack) := by
  fun_cases dot outside pos stack <;> simp

theorem close_structural (k : Bracket) : Structural (close modes k pos stack) := by
  fun_cases close modes k pos stack <;> simp

theorem finish_structural : Structural (finish stack) := by
  fun_induction finish stack with
  | case1 => exact structural_ok ()
  | case2 _ _ _ ih => exact ih
  | case3 | case4 | case5 => exact structural_fault _ _

theorem feed_structural : Structural (feed modes outside stack t pos) := by
  fun_cases feed modes outside stack t pos <;>
    simp [push_structural, dot_structural, close_structural]

/-! ## A dot outside of all lists -/

/-- It is a fault, whatever it is called. -/
theorem feed_outside {step : Step} (ok : feed modes outside stack t pos = .ok step) :
    feed modes other stack t pos = .ok step := by
  cases t with
  | dot =>
    obtain ⟨fuel, start, items, below, top, nonempty, deep, rfl⟩ := dot_eq_ok ok
    have some : fuel ≠ 0 := by omega
    simp [feed, top, dot, nonempty, some]
  | _ => exact ok

theorem readFrom_outside {ts : List (Token × Pos)} {found : Option Datum}
    (ok : (readFrom modes outside stop stack ts).result = .ok found) :
    readFrom modes other stop stack ts = readFrom modes outside stop stack ts := by
  induction ts generalizing stack with
  | nil => rfl
  | cons x rest ih =>
    obtain ⟨t, pos⟩ := x
    rw [readFrom_cons] at ok ⊢
    rw [readFrom_cons]
    cases fed : feed modes outside stack t pos with
    | error e =>
      rw [fed] at ok
      cases ok
    | ok step =>
      rw [fed] at ok
      rw [feed_outside fed]
      cases step with
      | datum d => rfl
      | stack s => exact ih ok

theorem readWith_outside {found : Option Datum} (ok : (r.readWith outside).1 = .ok found) :
    r.readWith other = r.readWith outside := by
  simp only [readWith]
  rw [readFrom_outside ok]

/-! ## At the end of the tokens -/

/-- Nothing is left, and no fault of the source is still to be told. -/
def Exhausted (r : Reader) : Prop := r.pending = [] ∧ r.stop = none

theorem rest_of_ended {ts : List (Token × Pos)}
    (h : (readFrom modes outside stop stack ts).ended = true) :
    (readFrom modes outside stop stack ts).rest = [] := by
  fun_induction readFrom modes outside stop stack ts with
  | case1 | case2 => rfl
  | case3 | case4 => cases h
  | case5 _ _ _ _ _ _ ih => exact ih h

theorem ended_of_none {ts : List (Token × Pos)}
    (h : (readFrom modes outside stop stack ts).result = .ok none) :
    (readFrom modes outside stop stack ts).ended = true := by
  fun_induction readFrom modes outside stop stack ts with
  | case1 | case2 => rfl
  | case3 | case4 => cases h
  | case5 _ _ _ _ _ _ ih => exact ih h

theorem ended_of_datum {ts : List (Token × Pos)} {d : Datum}
    (h : (readFrom modes outside stop stack ts).result = .ok (some d)) :
    (readFrom modes outside stop stack ts).ended = false := by
  fun_induction readFrom modes outside stop stack ts with
  | case1 => cases h
  | case2 stack =>
    cases last : finish stack <;> simp [last, Except.map] at h
  | case3 | case4 => rfl
  | case5 _ _ _ _ _ _ ih => exact ih h

theorem exhausted_of_ended (h : (readFrom r.modes outside r.stop [] r.pending).ended = true) :
    Exhausted (r.readWith outside).2 :=
  ⟨rest_of_ended h, if_pos h⟩

theorem exhausted_of_end (h : (r.readWith outside).1 = .ok none) :
    Exhausted (r.readWith outside).2 :=
  exhausted_of_ended (ended_of_none h)

theorem Exhausted.readWith (h : Exhausted r) (outside : StructuralFault) :
    (r.readWith outside).1 = .ok none := by
  obtain ⟨pending, stop⟩ := h
  simp only [Reader.readWith]
  rw [pending, stop]
  rfl

/-! ## All data -/

theorem collect_found (found : List Datum) (r : Reader) :
    collect found r = (found.reverse ++ (collect [] r).1, (collect [] r).2) := by
  have more (xs ys : List Datum) (r : Reader) :
      collect (xs ++ ys) r = (ys.reverse ++ (collect xs r).1, (collect xs r).2) := by
    fun_induction collect xs r with
    | case1 xs r d _ _ read ih => rw [collect_datum (by rw [read]), ← List.cons_append, ih]
    | case2 xs r _ _ read => rw [collect_end (by rw [read]), List.reverse_append]
    | case3 xs r e _ _ read => rw [collect_error (by rw [read]), List.reverse_append]
  exact more [] found r

theorem readAll_cases (h : r.readAll.1 = .ok ds) :
    (ds = [] ∧ (r.readWith .dotOutsideList).1 = .ok none) ∨
    ∃ d more, ds = d :: more ∧ (r.readWith .dotOutsideList).1 = .ok (some d) ∧
      (r.readWith .dotOutsideList).2.readAll.1 = .ok more := by
  obtain ⟨all, noFault⟩ := readAll_eq_ok.1 h
  cases read : (readFrom r.modes .dotOutsideList r.stop [] r.pending).result with
  | error e =>
    rw [collect_error read] at noFault
    cases noFault
  | ok found =>
    cases found with
    | none =>
      rw [collect_end read] at all
      exact .inl ⟨all.symm, read⟩
    | some d =>
      rw [collect_datum read, collect_found] at all noFault
      exact .inr ⟨d, _, all.symm, read, readAll_eq_ok.2 ⟨rfl, noFault⟩⟩

theorem Exhausted.readAll (h : Exhausted r) : r.readAll.1 = .ok [] := by
  apply readAll_eq_ok.2
  rw [collect_end (h.readWith .dotOutsideList)]
  exact ⟨rfl, rfl⟩

theorem collect_exhausted (found : List Datum) (r : Reader) (h : (collect found r).2.1 = none) :
    Exhausted (collect found r).2.2 := by
  fun_induction collect found r with
  | case1 _ _ _ _ _ _ ih => exact ih h
  | case2 _ r _ _ read => exact exhausted_of_end (by rw [readWith, read])
  | case3 => cases h

theorem snd_readAll (r : Reader) : r.readAll.2 = (collect [] r).2.2 := by
  unfold Reader.readAll
  obtain ⟨found, failure, r'⟩ := collect [] r
  cases failure <;> rfl

theorem exhausted_of_readAll (h : r.readAll.1 = .ok ds) : Exhausted r.readAll.2 := by
  rw [snd_readAll]
  exact collect_exhausted [] r (readAll_eq_ok.1 h).2

/-! ## What a reader keeps between requests -/

/-- The same tokens are left; what has been seen and what is iterated may differ. -/
def Alike (r r' : Reader) : Prop :=
  r.modes = r'.modes ∧ r.pending = r'.pending ∧ r.stop = r'.stop

theorem Alike.readWith {r' : Reader} (h : Alike r r') (outside : StructuralFault) :
    (r.readWith outside).1 = (r'.readWith outside).1 ∧
      Alike (r.readWith outside).2 (r'.readWith outside).2 := by
  obtain ⟨modes, pending, stop⟩ := h
  simp only [Reader.readWith, Alike, modes, pending, stop, and_self]

theorem Alike.collect {r' : Reader} (h : Alike r r') (found : List Datum) :
    (collect found r).1 = (collect found r').1 ∧
      (collect found r).2.1 = (collect found r').2.1 ∧
      Alike (collect found r).2.2 (collect found r').2.2 := by
  obtain ⟨same, alike⟩ := h.readWith .dotOutsideList
  fun_induction Reader.collect found r generalizing r' with
  | case1 found r d _ _ read ih =>
    have read' : (r'.readWith .dotOutsideList).1 = .ok (some d) := by
      rw [← same, Reader.readWith, read]
    obtain ⟨same', alike'⟩ := alike.readWith .dotOutsideList
    rw [collect_datum read']
    exact ih alike same' alike'
  | case2 found r _ _ read =>
    have read' : (r'.readWith .dotOutsideList).1 = .ok none := by
      rw [← same, Reader.readWith, read]
    rw [collect_end read']
    exact ⟨rfl, rfl, alike⟩
  | case3 found r e _ _ read =>
    have read' : (r'.readWith .dotOutsideList).1 = .error e := by
      rw [← same, Reader.readWith, read]
    rw [collect_error read']
    exact ⟨rfl, rfl, alike⟩

theorem fst_readAll (r : Reader) :
    r.readAll.1 = match (collect [] r).2.1 with
      | none => .ok (collect [] r).1
      | some e => .error e := by
  unfold Reader.readAll
  obtain ⟨found, failure, r'⟩ := collect [] r
  cases failure <;> rfl

theorem readAll_alike {r' : Reader} (h : Alike r r') : r.readAll.1 = r'.readAll.1 := by
  obtain ⟨found, failure, -⟩ := h.collect []
  rw [fst_readAll, fst_readAll, found, failure]

theorem alike_iterate (r : Reader) : Alike r.iterate r := ⟨rfl, rfl, rfl⟩

theorem iterating_collect (found : List Datum) (r : Reader) :
    (collect found r).2.2.iterating = r.iterating := by
  fun_induction collect found r with
  | case1 _ _ _ _ _ _ ih => exact ih
  | case2 | case3 => rfl

theorem iterating_readAll (r : Reader) : r.readAll.2.iterating = r.iterating := by
  rw [snd_readAll, iterating_collect]

/-- An iteration that has ended only tells so. -/
theorem next_dead (dead : r.iterating = false) : r.next = (.ok none, r) := by
  simp [next, dead]

def Answer.isDatum : Answer → Bool
  | .datum _ => true
  | _ => false

theorem next_live (live : r.iterating = true) :
    r.next = ((r.readWith .dotOutsideList).1,
      { (r.readWith .dotOutsideList).2 with
        iterating := (Answer.ofDatum (r.readWith .dotOutsideList).1).isDatum }) := by
  have kept : (r.readWith .dotOutsideList).2.iterating = true := live
  unfold next
  rw [if_pos live]
  generalize r.readWith .dotOutsideList = reading at kept
  obtain ⟨result, r'⟩ := reading
  cases result with
  | error e => rfl
  | ok found =>
    cases found with
    | none => rfl
    | some d =>
      obtain ⟨⟩ := r'
      cases kept
      rfl

/-! ## A queue of data -/

/-- The data of a text without a fault, as far as they have not been delivered. An iteration is
live until it has told its end. -/
structure Queue where
  data : List Datum
  live : Bool

namespace Queue

def pop (u : Queue) : Answer × Queue :=
  match u.data with
  | [] => (.ended, u)
  | d :: ds => (.datum d, { u with data := ds })

def serve (u : Queue) : Request → Answer × Queue
  | .read => u.pop
  | .readAll => (.data u.data, { u with data := [] })
  | .iterate => (.begun, { u with live := true })
  | .next =>
      if u.live then (u.pop.1, { u.pop.2 with live := !u.data.isEmpty })
      else (.ended, u)

def serveAll (u : Queue) : List Request → List Answer × Queue
  | [] => ([], u)
  | q :: qs =>
      let (a, u) := u.serve q
      let (answers, u) := u.serveAll qs
      (a :: answers, u)

end Queue

/-- The answer once nothing is left. -/
def Request.atEnd : Request → Answer
  | .readAll => .data []
  | .iterate => .begun
  | .read | .next => .ended

namespace Queue

theorem delivered_serve (u : Queue) (q : Request) :
    (u.serve q).1.delivered ++ (u.serve q).2.data = u.data := by
  obtain ⟨ds, live⟩ := u
  cases q with
  | read => cases ds <;> rfl
  | readAll => simp [serve, Answer.delivered]
  | iterate => rfl
  | next => cases live <;> cases ds <;> rfl

theorem delivered_serveAll (u : Queue) (qs : List Request) :
    (u.serveAll qs).1.flatMap Answer.delivered ++ (u.serveAll qs).2.data = u.data := by
  induction qs generalizing u with
  | nil => rfl
  | cons q qs ih =>
    simp only [serveAll, List.flatMap_cons]
    rw [List.append_assoc, ih, delivered_serve]

theorem serve_atEnd {u : Queue} (h : u.data = []) (q : Request) :
    (u.serve q).1 = q.atEnd ∧ (u.serve q).2.data = [] := by
  obtain ⟨ds, live⟩ := u
  subst h
  cases q with
  | read | readAll | iterate => exact ⟨rfl, rfl⟩
  | next => cases live <;> exact ⟨rfl, rfl⟩

theorem serveAll_atEnd {u : Queue} (h : u.data = []) (qs : List Request) :
    (u.serveAll qs).1 = qs.map Request.atEnd := by
  induction qs generalizing u with
  | nil => rfl
  | cons q qs ih =>
    obtain ⟨answer, nothing⟩ := serve_atEnd h q
    simp only [serveAll, List.map_cons]
    rw [answer, ih nothing]

end Queue

/-- The reader comes upon no fault and has these data left. -/
def Serves (r : Reader) (u : Queue) : Prop := r.readAll.1 = .ok u.data ∧ r.iterating = u.live

theorem readWith_pop {u : Queue} (h : Serves r u) (outside : StructuralFault) :
    Answer.ofDatum (r.readWith outside).1 = u.pop.1 ∧ Serves (r.readWith outside).2 u.pop.2 := by
  obtain ⟨all, live⟩ := h
  obtain ⟨ds, live'⟩ := u
  rcases readAll_cases all with ⟨rfl, ended⟩ | ⟨d, more, rfl, read, left⟩
  · rw [readWith_outside ended, ended]
    exact ⟨rfl, (exhausted_of_end ended).readAll, live⟩
  · rw [readWith_outside read, read]
    exact ⟨rfl, left, live⟩

/-- Without a fault a reader does what the queue does. -/
theorem perform_serve {u : Queue} (h : Serves r u) (q : Request) :
    (r.perform q).1 = (u.serve q).1 ∧ Serves (r.perform q).2 (u.serve q).2 := by
  cases q with
  | read => exact readWith_pop h .misplacedDot
  | readAll =>
    have answer : Answer.ofData r.readAll.1 = .data u.data := congrArg Answer.ofData h.1
    exact ⟨answer, (exhausted_of_readAll h.1).readAll, (iterating_readAll r).trans h.2⟩
  | iterate => exact ⟨rfl, (readAll_alike (alike_iterate r)).trans h.1, rfl⟩
  | next =>
    cases live : u.live with
    | false =>
      have dead : r.iterating = false := h.2.trans live
      simp only [perform, Queue.serve, next_dead dead, live, Bool.false_eq_true, if_false]
      exact ⟨rfl, h⟩
    | true =>
      obtain ⟨answer, left, -⟩ := readWith_pop h .dotOutsideList
      have step := next_live (h.2.trans live)
      have alike : Alike r.next.2 (r.readWith .dotOutsideList).2 := by
        rw [step]
        exact ⟨rfl, rfl, rfl⟩
      have goesOn : r.next.2.iterating = !u.data.isEmpty := by
        rw [step, answer]
        obtain ⟨ds, live'⟩ := u
        cases ds <;> rfl
      simp only [perform, Queue.serve, live, if_true]
      refine ⟨?_, (readAll_alike alike).trans left, goesOn⟩
      rw [step]
      exact answer

theorem performAll_serveAll {u : Queue} (h : Serves r u) (qs : List Request) :
    (r.performAll qs).1 = (u.serveAll qs).1 ∧ Serves (r.performAll qs).2 (u.serveAll qs).2 := by
  induction qs generalizing r u with
  | nil => exact ⟨rfl, h⟩
  | cons q qs ih =>
    obtain ⟨answer, left⟩ := perform_serve h q
    obtain ⟨answers, last⟩ := ih left
    simp only [performAll, Queue.serveAll]
    rw [answer, answers]
    exact ⟨rfl, last⟩

theorem Exhausted.performAll (h : Exhausted r) (qs : List Request) :
    (r.performAll qs).1 = qs.map Request.atEnd := by
  have serves : Serves r ⟨[], r.iterating⟩ := ⟨h.readAll, rfl⟩
  rw [(performAll_serveAll serves qs).1, Queue.serveAll_atEnd rfl]

/-! ## After a fault -/

/-- What a dot outside of all lists is called. -/
def Request.dotFault : Request → StructuralFault
  | .read => .misplacedDot
  | .readAll | .iterate | .next => .dotOutsideList

/-- Tokens of data, each of them whole. -/
inductive Whole (modes : Modes) (outside : StructuralFault) : List (Token × Pos) → Prop
  | none : Whole modes outside []
  | datum {used ts : List (Token × Pos)} {last : Stack} {t : Token} {pos : Pos} {d : Datum}
      (leads : Leads modes outside [] used last)
      (fed : feed modes outside last t pos = .ok (.datum d)) (more : Whole modes outside ts) :
      Whole modes outside (used ++ (t, pos) :: ts)

/-- What a request reads before the datum that it fails in; only one for all data reads others
first. -/
def Request.Passes (modes : Modes) : Request → List (Token × Pos) → Prop
  | .readAll, before => Whole modes .dotOutsideList before
  | .read, before | .iterate, before | .next, before => before = []

/-- A datum is begun with the first of some tokens and fails, at one of them or, when all have been
fed, by what is open. The tokens after it are left. -/
inductive FailsIn (modes : Modes) (outside : StructuralFault) (e : ReadError)
    (ts : List (Token × Pos)) (r' : Reader) : Prop
  | token {used : List (Token × Pos)} {last : Stack} {t : Token} {pos : Pos}
      (split : ts = used ++ (t, pos) :: r'.pending) (leads : Leads modes outside [] used last)
      (fed : feed modes outside last t pos = .error e)
  | ended {last : Stack} (leads : Leads modes outside [] ts last)
      (opened : finish last = .error e) (left : Exhausted r')

theorem leads_of_ended {ts : List (Token × Pos)}
    (h : (readFrom modes outside stop stack ts).ended = true) :
    ∃ last, Leads modes outside stack ts last ∧
      (readFrom modes outside stop stack ts).result =
        (readFrom modes outside stop last []).result := by
  fun_induction readFrom modes outside stop stack ts with
  | case1 stack | case2 stack => exact ⟨stack, .none stack, by simp only [readFrom, *]⟩
  | case3 | case4 => cases h
  | case5 _ _ _ _ _ fed ih =>
    obtain ⟨last, leads, result⟩ := ih h
    exact ⟨last, .token fed leads, result⟩

/-- If no datum fails, the fault is that of the source, and it is told once. -/
theorem readWith_failed (h : (r.readWith outside).1 = .error e) :
    FailsIn r.modes outside e r.pending (r.readWith outside).2 ∨
      r.stop = some e ∧ Exhausted (r.readWith outside).2 := by
  have result : (readFrom r.modes outside r.stop [] r.pending).result = .error e := h
  cases ended : (readFrom r.modes outside r.stop [] r.pending).ended with
  | true =>
    obtain ⟨last, leads, same⟩ := leads_of_ended ended
    rw [result] at same
    cases stop : r.stop with
    | some e' =>
      rw [stop] at same
      cases same
      exact .inr ⟨rfl, exhausted_of_ended ended⟩
    | none =>
      rw [stop] at same
      cases opened : finish last with
      | ok => simp [readFrom, opened, Except.map] at same
      | error e' =>
        simp only [readFrom, opened, Except.map, Except.error.injEq] at same
        exact .inl (.ended leads (same ▸ opened) (exhausted_of_ended ended))
  | false =>
    obtain ⟨used, last, t, pos, split, leads, stops⟩ := stops_of_readFrom ended
    rw [result] at stops
    cases stops with
    | fault fed => exact .inl (.token split leads fed)

theorem pending_readWith (outside : StructuralFault) (r : Reader) :
    (r.readWith outside).2.pending <:+ r.pending :=
  readFrom_rest_suffix r.modes outside r.stop [] r.pending

/-- Reading all data fails in the first that is not whole. -/
theorem collect_failed {found : List Datum} (h : (collect found r).2.1 = some e) :
    (∃ before ts, r.pending = before ++ ts ∧ Whole r.modes .dotOutsideList before ∧
      FailsIn r.modes .dotOutsideList e ts (collect found r).2.2) ∨
    r.stop = some e ∧ Exhausted (collect found r).2.2 := by
  fun_induction collect found r with
  | case1 found r d _ _ read ih =>
    have going := ended_of_datum (congrArg Reading.result read)
    obtain ⟨used, last, t, pos, split, leads, stops⟩ := stops_of_readFrom going
    rw [read] at stops
    have stays : (r.readWith .dotOutsideList).2.stop = r.stop := by
      rw [readWith, going]
      rfl
    cases stops with
    | datum fed =>
      rcases ih h with ⟨before, ts, later, whole, fails⟩ | ⟨stop, left⟩
      · refine .inl ⟨used ++ (t, pos) :: before, ts, ?_, .datum leads fed whole, fails⟩
        rw [split, List.append_assoc, List.cons_append]
        exact congrArg (fun rest => used ++ (t, pos) :: rest) later
      · exact .inr ⟨stays ▸ stop, left⟩
  | case2 => cases h
  | case3 found r e' _ _ read =>
    obtain rfl : e' = e := Option.some.inj h
    have failed : (r.readWith .dotOutsideList).1 = .error e' := congrArg Reading.result read
    rcases readWith_failed failed with fails | stopped
    · exact .inl ⟨[], r.pending, rfl, .none, fails⟩
    · exact .inr stopped

theorem ofDatum_failed {result : Except ReadError (Option Datum)}
    (h : Answer.ofDatum result = .failed e) : result = .error e := by
  cases result with
  | error e' =>
    cases h
    rfl
  | ok found => cases found <;> cases h

/-- A request fails in a datum and leaves the tokens after the one that the fault was found at, or
none; or the source has failed. -/
theorem failed_reading {q : Request} (h : (r.perform q).1 = .failed e) :
    (∃ before ts, r.pending = before ++ ts ∧ q.Passes r.modes before ∧
      FailsIn r.modes q.dotFault e ts (r.perform q).2) ∨
    r.stop = some e ∧ Exhausted (r.perform q).2 := by
  cases q with
  | read =>
    exact (readWith_failed (ofDatum_failed h)).imp_left fun fails => ⟨[], _, rfl, rfl, fails⟩
  | readAll =>
    have failed : (collect [] r).2.1 = some e := by
      simp only [perform, fst_readAll] at h
      cases failure : (collect [] r).2.1 with
      | none =>
        rw [failure] at h
        cases h
      | some e' =>
        rw [failure] at h
        cases h
        rfl
    simp only [perform, snd_readAll]
    exact collect_failed failed
  | iterate => cases h
  | next =>
    simp only [perform] at h ⊢
    cases live : r.iterating with
    | false =>
      rw [next_dead live] at h
      cases h
    | true =>
      rw [next_live live] at h ⊢
      rcases readWith_failed (ofDatum_failed h) with fails | stopped
      · refine .inl ⟨[], r.pending, rfl, rfl, ?_⟩
        cases fails with
        | token split leads fed => exact .token split leads fed
        | ended leads opened left => exact .ended leads opened left
      · exact .inr stopped

theorem FailsIn.structural {ts : List (Token × Pos)} {r' : Reader}
    (h : FailsIn modes outside e ts r') : ∃ f p, e = ⟨.structural f, p⟩ := by
  cases h with
  | token _ _ fed => exact feed_structural e fed
  | ended _ opened => exact finish_structural e opened

/-- A fault of the characters is the last thing that is told. -/
theorem exhausted_of_lexical {q : Request} {f : LexicalFault} {p : Pos}
    (h : (r.perform q).1 = .failed ⟨.lexical f, p⟩) : Exhausted (r.perform q).2 := by
  rcases failed_reading h with ⟨_, _, _, _, fails⟩ | ⟨_, left⟩
  · obtain ⟨f', p', same⟩ := fails.structural
    cases same
  · exact left

/-! ## Iterations -/

/-- Whether the latest iteration goes on: nothing but data has come from it yet. -/
def goesOn (live : Bool) : List (Request × Answer) → Bool
  | [] => live
  | (.iterate, _) :: more => goesOn true more
  | (.next, .datum _) :: more => goesOn live more
  | (.next, _) :: more => goesOn false more
  | (.read, _) :: more | (.readAll, _) :: more => goesOn live more

theorem iterating_perform (r : Reader) (q : Request) :
    (r.perform q).2.iterating = goesOn r.iterating [(q, (r.perform q).1)] := by
  cases q with
  | read | iterate => rfl
  | readAll => exact iterating_readAll r
  | next =>
    simp only [perform]
    cases live : r.iterating with
    | false =>
      rw [next_dead live]
      exact live
    | true =>
      rw [next_live live]
      cases (r.readWith .dotOutsideList).1 with
      | error e => rfl
      | ok found => cases found <;> rfl

theorem goesOn_cons (live : Bool) (x : Request × Answer) (more : List (Request × Answer)) :
    goesOn live (x :: more) = goesOn (goesOn live [x]) more := by
  obtain ⟨q, a⟩ := x
  cases q with
  | read | readAll | iterate => rfl
  | next => cases a <;> rfl

theorem iterating_performAll (r : Reader) (qs : List Request) :
    (r.performAll qs).2.iterating = goesOn r.iterating (qs.zip (r.performAll qs).1) := by
  induction qs generalizing r with
  | nil => rfl
  | cons q qs ih =>
    simp only [performAll, List.zip_cons_cons]
    rw [goesOn_cons, ← iterating_perform, ih]

theorem stays_dead (dead : r.iterating = false) {qs : List Request} (none : .iterate ∉ qs) :
    (r.performAll qs).2.iterating = false := by
  induction qs generalizing r with
  | nil => exact dead
  | cons q qs ih =>
    simp only [List.mem_cons, not_or] at none
    obtain ⟨first, later⟩ := none
    have still : (r.perform q).2.iterating = false := by
      rw [iterating_perform, dead]
      cases q with
      | read | readAll => rfl
      | iterate => exact absurd rfl first
      | next => cases (r.perform .next).1 <;> rfl
    exact ih still later

/-! ## Any session -/

/-- A reader that has come so far from another one has the same modes, some of its tokens, and its
fault as long as their end has not been seen. -/
structure Follows (start r : Reader) : Prop where
  modes : r.modes = start.modes
  pending : r.pending <:+ start.pending
  stop : r.stop = if r.ended then none else start.stop
  ended : r.ended = true → r.pending = []

theorem follows_self (going : r.ended = false) : Follows r r := by
  refine ⟨rfl, List.suffix_refl _, ?_, ?_⟩
  · rw [going]
    rfl
  · intro ended
    rw [going] at ended
    cases ended

theorem Follows.of_stop {start : Reader} (h : Follows start r) (stopped : r.stop = some e) :
    start.stop = some e := by
  rw [h.stop] at stopped
  split at stopped
  · cases stopped
  · exact stopped

theorem follows_readWith {start : Reader} (h : Follows start r) (outside : StructuralFault) :
    Follows start (r.readWith outside).2 := by
  obtain ⟨modes, pending, stop, ended⟩ := h
  refine ⟨modes, (pending_readWith outside r).trans pending, ?_, ?_⟩
  · simp only [readWith, stop]
    cases r.ended <;> cases (readFrom r.modes outside _ [] r.pending).ended <;> rfl
  · intro h
    simp only [readWith, Bool.or_eq_true] at h ⊢
    rcases h with before | now
    · have suffix := readFrom_rest_suffix r.modes outside r.stop [] r.pending
      rw [ended before] at suffix
      exact List.suffix_nil.1 (ended before ▸ suffix)
    · exact rest_of_ended now

theorem pending_collect (found : List Datum) (r : Reader) :
    (collect found r).2.2.pending <:+ r.pending := by
  fun_induction collect found r with
  | case1 _ r _ _ _ _ ih => exact ih.trans (pending_readWith .dotOutsideList r)
  | case2 | case3 => exact pending_readWith .dotOutsideList _

theorem pending_perform (r : Reader) (q : Request) : (r.perform q).2.pending <:+ r.pending := by
  cases q with
  | read => exact pending_readWith .misplacedDot r
  | readAll =>
    simp only [perform, snd_readAll]
    exact pending_collect [] r
  | iterate => exact List.suffix_refl _
  | next =>
    simp only [perform]
    cases live : r.iterating with
    | false => simp only [next_dead live, List.suffix_refl]
    | true =>
      rw [next_live live]
      exact pending_readWith .dotOutsideList r

theorem follows_collect {start : Reader} (h : Follows start r) (found : List Datum) :
    Follows start (collect found r).2.2 := by
  fun_induction collect found r with
  | case1 _ _ _ _ _ _ ih => exact ih (follows_readWith h .dotOutsideList)
  | case2 | case3 => exact follows_readWith h .dotOutsideList

theorem follows_perform {start : Reader} (h : Follows start r) (q : Request) :
    Follows start (r.perform q).2 := by
  cases q with
  | read => exact follows_readWith h .misplacedDot
  | readAll =>
    simp only [perform, snd_readAll]
    exact follows_collect h []
  | iterate => exact ⟨h.modes, h.pending, h.stop, h.ended⟩
  | next =>
    simp only [perform]
    cases live : r.iterating with
    | false =>
      rw [next_dead live]
      exact h
    | true =>
      rw [next_live live]
      obtain ⟨modes, pending, stop, ended⟩ := follows_readWith h .dotOutsideList
      exact ⟨modes, pending, stop, ended⟩

theorem follows_performAll {start : Reader} (h : Follows start r) (qs : List Request) :
    Follows start (r.performAll qs).2 := by
  induction qs generalizing r with
  | nil => exact h
  | cons q qs ih => exact ih (follows_perform h q)

theorem Alike.perform {r' : Reader} (h : Alike r r') (same : r.iterating = r'.iterating)
    (q : Request) :
    (r.perform q).1 = (r'.perform q).1 ∧ Alike (r.perform q).2 (r'.perform q).2 := by
  cases q with
  | read =>
    obtain ⟨answer, alike⟩ := h.readWith .misplacedDot
    exact ⟨congrArg Answer.ofDatum answer, alike⟩
  | readAll =>
    simp only [Reader.perform, snd_readAll]
    exact ⟨congrArg Answer.ofData (readAll_alike h), (h.collect []).2.2⟩
  | iterate => exact ⟨rfl, h⟩
  | next =>
    simp only [Reader.perform]
    cases live : r.iterating with
    | false =>
      rw [next_dead live, next_dead (same ▸ live)]
      exact ⟨rfl, h⟩
    | true =>
      obtain ⟨answer, alike⟩ := h.readWith .dotOutsideList
      rw [next_live live, next_live (same ▸ live)]
      exact ⟨congrArg Answer.ofDatum answer, alike⟩

/-- In every session a request is answered as by a new reader of the tokens that no earlier request
has consumed, with the iteration that goes on. So if all data can be read at once, the answers are
those of a queue: the data come in order, and after the last one nothing comes. After a fault of
the order of the tokens the session goes on behind the token where it was found, except for the
iteration that met it; after a fault of the characters nothing is left. -/
theorem session_interleaved (settings : Settings) (s : Source) (earlier : List Request)
    (q : Request) :
    let start := ofSource settings s
    let answers := (start.performAll earlier).1
    let r := (start.performAll earlier).2
    let r' := (r.perform q).2
    let fresh : Reader := { ofTokens settings.modes r.pending (if r.ended then none else start.stop)
      with iterating := goesOn false (earlier.zip answers) }
    (r.pending <:+ start.pending ∧ r'.pending <:+ r.pending ∧
      (r.ended = true → r.pending = []) ∧
      (r.perform q).1 = (fresh.perform q).1 ∧ r'.pending = (fresh.perform q).2.pending) ∧
    (∀ ds, start.readAll.1 = .ok ds →
      answers = (Queue.serveAll ⟨ds, false⟩ earlier).1 ∧
      answers.flatMap Answer.delivered <+: ds ∧
      (answers.flatMap Answer.delivered = ds → (r.perform q).1 = q.atEnd)) ∧
    (∀ f p, (r.perform q).1 = .failed ⟨.structural f, p⟩ →
      (∃ before ts, r.pending = before ++ ts ∧ q.Passes settings.modes before ∧
        FailsIn settings.modes q.dotFault ⟨.structural f, p⟩ ts r') ∧
      (q = .next → ∀ later, .iterate ∉ later →
        (r'.performAll later).2.perform .next = (.ended, (r'.performAll later).2))) ∧
    (∀ f p, (r.perform q).1 = .failed ⟨.lexical f, p⟩ →
      ∀ later, (r'.performAll later).1 = later.map Request.atEnd) := by
  intro start answers r r' fresh
  have begin : Follows start start := ⟨rfl, List.suffix_refl _, rfl, by rintro ⟨⟩⟩
  have follows : Follows start r := follows_performAll begin earlier
  have alike : Alike r fresh := ⟨follows.modes, rfl, follows.stop⟩
  have live : r.iterating = fresh.iterating := iterating_performAll start earlier
  obtain ⟨answer, -, pending, -⟩ := alike.perform live q
  refine ⟨⟨follows.pending, pending_perform r q, follows.ended, answer, pending⟩, ?_, ?_, ?_⟩
  · intro ds all
    have serves : Serves start ⟨ds, false⟩ := ⟨all, rfl⟩
    obtain ⟨same, left⟩ := performAll_serveAll serves earlier
    have told := Queue.delivered_serveAll ⟨ds, false⟩ earlier
    rw [← same] at told
    refine ⟨same, ⟨_, told⟩, ?_⟩
    intro allTold
    have none : (Queue.serveAll ⟨ds, false⟩ earlier).2.data = [] := by
      rw [allTold] at told
      exact List.append_right_eq_self.1 told
    rw [(perform_serve left q).1, (Queue.serve_atEnd none q).1]
  · intro f p failed
    constructor
    · rcases failed_reading failed with fails | ⟨stopped, -⟩
      · rwa [follows.modes] at fails
      · obtain ⟨g, p', same⟩ := Tokens.stop_lexical (follows.of_stop stopped)
        cases same
    · rintro rfl later none
      have dead : r'.iterating = false := by
        rw [iterating_perform, failed]
        rfl
      have still := stays_dead dead none
      simp only [perform, next_dead still]
      rfl
  · intro f p failed later
    exact (exhausted_of_lexical failed).performAll later

/-- The symbol is delivered, and the closing after it is a fault of the next request. -/
theorem session_interleaved_closing :
    let start := ofSource .standard (.ofString "a)")
    let r := (start.performAll [.read]).2
    (start.performAll [.read]).1 = [.datum (.symbol "a" (some .start))] ∧
    ∃ before ts, r.pending = before ++ ts ∧
      Request.read.Passes Settings.standard.modes before ∧
      FailsIn Settings.standard.modes .misplacedDot
        ⟨.structural (.unexpectedClosing .round), ⟨0, 1⟩⟩ ts (r.perform .read).2 := by
  have made : Tokens.Makes .standard none (.ofChars ['a', ')'] .start) _ :=
    .token rfl (fun _ => rfl) rfl (.token rfl (fun _ => rfl) rfl .ended)
  have tokens : Tokens.ofSource .standard (.ofString "a)") = _ := Tokens.makes_iff.1 made
  have start : ofSource .standard (.ofString "a)") = .ofTokens Settings.standard.modes
      [(.atom (.symbol "a"), .start), (.closing .round, ⟨0, 1⟩)] none := by
    rw [ofSource, tokens]
    rfl
  obtain ⟨-, -, faults, -⟩ := session_interleaved .standard (.ofString "a)") [.read] .read
  obtain ⟨fails, -⟩ := faults (.unexpectedClosing .round) ⟨0, 1⟩ (by rw [start]; rfl)
  exact ⟨by rw [start]; rfl, fails⟩

end Sexpr.Reader
