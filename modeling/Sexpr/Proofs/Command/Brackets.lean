import Sexpr.Proofs.Command.Listing
import Sexpr.Proofs.Reader.Blame
import Sexpr.Proofs.Tokens.Failing
import Sexpr.Reader.Source

/-!
The brackets that the listing of tokens keeps count of are those of the lists that the reader has
open.

- `step_of_feed`: so they are after each token that the reader takes.
- `listing_agrees`: the listing fails at a bracket where the reader does, if nothing else stops the
  reader before.
-/

namespace Sexpr

/-! ## What the reader has open -/

namespace Reader

variable {modes : Modes} {stack : Stack} {t : Token} {pos : Pos} {e : ReadError}

/-- The brackets of the lists that are open, the innermost first, with their positions. -/
def openLists : Stack → List (Bracket × Pos)
  | [] => []
  | .list _ pos kind _ _ :: stack => (kind, pos) :: openLists stack
  | .mark .. :: stack | .discard .. :: stack => openLists stack

theorem openLists_dropDiscards (stack : Stack) :
    openLists (dropDiscards stack) = openLists stack := by
  fun_induction dropDiscards stack with
  | case1 _ _ stack ih => exact ih
  | case2 => rfl

/-- A datum opens and closes nothing where it is handed to. -/
theorem openLists_deliver (stack : Stack) (d : Datum) (data : List Datum) :
    openLists ((deliver stack d).made data).stack = openLists stack := by
  fun_induction deliver stack d with
  | case3 _ _ pos m stack ih => exact ih
  | _ => rfl

/-- Whatever is wrong, it is no bracket. -/
def BracketFree {α : Type} (result : Except ReadError α) : Prop :=
  ∀ e, result = .error e → e.isBracketFault = false

theorem dot_bracketFree {f : StructuralFault} (placement : f.isOfDot = true) :
    ReadError.isBracketFault ⟨.structural f, pos⟩ = false := by
  cases f <;> first | rfl | cases placement

theorem finish_bracketFree (stack : Stack) : BracketFree (finish stack) := by
  intro e failed
  cases endsOpen_of_finish failed <;> rfl

theorem openLists_of_finish (ends : finish stack = .ok ()) : openLists stack = [] := by
  fun_induction finish stack with
  | case1 => rfl
  | case2 _ _ stack ih => exact ih ends
  | _ => simp [fault] at ends

end Reader

namespace Command

open Reader (Made feedAll openLists)

variable {modes : Modes} {t : Token} {pos : Pos} {e : ReadError} {s s' : Tally}
  {us vs : List (Token × Pos)}

/-! ## The two stacks in step -/

/-- A token that the reader takes is taken by the tally, and leaves the same brackets open. -/
theorem step_of_feed {m : Made} {step : Reader.Step} (same : s.parens = openLists m.stack)
    (fed : Reader.feed modes .dotOutsideList m.stack t pos = .ok step) :
    ∃ indent s', s.step t pos = .ok (indent, s') ∧
      s'.parens = openLists (step.made m.data).stack := by
  cases Reader.feeds_of_feed fed with
  | skipped skipped =>
    obtain ⟨noOpening, noClosing⟩ := Token.noBracket_of_isSkipped skipped
    exact ⟨_, s, step_other noOpening noClosing s pos, same⟩
  | @closing fuel start k items phase below top =>
    rw [← Reader.openLists_dropDiscards, top] at same
    refine ⟨(openLists below).length, { s with parens := openLists below },
      by simp [Tally.step, same, openLists], ?_⟩
    exact (Reader.openLists_deliver _ _ _).symm
  | @dot fuel start items below top =>
    rw [← Reader.openLists_dropDiscards, top] at same
    exact ⟨_, s, rfl, same⟩
  | datumComment | mark => exact ⟨_, s, rfl, same⟩
  | atom | list =>
    refine ⟨_, s, rfl, ?_⟩
    rw [Reader.openLists_deliver, same]
  | opening =>
    refine ⟨_, _, rfl, ?_⟩
    simp [Reader.Step.made, openLists, same]

/-- The tally finds the bracket faults that the reader finds. -/
theorem step_of_bracketFault {m : Made} (same : s.parens = openLists m.stack)
    (fed : Reader.feed modes .dotOutsideList m.stack t pos = .error e)
    (bracket : e.isBracketFault = true) : s.step t pos = .error e := by
  cases Reader.rejects_of_feed fed with
  | unexpected none =>
    rw [← Reader.openLists_dropDiscards, none] at same
    simp [Tally.step, same, openLists]
  | mismatch top other =>
    rw [← Reader.openLists_dropDiscards, top] at same
    simp [Tally.step, same, openLists, other]
  | @dot f placement =>
    rw [Reader.dot_bracketFree placement] at bracket
    cases bracket
  | _ => cases bracket

theorem count_of_feedAll {m m' : Made} (same : s.parens = openLists m.stack)
    (fed : feedAll modes .dotOutsideList m us = .ok m') :
    ∃ s', s.count us = .ok s' ∧ s'.parens = openLists m'.stack := by
  induction us generalizing m s with
  | nil =>
    cases fed
    exact ⟨s, rfl, same⟩
  | cons x us ih =>
    obtain ⟨t, pos⟩ := x
    cases first : Reader.feed modes .dotOutsideList m.stack t pos with
    | error e =>
      rw [Reader.feedAll_error first] at fed
      cases fed
    | ok step =>
      rw [Reader.feedAll_ok first] at fed
      obtain ⟨indent, next, stepped, same'⟩ := step_of_feed same first
      obtain ⟨s', counted, last⟩ := ih same' fed
      refine ⟨s', ?_, last⟩
      rw [Tally.count, stepped]
      exact counted

theorem feedAll_structural {m : Made} (fed : feedAll modes .dotOutsideList m us = .error e) :
    ∃ f p, e = ⟨.structural f, p⟩ := by
  obtain ⟨before, t, pos, after, m', rfl, upTo, failed⟩ := Reader.exists_of_feedAll_error fed
  exact Reader.feed_structural e failed

/-! ## Reading beside the listing -/

section
variable {settings : Settings} {source : Source} {before after : List (Token × Pos)}

theorem readAll_eq (settings : Settings) (source : Source) :
    source.readAll settings =
      (feedAll settings.modes .dotOutsideList .empty (Tokens.ofSource settings source).pairs).bind
        (Made.whole (Tokens.ofSource settings source).stop) :=
  Reader.readAll_feedAll _

/-- At the end of the tokens no bracket fault is found any more. -/
theorem count_of_readAll (read : source.readAll settings = .error e)
    (bracket : e.isBracketFault = true) :
    Tally.start.count (Tokens.ofSource settings source).pairs = .error e := by
  rcases Reader.failsAt_of_readAll read with stop | ⟨before, cause, fails⟩
  · obtain ⟨f, p, rfl⟩ := Tokens.stop_lexical stop
    cases bracket
  · cases fails with
    | @token _ after t p m split fed fails =>
      obtain ⟨s, counted, same⟩ := count_of_feedAll (s := .start) rfl fed
      rw [split, count_append, counted, Except.bind, Tally.count,
        step_of_bracketFault same fails bracket]
    | ended _ _ fails =>
      rw [Reader.finish_bracketFree _ e fails] at bracket
      cases bracket

/-- The reader has stopped by the token that the tally does not take. -/
theorem readAll_of_step_error
    (split : (Tokens.ofSource settings source).pairs = before ++ (t, pos) :: after)
    (counted : Tally.start.count before = .ok s) (failed : s.step t pos = .error e) :
    ∃ e', feedAll settings.modes .dotOutsideList .empty (before ++ [(t, pos)]) = .error e' ∧
      source.readAll settings = .error e' := by
  cases fed : feedAll settings.modes .dotOutsideList .empty (before ++ [(t, pos)]) with
  | error e' =>
    refine ⟨e', rfl, ?_⟩
    rw [readAll_eq, split, List.append_cons, Reader.feedAll_append, fed]
    rfl
  | ok m =>
    obtain ⟨s', counted', -⟩ := count_of_feedAll (s := .start) rfl fed
    rw [count_append, counted, Except.bind, Tally.count, failed] at counted'
    cases counted'

/-- Where a fault of the characters ends the tokens it ends the reading, or the order of the tokens
before it has. -/
theorem readAll_of_stop (stop : (Tokens.ofSource settings source).stop = some e) :
    source.readAll settings = .error e ∨
      ∃ f p, feedAll settings.modes .dotOutsideList .empty (Tokens.ofSource settings source).pairs =
          .error ⟨.structural f, p⟩ ∧ source.readAll settings = .error ⟨.structural f, p⟩ := by
  rw [readAll_eq, stop]
  cases fed : feedAll settings.modes .dotOutsideList .empty
      (Tokens.ofSource settings source).pairs with
  | ok m => exact .inl rfl
  | error e' =>
    obtain ⟨f, p, rfl⟩ := feedAll_structural fed
    exact .inr ⟨f, p, rfl, rfl⟩

end

/-- The brackets that the listing of the tokens of a source has open are those of the lists that
reading all its data has open, as long as neither has failed. A fault of brackets that ends the
reading ends the listing; one that ends the listing is found at a token where the reading ends, or
has ended before; and with a fault of the characters the reading ends too, unless it has ended
before. Each token is on a line of its own, indented by the brackets around it, up to the token where
the listing ends; and the counts at the end are those of all opening brackets and of the outermost
ones. Only a token with too many digits can keep all this from being shown. -/
theorem listing_agrees (limit : DigitLimit) (o : Options) (settings : Settings) (source : Source) :
    let ts := Tokens.ofSource settings source
    let listed := perform limit { o with task := .tokens } settings source
    let read := source.readAll settings
    let feed := feedAll settings.modes .dotOutsideList .empty
    (∀ before m, before <+: ts.pairs → feed before = .ok m →
      ∃ s, Tally.start.count before = .ok s ∧ s.parens = openLists m.stack) ∧
    (∀ e, e.isBracketFault = true → read = .error e → listed.failure = some e) ∧
    (∀ e, e.isBracketFault = true → listed.failure = some e →
      ∃ before t after s, ts.pairs = before ++ (t, e.pos) :: after ∧
        Tally.start.count before = .ok s ∧ s.step t e.pos = .error e ∧
        listed.lines = linesAfter limit o [] before ++ traceOf limit o t e.pos ∧
        ∃ e', feed (before ++ [(t, e.pos)]) = .error e' ∧ read = .error e') ∧
    (∀ f p, listed.failure = some ⟨.lexical f, p⟩ →
      listed.lines = linesAfter limit o [] ts.pairs ∧
      (read = .error ⟨.lexical f, p⟩ ∨
        ∃ g q, feed ts.pairs = .error ⟨.structural g, q⟩ ∧ read = .error ⟨.structural g, q⟩)) ∧
    (∀ e, listed.failure = some e → e.isBracketFault = true ∨ ∃ f p, e = ⟨.lexical f, p⟩) ∧
    (listed.failure = none →
      listed.lines = linesAfter limit o [] ts.pairs ++
        [.ok s!";; count_toplevel = {outermost ts.pairs}, count_enter = {openings ts.pairs}\n"]) ∧
    ∀ e, listed.written.failure = some e → limit.Faults e := by
  intro ts listed read feed
  have legible : ∀ x ∈ ts.pairs, x.1.Legible settings.format :=
    Tokens.ofSource_legible settings source
  have counted_of_read : ∀ e, e.isBracketFault = true → read = .error e →
      Tally.start.count ts.pairs = .error e := by
    intro e bracket failed
    exact count_of_readAll failed bracket
  refine ⟨fun before m _ fed => count_of_feedAll (s := .start) rfl fed, ?_⟩
  rcases listTokens_cases limit { o with task := .tokens } ts.stop ts.pairs with
    ⟨before, t, pos, after, s, e, split, counted, failed, all⟩ | ⟨s, counted, counts, all⟩
  -- the tally does not take a token, or it takes them all
  · have listing : listed = ⟨linesAfter limit o [] before ++ traceOf limit o t pos, some e⟩ := all
    obtain ⟨bracket, rfl, f, structural⟩ := step_eq_error failed
    have whole : Tally.start.count ts.pairs = .error e := by
      rw [split, count_append, counted, Except.bind, Tally.count, failed]
    rw [listing]
    refine ⟨?_, ?_, ?_, ?_, ?_, ?_⟩
    · intro e' bracket' read'
      rw [counted_of_read e' bracket' read', Except.error.injEq] at whole
      rw [whole]
    · rintro e' bracket' ⟨⟩
      have stops := readAll_of_step_error split counted failed
      exact ⟨before, t, after, s, split, counted, failed, rfl, stops⟩
    · rintro g p ⟨⟩
      cases structural
    · rintro e' ⟨⟩
      exact .inl bracket
    · rintro ⟨⟩
    · intro e' unwritten
      have front : ∀ x ∈ before, x.1.Legible settings.format := by
        intro x hx
        apply legible x
        rw [split]
        exact List.mem_append_left _ hx
      rcases List.mem_append.1 (mem_of_ofLines unwritten) with line | trace
      · exact faults_of_linesAfter front line
      · exact faults_of_traceOf trace
  · have listing : listed =
        ⟨linesAfter limit o [] ts.pairs ++ if ts.stop = none then [.ok s.text] else [],
          ts.stop⟩ := all
    rw [listing]
    refine ⟨?_, ?_, ?_, ?_, ?_, ?_⟩
    · intro e bracket read'
      rw [counted_of_read e bracket read'] at counted
      cases counted
    · intro e bracket stop
      obtain ⟨f, p, rfl⟩ := Tokens.stop_lexical stop
      cases bracket
    · intro f p failed
      have stop : ts.stop = some ⟨.lexical f, p⟩ := failed
      refine ⟨?_, readAll_of_stop stop⟩
      dsimp only
      rw [stop, if_neg (by simp), List.append_nil]
    · intro e stop
      exact .inr (Tokens.stop_lexical stop)
    · intro finished
      have stop : ts.stop = none := finished
      dsimp only
      rw [if_pos stop, counts.text]
    · intro e unwritten
      rcases List.mem_append.1 (mem_of_ofLines unwritten) with line | count
      · exact faults_of_linesAfter legible line
      · split at count <;> simp at count

end Command

end Sexpr
