import Sexpr.Proofs.Command.Brackets

/-!
Which brackets the listing of tokens accepts.

- `count_iff_unclosed`: the tally takes the tokens whose brackets match, closed or not.
- `listing_accepts_iff`: so does the listing. What is left open at the end is no failure of it, as
  it is one of reading.
-/

namespace Sexpr.Command

/-- Every bracket that opens is closed by one of its kind, and none closes that is not open. -/
inductive Balanced : List (Token × Pos) → Prop
  | none : Balanced []
  | other {t : Token} {pos : Pos} {us : List (Token × Pos)} (noOpening : t.isOpening = false)
      (noClosing : t.isClosing = false) (more : Balanced us) : Balanced ((t, pos) :: us)
  | enclosed {k : Bracket} {start pos : Pos} {us vs : List (Token × Pos)} (inside : Balanced us)
      (more : Balanced vs) :
      Balanced ((.opening k, start) :: (us ++ (.closing k, pos) :: vs))

/-- The same but for some brackets that are still open, the innermost first. -/
inductive Unclosed : List (Bracket × Pos) → List (Token × Pos) → Prop
  | none {us : List (Token × Pos)} (balanced : Balanced us) : Unclosed [] us
  | opened {k : Bracket} {start : Pos} {outer : List (Bracket × Pos)} {us vs : List (Token × Pos)}
      (before : Unclosed outer us) (inside : Balanced vs) :
      Unclosed ((k, start) :: outer) (us ++ (.opening k, start) :: vs)

variable {t : Token} {pos : Pos} {s s' : Tally} {parens : List (Bracket × Pos)}
  {us vs : List (Token × Pos)}

theorem Balanced.append (h : Balanced us) (h' : Balanced vs) : Balanced (us ++ vs) := by
  induction h with
  | none => exact h'
  | other noOpening noClosing _ ih => exact .other noOpening noClosing ih
  | enclosed inside _ _ ih =>
    rw [List.cons_append, List.append_assoc]
    exact .enclosed inside ih

theorem Unclosed.append (h : Unclosed parens us) (h' : Balanced vs) :
    Unclosed parens (us ++ vs) := by
  cases h with
  | none balanced => exact .none (balanced.append h')
  | opened before inside =>
    rw [List.append_assoc]
    exact .opened before (inside.append h')

theorem unclosed_nil : Unclosed [] us ↔ Balanced us := by
  constructor
  · intro h
    cases h with
    | none balanced => exact balanced
  · exact .none

/-! ## The tally -/

theorem count_cons {indent : Nat} (stepped : s.step t pos = .ok (indent, s'))
    (rest : List (Token × Pos)) : s.count ((t, pos) :: rest) = s'.count rest := by
  rw [Tally.count, stepped]

/-- Balanced tokens leave open what was open. -/
theorem count_balanced (h : Balanced us) (s : Tally) :
    ∃ s', s.count us = .ok s' ∧ s'.parens = s.parens := by
  induction h generalizing s with
  | none => exact ⟨s, rfl, rfl⟩
  | @other t pos us noOpening noClosing _ ih =>
    rw [count_cons (step_other noOpening noClosing s pos)]
    exact ih s
  | @enclosed k start pos us vs _ _ ihInside ihMore =>
    rw [count_cons rfl, count_append]
    obtain ⟨inner, counted, open'⟩ := ihInside { s with
      toplevel := if s.parens = [] then s.toplevel + 1 else s.toplevel
      entered := s.entered + 1
      parens := (k, start) :: s.parens }
    have closes : inner.step (.closing k) pos =
        .ok (s.parens.length, { inner with parens := s.parens }) := by
      simp [Tally.step, open']
    rw [counted, Except.bind, count_cons closes]
    exact ihMore _

/-- A token that the tally takes matches what is open before it. -/
theorem unclosed_step {indent : Nat} (h : Unclosed s.parens us)
    (stepped : s.step t pos = .ok (indent, s')) : Unclosed s'.parens (us ++ [(t, pos)]) := by
  have one (noOpening : t.isOpening = false) (noClosing : t.isClosing = false) :
      Unclosed s'.parens (us ++ [(t, pos)]) := by
    rw [step_other noOpening noClosing] at stepped
    cases stepped
    exact h.append (.other noOpening noClosing .none)
  cases t with
  | opening k =>
    cases stepped
    exact .opened h .none
  | closing k =>
    unfold Tally.step at stepped
    generalize s.parens = parens at h stepped
    cases h with
    | none => cases stepped
    | @opened kind start outer before inner h inside =>
      dsimp only at stepped
      split at stepped
      · rename_i same
        subst same
        cases stepped
        rw [List.append_assoc, List.cons_append]
        exact h.append (.enclosed inside .none)
      · cases stepped
  | _ => exact one rfl rfl

theorem unclosed_count (h : Unclosed s.parens us) (counted : s.count vs = .ok s') :
    Unclosed s'.parens (us ++ vs) := by
  induction vs generalizing s us with
  | nil =>
    cases counted
    rwa [List.append_nil]
  | cons x vs ih =>
    obtain ⟨t, pos⟩ := x
    cases stepped : s.step t pos with
    | error e =>
      rw [Tally.count, stepped] at counted
      cases counted
    | ok next =>
      rw [count_cons stepped] at counted
      rw [List.append_cons]
      exact ih (unclosed_step h stepped) counted

theorem count_unclosed (h : Unclosed parens us) :
    ∃ s, Tally.start.count us = .ok s ∧ s.parens = parens := by
  induction h with
  | none balanced => exact count_balanced balanced .start
  | @opened k start outer us vs _ inside ih =>
    obtain ⟨s, counted, rfl⟩ := ih
    rw [count_append, counted, Except.bind, count_cons rfl]
    exact count_balanced inside _

/-- The tally takes the tokens whose brackets match, whether all are closed or not. -/
theorem count_iff_unclosed :
    (∃ s, Tally.start.count us = .ok s ∧ s.parens = parens) ↔ Unclosed parens us := by
  constructor
  · rintro ⟨s, counted, rfl⟩
    exact @unclosed_count .start s [] us (.none .none) counted
  · exact count_unclosed

/-! ## What the counts tell -/

theorem Balanced.openings_eq (h : Balanced us) : openings us = closings us := by
  induction h with
  | none => rfl
  | other noOpening noClosing _ ih =>
    simpa [openings, closings, noOpening, noClosing] using ih
  | @enclosed k start pos us vs _ _ ihInside ihMore =>
    have opened : openings ((.opening k, start) :: (us ++ (.closing k, pos) :: vs)) =
        openings us + openings vs + 1 := by
      simp [openings, Token.isOpening]
    have closed : closings ((.opening k, start) :: (us ++ (.closing k, pos) :: vs)) =
        closings us + (closings vs + 1) := by
      simp [closings, Token.isClosing]
    omega

theorem Unclosed.openings_eq (h : Unclosed parens us) :
    openings us = parens.length + closings us := by
  induction h with
  | none balanced => simp [balanced.openings_eq]
  | @opened k start outer us vs _ inside ih =>
    have opened : openings (us ++ (.opening k, start) :: vs) = openings us + (openings vs + 1) := by
      simp [openings, Token.isOpening]
    have closed : closings (us ++ (.opening k, start) :: vs) = closings us + closings vs := by
      simp [closings, Token.isClosing]
    have same := inside.openings_eq
    rw [List.length_cons]
    omega

/-- Where brackets match, the counts tell whether all are closed. -/
theorem Unclosed.balanced_iff (h : Unclosed parens us) :
    Balanced us ↔ openings us = closings us := by
  constructor
  · exact Balanced.openings_eq
  · intro same
    have closed : parens = [] := by
      rw [← List.length_eq_zero_iff]
      have := h.openings_eq
      omega
    rw [closed] at h
    exact unclosed_nil.1 h

/-! ## The listing -/

section
variable {settings : Settings} {source : Source}

theorem listTokens_failure (limit : DigitLimit) (o : Options) (stop : Option ReadError)
    (ts : List (Token × Pos)) :
    (listTokens limit o stop .start ts).failure = none ↔
      stop = none ∧ ∃ parens, Unclosed parens ts := by
  rcases listTokens_cases limit o stop ts with
    ⟨before, t, pos, after, s, e, rfl, counted, failed, listed⟩ | ⟨s, counted, -, listed⟩
  · rw [listed]
    constructor
    · rintro ⟨⟩
    · rintro ⟨-, parens, matching⟩
      obtain ⟨s', counted', -⟩ := count_unclosed matching
      rw [count_append, counted, Except.bind, Tally.count, failed] at counted'
      cases counted'
  · rw [listed]
    constructor
    · intro none
      exact ⟨none, s.parens, count_iff_unclosed.1 ⟨s, counted, rfl⟩⟩
    · rintro ⟨none, -⟩
      exact none

/-- What is read to its end is balanced. -/
theorem balanced_of_readAll {ds : List Datum} (read : source.readAll settings = .ok ds) :
    (Tokens.ofSource settings source).stop = none ∧
      Balanced (Tokens.ofSource settings source).pairs := by
  obtain ⟨stop, m, made, ends, -⟩ := Reader.readAll_ok_iff_feedAll.1 read
  obtain ⟨s, counted, parens⟩ := count_of_feedAll (s := .start) rfl made
  rw [Reader.openLists_of_finish ends] at parens
  exact ⟨stop, unclosed_nil.1 (count_iff_unclosed.1 ⟨s, counted, parens⟩)⟩

end

/-- The listing of the tokens of a source has no failure if and only if the characters are no fault
and the brackets match as far as they are closed. Some may be open at the end: whether any are is
told by the counts alone, and reading the same source fails then. -/
theorem listing_accepts_iff (limit : DigitLimit) (o : Options) (settings : Settings)
    (source : Source) :
    let ts := Tokens.ofSource settings source
    let listed := perform limit { o with task := .tokens } settings source
    (listed.failure = none ↔ ts.stop = none ∧ ∃ parens, Unclosed parens ts.pairs) ∧
    (listed.failure = none → (Balanced ts.pairs ↔ openings ts.pairs = closings ts.pairs)) ∧
    ∀ ds, source.readAll settings = .ok ds → listed.failure = none ∧ Balanced ts.pairs := by
  intro ts listed
  have accepts : listed.failure = none ↔ ts.stop = none ∧ ∃ parens, Unclosed parens ts.pairs :=
    listTokens_failure limit { o with task := .tokens } ts.stop ts.pairs
  refine ⟨accepts, ?_, ?_⟩
  · intro accepted
    obtain ⟨-, parens, matching⟩ := accepts.1 accepted
    exact matching.balanced_iff
  · intro ds read
    obtain ⟨stop, balanced⟩ := balanced_of_readAll read
    exact ⟨accepts.2 ⟨stop, [], .none balanced⟩, balanced⟩

/-- A lone bracket is listed though nothing closes it. -/
theorem listing_accepts_unclosed :
    let o : Options :=
      ⟨.tokens, "gambit", false, false, false, false, false, false, false, ["a.scm"]⟩
    let source := Source.ofString "("
    (perform .standard o .standard source).failure = none ∧
      ¬ Balanced (Tokens.ofSource .standard source).pairs := by
  intro o source
  have scanned : Scan.token .standard '(' .start (Input.ofChars [] ⟨0, 1⟩) =
      .done (some (.opening .round)) [] := by rfl
  have tokens : Tokens.ofSource .standard source =
      ⟨[⟨.opening .round, .start, [], false⟩], none, []⟩ :=
    Tokens.makes_iff.1 (.token scanned (fun _ => rfl) rfl .ended)
  have every := listing_accepts_iff .standard o .standard source
  rw [tokens] at every
  have accepted : (perform .standard o .standard source).failure = none :=
    every.1.2 ⟨rfl, [(.round, .start)], .opened (.none .none) .none⟩
  refine ⟨accepted, ?_⟩
  rw [tokens, every.2.1 accepted]
  decide

end Sexpr.Command
