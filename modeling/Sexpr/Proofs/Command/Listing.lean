import Sexpr.Command.Run
import Sexpr.Proofs.Datum.Within
import Sexpr.Proofs.Scan.Legible

/-!
The listing of tokens: what it shows, told by the tokens alone.

- `Counts.step`: the counts and the depth of a token are told by the tokens before it.
- `listTokens_cases`: tokens are shown up to the first one whose bracket does not match.
- `faults_of_linesAfter`: a token can be shown unless its digits are too many.
-/

namespace Sexpr

namespace Token

def isOpening : Token → Bool
  | .opening _ => true
  | _ => false

def isClosing : Token → Bool
  | .closing _ => true
  | _ => false

theorem noBracket_of_isSkipped {t : Token} (h : t.isSkipped = true) :
    t.isOpening = false ∧ t.isClosing = false := by
  cases t with
  | blank | comment | blockComment => exact ⟨rfl, rfl⟩
  | _ => cases h

end Token

/-- A closing bracket that has no opening one, or another one. -/
def ReadError.isBracketFault (e : ReadError) : Bool :=
  match e.fault with
  | .structural (.mismatch ..) | .structural (.unexpectedClosing _) => true
  | _ => false

namespace Command

variable {t : Token} {pos : Pos} {e : ReadError} {s s' : Tally} {us vs : List (Token × Pos)}

/-! ## The tally -/

/-- What a tally is after some more tokens. -/
def Tally.count (s : Tally) : List (Token × Pos) → Except ReadError Tally
  | [] => .ok s
  | (t, pos) :: rest =>
      match s.step t pos with
      | .error e => .error e
      | .ok (_, s) => s.count rest

theorem step_other (noOpening : t.isOpening = false) (noClosing : t.isClosing = false) (s : Tally)
    (pos : Pos) : s.step t pos = .ok (s.parens.length, s) := by
  cases t with
  | opening => cases noOpening
  | closing => cases noClosing
  | _ => rfl

theorem count_append (us vs : List (Token × Pos)) :
    s.count (us ++ vs) = (s.count us).bind fun s => s.count vs := by
  induction us generalizing s with
  | nil => rfl
  | cons x us ih =>
    obtain ⟨t, pos⟩ := x
    rw [List.cons_append, Tally.count, Tally.count]
    cases s.step t pos with
    | error e => rfl
    | ok next => exact ih

/-! ## What a tally counts -/

/-- Each item with those before it. -/
def inContext {α : Type} (before : List α) : List α → List (List α × α)
  | [] => []
  | x :: xs => (before, x) :: inContext (before ++ [x]) xs

theorem inContext_append {α : Type} (before xs ys : List α) :
    inContext before (xs ++ ys) = inContext before xs ++ inContext (before ++ xs) ys := by
  induction xs generalizing before with
  | nil => simp [inContext]
  | cons x xs ih => simp [inContext, ih]

def openings (ts : List (Token × Pos)) : Nat := ts.countP fun x => x.1.isOpening

def closings (ts : List (Token × Pos)) : Nat := ts.countP fun x => x.1.isClosing

/-- How many brackets are open around a token with others before it. A bracket that closes is not
inside of what it closes. -/
def around (before : List (Token × Pos)) (t : Token) : Nat :=
  openings before - closings before - if t.isClosing then 1 else 0

/-- The opening brackets with none open around them. -/
def outermost (ts : List (Token × Pos)) : Nat :=
  (inContext [] ts).countP fun x => x.2.1.isOpening && around x.1 x.2.1 == 0

/-- The line of a token that comes after others: a space for each bracket around it, its position if
positions are shown, and its text. -/
def lineOf (limit : DigitLimit) (o : Options) (before : List (Token × Pos)) (t : Token)
    (pos : Pos) : Except WriteError String :=
  match t.text limit with
  | .error e => .error e
  | .ok text =>
      let spaces := List.replicate (around before t) ' '
      let position := if o.pos then pos.label.toList ++ [' '] else []
      .ok (String.ofList (spaces ++ position ++ text.toList ++ ['\n']))

/-- The line of a token in a trace, if there is a trace. -/
def traceOf (limit : DigitLimit) (o : Options) (t : Token) (pos : Pos) :
    List (Except WriteError String) :=
  if o.debug then
    match t.inspect limit with
    | .error e => [.error (.digits e)]
    | .ok shown => [.ok s!"TK: {pos.label} {shown}\n"]
  else []

/-- The lines of tokens that come after others. -/
def linesAfter (limit : DigitLimit) (o : Options) (before ts : List (Token × Pos)) :
    List (Except WriteError String) :=
  (inContext before ts).flatMap fun x =>
    traceOf limit o x.2.1 x.2.2 ++ if o.print then [lineOf limit o x.1 x.2.1 x.2.2] else []

/-- A tally is what it should be after some tokens. -/
structure Counts (s : Tally) (ts : List (Token × Pos)) : Prop where
  entered : s.entered = openings ts
  toplevel : s.toplevel = outermost ts
  balance : s.parens.length + closings ts = openings ts

theorem counts_start : Counts .start [] := ⟨rfl, rfl, rfl⟩

theorem openings_append (ts : List (Token × Pos)) (t : Token) (pos : Pos) :
    openings (ts ++ [(t, pos)]) = openings ts + if t.isOpening then 1 else 0 := by
  rw [openings, openings, List.countP_append, List.countP_singleton]

theorem closings_append (ts : List (Token × Pos)) (t : Token) (pos : Pos) :
    closings (ts ++ [(t, pos)]) = closings ts + if t.isClosing then 1 else 0 := by
  rw [closings, closings, List.countP_append, List.countP_singleton]

theorem outermost_append (ts : List (Token × Pos)) (t : Token) (pos : Pos) :
    outermost (ts ++ [(t, pos)]) =
      outermost ts + if t.isOpening && around ts t == 0 then 1 else 0 := by
  rw [outermost, outermost, inContext_append, List.countP_append]
  simp [inContext, List.countP_singleton]

theorem Counts.text {ts : List (Token × Pos)} (h : Counts s ts) :
    s.text = s!";; count_toplevel = {outermost ts}, count_enter = {openings ts}\n" := by
  unfold Tally.text
  rw [h.toplevel, h.entered]

/-- A token is indented by the brackets around it and counted if it opens one. -/
theorem Counts.step {indent : Nat} {ts : List (Token × Pos)} (h : Counts s ts)
    (stepped : s.step t pos = .ok (indent, s')) :
    indent = around ts t ∧ Counts s' (ts ++ [(t, pos)]) := by
  have balance := h.balance
  cases t with
  | opening k =>
    cases stepped
    have depth : around ts (.opening k) = s.parens.length := by
      simp only [around, Token.isClosing, Bool.false_eq_true, if_false]
      omega
    refine ⟨depth.symm, ?_, ?_, ?_⟩
    · simp [openings_append, Token.isOpening, h.entered]
    · rw [outermost_append, depth]
      by_cases none : s.parens = []
      · simp [none, Token.isOpening, h.toplevel]
      · simp [none, Token.isOpening, h.toplevel]
    · simp only [openings_append, closings_append, Token.isOpening, Token.isClosing, if_true,
        Bool.false_eq_true, if_false, List.length_cons]
      omega
  | closing k =>
    cases parens : s.parens with
    | nil => simp [Tally.step, parens] at stepped
    | cons bracket outer =>
      obtain ⟨opened, openPos⟩ := bracket
      by_cases kinds : opened = k
      · simp only [Tally.step, parens, kinds, if_true, Except.ok.injEq, Prod.mk.injEq] at stepped
        obtain ⟨rfl, rfl⟩ := stepped
        rw [parens, List.length_cons] at balance
        refine ⟨?_, ?_, ?_, ?_⟩
        · simp only [around, Token.isClosing, if_true]
          omega
        · simp [openings_append, Token.isOpening, h.entered]
        · simp [outermost_append, Token.isOpening, h.toplevel]
        · simp only [openings_append, closings_append, Token.isOpening, Token.isClosing, if_true,
            Bool.false_eq_true, if_false]
          omega
      · simp [Tally.step, parens, kinds] at stepped
  | _ =>
    cases stepped
    refine ⟨?_, ?_, ?_, ?_⟩
    · simp only [around, Token.isClosing, Bool.false_eq_true, if_false]
      omega
    · simp [openings_append, Token.isOpening, h.entered]
    · simp [outermost_append, Token.isOpening, h.toplevel]
    · simp only [openings_append, closings_append, Token.isOpening, Token.isClosing,
        Bool.false_eq_true, if_false]
      omega

/-! ## The listing -/

variable {o : Options} {stop : Option ReadError} {before : List (Token × Pos)}

/-- A tally fails at one of the tokens. -/
theorem exists_of_count_error (counted : s.count us = .error e) :
    ∃ before t pos after s', us = before ++ (t, pos) :: after ∧ s.count before = .ok s' ∧
      s'.step t pos = .error e := by
  induction us generalizing s with
  | nil => cases counted
  | cons x us ih =>
    obtain ⟨t, pos⟩ := x
    cases stepped : s.step t pos with
    | error e' =>
      rw [Tally.count, stepped] at counted
      cases counted
      exact ⟨[], t, pos, us, s, rfl, rfl, stepped⟩
    | ok next =>
      rw [Tally.count, stepped] at counted
      obtain ⟨before, u, q, after, s', rfl, upTo, failed⟩ := ih counted
      refine ⟨(t, pos) :: before, u, q, after, s', rfl, ?_, failed⟩
      rw [Tally.count, stepped]
      exact upTo

theorem tokenLine_eq (limit : DigitLimit) (o : Options) (before : List (Token × Pos)) (t : Token)
    (pos : Pos) :
    tokenLine limit o (around before t) t pos = lineOf limit o before t pos := by
  unfold tokenLine lineOf
  cases t.text limit with
  | error e => rfl
  | ok text =>
    simp only [Except.map, Except.ok.injEq]
    apply String.toList_inj.1
    cases o.pos <;> simp

theorem traced_eq (limit : DigitLimit) (o : Options) (t : Token) (pos : Pos) :
    (if o.debug then [traced (Reader.tokenLine limit t pos)] else []) = traceOf limit o t pos := by
  unfold traced Reader.tokenLine traceOf
  cases t.inspect limit with
  | error e => rfl
  | ok shown => simp [Except.map, Except.mapError, toString, String.append_assoc]

/-- Tokens that the tally takes are listed, each by what is around it. -/
theorem listTokens_append (limit : DigitLimit) (o : Options) (stop : Option ReadError)
    (vs : List (Token × Pos)) (counts : Counts s before) (counted : s.count us = .ok s') :
    listTokens limit o stop s (us ++ vs) =
        ⟨linesAfter limit o before us ++ (listTokens limit o stop s' vs).lines,
          (listTokens limit o stop s' vs).failure⟩ ∧
      Counts s' (before ++ us) := by
  induction us generalizing s before with
  | nil =>
    cases counted
    simp [linesAfter, inContext, counts]
  | cons x us ih =>
    obtain ⟨t, pos⟩ := x
    cases stepped : s.step t pos with
    | error e =>
      rw [Tally.count, stepped] at counted
      cases counted
    | ok next =>
      obtain ⟨indent, next⟩ := next
      rw [Tally.count, stepped] at counted
      obtain ⟨rfl, counts'⟩ := counts.step stepped
      obtain ⟨listed, last⟩ := ih counts' counted
      constructor
      · rw [List.cons_append, listTokens, stepped]
        dsimp only
        rw [listed, tokenLine_eq, traced_eq]
        simp [linesAfter, inContext]
      · simpa using last

theorem listTokens_taken (limit : DigitLimit) (o : Options) (stop : Option ReadError)
    (counted : Tally.start.count us = .ok s) :
    listTokens limit o stop .start us =
        ⟨linesAfter limit o [] us ++ if stop = none then [.ok s.text] else [], stop⟩ ∧
      Counts s us := by
  obtain ⟨listed, counts⟩ := listTokens_append limit o stop [] counts_start counted
  rw [List.append_nil] at listed
  refine ⟨?_, counts⟩
  rw [listed]
  cases stop <;> rfl

theorem listTokens_refused (limit : DigitLimit) (o : Options) (stop : Option ReadError)
    (counted : Tally.start.count us = .ok s) (failed : s.step t pos = .error e)
    (vs : List (Token × Pos)) :
    listTokens limit o stop .start (us ++ (t, pos) :: vs) =
      ⟨linesAfter limit o [] us ++ traceOf limit o t pos, some e⟩ := by
  obtain ⟨listed, -⟩ := listTokens_append limit o stop ((t, pos) :: vs) counts_start counted
  rw [listed, listTokens, failed]
  dsimp only
  rw [traced_eq]

/-- What the listing shows and how it fails: at a token that the tally does not take, or as the
tokens end. -/
theorem listTokens_cases (limit : DigitLimit) (o : Options) (stop : Option ReadError)
    (ts : List (Token × Pos)) :
    (∃ before t pos after s e, ts = before ++ (t, pos) :: after ∧
        Tally.start.count before = .ok s ∧ s.step t pos = .error e ∧
        listTokens limit o stop .start ts =
          ⟨linesAfter limit o [] before ++ traceOf limit o t pos, some e⟩) ∨
      ∃ s, Tally.start.count ts = .ok s ∧ Counts s ts ∧
        listTokens limit o stop .start ts =
          ⟨linesAfter limit o [] ts ++ if stop = none then [.ok s.text] else [], stop⟩ := by
  cases counted : Tally.start.count ts with
  | error e =>
    obtain ⟨before, t, pos, after, s, rfl, upTo, failed⟩ := exists_of_count_error counted
    have listed := listTokens_refused limit o stop upTo failed after
    exact .inl ⟨before, t, pos, after, s, e, rfl, upTo, failed, listed⟩
  | ok s =>
    obtain ⟨listed, counts⟩ := listTokens_taken limit o stop counted
    exact .inr ⟨s, rfl, counts, listed⟩

/-- The fault of a bracket stands where the bracket does. -/
theorem step_eq_error (failed : s.step t pos = .error e) :
    e.isBracketFault = true ∧ e.pos = pos ∧ ∃ f, e.fault = .structural f := by
  cases t with
  | closing k =>
    unfold Tally.step at failed
    dsimp only at failed
    split at failed
    · cases failed
      exact ⟨rfl, rfl, _, rfl⟩
    · split at failed
      · cases failed
      · cases failed
        exact ⟨rfl, rfl, _, rfl⟩
  | _ => cases failed

/-! ## What cannot be shown -/

/-- The fault of what is written is in the first line that cannot be. -/
theorem mem_of_ofLines {out : String} {lines : List (Except WriteError String)} {e : WriteError}
    (h : (Written.ofLines out lines).failure = some e) : .error e ∈ lines := by
  induction lines generalizing out with
  | nil => cases h
  | cons line lines ih =>
    cases line with
    | error e' =>
      cases h
      exact List.mem_cons_self
    | ok s => exact List.mem_cons_of_mem _ (ih h)

theorem mem_inContext {α : Type} {before xs : List α} {x : List α × α}
    (h : x ∈ inContext before xs) : x.2 ∈ xs := by
  induction xs generalizing before with
  | nil => cases h
  | cons y ys ih =>
    rcases List.mem_cons.1 h with rfl | later
    · exact List.mem_cons_self
    · exact List.mem_cons_of_mem y (ih later)

/-- A token of a text is printed unless its digits are too many. -/
theorem faults_of_text {limit : DigitLimit} {fmt : Format} {e : WriteError} (legible : t.Legible fmt)
    (h : t.text limit = .error e) : limit.Faults e := by
  cases t with
  | atom a => exact Atom.faults_of_render legible.concrete h
  | list | unknown => cases legible
  | _ => cases h

theorem faults_of_traceOf {limit : DigitLimit} {o : Options} {e : WriteError}
    (h : .error e ∈ traceOf limit o t pos) : limit.Faults e := by
  unfold traceOf at h
  cases told : t.inspect limit with
  | error e' =>
    have most := t.bounds_inspect limit e' told
    simp only [told, List.mem_ite_nil_right, List.mem_singleton, Except.error.injEq] at h
    exact ⟨e'.most, most, h.2⟩
  | ok shown => simp [told] at h

/-- Nothing but digits keeps the tokens of a text from being shown. -/
theorem faults_of_linesAfter {limit : DigitLimit} {fmt : Format} {o : Options} {e : WriteError}
    {before ts : List (Token × Pos)} (legible : ∀ x ∈ ts, x.1.Legible fmt)
    (h : .error e ∈ linesAfter limit o before ts) : limit.Faults e := by
  obtain ⟨⟨front, t, pos⟩, member, here⟩ := List.mem_flatMap.1 h
  rcases List.mem_append.1 here with trace | line
  · exact faults_of_traceOf trace
  · simp only [List.mem_ite_nil_right, List.mem_singleton, lineOf] at line
    cases told : t.text limit with
    | error e' =>
      simp only [told, Except.error.injEq] at line
      rw [line.2]
      exact faults_of_text (legible _ (mem_inContext member)) told
    | ok text => simp [told] at line

end Command

end Sexpr
