import Sexpr.Proofs.Places
import Sexpr.Proofs.Reader.Relabel
import Sexpr.Proofs.Scan.Seam
import Sexpr.Proofs.Tokens.Relabel

/-!
Two texts with a line feed between them.

- `Tokens.ofSource_concat`: if the first one is taken apart without a fault, the tokens are those of
  both, the second ones further down.
- `readAll_ofString_concat`: if moreover nothing is left open, the data are those of both.
-/

namespace Sexpr

/-! ## Positions -/

namespace Pos

/-- The position so many lines further down. -/
def down (n : Nat) (p : Pos) : Pos := ⟨p.line + n, p.col⟩

theorem advance_down (n : Nat) (p : Pos) (c : Char) :
    (p.down n).advance c = (p.advance c).down n := by
  unfold advance
  split
  · simp only [down, mk.injEq, and_true]
    omega
  · rfl

theorem line_advanceAll (p : Pos) (cs : List Char) :
    (p.advanceAll cs).line = p.line + cs.count '\n' := by
  induction cs generalizing p with
  | nil => simp [advanceAll_nil]
  | cons c cs ih =>
    rw [advanceAll_cons, ih, List.count_cons]
    unfold advance
    by_cases newline : c = '\n'
    · simp only [newline, if_true, beq_self_eq_true]
      omega
    · simp [newline]

/-- The line after a text. -/
def lineAfter (cs : List Char) : Nat := cs.count '\n' + 1

theorem advance_newline (cs : List Char) :
    (start.advanceAll cs).advance '\n' = start.down (lineAfter cs) := by
  rw [advance, if_pos rfl, line_advanceAll]
  simp only [down, start, lineAfter, mk.injEq, and_true]
  omega

end Pos

theorem Input.ofChars_down (n : Nat) (cs : List Char) (p : Pos) :
    ofChars cs (p.down n) = (ofChars cs p).relabel (Pos.down n) := by
  induction cs generalizing p with
  | nil => rfl
  | cons c cs ih => rw [ofChars_cons, ofChars_cons, Pos.advance_down, ih, Scan.relabel_cons]

/-! ## Tokens -/

namespace Tokens

variable {settings : Settings} {input u : Input} {ts us : Tokens}

/-- Blanks at the beginning are passed over. -/
theorem makes_dropBlanks (dropped : settings.modes.retainWhitespace = false) :
    Makes settings none (input.dropWhile fun x => Text.isBlank x.1) ts ↔
      Makes settings none input ts := by
  rw [makes_iff, makes_iff]
  suffices same : ofInput settings none [] (input.dropWhile fun x => Text.isBlank x.1) =
      ofInput settings none [] input by rw [same]
  cases input with
  | nil => rfl
  | cons x rest =>
    obtain ⟨c, p⟩ := x
    by_cases blank : Text.isBlank c = true
    · have passed : ((c, p) :: rest).dropWhile (fun x => Text.isBlank x.1) =
          (Scan.run Text.isBlank rest).2 := List.dropWhile_cons_of_pos blank
      have scanned := Scan.token_blank settings p rest blank
      rw [dropped] at scanned
      rw [passed, ofInput_skip (by rw [scanned]; rfl), scanned]
      rfl
    · have stays : ((c, p) :: rest).dropWhile (fun x => Text.isBlank x.1) = (c, p) :: rest :=
        List.dropWhile_cons_of_neg blank
      rw [stays]

theorem dropWhile_dropWhile_append {α : Type} (pred : α → Bool) (l r : List α) :
    (l.dropWhile pred ++ r).dropWhile pred = (l ++ r).dropWhile pred := by
  induction l with
  | nil => rfl
  | cons x l ih =>
    by_cases fits : pred x = true
    · rw [List.dropWhile_cons_of_pos fits, ih, List.cons_append, List.dropWhile_cons_of_pos fits]
    · rw [List.dropWhile_cons_of_neg fits]

/-- Tokens that are complete at the end are made before a line feed as well, and then those after
it. -/
theorem Makes.seam (dropped : settings.modes.retainWhitespace = false)
    (h : Makes settings none input ts) (whole : ts.stop = none) (q : Pos)
    (more : Makes settings none u us) :
    ∃ both, Makes settings none (input ++ ('\n', q) :: u) both ∧
      both.pairs = ts.pairs ++ us.pairs ∧ both.stop = us.stop := by
  induction h with
  | ended =>
    have later := (makes_dropBlanks dropped).2 more
    exact ⟨us, (makes_dropBlanks dropped).1 later, rfl, rfl⟩
  | failed _ _ failure => cases failure
  | fault => cases whole
  | @skipped c p input s ts scanned _ result _ ih =>
    obtain ⟨both, makes, pairs, stop⟩ := ih whole
    refine ⟨both, ?_, pairs, stop⟩
    subst scanned
    by_cases blank : Text.isBlank c = true
    · have later := (makes_dropBlanks dropped).2 makes
      rw [Scan.token_blank settings p input blank, Scan.rest_upTo, Scan.run,
        dropWhile_dropWhile_append] at later
      apply (makes_dropBlanks dropped).1
      rwa [List.cons_append, List.dropWhile_cons_of_pos (by exact blank)]
    · obtain ⟨same, left⟩ := Scan.token_seam (Bool.eq_false_iff.2 blank) result q u
      rw [← left] at makes
      exact .skipped rfl (fun _ => rfl) (same.trans result) makes
  | @token c p input s t ts scanned _ result _ ih =>
    obtain ⟨both, makes, pairs, stop⟩ := ih whole
    subst scanned
    have noBlank : Text.isBlank c = false := by
      apply Bool.eq_false_iff.2
      intro blank
      rw [Scan.token_blank settings p input blank, dropped] at result
      cases result
    obtain ⟨same, left⟩ := Scan.token_seam noBlank result q u
    rw [← left] at makes
    refine ⟨_, .token rfl (fun _ => rfl) (same.trans result) makes, ?_, stop⟩
    exact congrArg ((t, p) :: ·) pairs

theorem ofString_concat (s t : String) :
    (Source.ofString (s ++ "\n" ++ t)).input =
      (Source.ofString s).input ++ ('\n', Pos.start.advanceAll s.toList) ::
        (Source.ofString t).input.relabel (Pos.down (Pos.lineAfter s.toList)) := by
  have text : (s ++ "\n" ++ t).toList = s.toList ++ '\n' :: t.toList := by simp
  simp only [Source.ofString, Source.ofChars]
  rw [text, Input.ofChars_append, Input.ofChars_cons, Pos.advance_newline, Input.ofChars_down]

/-- The tokens of both texts, and the fault of the second one. -/
theorem ofSource_concat (dropped : settings.modes.retainWhitespace = false) {s : String}
    (whole : (ofSource settings (.ofString s)).stop = none) (t : String) :
    (ofSource settings (.ofString (s ++ "\n" ++ t))).pairs =
      (ofSource settings (.ofString s)).pairs ++
        ((ofSource settings (.ofString t)).relabel (Pos.down (Pos.lineAfter s.toList))).pairs ∧
    (ofSource settings (.ofString (s ++ "\n" ++ t))).stop =
      ((ofSource settings (.ofString t)).relabel (Pos.down (Pos.lineAfter s.toList))).stop := by
  have first : Makes settings none (Source.ofString s).input (ofSource settings (.ofString s)) :=
    makes_iff.2 rfl
  have second : Makes settings none (Source.ofString t).input (ofSource settings (.ofString t)) :=
    makes_iff.2 rfl
  obtain ⟨both, makes, pairs, stop⟩ :=
    first.seam dropped whole (Pos.start.advanceAll s.toList)
      (second.relabel (f := Pos.down (Pos.lineAfter s.toList)))
  rw [← ofString_concat] at makes
  obtain rfl : ofSource settings (.ofString (s ++ "\n" ++ t)) = both := makes_iff.1 makes
  exact ⟨pairs, stop⟩

end Tokens

/-! ## Data -/

namespace Reader

variable {modes : Modes} {outside : StructuralFault} {us : List (Token × Pos)} {ds : List Datum}

/-- After the tokens a datum comment still waits for its datum. -/
def Waits (modes : Modes) (us : List (Token × Pos)) : Prop :=
  ∃ data fuel pos below,
    feedAll modes .dotOutsideList .empty us = .ok ⟨data, .discard fuel pos :: below⟩

/-- The same with data from before. -/
def Made.after (before : List Datum) (m : Made) : Made := ⟨m.data ++ before, m.stack⟩

/-- Data that are complete do not matter to those after them. -/
theorem feedAll_after (before : List Datum) (m : Made) (ts : List (Token × Pos)) :
    feedAll modes outside (m.after before) ts =
      (feedAll modes outside m ts).map (Made.after before) := by
  induction ts generalizing m with
  | nil => rfl
  | cons x ts ih =>
    obtain ⟨t, pos⟩ := x
    have same : feed modes outside (m.after before).stack t pos =
        feed modes outside m.stack t pos := rfl
    cases fed : feed modes outside m.stack t pos with
    | error e =>
      rw [feedAll_error fed, feedAll_error (same.trans fed)]
      rfl
    | ok step =>
      have made : step.made (m.after before).data = (step.made m.data).after before := by
        cases step <;> rfl
      rw [feedAll_ok fed, feedAll_ok (same.trans fed), made, ih]

theorem whole_after (before : List Datum) (m : Made) (stop : Option ReadError) :
    (m.after before).whole stop = (m.whole stop).map (before.reverse ++ ·) := by
  cases stop with
  | some e => rfl
  | none =>
    simp only [Made.whole, Made.after, List.reverse_append]
    cases finish m.stack <;> rfl

/-- If the end of the tokens is no fault and no datum comment waits, nothing is open. -/
theorem stack_eq_nil {data : List Datum} {stack : Stack}
    (made : feedAll modes .dotOutsideList .empty us = .ok ⟨data, stack⟩)
    (settled : ¬ Waits modes us) (finished : finish stack = .ok ()) : stack = [] := by
  cases stack with
  | nil => rfl
  | cons x below =>
    cases x with
    | discard fuel pos => exact absurd ⟨data, fuel, pos, below, made⟩ settled
    | mark => cases finished
    | list fuel pos k items phase => cases phase <;> cases finished

/-- Data read without anything left open, and then those of more tokens. -/
theorem readAll_append (read : (ofTokens modes us none).readAll.1 = .ok ds)
    (settled : ¬ Waits modes us) (vs : List (Token × Pos)) (stop : Option ReadError) :
    (ofTokens modes (us ++ vs) stop).readAll.1 =
      (ofTokens modes vs stop).readAll.1.map (ds ++ ·) := by
  rw [readAll_feedAll] at read
  rw [readAll_feedAll_append, readAll_feedAll]
  cases made : feedAll modes .dotOutsideList .empty us with
  | error e => simp [made, Except.bind] at read
  | ok m =>
    obtain ⟨data, stack⟩ := m
    rw [made] at read
    have whole : (Made.mk data stack).whole none = .ok ds := read
    cases finished : finish stack with
    | error e => simp [Made.whole, finished, Except.map] at whole
    | ok =>
      obtain rfl := stack_eq_nil made settled finished
      obtain rfl : data.reverse = ds := by simpa [Made.whole, finished, Except.map] using whole
      have later : feedAll modes .dotOutsideList ⟨data, []⟩ vs =
          (feedAll modes .dotOutsideList .empty vs).map (Made.after data) :=
        feedAll_after data .empty vs
      simp only [Except.bind, later]
      cases feedAll modes .dotOutsideList .empty vs with
      | error e => rfl
      | ok m => exact whole_after data m stop

end Reader

/-- The data of both texts, or the fault of the second one. -/
theorem readAll_ofString_concat {settings : Settings}
    (dropped : settings.modes.retainWhitespace = false) {s : String}
    (whole : (Tokens.ofSource settings (.ofString s)).stop = none) {ds : List Datum}
    (read : (Source.ofString s).readAll settings = .ok ds)
    (settled : ¬ Reader.Waits settings.modes (Tokens.ofSource settings (.ofString s)).pairs)
    (t : String) :
    (Source.ofString (s ++ "\n" ++ t)).readAll settings =
      (Reader.relabelResult (Pos.down (Pos.lineAfter s.toList))
        (List.map (Datum.relabel (Pos.down (Pos.lineAfter s.toList))))
        ((Source.ofString t).readAll settings)).map (ds ++ ·) := by
  obtain ⟨pairs, stop⟩ := Tokens.ofSource_concat dropped whole t
  have plain := Tokens.plain_ofSource settings (.ofString t)
  rw [Source.readAll, Reader.ofSource, whole] at read
  simp only [Source.readAll, Reader.ofSource, pairs, stop]
  rw [Reader.readAll_append read settled, Tokens.pairs_relabel, ← Reader.relabelTokens_plain plain,
    Tokens.relabel, Reader.readAll_relabel]

/-- Where blanks are not kept and the first text is taken apart without a fault, the tokens of two
texts with a line feed between them are those of both, the second ones further down, and so is their
fault. If moreover the first text is read without one and does not end in a datum comment that waits
for its datum, the data of the whole are those of both. -/
theorem concatenation {settings : Settings} (dropped : settings.modes.retainWhitespace = false)
    {s : String} (whole : (Tokens.ofSource settings (.ofString s)).stop = none) (t : String) :
    let down := Pos.down (Pos.lineAfter s.toList)
    let first := Tokens.ofSource settings (.ofString s)
    let second := Tokens.ofSource settings (.ofString t)
    let both := Tokens.ofSource settings (.ofString (s ++ "\n" ++ t))
    both.pairs = first.pairs ++ second.pairs.map (fun x => (x.1, down x.2)) ∧
    both.stop = second.stop.map (ReadError.relabel down) ∧
    ∀ ds, (Source.ofString s).readAll settings = .ok ds →
      ¬ Reader.Waits settings.modes first.pairs →
      (Source.ofString (s ++ "\n" ++ t)).readAll settings =
        match (Source.ofString t).readAll settings with
        | .ok es => .ok (ds ++ es.map (Datum.relabel down))
        | .error e => .error (e.relabel down) := by
  intro down first second both
  obtain ⟨pairs, stop⟩ := Tokens.ofSource_concat dropped whole t
  rw [Tokens.pairs_relabel] at pairs
  refine ⟨pairs, stop, ?_⟩
  intro ds read settled
  rw [readAll_ofString_concat dropped whole read settled t]
  cases (Source.ofString t).readAll settings <;> rfl

theorem concatenation_symbols :
    (Source.ofString ("a" ++ "\n" ++ "b")).readAll .standard =
      .ok [.symbol "a" (some ⟨0, 0⟩), .symbol "b" (some ⟨1, 0⟩)] := by
  have tokens {c : Char} {name : String}
      (scanned : Scan.token .standard c .start [] = .upTo (some (.atom (.symbol name))) []) :
      Tokens.ofSource .standard (.ofChars [c] .start) =
        ⟨[⟨.atom (.symbol name), .start, [], true⟩], none, []⟩ := by
    have one := @Tokens.ofInput_token .standard [] c .start [] (.atom (.symbol name))
      (by rw [scanned]; rfl)
    rw [scanned] at one
    exact one.trans (Tokens.ofInput_nil none)
  have read {c : Char} {name : String}
      (scanned : Scan.token .standard c .start [] = .upTo (some (.atom (.symbol name))) []) :
      (Source.ofChars [c] .start).readAll .standard = .ok [.symbol name (some .start)] := by
    rw [Source.readAll, Reader.ofSource, tokens scanned, Reader.readAll_feedAll]
    rfl
  have first : Tokens.ofSource .standard (.ofString "a") = _ := tokens rfl
  have settled : ¬ Reader.Waits Settings.standard.modes
      (Tokens.ofSource .standard (.ofString "a")).pairs := by
    rw [first]
    rintro ⟨data, fuel, pos, below, made⟩
    cases made
  have second : (Source.ofString "b").readAll .standard = _ := read rfl
  obtain ⟨-, -, both⟩ := @concatenation .standard rfl "a" (by rw [first]) "b"
  rw [both [.symbol "a" (some .start)] (read rfl) settled, second]
  rfl

end Sexpr
