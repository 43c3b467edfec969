import Sexpr.Proofs.Scan.Steps

/-!
Making tokens step by step.

- `makes_iff`: the steps that lead to the tokens of an input.
- `Makes.lexeme`: nothing is kept between tokens, so from the beginning of one of them on the same
  ones are made.
- `Makes.positions`: the positions of the tokens are among those of the input, in order.
-/

namespace Sexpr.Tokens

/-- The tokens of an input step by step. Where the scan of a token saw the end of the input, the
failure that comes after it goes before. -/
inductive Makes (settings : Settings) (failure? : Option ReadError) : Input → Tokens → Prop
  | ended : Makes settings failure? [] ⟨[], failure?, []⟩
  | failed {c : Char} {p : Pos} {input : Input} {e : ReadError} {s : Scan (Option Token)}
      (scanned : Scan.token settings c p input = s) (ends : s.sawEnd = true)
      (failure : failure? = some e) : Makes settings failure? ((c, p) :: input) ⟨[], some e, []⟩
  | fault {c : Char} {p : Pos} {input : Input} {e : ReadError} {s : Scan (Option Token)}
      (scanned : Scan.token settings c p input = s) (goesOn : s.sawEnd = true → failure? = none)
      (result : s.result = .error e) :
      Makes settings failure? ((c, p) :: input) ⟨[], some e, s.untaken⟩
  | skipped {c : Char} {p : Pos} {input : Input} {s : Scan (Option Token)} {ts : Tokens}
      (scanned : Scan.token settings c p input = s) (goesOn : s.sawEnd = true → failure? = none)
      (result : s.result = .ok none) (more : Makes settings failure? s.rest ts) :
      Makes settings failure? ((c, p) :: input) ts
  | token {c : Char} {p : Pos} {input : Input} {s : Scan (Option Token)} {t : Token} {ts : Tokens}
      (scanned : Scan.token settings c p input = s) (goesOn : s.sawEnd = true → failure? = none)
      (result : s.result = .ok (some t)) (more : Makes settings failure? s.rest ts) :
      Makes settings failure? ((c, p) :: input)
        ⟨⟨t, p, s.rest, s.peeked⟩ :: ts.lexemes, ts.stop, ts.untaken⟩

variable {settings : Settings} {failure? : Option ReadError} {input : Input} {ts : Tokens}

theorem Makes.ofInput_found (h : Makes settings failure? input ts) (found : List Lexeme) :
    ofInput settings failure? found input =
      ⟨found.reverse ++ ts.lexemes, ts.stop, ts.untaken⟩ := by
  have silent {s : Scan (Option Token)} (goesOn : s.sawEnd = true → failure? = none) :
      (if s.sawEnd = true then failure? else none) = none := by
    split
    · exact goesOn ‹_›
    · rfl
  induction h generalizing found with
  | ended => rw [ofInput, List.append_nil]
  | failed scanned ends failure =>
    rw [ofInput]
    simp [scanned, ends, failure]
  | fault scanned goesOn result =>
    rw [ofInput]
    simp [scanned, silent goesOn, result]
  | skipped scanned goesOn result _ ih =>
    rw [ofInput]
    simp [scanned, silent goesOn, result, ih]
  | token scanned goesOn result _ ih =>
    rw [ofInput]
    simp [scanned, silent goesOn, result, ih]

theorem exists_makes (input : Input) : ∃ ts, Makes settings failure? input ts := by
  match input with
  | [] => exact ⟨_, .ended⟩
  | (c, p) :: rest =>
    have shorter : (Scan.token settings c p rest).rest.length < ((c, p) :: rest).length :=
      Nat.lt_succ_of_le (Scan.token_rest_suffix settings c p rest).length_le
    obtain ⟨ts, more⟩ := exists_makes (Scan.token settings c p rest).rest
    by_cases goesOn : (Scan.token settings c p rest).sawEnd = true → failure? = none
    · cases result : (Scan.token settings c p rest).result with
      | error e => exact ⟨_, .fault rfl goesOn result⟩
      | ok t? =>
        cases t? with
        | none => exact ⟨ts, .skipped rfl goesOn result more⟩
        | some t => exact ⟨_, .token rfl goesOn result more⟩
    · obtain ⟨ends, fails⟩ := Classical.not_imp.1 goesOn
      obtain ⟨e, failure⟩ := Option.ne_none_iff_exists'.1 fails
      exact ⟨_, .failed rfl ends failure⟩
termination_by input.length
decreasing_by exact shorter

/-- The steps lead to the tokens of the input. -/
theorem makes_iff : Makes settings failure? input ts ↔ ofInput settings failure? [] input = ts := by
  constructor
  · intro h
    exact h.ofInput_found []
  · rintro rfl
    obtain ⟨ts, h⟩ := @exists_makes settings failure? input
    rwa [h.ofInput_found []]

theorem scan_suffix {c : Char} {p : Pos} {s : Scan (Option Token)}
    (scanned : Scan.token settings c p input = s) : s.rest <:+ (c, p) :: input := by
  rw [← scanned]
  exact (Scan.token_rest_suffix settings c p input).trans (List.suffix_cons _ _)

/-- From the beginning of a token on the same tokens are made, and after it the same again. -/
theorem Makes.lexeme (h : Makes settings failure? input ts) {before after : List Lexeme}
    {l : Lexeme} (split : ts.lexemes = before ++ l :: after) :
    ∃ c later, (c, l.pos) :: later <:+ input ∧
      Scan.token settings c l.pos later = ⟨.ok (some l.token), l.rest, l.peeked⟩ ∧
      Makes settings failure? ((c, l.pos) :: later) ⟨l :: after, ts.stop, ts.untaken⟩ ∧
      Makes settings failure? l.rest ⟨after, ts.stop, ts.untaken⟩ := by
  induction h generalizing before with
  | ended | failed | fault => simp at split
  | skipped scanned _ _ _ ih =>
    obtain ⟨c, later, suffix, token, makes⟩ := ih split
    exact ⟨c, later, suffix.trans (scan_suffix scanned), token, makes⟩
  | @token c p input s t ts scanned goesOn result more ih =>
    cases before with
    | nil =>
      obtain ⟨rfl, rfl⟩ := List.cons.inj split
      refine ⟨c, input, List.suffix_refl _, ?_, .token scanned goesOn result more, more⟩
      rw [scanned, ← result]
    | cons first before =>
      obtain ⟨c, later, suffix, token, makes⟩ := ih (List.cons.inj split).2
      exact ⟨c, later, suffix.trans (scan_suffix scanned), token, makes⟩

theorem Makes.positions (h : Makes settings failure? input ts) :
    List.Sublist (ts.lexemes.map Lexeme.pos) (input.map Prod.snd) := by
  have shrinks {c : Char} {p : Pos} {input : Input} {s : Scan (Option Token)}
      (scanned : Scan.token settings c p input = s) :
      List.Sublist (s.rest.map Prod.snd) (input.map Prod.snd) := by
    rw [← scanned]
    exact (Scan.token_rest_suffix settings c p input).sublist.map Prod.snd
  induction h with
  | ended | failed | fault => exact List.nil_sublist _
  | skipped scanned _ _ _ ih => exact (ih.trans (shrinks scanned)).cons _
  | token scanned _ _ _ ih => exact (ih.trans (shrinks scanned)).cons_cons _

end Sexpr.Tokens
