import Sexpr.Proofs.Scan.Local
import Sexpr.Proofs.Scan.Lookahead
import Sexpr.Proofs.Tokens.Steps

/-!
How far into a source its tokens are looked for.

- `lexeme_span`: what a token takes of the source is this token alone.
- `exists_common`: sources that begin alike have the tokens in common that are complete before they
  differ, and the fault if it is found before.
-/

namespace Sexpr

/-- The end of the source was seen when the token was complete. -/
def Lexeme.sawEnd (l : Lexeme) : Bool := l.peeked && l.rest.isEmpty

/-- The same token where more follows. -/
def Lexeme.before (u : Input) (l : Lexeme) : Lexeme := { l with rest := l.rest ++ u }

theorem Input.untaken_append {peeked : Bool} {mid : Input} (kept : peeked = true → mid ≠ [])
    (u : Input) : Input.untaken peeked (mid ++ u) = Input.untaken peeked mid ++ u := by
  cases peeked with
  | false => rfl
  | true => exact List.tail_append_of_ne_nil (kept rfl)

namespace Tokens

variable {settings : Settings} {failure? : Option ReadError} {input : Input} {ts : Tokens}
  {c : Char} {p : Pos}

/-- Whether the end of an input is seen before all its tokens are made. If not, a fault ends
them. -/
def seesEnd (settings : Settings) : Input → Bool
  | [] => true
  | (c, pos) :: rest =>
      let s := Scan.token settings c pos rest
      s.sawEnd || match s.result with
        | .error _ => false
        | .ok _ => seesEnd settings s.rest
termination_by input => input.length
decreasing_by exact Nat.lt_succ_of_le (Scan.token_rest_suffix settings c pos rest).length_le

theorem seesEnd_of_sawEnd (h : (Scan.token settings c p input).sawEnd = true) :
    seesEnd settings ((c, p) :: input) = true := by
  rw [seesEnd]
  simp [h]

theorem seesEnd_ok {s : Scan (Option Token)} {found : Option Token}
    (scanned : Scan.token settings c p input = s) (result : s.result = .ok found) :
    seesEnd settings ((c, p) :: input) = (s.sawEnd || seesEnd settings s.rest) := by
  rw [seesEnd]
  simp [scanned, result]

theorem seesEnd_error {s : Scan (Option Token)} {e : ReadError}
    (scanned : Scan.token settings c p input = s) (result : s.result = .error e) :
    seesEnd settings ((c, p) :: input) = s.sawEnd := by
  rw [seesEnd]
  simp [scanned, result]

/-- The token that a scan gives, if it gives one, and those after it. -/
theorem Makes.step {s : Scan (Option Token)} {found : Option Token}
    (scanned : Scan.token settings c p input = s) (goesOn : s.sawEnd = true → failure? = none)
    (result : s.result = .ok found) (more : Makes settings failure? s.rest ts) :
    Makes settings failure? ((c, p) :: input)
      ⟨(found.map fun t => ⟨t, p, s.rest, s.peeked⟩).toList ++ ts.lexemes, ts.stop, ts.untaken⟩ := by
  cases found with
  | none => exact .skipped scanned goesOn result more
  | some t => exact .token scanned goesOn result more

/-- What a token takes of an input is this token alone, and the next ones are made from what it
leaves. -/
theorem lexeme_span (h : Makes settings failure? input ts) {before after : List Lexeme} {l : Lexeme}
    (split : ts.lexemes = before ++ l :: after) :
    ∃ first last, first < last ∧ last ≤ input.length ∧ l.rest = input.drop last ∧
      (ofInput settings none [] (input.extract first last)).pairs = [(l.token, l.pos)] ∧
      (ofInput settings none [] (input.extract first last)).stop = none ∧
      Makes settings failure? l.rest ⟨after, ts.stop, ts.untaken⟩ := by
  obtain ⟨c, later, ⟨skipped, rfl⟩, scanned, -, more⟩ := h.lexeme split
  obtain ⟨used, rfl⟩ : ∃ used, used ++ l.rest = later := by
    have suffix := Scan.token_rest_suffix settings c l.pos later
    rwa [scanned] at suffix
  have cuts : Input.Cut (l.rest.map Prod.fst) (used ++ l.rest) used := by
    rw [Input.Cut, List.map_append]
  have left : (l.rest.map Prod.fst).length ≤
      (Scan.token settings c l.pos (used ++ l.rest)).rest.length :=
    Nat.le_of_eq (by rw [scanned, List.length_map])
  obtain ⟨alone, remains⟩ :=
    Scan.token_shrinks settings c l.pos l.pos cuts l.token (by rw [scanned]) left
  have ends : (Scan.token settings c l.pos used).rest = [] := by
    rw [scanned, Input.Cut] at remains
    simpa using remains
  have slice : (skipped ++ (c, l.pos) :: (used ++ l.rest)).extract skipped.length
      (skipped.length + (used.length + 1)) = (c, l.pos) :: used := by
    rw [List.extract, List.drop_left, Nat.add_sub_cancel_left, ← List.cons_append,
      ← List.length_cons (a := (c, l.pos)), List.take_left]
  have token : ofInput settings none [] ((c, l.pos) :: used) =
      ⟨[⟨l.token, l.pos, [], (Scan.token settings c l.pos used).peeked⟩], none, []⟩ := by
    rw [ofInput_token alone, ends, ofInput_nil]
    rfl
  refine ⟨skipped.length, skipped.length + (used.length + 1), by omega, ?_, ?_, ?_, ?_, more⟩
  · simp only [List.length_append, List.length_cons]
    omega
  · rw [← List.cons_append, ← List.append_assoc]
    exact (List.drop_left' (by simp)).symm
  · rw [slice, token]
    rfl
  · rw [slice, token]

/-- Something of the input is taken for its first token, or its end is seen. -/
theorem takes_first (settings : Settings) (input : Input) :
    ∀ c p rest, input = (c, p) :: rest →
      (Scan.token settings c p rest).untaken.length < input.length ∨
        (Scan.token settings c p rest).sawEnd = true := by
  rintro c p rest rfl
  exact Scan.takes_rest (Scan.token_rest_suffix settings c p rest)

/-- The end is seen after a scan if it is seen in what the scan leaves. -/
theorem seesEnd_then {s : Scan (Option Token)} {found : Option Token} {n k : Nat}
    (scanned : Scan.token settings c p input = s) (result : s.result = .ok found)
    (first : s.untaken.length < n ∨ s.sawEnd = true)
    (later : k < s.rest.length ∨ seesEnd settings s.rest = true) :
    k < n ∨ seesEnd settings ((c, p) :: input) = true := by
  refine (Scan.takes_then first later).imp_right ?_
  intro ends
  rw [seesEnd_ok scanned result, ends, Bool.or_true]

/-- If the first scan leaves less than `n` characters or sees the end, so do all the others. -/
theorem Makes.reaches (h : Makes settings failure? input ts) {n : Nat}
    (first : ∀ c p rest, input = (c, p) :: rest →
      (Scan.token settings c p rest).untaken.length < n ∨
        (Scan.token settings c p rest).sawEnd = true) :
    (∀ l ∈ ts.lexemes, l.untaken.length < n ∨ l.sawEnd = true) ∧
      (ts.untaken.length < n ∨ seesEnd settings input = true) := by
  induction h generalizing n with
  | ended => exact ⟨by simp, .inr (by rw [seesEnd])⟩
  | failed scanned ends failure =>
    exact ⟨by simp, .inr (seesEnd_of_sawEnd (by rw [scanned, ends]))⟩
  | @fault c p input e s scanned goesOn result =>
    have takes := first c p input rfl
    rw [scanned] at takes
    refine ⟨by simp, takes.imp_right ?_⟩
    intro ends
    rw [seesEnd_error scanned result, ends]
  | @skipped c p input s ts scanned goesOn result more ih =>
    have takes := first c p input rfl
    rw [scanned] at takes
    obtain ⟨lexemes, stop⟩ := ih (takes_first settings s.rest)
    refine ⟨?_, seesEnd_then scanned result takes stop⟩
    intro l hl
    exact Scan.takes_then takes (lexemes l hl)
  | @token c p input s t ts scanned goesOn result more ih =>
    have takes := first c p input rfl
    rw [scanned] at takes
    obtain ⟨lexemes, stop⟩ := ih (takes_first settings s.rest)
    refine ⟨?_, seesEnd_then scanned result takes stop⟩
    intro l hl
    rcases List.mem_cons.1 hl with rfl | later
    · exact takes
    · exact Scan.takes_then takes (lexemes l later)

/-- A scan that leaves something where it looks further has not seen the end. -/
theorem sawEnd_append {α : Type} (result : Except ReadError α) {mid u : Input} {peeked : Bool}
    (kept : peeked = true → mid ≠ []) : (Scan.mk result (mid ++ u) peeked).sawEnd = false := by
  cases peeked with
  | false => rfl
  | true => simp [Scan.sawEnd, kept rfl]

/-- What inputs that begin alike have in common. -/
inductive Common (settings : Settings) (common : Input) (pieces : List Lexeme) : Prop
  /-- All tokens and the fault that ends them. -/
  | all (e : ReadError) (mid : Input)
      (makes : ∀ failure? u, Makes settings failure? (common ++ u)
        ⟨pieces.map (·.before u), some e, mid ++ u⟩)
      (inside : ∀ u, seesEnd settings (common ++ u) = false)
  /-- The first tokens. -/
  | first (makes : ∀ failure? u, ∃ more stop untaken, Makes settings failure? (common ++ u)
        ⟨pieces.map (·.before u) ++ more, stop, untaken⟩ ∧
      (∀ l ∈ more, l.untaken.length < u.length ∨ l.sawEnd = true) ∧
      (untaken.length < u.length ∨ seesEnd settings (common ++ u) = true))

theorem common_reaches {common : Input}
    (first : ∀ u c p rest, common ++ u = (c, p) :: rest →
      (Scan.token settings c p rest).untaken.length < u.length ∨
        (Scan.token settings c p rest).sawEnd = true) : Common settings common [] := by
  refine .first ?_
  intro failure? u
  obtain ⟨ts, makes⟩ := @exists_makes settings failure? (common ++ u)
  obtain ⟨lexemes, stop⟩ := makes.reaches (first u)
  exact ⟨ts.lexemes, ts.stop, ts.untaken, makes, lexemes, stop⟩

section

variable {common mid : Input} {peeked : Bool}

/-- A scan that leaves something where it looks further goes on, whatever failure comes after. -/
theorem goesOn_append {α : Type} {failure? : Option ReadError} (result : Except ReadError α)
    (kept : peeked = true → mid ≠ []) (u : Input) :
    (Scan.mk result (mid ++ u) peeked).sawEnd = true → failure? = none := by
  intro ends
  rw [sawEnd_append result kept] at ends
  cases ends

theorem common_fault {e : ReadError} (kept : peeked = true → mid ≠ [])
    (same : ∀ u, Scan.token settings c p (common ++ u) = ⟨.error e, mid ++ u, peeked⟩) :
    Common settings ((c, p) :: common) [] := by
  refine .all e (Input.untaken peeked mid) ?_ ?_
  · intro failure? u
    have fault : Makes settings failure? ((c, p) :: (common ++ u)) _ :=
      .fault (same u) (goesOn_append _ kept u) rfl
    rwa [Scan.untaken, Input.untaken_append kept u] at fault
  · intro u
    rw [List.cons_append, seesEnd_error (same u) rfl, sawEnd_append _ kept]

theorem common_step {found : Option Token} {pieces : List Lexeme}
    (kept : peeked = true → mid ≠ [])
    (same : ∀ u, Scan.token settings c p (common ++ u) = ⟨.ok found, mid ++ u, peeked⟩)
    (later : Common settings mid pieces) :
    Common settings ((c, p) :: common)
      ((found.map fun t => ⟨t, p, mid, peeked⟩).toList ++ pieces) := by
  have front (u : Input) :
      ((found.map fun t => Lexeme.mk t p mid peeked).toList ++ pieces).map (·.before u) =
        (found.map fun t => Lexeme.mk t p (mid ++ u) peeked).toList ++
          pieces.map (·.before u) := by
    cases found <;> rfl
  have ends (u : Input) : seesEnd settings ((c, p) :: common ++ u) = seesEnd settings (mid ++ u) := by
    rw [List.cons_append, seesEnd_ok (same u) rfl, sawEnd_append _ kept, Bool.false_or]
  cases later with
  | all e left makes inside =>
    refine .all e left ?_ ?_
    · intro failure? u
      have step := (makes failure? u).step (same u) (goesOn_append _ kept u) rfl
      rw [front]
      exact step
    · intro u
      rw [ends, inside]
  | first makes =>
    refine .first ?_
    intro failure? u
    obtain ⟨more, stop, untaken, makes, reaches, stops⟩ := makes failure? u
    have step := makes.step (same u) (goesOn_append _ kept u) rfl
    refine ⟨more, stop, untaken, ?_, reaches, ?_⟩
    · rw [front, List.append_assoc]
      exact step
    · rw [ends]
      exact stops

end

/-- Inputs that begin alike have the tokens in common that are complete before they differ. -/
theorem exists_common (settings : Settings) (common : Input) :
    ∃ pieces : List Lexeme, (∀ l ∈ pieces, l.peeked = true → l.rest ≠ []) ∧
      Common settings common pieces := by
  match common with
  | [] => exact ⟨[], by simp, common_reaches (takes_first settings)⟩
  | (c, p) :: common =>
    rcases Scan.token_decides settings c p common with ⟨result, mid, peeked, kept, same⟩ | reaches
    · cases result with
      | error e => exact ⟨[], by simp, common_fault kept same⟩
      | ok found =>
        have shorter : mid.length ≤ common.length := by
          have suffix := Scan.token_rest_suffix settings c p (common ++ [])
          rw [show Scan.token settings c p (common ++ []) = _ from same []] at suffix
          simpa using suffix.length_le
        obtain ⟨pieces, inside, later⟩ := exists_common settings mid
        refine ⟨_, ?_, common_step kept same later⟩
        intro l hl
        rcases List.mem_append.1 hl with here | there
        · cases found with
          | none => cases here
          | some t =>
            obtain rfl := List.mem_singleton.1 here
            exact kept
        · exact inside l there
    · refine ⟨[], by simp, common_reaches ?_⟩
      rintro u _ _ _ ⟨⟩
      exact reaches u
termination_by common.length
decreasing_by exact Nat.lt_succ_of_le shorter

end Tokens

end Sexpr
