import Sexpr.Proofs.Scan.Lookahead

/-!
A line feed instead of the end of the input. What a scan finds complete at the end, it finds
complete before a line feed as well.

- `token_seam`: so it is for one token that is not made of blanks.
-/

namespace Sexpr.Scan

variable {α β : Type} {settings : Settings} {c : Char} {start p q : Pos} {input u : Input}
  {s s' : Scan α}

/-- The second scan gives the same and leaves more. -/
def Leaves (u : Input) (s s' : Scan α) : Prop := s'.result = s.result ∧ s'.rest = s.rest ++ u

theorem Leaves.map (h : Leaves u s s') (f : α → β) : Leaves u (s.map f) (s'.map f) := by
  constructor
  · rw [Scan.map, h.1]
    rfl
  · exact h.2

theorem Leaves.check (h : Leaves u s s') (f : α → Except ReadError β) :
    Leaves u (s.check f) (s'.check f) := by
  constructor
  · rw [Scan.check, h.1]
    rfl
  · exact h.2

/-- A run stops before a character that is none of it, as it does at the end. -/
theorem run_seam {pred : Char → Bool} (stops : pred c = false) (f : List Char → α) (input : Input) :
    Leaves ((c, q) :: u) (upTo (f (run pred input).1) (run pred input).2)
      (upTo (f (run pred (input ++ (c, q) :: u)).1) (run pred (input ++ (c, q) :: u)).2) := by
  induction input generalizing f with
  | nil => simp [run, stops, Leaves, upTo]
  | cons x input ih =>
    cases fits : pred x.1 with
    | true => simpa [run, fits] using ih fun cs => f (x.1 :: cs)
    | false => simp [run, fits, Leaves, upTo]

theorem blockCommentFrom_closed {found : List Char} {inner : Nat} {a : String}
    (ok : (blockCommentFrom start found inner input).result = .ok a) :
    (blockCommentFrom start found inner input).peeked = false := by
  fun_induction blockCommentFrom start found inner input with
  | case1 => cases ok
  | case2 => rfl
  | case3 _ _ _ _ _ ih => exact ih ok
  | case4 _ _ _ _ _ ih => exact ih ok
  | case5 _ _ _ _ _ _ _ ih => exact ih ok

/-- A scan that is complete by its own last character does not see the end. -/
theorem not_sawEnd (closed : s.peeked = false) : s.sawEnd ≠ true := by
  simp [sawEnd, closed]

theorem hashColonName_seam {fmt : Format} {a : String}
    (ok : (hashColonName fmt start input).result = .ok a)
    (ends : (hashColonName fmt start input).sawEnd = true) :
    Leaves (('\n', q) :: u) (hashColonName fmt start input)
      (hashColonName fmt start (input ++ ('\n', q) :: u)) := by
  revert ok ends
  fun_cases hashColonName fmt start input with
  | case1 => rintro ⟨⟩
  | case2 p rest =>
    intro ok ends
    exact absurd ends (not_sawEnd (delimitedFrom_closed ok))
  | case3 c p rest bar cs rest' ran =>
    intro _ _
    have stops : Text.isSymbolChar '\n' = false := rfl
    have seam := @run_seam String '\n' q u _ stops (fun cs => String.ofList (c :: cs)) rest
    rw [ran] at seam
    rw [List.cons_append, hashColonName, if_neg bar]
    exact seam

theorem hash_seam {t? : Option Token} {fmt : Format} {modes : Modes}
    (ok : (hash fmt modes start input).result = .ok t?)
    (ends : (hash fmt modes start input).sawEnd = true) :
    Leaves (('\n', q) :: u) (hash fmt modes start input)
      (hash fmt modes start (input ++ ('\n', q) :: u)) := by
  have noLetter : Text.isAsciiLetter '\n' = false := rfl
  revert ok ends
  fun_cases hash fmt modes start input with
  | case1 => rintro ⟨⟩
  | case2 p rest =>
    intro ok ends
    cases rest with
    | nil => cases ok
    | cons x rest =>
      obtain ⟨d, p'⟩ := x
      exact ((run_seam rfl (fun cs => (d, cs)) rest).check _).map _
  | case3 =>
    intro ok ends
    exact absurd ends (not_sawEnd rfl)
  | case4 p rest =>
    intro ok ends
    obtain ⟨x, ok, -⟩ := map_eq_ok ok
    exact absurd ends (not_sawEnd (blockCommentFrom_closed ok))
  | case5 p rest =>
    intro ok ends
    obtain ⟨x, ok, -⟩ := map_eq_ok ok
    exact (hashColonName_seam ok ends).map _
  | case6 p rest cs rest' ran =>
    intro _ _
    have seam := @run_seam _ '\n' q u _ noLetter id rest
    rw [ran] at seam
    exact (seam.check (specialNamed start)).map some
  | case7 c p rest backslash semicolon bar colon bang cs rest' ran =>
    intro _ _
    have seam := @run_seam _ '\n' q u _ noLetter id ((c, p) :: rest)
    rw [ran] at seam
    rw [List.cons_append, hash, if_neg backslash, if_neg semicolon, if_neg bar, if_neg colon,
      if_neg bang]
    exact (seam.check (boolSpelled fmt start)).map some

/-- Where a token was complete at the end, it is complete before a line feed. -/
theorem token_ended {t? : Option Token} (noBlank : Text.isBlank c = false)
    (ok : (token settings c p input).result = .ok t?)
    (ends : (token settings c p input).sawEnd = true) :
    Leaves (('\n', q) :: u) (token settings c p input)
      (token settings c p (input ++ ('\n', q) :: u)) := by
  cases begins c with
  | opening k =>
    rw [token_opening] at ends
    exact absurd ends (not_sawEnd rfl)
  | closing k =>
    rw [token_closing] at ends
    exact absurd ends (not_sawEnd rfl)
  | blank blank =>
    rw [noBlank] at blank
    cases blank
  | comment =>
    rw [token_comment, token_comment]
    split
    · exact ((run_seam rfl id input).check (lineComment p)).map some
    · exact run_seam rfl (fun _ => none) input
  | hash => exact hash_seam ok ends
  | string =>
    obtain ⟨x, ok, -⟩ := map_eq_ok ok
    exact absurd ends (not_sawEnd (delimitedFrom_closed ok))
  | barred =>
    obtain ⟨x, ok, -⟩ := map_eq_ok ok
    exact absurd ends (not_sawEnd (delimitedFrom_closed ok))
  | quote | quasiquote => exact absurd ends (not_sawEnd rfl)
  | unquote =>
    rcases splicing_or input with ⟨r, rest, rfl⟩ | alone
    · exact absurd ends (not_sawEnd rfl)
    · rw [token_unquote settings p input alone] at ends ⊢
      obtain rfl : input = [] := by simpa [sawEnd, upTo] using ends
      rw [List.nil_append, token_unquote settings p _ (by simp)]
      exact ⟨rfl, rfl⟩
  | bare plain comment hash =>
    rw [token_bare settings _ _ plain comment hash, token_bare settings _ _ plain comment hash]
    exact run_seam rfl (fun cs => some (bareToken settings.format (c :: cs))) input

/-- A token that is not made of blanks is the same before a line feed as at the end. -/
theorem token_seam {t? : Option Token} (noBlank : Text.isBlank c = false)
    (ok : (token settings c p input).result = .ok t?) (q : Pos) (u : Input) :
    Leaves (('\n', q) :: u) (token settings c p input)
      (token settings c p (input ++ ('\n', q) :: u)) := by
  rcases token_decides settings c p input with ⟨result, mid, peeked, -, same⟩ | reaches
  · have here := same []
    have longer := same (('\n', q) :: u)
    dsimp only at here longer
    rw [List.append_nil] at here
    rw [here, longer]
    exact ⟨rfl, by rw [List.append_nil]⟩
  · have ends := (reaches []).resolve_left (by simp)
    dsimp only at ends
    rw [List.append_nil] at ends
    exact token_ended noBlank ok ends

end Sexpr.Scan
