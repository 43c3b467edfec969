import Sexpr.Proofs.Scan.Steps

/-!
Scanning with and without the tokens that mean nothing.

- `token_skipping`: where blanks and comments are not kept the same characters are taken and the
  other tokens are the same, but semicolons are not counted.
-/

namespace Sexpr

/-- The same settings, but blanks and comments are not kept. -/
def Settings.skipping (settings : Settings) : Settings :=
  { settings with modes.retainWhitespace := false, modes.retainComments := false }

namespace Scan

variable {α : Type}

/-- The same scan without a token that means nothing. -/
def meant (s : Scan (Option Token)) : Scan (Option Token) :=
  s.map (Option.filter fun t => !t.isSkipped)

theorem meant_self {s : Scan (Option Token)}
    (h : ∀ t, s.result = .ok (some t) → t.isSkipped = false) : s = s.meant := by
  obtain ⟨result, rest, peeked⟩ := s
  cases result with
  | error e => rfl
  | ok t? =>
    cases t? with
    | none => rfl
    | some t =>
      have kept : t.isSkipped = false := h t rfl
      simp [meant, map, Except.map, Option.filter, kept]

theorem isSkipped_of_gives {settings : Settings} {c : Char} {input : Input} {t : Token}
    (gives : Gives settings.skipping c input t) : t.isSkipped = false := by
  cases gives with
  | blank kept | comment kept | blockComment kept => cases kept
  | bare =>
    unfold bareToken
    split <;> rfl
  | _ => rfl

/-- Where nothing else is kept either, the scan is the same. -/
theorem meant_skipping {settings : Settings} {c : Char} {p : Pos} {input : Input}
    (same : token settings.skipping c p input = token settings c p input) :
    token settings.skipping c p input = (token settings c p input).meant := by
  rw [← same]
  exact meant_self fun t h => isSkipped_of_gives (gives_of_token h)

/-- Modes matter only for a block comment. -/
theorem hash_modes (fmt : Format) (modes modes' : Modes) (p : Pos) {input : Input}
    (noBar : ∀ x ∈ input.head?, x.1 ≠ '|') :
    hash fmt modes' p input = hash fmt modes p input := by
  cases input with
  | nil => rfl
  | cons x rest =>
    have other : x.1 ≠ '|' := noBar x rfl
    simp only [hash, other, if_false]

theorem hash_skipping (settings : Settings) (p : Pos) (input : Input) :
    token settings.skipping '#' p input = (token settings '#' p input).meant := by
  by_cases noBar : ∀ x ∈ input.head?, x.1 ≠ '|'
  · exact meant_skipping (hash_modes settings.format settings.modes settings.skipping.modes p noBar)
  · match input with
    | [] => exact absurd (by simp) noBar
    | (c, q) :: rest =>
      obtain rfl : c = '|' := by simpa using noBar
      have block (settings : Settings) : token settings '#' p (('|', q) :: rest) =
          (blockComment p rest).map fun s =>
            if settings.modes.retainComments then some (.blockComment s) else none := rfl
      rw [block, block, meant, map, map, map]
      cases (blockComment p rest).result with
      | error e => rfl
      | ok s => cases settings.modes.retainComments <;> rfl

/-- Without blanks and comments a token is the same, or none if it means nothing, and nothing else
is taken. Only a comment with too many semicolons is passed over where it would have been a
fault. -/
theorem token_skipping (settings : Settings) (c : Char) (p : Pos) (input : Input) :
    token settings.skipping c p input = (token settings c p input).meant ∨
      (token settings c p input).result = .error ⟨.lexical .tooManySemicolons, p⟩ ∧
        token settings.skipping c p input =
          ⟨.ok none, (token settings c p input).rest, (token settings c p input).peeked⟩ := by
  cases begins c with
  | opening k =>
    rw [token_opening, token_opening]
    exact .inl rfl
  | closing k =>
    rw [token_closing, token_closing]
    exact .inl rfl
  | blank blank =>
    rw [token_blank _ p input blank, token_blank settings p input blank]
    cases settings.modes.retainWhitespace <;> exact .inl rfl
  | comment =>
    rw [token_comment, token_comment]
    cases settings.modes.retainComments with
    | false => exact .inl rfl
    | true =>
      simp only [Settings.skipping, Bool.false_eq_true, if_false, if_true, check, map, upTo,
        Except.bind, lineComment]
      split
      · exact .inr ⟨rfl, trivial⟩
      · exact .inl rfl
  | hash => exact .inl (hash_skipping settings p input)
  | string | barred | quote | quasiquote => exact .inl (meant_skipping rfl)
  | unquote =>
    rcases splicing_or input with ⟨q, rest, rfl⟩ | alone
    · exact .inl rfl
    · rw [token_unquote _ p input alone, token_unquote settings p input alone]
      exact .inl rfl
  | bare plain comment hash =>
    refine .inl (meant_skipping ?_)
    rw [token_bare _ p input plain comment hash, token_bare settings p input plain comment hash]
    rfl

end Scan

end Sexpr
