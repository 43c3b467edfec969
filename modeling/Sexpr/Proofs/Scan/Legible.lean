import Sexpr.Proofs.Datum.Spelled
import Sexpr.Proofs.Scan.Steps

/-!
The atoms that scanning gives.

- `Tokens.ofSource_legible`: all of them are printable, but for keywords whose names begin with a
  backslash; a dot is scanned only in formats that have it.
-/

namespace Sexpr

/-- What is known of a token that was scanned in a format. -/
def Token.Legible (fmt : Format) : Token → Prop
  | .atom a => a.Legible fmt
  | .dot => fmt.hasDottedPairs = true
  | .list .. | .unknown => False
  | _ => True

theorem lasting_ofRational (q : Rational) : (Number.ofRational q).Lasting := by
  unfold Number.ofRational
  split
  · trivial
  · rename_i whole
    simpa [Number.Lasting, Rational.isInteger] using whole

theorem lasting_of_bareNumber? {cs : List Char} {n : Number} (h : bareNumber? cs = some n) :
    n.Lasting := by
  have lasting {negative : Bool} {ds : List Char} (h : Decimal.number? negative ds = some n) :
      n.Lasting := by
    obtain ⟨parts, -, made⟩ := Option.bind_eq_some_iff.1 h
    unfold Decimal.Parts.number? at made
    split at made
    · dsimp only at made
      split at made
      · cases made
        trivial
      · obtain ⟨q, -, rfl⟩ := Option.map_eq_some_iff.1 made
        exact lasting_ofRational q
    · cases made
  cases cs with
  | nil => cases h
  | cons c cs =>
    rw [bareNumber?] at h
    by_cases digit : Decimal.isDigit c = true
    · rw [if_pos digit] at h
      exact lasting h
    · rw [if_neg digit] at h
      split at h
      · exact lasting h
      · cases h

namespace Scan

/-- A run begins with a character of a symbol or with a backslash, and goes on with characters of
a symbol. -/
theorem bareAtom_legible (fmt : Format) {c : Char} {cs : List Char}
    (first : Text.isSymbolChar c = true ∨ c = '\\') (semicolon : c ≠ ';') (hash : c ≠ '#')
    (symbol : ∀ d ∈ cs, Text.isSymbolChar d = true) : (bareAtom (c :: cs)).Legible fmt := by
  unfold bareAtom
  split
  · rename_i n number
    have lasting := lasting_of_bareNumber? number
    exact .inl lasting
  · split
    · apply Or.inl
      apply Or.inl
      simpa using symbol
    · rename_i leading
      split
      · rename_i trailing
        have colon : c ≠ ':' := by
          rintro rfl
          exact leading rfl
        have some : cs ≠ [] := by
          rintro rfl
          exact colon (by simpa using trailing)
        have name : (c :: cs).dropLast = c :: cs.dropLast := List.dropLast_cons_of_ne_nil some
        rw [name]
        rcases first with plain | rfl
        · apply Or.inl
          refine ⟨by simp, ?_, ?_⟩
          · intro d hd
            rw [String.toList_ofList] at hd
            rcases List.mem_cons.1 hd with rfl | later
            · exact plain
            · exact symbol d ((List.dropLast_sublist cs).subset later)
          · intro d hd
            rw [String.toList_ofList] at hd
            cases hd
            exact ⟨colon, hash, semicolon⟩
        · exact .inr (by simp [Atom.splits])
      · exact .inl trivial

theorem bareToken_legible (fmt : Format) {c : Char} {cs : List Char}
    (first : Text.isSymbolChar c = true ∨ c = '\\') (semicolon : c ≠ ';') (hash : c ≠ '#')
    (symbol : ∀ d ∈ cs, Text.isSymbolChar d = true) :
    (bareToken fmt (c :: cs)).Legible fmt := by
  unfold bareToken
  split
  · rename_i dot
    exact dot.2
  · exact bareAtom_legible fmt first semicolon hash symbol

theorem token_legible {settings : Settings} {c : Char} {p : Pos} {input : Input} {t : Token}
    (h : (token settings c p input).result = .ok (some t)) : t.Legible settings.format := by
  cases gives_of_token h with
  | opening | closing | blank | comment | blockComment | datumComment | mark => trivial
  | char | string | barred | special | bool => exact .inl trivial
  | keyword on => exact .inl (.inr on)
  | uninterned off => exact .inl off
  | bare plain comment hash => exact bareToken_legible _ plain comment hash (of_mem_run rfl)

end Scan

theorem Tokens.ofInput_legible {settings : Settings} {failure? : Option ReadError}
    {found : List Lexeme} {input : Input}
    (h : ∀ l ∈ found, l.token.Legible settings.format) :
    ∀ l ∈ (ofInput settings failure? found input).lexemes, l.token.Legible settings.format := by
  have reverse {found : List Lexeme} (h : ∀ l ∈ found, l.token.Legible settings.format) :
      ∀ l ∈ found.reverse, l.token.Legible settings.format := by
    intro l hl
    exact h l (List.mem_reverse.1 hl)
  fun_induction ofInput settings failure? found input with
  | case1 => exact reverse h
  | case2 => exact reverse h
  | case3 => exact reverse h
  | case4 _ _ _ _ _ _ _ ih => exact ih h
  | case5 found c pos rest s _ t scanned ih =>
    have legible := Scan.token_legible scanned
    apply ih
    exact List.forall_mem_cons.2 ⟨legible, h⟩

/-- The tokens of a source are legible in the format it was scanned in. -/
theorem Tokens.ofSource_legible (settings : Settings) (s : Source) :
    ∀ x ∈ (ofSource settings s).pairs, x.1.Legible settings.format := by
  intro x hx
  obtain ⟨l, hl, rfl⟩ := List.mem_map.1 hx
  exact ofInput_legible (by simp) l hl

end Sexpr
