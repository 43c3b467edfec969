import Sexpr.Proofs.Scan.Escapes

/-!
Text between delimiters reads back. Each character is written as one piece of the grammar, in every
format and whatever follows.

- `delimited_written`: what is written after the opening delimiter is scanned as the text.
- `delimited_iff`: the grammar says exactly what is scanned.
-/

namespace Sexpr.Scan

theorem escaped?_escapeLetter {c letter : Char} (h : Text.escapeLetter? c = some letter) :
    Text.escaped? letter = some c := by
  have table : ∀ e ∈ Text.escapeLetters, Text.escaped? e.1 = some e.2 := by decide
  obtain ⟨e, found, rfl⟩ := Option.map_eq_some_iff.1 h
  have target : e.2 = c := by simpa using List.find?_some found
  rw [← target]
  exact table e (List.mem_of_find?_eq_some found)

theorem toNat_of_isControl {c : Char} (h : Text.isControl c = true) : c.toNat < 160 := by
  simp only [Text.isControl, Bool.or_eq_true, Bool.and_eq_true, decide_eq_true_eq] at h
  omega

theorem scalar?_toNat (c : Char) : Text.scalar? c.toNat = some c := by
  have valid : c.toNat.isValidChar := c.valid
  rw [Text.scalar?, dif_pos valid]
  rfl

theorem toList_delimited (q : Char) (s : String) :
    (Text.delimited q s).toList =
      q :: (s.toList.flatMap (fun c => (Text.delimitedChar q c).toList) ++ [q]) := by
  have body (out : String) (cs : List Char) :
      (cs.foldl (fun out c => out ++ Text.delimitedChar q c) out).toList =
        out.toList ++ cs.flatMap (fun c => (Text.delimitedChar q c).toList) := by
    induction cs generalizing out with
    | nil => simp
    | cons c cs ih => simp [ih]
  simp [Text.delimited, body]

theorem isPiece_control (fmt : Format) (q : Char) {c : Char} (control : Text.isControl c = true)
    (after : List Char) :
    IsPiece fmt q after ('\\' :: 'u' :: (Text.hex 4 c.toNat).toList) [c] := by
  obtain ⟨value, digits⟩ := Text.positional_hex 4 c.toNat
  have small := toNat_of_isControl control
  have length : (Text.hex 4 c.toNat).toList.length = 4 := Text.length_hex_four (by omega)
  have some : (Text.hex 4 c.toNat).toList ≠ [] := by
    intro none
    simp [none] at length
  have stops : CodeStops 4 (Text.hex 4 c.toNat).toList.length after .fixed [] :=
    .fixed (by rw [length]; rfl)
  have code := @IsPiece.code fmt q after 'u' .fixed 4 _ [] .four some digits stops
    (by rw [value]; exact c.valid)
  rwa [List.append_nil, value, Char.ofNat_toNat] at code

/-- A character is written as one piece. -/
theorem isPiece_delimitedChar (fmt : Format) {q : Char} (quote : q = '\x22' ∨ q = '|') (c : Char)
    (after : List Char) : IsPiece fmt q after (Text.delimitedChar q c).toList [c] := by
  by_cases special : c = q ∨ c = '\\'
  · have self : (c, c) ∈ Text.namedEscapes := by
      rcases special with rfl | rfl
      · rcases quote with rfl | rfl <;> decide
      · decide
    have written : (Text.delimitedChar q c).toList = ['\\', c] := by
      simp [Text.delimitedChar, special]
    rw [written]
    exact .named self
  · cases letter : Text.escapeLetter? c with
    | some l =>
      have written : (Text.delimitedChar q c).toList = ['\\', l] := by
        simp [Text.delimitedChar, special, letter]
      rw [written]
      exact .named (Text.escaped?_eq_some.1 (escaped?_escapeLetter letter))
    | none =>
      by_cases control : Text.isControl c = true
      · have written : (Text.delimitedChar q c).toList =
            '\\' :: 'u' :: (Text.hex 4 c.toNat).toList := by
          simp [Text.delimitedChar, special, letter, control]
        rw [written]
        exact isPiece_control fmt q control after
      · have written : (Text.delimitedChar q c).toList = [c] := by
          simp [Text.delimitedChar, special, letter, control]
        obtain ⟨noQuote, noBackslash⟩ := not_or.1 special
        rw [written]
        exact .plain noQuote noBackslash

/-- What is written between delimiters stands for the text. -/
theorem denotes_written (fmt : Format) {q : Char} (quote : q = '\x22' ∨ q = '|') (s : String)
    (rest : List Char) :
    Denotes fmt q ((Text.delimited q s).toList.tail ++ rest) s.toList rest := by
  rw [toList_delimited, List.tail_cons, List.append_assoc, List.singleton_append]
  induction s.toList with
  | nil => exact .close rest
  | cons c cs ih =>
    rw [List.flatMap_cons, List.append_assoc]
    exact .piece (isPiece_delimitedChar fmt quote c _) ih

theorem yields_written (fmt : Format) {q : Char} (quote : q = '\x22' ∨ q = '|') (start : Pos)
    {s : String} {written : Input} (rest : Input)
    (chars : written.map Prod.fst = (Text.delimited q s).toList.tail) :
    Yields (delimited fmt q start (written ++ rest)) s rest := by
  have denotes := denotes_written fmt quote s (rest.map Prod.fst)
  rw [← chars, ← List.map_append] at denotes
  exact (delimited_yields_iff quote).2 ⟨List.suffix_append written rest, denotes⟩

theorem delimited_written (fmt : Format) {q : Char} (quote : q = '\x22' ∨ q = '|') (start p : Pos)
    (s : String) (rest : List Char) :
    delimited fmt q start (Input.ofChars ((Text.delimited q s).toList.tail ++ rest) p) =
      .done s (Input.ofChars rest (p.advanceAll (Text.delimited q s).toList.tail)) := by
  rw [Input.ofChars_append]
  have yields := yields_written fmt quote start
    (Input.ofChars rest (p.advanceAll (Text.delimited q s).toList.tail))
    (Input.map_fst_ofChars (Text.delimited q s).toList.tail p)
  exact yields.eq_done (delimitedFrom_closed yields.1)

/-- Text between delimiters is decoded exactly by its grammar. So what a text is written as is
scanned as this text, whatever follows. -/
theorem delimited_iff (fmt : Format) {q : Char} (quote : q = '\x22' ∨ q = '|') (start : Pos) :
    (∀ (input rest : Input) (s : String),
      Yields (delimited fmt q start input) s rest ↔
        rest <:+ input ∧ Denotes fmt q (input.map Prod.fst) s.toList (rest.map Prod.fst)) ∧
    ∀ (s : String) (written rest : Input),
      written.map Prod.fst = (Text.delimited q s).toList.tail →
      Yields (delimited fmt q start (written ++ rest)) s rest := by
  constructor
  · intro input rest s
    exact delimited_yields_iff quote
  · intro s written rest chars
    exact yields_written fmt quote start rest chars

theorem delimited_iff_code :
    ('|' = '\x22' ∨ '|' = '|') ∧
    Yields
      (delimited .gambit '|' .start
        (Input.ofChars ['\\', 'x', '4', '1', '-', '|', '('] .start))
      "A-" [('(', ⟨0, 6⟩)] := by
  have code : IsPiece .gambit '|' ['-', '|', '('] ['\\', 'x', '4', '1'] ['A'] := by
    have digits : CodeStops 8 2 ['-', '|', '('] .anywhere [] := by
      refine .anywhere (.inr (by decide)) (.inr ?_)
      rintro _ ⟨⟩
      decide
    have hex : ∀ c ∈ ['4', '1'], Text.IsDigit 16 c := by
      intro c hc
      rcases List.mem_pair.1 hc with rfl | rfl <;> decide
    exact .code (.loose rfl) (by decide) hex digits (by decide)
  have dash : IsPiece .gambit '|' ['|', '('] ['-'] ['-'] := .plain (by decide) (by decide)
  refine ⟨.inr rfl, ((delimited_iff .gambit (.inr rfl) .start).1 _ _ _).2 ⟨?_, ?_⟩⟩
  · decide
  · exact .piece code (.piece dash (.close _))

end Sexpr.Scan
