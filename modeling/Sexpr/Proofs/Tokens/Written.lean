import Sexpr.Proofs.Datum.Within
import Sexpr.Proofs.Scan.Written

/-!
The text that is written for data, taken apart into tokens.

- `ofSource_writeAll`: but for blanks, the tokens of the text are those in which the data are
  spelled.
-/

namespace Sexpr

namespace Scan

variable {settings : Settings} {cs rest : List Char} {t : Token}

theorem head_of_takes (h : Takes settings cs rest t) (meant : t.isSkipped = false) :
    ∃ c u, cs = c :: u ∧ Text.isBlank c = false := by
  obtain ⟨c, u, peeked, rfl, token⟩ := h .start
  refine ⟨c, u, rfl, ?_⟩
  apply Bool.eq_false_iff.2
  intro blank
  rw [token_blank settings _ _ blank] at token
  simp only [upTo, Scan.mk.injEq, Except.ok.injEq] at token
  obtain ⟨kept, -⟩ := token
  split at kept
  · cases kept
    cases meant
  · cases kept

/-- A printable atom is written as one token. -/
theorem takes_render {a : Atom} (h : a.Printable settings.format) :
    ∃ s, a.render .unlimited settings.format = .ok s ∧
      ∀ rest, Ends rest → Takes settings s.toList rest (.atom a) := by
  cases a with
  | bool b => exact ⟨_, rfl, fun _ => takes_bool b⟩
  | char c => exact ⟨_, rfl, fun _ => takes_renderChar c⟩
  | string s => exact ⟨_, rfl, fun _ _ => takes_quoted s⟩
  | symbol s => exact ⟨_, rfl, fun _ => takes_renderSymbol s⟩
  | uninterned s => exact ⟨_, rfl, fun _ => takes_uninterned s h⟩
  | special x => exact ⟨_, rfl, fun _ => takes_special x⟩
  | number n => exact ⟨n.numeral, Atom.render_numeral n, fun _ => takes_number h⟩
  | plain label => cases h
  | leadingKeyword s =>
    refine ⟨_, rfl, ?_⟩
    intro rest ends
    unfold Atom.renderLeadingKeyword
    by_cases symbol : s.toList.all Text.isSymbolChar = true
    · rw [if_pos symbol]
      exact takes_leadingKeyword (List.all_eq_true.1 symbol) ends
    · have keyword : settings.format.hashColonIsKeyword = true := by
        apply h.resolve_left
        intro all
        exact symbol (List.all_eq_true.2 all)
      rw [if_neg symbol, if_pos keyword]
      exact takes_barredKeyword s keyword
  | trailingKeyword s =>
    obtain ⟨nonempty, symbol, head⟩ := h
    have colon : s.toList.head? ≠ some ':' := by
      intro first
      exact (head ':' first).1 rfl
    refine ⟨s ++ ":", ?_, ?_⟩
    · simp only [Atom.render, Atom.renderTrailingKeyword]
      rw [if_pos (by simpa [nonempty, colon] using symbol)]
    · intro rest ends
      exact takes_trailingKeyword nonempty symbol head ends

end Scan

namespace Tokens

open Scan

variable {settings : Settings} {cs ds rest : List Char} {ts us : List Token} {t : Token}

/-- Written before `rest`, the characters are these tokens, apart from those that mean nothing. -/
def Reads (settings : Settings) (cs rest : List Char) (ts : List Token) : Prop :=
  ∀ (p : Pos) (found : List Lexeme), ∃ ls : List Lexeme,
    (ls.map Lexeme.token).filter (fun t => !t.isSkipped) = ts ∧
    ofInput settings none found (Input.ofChars (cs ++ rest) p) =
      ofInput settings none (ls.reverse ++ found) (Input.ofChars rest (p.advanceAll cs))

theorem Reads.nil : Reads settings [] rest [] := by
  intro p found
  exact ⟨[], rfl, rfl⟩

theorem Reads.append (h : Reads settings cs (ds ++ rest) ts) (h' : Reads settings ds rest us) :
    Reads settings (cs ++ ds) rest (ts ++ us) := by
  intro p found
  obtain ⟨ls, rfl, first⟩ := h p found
  obtain ⟨ms, rfl, second⟩ := h' (p.advanceAll cs) (ls.reverse ++ found)
  refine ⟨ls ++ ms, by simp, ?_⟩
  rw [List.append_assoc, first, second, Pos.advanceAll_append, List.reverse_append,
    List.append_assoc]

theorem Reads.of_takes (h : Takes settings cs rest t) (meant : t.isSkipped = false) :
    Reads settings cs rest [t] := by
  intro p found
  obtain ⟨c, u, peeked, rfl, token⟩ := h p
  refine ⟨[⟨t, p, Input.ofChars rest (p.advanceAll (c :: u)), peeked⟩], by simp [meant], ?_⟩
  rw [List.cons_append, Input.ofChars_cons, ofInput_token (t := t) (by rw [token]), token]
  rfl

/-- Blanks mean nothing, whether they are kept or not. -/
theorem Reads.blanks (nonempty : cs ≠ []) (blank : ∀ c ∈ cs, Text.isBlank c = true)
    (ends : ∀ c ∈ rest.head?, Text.isBlank c = false) : Reads settings cs rest [] := by
  intro p found
  obtain ⟨c, u, rfl⟩ := List.exists_cons_of_ne_nil nonempty
  have scanned := token_blank settings p (Input.ofChars (u ++ rest) (p.advance c))
    (blank c List.mem_cons_self)
  rw [run_ofChars _ (fun d hd => blank d (List.mem_cons_of_mem c hd)) ends] at scanned
  rw [List.cons_append, Input.ofChars_cons]
  cases kept : settings.modes.retainWhitespace with
  | false =>
    simp only [kept, Bool.false_eq_true, if_false] at scanned
    refine ⟨[], rfl, ?_⟩
    rw [ofInput_skip (by rw [scanned]; rfl), scanned]
    rfl
  | true =>
    simp only [kept, if_true] at scanned
    refine ⟨[⟨.blank (String.ofList (c :: u)), p,
      Input.ofChars rest (p.advanceAll (c :: u)), true⟩], rfl, ?_⟩
    rw [ofInput_token (by rw [scanned]; rfl), scanned]
    rfl

/-- The tokens of a whole text. -/
theorem Reads.ofSource (reads : Reads settings cs [] ts) :
    (Tokens.ofSource settings (.ofChars cs .start)).stop = none ∧
    ((Tokens.ofSource settings (.ofChars cs .start)).pairs.map Prod.fst).filter
      (fun t => !t.isSkipped) = ts := by
  obtain ⟨ls, rfl, all⟩ := reads .start []
  have tokens : Tokens.ofSource settings (.ofChars cs .start) = ⟨ls, none, []⟩ := by
    rw [List.append_nil, Input.ofChars_nil, ofInput_nil] at all
    simpa [Tokens.ofSource, Source.ofChars, Source.failure?] using all
  simp [tokens, pairs, Function.comp_def]

/-- The characters begin with no blank, and are these tokens before everything that does not go on
with a character of a symbol. -/
def Spells (settings : Settings) (cs : List Char) (ts : List Token) : Prop :=
  (∃ c u, cs = c :: u ∧ Text.isBlank c = false) ∧ ∀ rest, Ends rest → Reads settings cs rest ts

theorem Spells.of_takes (h : ∀ rest, Ends rest → Takes settings cs rest t)
    (meant : t.isSkipped = false) : Spells settings cs [t] := by
  constructor
  · have alone := h [] (by simp [Ends])
    exact head_of_takes alone meant
  · intro rest ends
    exact .of_takes (h rest ends) meant

theorem Spells.head (h : Spells settings cs ts) :
    ∀ c ∈ (cs ++ rest).head?, Text.isBlank c = false := by
  obtain ⟨⟨c, u, rfl, blank⟩, -⟩ := h
  simp [blank]

/-- Tokens with blanks between them. -/
theorem Spells.between (h : Spells settings cs ts) {blanks : List Char} (nonempty : blanks ≠ [])
    (blank : ∀ c ∈ blanks, Text.isBlank c = true) (h' : Spells settings ds us) :
    Spells settings (cs ++ (blanks ++ ds)) (ts ++ us) := by
  obtain ⟨⟨c, u, rfl, first⟩, reads⟩ := h
  refine ⟨⟨c, _, rfl, first⟩, ?_⟩
  intro rest ends
  have later : Reads settings (blanks ++ ds) rest us :=
    (Reads.blanks nonempty blank h'.head).append (h'.2 rest ends)
  have before : Ends (blanks ++ ds ++ rest) := by
    obtain ⟨d, v, rfl⟩ := List.exists_cons_of_ne_nil nonempty
    simp [Ends, Text.isSymbolChar, blank d List.mem_cons_self]
  exact (reads _ before).append later

theorem spells_atom {a : Atom} (h : a.Legible settings.format) :
    ∃ s, a.render .unlimited settings.format = .ok s ∧ Spells settings s.toList a.spelled := by
  rcases h with printable | slash
  · obtain ⟨s, render, takes⟩ := takes_render printable
    rw [Atom.spelled_whole (Atom.splits_of_printable printable)]
    exact ⟨s, render, .of_takes takes rfl⟩
  · cases a with
    | trailingKeyword s =>
      have first : s.toList.head? = some '\\' := by simpa [Atom.splits] using slash
      have symbol : s.toList.all Text.isSymbolChar = false := by
        apply Bool.eq_false_iff.2
        intro all
        have plain := List.all_eq_true.1 all '\\' (List.mem_of_mem_head? first)
        cases plain
      refine ⟨Text.delimited '|' s ++ ":", ?_, ?_⟩
      · simp only [Atom.render, Atom.renderTrailingKeyword]
        rw [if_neg (by simp [symbol])]
      · have spelled : (Atom.trailingKeyword s).spelled =
            [.atom (.symbol s)] ++ [.atom (.leadingKeyword "")] := if_pos (by simpa using first)
        have text : (Text.delimited '|' s ++ ":").toList =
            (Text.delimited '|' s).toList ++ (":" ++ "").toList := by simp
        rw [spelled, text]
        refine ⟨⟨'|', _, by rw [toList_delimited]; rfl, by decide⟩, ?_⟩
        intro rest ends
        have colon : Takes settings (":" ++ "").toList rest (.atom (.leadingKeyword "")) :=
          takes_leadingKeyword (by simp) ends
        exact (Reads.of_takes (takes_barred s) rfl).append (.of_takes colon rfl)
    | _ => cases slash

theorem spells_items {items : List Datum}
    (h : ∀ d ∈ items, ∃ s, d.written .unlimited settings.format = .ok s ∧
      Spells settings s.toList d.spelled) :
    ∃ ss, Datum.written.writtenItems .unlimited settings.format items = .ok ss ∧
      (items ≠ [] → Spells settings (Datum.joinItems false ss).toList
        (items.flatMap Datum.spelled)) := by
  induction items with
  | nil => exact ⟨[], rfl, fun nonempty => absurd rfl nonempty⟩
  | cons d ds ih =>
    obtain ⟨s, written, spells⟩ := h d List.mem_cons_self
    obtain ⟨ss, others, more⟩ := ih fun e he => h e (List.mem_cons_of_mem d he)
    refine ⟨s :: ss, by simp [Datum.written.writtenItems, written, others, Except.map], ?_⟩
    intro _
    cases ds with
    | nil =>
      cases others
      simpa [Datum.joinItems] using spells
    | cons e es =>
      have length := Datum.length_writtenItems others
      have nonempty : ss ≠ [] := by
        rintro rfl
        cases length
      have join : (Datum.joinItems false (s :: ss)).toList =
          s.toList ++ ([' '] ++ (Datum.joinItems false ss).toList) := by
        simp [Datum.joinItems_words nonempty]
      rw [join, List.flatMap_cons]
      exact spells.between (by simp) (by simp [Text.isBlank]) (more (by simp))

theorem spells_enclose (k : Bracket) {s : String}
    (h : ∀ rest, Ends rest → Reads settings s.toList rest ts) :
    Spells settings (Datum.enclose k s).toList (.opening k :: (ts ++ [.closing k])) := by
  have text : (Datum.enclose k s).toList = [k.opening] ++ (s.toList ++ [k.closing]) := by
    simp [Datum.enclose]
  rw [text]
  refine ⟨⟨k.opening, _, rfl, by cases k <;> decide⟩, ?_⟩
  intro rest ends
  have closes : Ends ([k.closing] ++ rest) := by cases k <;> simp [Ends] <;> decide
  have inside : Reads settings (s.toList ++ [k.closing]) rest (ts ++ [.closing k]) :=
    (h _ closes).append (.of_takes (takes_closing k) rfl)
  exact (Reads.of_takes (takes_opening k) rfl).append inside

/-- A datum that fits has a written form, in the tokens it is spelled with. -/
theorem spells_datum {dots : Prop} {fuel : Nat} {d : Datum}
    (h : d.Fits (Atom.Legible settings.format) dots fuel)
    (dotted : dots → settings.format.hasDottedPairs = true) :
    ∃ s, d.written .unlimited settings.format = .ok s ∧ Spells settings s.toList d.spelled := by
  induction h with
  | atom legible => exact spells_atom legible
  | @proper fuel k items pos _ ih =>
    obtain ⟨ss, written, spells⟩ := spells_items ih
    refine ⟨_, by rw [Datum.written, written]; rfl, ?_⟩
    rw [Datum.spelled_proper]
    apply spells_enclose
    intro rest ends
    cases items with
    | nil =>
      cases written
      exact .nil
    | cons d ds => exact (spells (by simp)).2 rest ends
  | @improper fuel items last dot pos allowed nonempty _ _ _ ih ihTail =>
    obtain ⟨ss, written, spells⟩ := spells_items ih
    obtain ⟨s, writtenLast, spellsLast⟩ := ihTail
    have one : Datum.written.writtenItems .unlimited settings.format [last] = .ok [s] := by
      simp [Datum.written.writtenItems, writtenLast, Except.map]
    have all : Datum.written.writtenItems .unlimited settings.format (items ++ [last]) =
        .ok (ss ++ [s]) :=
      Datum.writtenItems_append written one
    have some : ss ≠ [] := by
      rintro rfl
      exact nonempty (List.length_eq_zero_iff.1 (Datum.length_writtenItems written).symm)
    have dot : Spells settings ['.'] [.dot] :=
      .of_takes (fun _ => takes_dot (dotted allowed)) rfl
    refine ⟨Datum.enclose .round (Datum.joinItems true (ss ++ [s])),
      by rw [Datum.written, all]; rfl, ?_⟩
    rw [Datum.spelled_improper, Datum.joinItems_dot some]
    have inner : Spells settings (Datum.joinItems false ss ++ " . " ++ s).toList
        (items.flatMap Datum.spelled ++ .dot :: last.spelled) := by
      have text : (Datum.joinItems false ss ++ " . " ++ s).toList =
          (Datum.joinItems false ss).toList ++ ([' '] ++ (['.'] ++ ([' '] ++ s.toList))) := by simp
      have tail : Spells settings (['.'] ++ ([' '] ++ s.toList)) ([.dot] ++ last.spelled) :=
        dot.between (by simp) (by simp [Text.isBlank]) spellsLast
      rw [text]
      exact (spells nonempty).between (by simp) (by simp [Text.isBlank]) tail
    exact spells_enclose .round inner.2

/-- The text after the first datum, together with the end of the line before it. -/
theorem reads_writeLater {dots : Prop} {fuel : Nat} {ds : List Datum} (out : String)
    (h : ∀ d ∈ ds, d.Fits (Atom.Legible settings.format) dots fuel)
    (dotted : dots → settings.format.hasDottedPairs = true) :
    ∃ s, Written.writeLater .unlimited settings.format out ds = ⟨out ++ s, none⟩ ∧
      Reads settings ('\n' :: s.toList) [] (ds.flatMap Datum.spelled) := by
  induction ds generalizing out with
  | nil =>
    refine ⟨"", by simp [Written.writeLater], ?_⟩
    exact .blanks (by simp) (by simp [Text.isBlank]) (by simp)
  | cons d ds ih =>
    obtain ⟨s, written, spells⟩ := spells_datum (h d List.mem_cons_self) dotted
    obtain ⟨more, later, reads⟩ := ih (out ++ "\n" ++ s ++ "\n")
      fun e he => h e (List.mem_cons_of_mem d he)
    refine ⟨"\n" ++ s ++ "\n" ++ more, ?_, ?_⟩
    · simp only [Written.writeLater, Written.writeLine, Datum.render_eq_written, written, later]
      simp [String.append_assoc]
    · have text : '\n' :: ("\n" ++ s ++ "\n" ++ more).toList =
          ['\n', '\n'] ++ (s.toList ++ ('\n' :: more.toList)) := by simp
      have newline : Ends ('\n' :: more.toList ++ []) := by simp [Ends]; decide
      have blanks : Reads settings ['\n', '\n'] (s.toList ++ ('\n' :: more.toList) ++ []) [] := by
        apply Reads.blanks (by simp) (by simp [Text.isBlank])
        rw [List.append_assoc]
        exact spells.head
      rw [text, List.flatMap_cons]
      exact blanks.append ((spells.2 _ newline).append reads)

/-- Data that fit are written without a fault, and the tokens of the text are the ones they are
spelled with. -/
theorem ofSource_writeAll {dots : Prop} {fuel : Nat} {ds : List Datum}
    (h : ∀ d ∈ ds, d.Fits (Atom.Legible settings.format) dots fuel)
    (dotted : dots → settings.format.hasDottedPairs = true) :
    ∃ text, Written.writeAll .unlimited settings.format "" ds = ⟨text, none⟩ ∧
      (ofSource settings (.ofString text)).stop = none ∧
      ((ofSource settings (.ofString text)).pairs.map Prod.fst).filter (fun t => !t.isSkipped) =
        ds.flatMap Datum.spelled := by
  cases ds with
  | nil => exact ⟨"", rfl, Reads.nil.ofSource⟩
  | cons d ds =>
    obtain ⟨s, written, spells⟩ := spells_datum (h d List.mem_cons_self) dotted
    obtain ⟨more, later, reads⟩ := reads_writeLater (s ++ "\n")
      (fun e he => h e (List.mem_cons_of_mem d he)) dotted
    refine ⟨s ++ "\n" ++ more, ?_, Reads.ofSource ?_⟩
    · simp [Written.writeAll, Written.writeLine, Datum.render_eq_written, written, later]
    · have text : (s ++ "\n" ++ more).toList = s.toList ++ ('\n' :: more.toList) := by simp
      have newline : Ends ('\n' :: more.toList ++ []) := by simp [Ends]; decide
      rw [text, List.flatMap_cons]
      exact (spells.2 _ newline).append reads

end Tokens

end Sexpr
