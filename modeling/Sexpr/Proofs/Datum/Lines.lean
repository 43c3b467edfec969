import Sexpr.Proofs.Datum.Within
import Sexpr.Proofs.Scan.Written

/-!
A datum is written on one line. The characters that end lines are blanks and control characters: no
symbol has them, between delimiters they are written with a backslash, and alone they have a name or
a code.

- `Datum.exists_hasForm`: what can be written is written on one line.
-/

namespace Sexpr

namespace Text

/-- The characters that end a line or a page. -/
def lineEnds : List Char := ['\n', '\r', '\x0b', '\x0c', '\x85']

def OneLine (s : String) : Prop := ∀ c ∈ s.toList, c ∉ lineEnds

-- The characters of the text are tried, not all characters there are.
instance (s : String) : Decidable (OneLine s) := List.decidableBAll _ s.toList

theorem isBlank_of_mem_lineEnds {c : Char} (h : c ∈ lineEnds) : isBlank c = true := by
  have all : lineEnds.all isBlank = true := by decide
  exact List.all_eq_true.1 all c h

theorem isControl_of_mem_lineEnds {c : Char} (h : c ∈ lineEnds) : isControl c = true := by
  have all : lineEnds.all isControl = true := by decide
  exact List.all_eq_true.1 all c h

theorem not_mem_lineEnds {c : Char} (h : isSymbolChar c = true) : c ∉ lineEnds := by
  intro ends
  have blank := isBlank_of_mem_lineEnds ends
  rw [(Scan.isSymbolChar_iff.1 h).1] at blank
  cases blank

theorem oneLine_ofList {cs : List Char} : OneLine (String.ofList cs) ↔ ∀ c ∈ cs, c ∉ lineEnds := by
  rw [OneLine, String.toList_ofList]

def endsNoLine (cs : List Char) : Bool := cs.all fun c => !lineEnds.contains c

/-- A literal is the text of its characters, so none of it has to be decoded. -/
theorem OneLine.ofList {cs : List Char} (h : endsNoLine cs = true) :
    OneLine (String.ofList cs) := by
  apply oneLine_ofList.2
  intro c hc
  simpa using List.all_eq_true.1 h c hc

theorem oneLine_singleton {c : Char} : OneLine (String.singleton c) ↔ c ∉ lineEnds := by
  simp [OneLine]

theorem OneLine.append {s t : String} (hs : OneLine s) (ht : OneLine t) : OneLine (s ++ t) := by
  intro c hc
  rw [String.toList_append] at hc
  exact (List.mem_append.1 hc).elim (hs c) (ht c)

theorem OneLine.between {before after : List Char} {s : String} (hb : endsNoLine before = true)
    (hs : OneLine s) (ha : endsNoLine after = true) :
    OneLine (String.ofList before ++ s ++ String.ofList after) :=
  .append (.append (.ofList hb) hs) (.ofList ha)

/-- Characters of symbols end no line. -/
theorem oneLine_symbol {s : String} (h : ∀ c ∈ s.toList, isSymbolChar c = true) : OneLine s :=
  fun c hc => not_mem_lineEnds (h c hc)

theorem oneLine_hex (width n : Nat) : OneLine (hex width n) :=
  oneLine_symbol fun c hc => Scan.isSymbolChar_of_hex ((positional_hex width n).2 c hc)

theorem OneLine.push {s : String} {c : Char} (hs : OneLine s) (hc : c ∉ lineEnds) :
    OneLine (s.push c) := by
  rw [← String.append_singleton]
  exact hs.append (oneLine_singleton.2 hc)

/-- Characters that are put in some way on one line each are on one line together. -/
theorem OneLine.foldl {f : Char → String} (h : ∀ c, OneLine (f c)) {out : String}
    (start : OneLine out) (cs : List Char) : OneLine (cs.foldl (fun out c => out ++ f c) out) := by
  induction cs generalizing out with
  | nil => exact start
  | cons c cs ih => exact ih (start.append (h c))

/-- A quote and a backslash stand after another backslash. -/
theorem oneLine_escaped {quote c : Char} (h : quote ∉ lineEnds)
    (escaped : (decide (c = quote) || decide (c = '\\')) = true) :
    OneLine (String.ofList ['\\', c]) := by
  have plain : c ∉ lineEnds := by
    rcases (Bool.or_eq_true _ _).mp escaped with same | same
    · rw [of_decide_eq_true same]
      exact h
    · rw [of_decide_eq_true same]
      decide
  apply oneLine_ofList.2
  simp [plain]
  decide

/-- A character that ends a line has a letter or a code between delimiters. -/
theorem oneLine_delimitedChar {quote : Char} (h : quote ∉ lineEnds) (c : Char) :
    OneLine (delimitedChar quote c) := by
  unfold delimitedChar
  split
  · rename_i escaped
    exact oneLine_escaped h escaped
  · split
    · rename_i letter written
      have letters : ∀ e ∈ escapeLetters, e.1 ∉ lineEnds := by decide
      obtain ⟨e, found, rfl⟩ := Option.map_eq_some_iff.1 written
      have plain := letters e (List.mem_of_find?_eq_some found)
      apply oneLine_ofList.2
      simp [plain]
      decide
    · split
      · exact OneLine.append (by decide) (oneLine_hex 4 c.toNat)
      · rename_i seen
        exact oneLine_singleton.2 (mt isControl_of_mem_lineEnds seen)

theorem oneLine_delimited {quote : Char} (h : quote ∉ lineEnds) (s : String) :
    OneLine (delimited quote s) := by
  have body := OneLine.foldl (oneLine_delimitedChar h) (oneLine_singleton.2 h) s.toList
  exact body.push h

end Text

namespace Atom

open Text (OneLine)

theorem oneLine_renderChar (c : Char) : OneLine (renderChar c) := by
  unfold renderChar
  split
  · rename_i name named
    have names : ∀ e ∈ Text.writtenNames, OneLine e.1 := by decide
    obtain ⟨e, found, rfl⟩ := Option.map_eq_some_iff.1 named
    exact .append (by decide) (names e (List.mem_of_find?_eq_some found))
  · split
    · exact .append (by decide) (Text.oneLine_hex 1 c.toNat)
    · rename_i seen
      have plain : c ∉ Text.lineEnds := by
        intro ends
        exact seen (by rw [Text.isBlank_of_mem_lineEnds ends, Bool.true_or])
      apply Text.oneLine_ofList.2
      simp [plain]
      decide

theorem oneLine_renderSymbol (s : String) : OneLine (renderSymbol s) := by
  unfold renderSymbol
  split
  · rename_i bare
    exact Text.oneLine_symbol fun c hc => ((Scan.chars_of_isBare bare).2 c hc).1
  · exact Text.oneLine_delimited (by decide) s

theorem oneLine_renderLeadingKeyword (fmt : Format) (s : String) :
    OneLine (renderLeadingKeyword fmt s) := by
  have barred : OneLine (Text.delimited '|' s) := Text.oneLine_delimited (by decide) s
  unfold renderLeadingKeyword
  split
  · rename_i symbol
    exact .append (by decide) (Text.oneLine_symbol (List.all_eq_true.1 symbol))
  · split
    · exact .append (by decide) barred
    · exact .append (by decide) barred

theorem oneLine_renderTrailingKeyword (s : String) : OneLine (renderTrailingKeyword s) := by
  unfold renderTrailingKeyword
  dsimp only
  split
  · rename_i symbol
    simp only [Bool.and_eq_true] at symbol
    exact .append (Text.oneLine_symbol (List.all_eq_true.1 symbol.2)) (by decide)
  · exact .append (Text.oneLine_delimited (by decide) s) (by decide)

theorem oneLine_numeral (n : Number) : OneLine n.numeral := by
  have numeral : ∃ m, bareNumber? n.numeral.toList = some m := by
    cases n with
    | integer n => exact ⟨_, bareNumber?_numeral (n := .integer n) trivial⟩
    | rational q => exact ⟨_, bareNumber?_fraction q⟩
  obtain ⟨m, numeral⟩ := numeral
  exact Text.oneLine_symbol fun c hc => Scan.isSymbolChar_of_bareNumber? numeral hc

/-- An atom of any class has a written form in every format, on one line. -/
theorem exists_render (fmt : Format) {a : Atom} (h : a.Concrete) :
    ∃ s, a.render .unlimited fmt = .ok s ∧ OneLine s := by
  cases a with
  | bool b => exact ⟨_, rfl, by cases b <;> decide⟩
  | char c => exact ⟨_, rfl, oneLine_renderChar c⟩
  | string s => exact ⟨_, rfl, Text.oneLine_delimited (by decide) s⟩
  | symbol s => exact ⟨_, rfl, oneLine_renderSymbol s⟩
  | uninterned s => exact ⟨_, rfl, .append (by decide) (oneLine_renderSymbol s)⟩
  | leadingKeyword s => exact ⟨_, rfl, oneLine_renderLeadingKeyword fmt s⟩
  | trailingKeyword s => exact ⟨_, rfl, oneLine_renderTrailingKeyword s⟩
  | special x => exact ⟨_, rfl, .append (by decide) (by cases x <;> decide)⟩
  | number n => exact ⟨n.numeral, render_numeral n, oneLine_numeral n⟩
  | plain => exact h.elim

end Atom

namespace Datum

open Text (OneLine)

theorem oneLine_joinItems (improper : Bool) {ss : List String} (h : ∀ s ∈ ss, OneLine s) :
    OneLine (joinItems improper ss) := by
  fun_induction joinItems improper ss with
  | case1 => decide
  | case2 s => exact h s List.mem_cons_self
  | case3 s t =>
    have between : OneLine (if improper then " . " else " ") := by cases improper <;> decide
    exact .append (.append (h s (by simp)) between) (h t (by simp))
  | case4 s ss _ _ ih =>
    apply OneLine.append (.append (h s List.mem_cons_self) (by decide))
    exact ih fun t ht => h t (List.mem_cons_of_mem s ht)

theorem oneLine_enclose (k : Bracket) {s : String} (h : OneLine s) : OneLine (enclose k s) :=
  .append (.append (by cases k <;> decide) h) (by cases k <;> decide)

/-- A datum without plain atoms has a written form in every format, on one line. -/
theorem exists_hasForm (fmt : Format) {d : Datum} (h : ∀ a ∈ d.leaves, a.Concrete) :
    ∃ s, d.HasForm fmt s ∧ OneLine s := by
  simp only [hasForm_iff, render_eq_written]
  induction d using Datum.induction with
  | atom a pos => exact Atom.exists_render fmt (h a List.mem_cons_self)
  | list k items dot pos ih =>
    have each : ∀ d ∈ items, ∃ s, d.written .unlimited fmt = .ok s ∧ OneLine s := by
      intro d hd
      exact ih d hd fun a ha => h a (mem_leaves_list.2 ⟨d, hd, ha⟩)
    obtain ⟨ss, forms⟩ := exists_forall₂ each
    have written := writtenItems_eq_ok.2 (forms.imp fun _ _ => And.left)
    refine ⟨_, by rw [Datum.written, written]; rfl, ?_⟩
    apply oneLine_enclose
    apply oneLine_joinItems
    intro s hs
    obtain ⟨d, -, -, line⟩ := exists_of_mem_forall₂ forms hs
    exact line

end Datum

end Sexpr
