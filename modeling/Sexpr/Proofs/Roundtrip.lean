import Mathlib.Data.List.Forall2
import Sexpr.Datum.Equality
import Sexpr.Proofs.Reader.Leaves
import Sexpr.Proofs.Reader.Sound
import Sexpr.Proofs.Reader.Spelled
import Sexpr.Proofs.Tokens.Written

/-!
Reading what was written.

- `readAll_writeAll`: data that are printable, well shaped and not too deep are read back.
- `readAll_writeAll_iff`: so is what was read from a text, unless a keyword is in it whose name
  begins with a backslash.

What is written ends at a number with more digits than are written out. What is said of the text
holds of all of it.
-/

namespace Sexpr

namespace Datum

theorem same_iff_trees {ds es : List Datum} :
    List.Forall₂ (fun d e => d.same e = true) ds es ↔ ds.map tree = es.map tree := by
  simp only [same_iff_tree]
  rw [← List.forall₂_eq_eq_eq, List.forall₂_map_left_iff, List.forall₂_map_right_iff]

end Datum

namespace Written

variable {limit : DigitLimit} {fmt : Format}

theorem writeLine_of_tree {d e : Datum} (h : d.tree = e.tree) (out : String) :
    writeLine limit fmt out d = writeLine limit fmt out e := by
  rw [writeLine, writeLine, Datum.render_eq_written, Datum.render_eq_written,
    Datum.written_of_tree h]

theorem writeLater_of_trees {ds es : List Datum} (h : ds.map Datum.tree = es.map Datum.tree)
    (out : String) : writeLater limit fmt out ds = writeLater limit fmt out es := by
  induction ds generalizing es out with
  | nil =>
    obtain rfl := List.map_eq_nil_iff.1 h.symm
    rfl
  | cons d ds ih =>
    obtain ⟨e, es, rfl, first, others⟩ := List.map_eq_cons_iff.1 h.symm
    simp only [writeLater, writeLine_of_tree first.symm, ih others.symm]

/-- Data of the same trees are written alike. -/
theorem writeAll_of_trees {ds es : List Datum} (h : ds.map Datum.tree = es.map Datum.tree)
    (out : String) : writeAll limit fmt out ds = writeAll limit fmt out es := by
  cases ds with
  | nil =>
    obtain rfl := List.map_eq_nil_iff.1 h.symm
    rfl
  | cons d ds =>
    obtain ⟨e, es, rfl, first, others⟩ := List.map_eq_cons_iff.1 h.symm
    simp only [writeAll, writeLine_of_tree first.symm, writeLater_of_trees others.symm]

end Written

section
variable {settings : Settings} {s : Source} {ds : List Datum}

/-- The tokens of a source that mean something are those which data are spelled with, and no fault
follows them. -/
def Spelling (settings : Settings) (s : Source) (ds : List Datum) : Prop :=
  (Tokens.ofSource settings s).stop = none ∧
  ((Tokens.ofSource settings s).pairs.map Prod.fst).filter (fun t => !t.isSkipped) =
    ds.flatMap Datum.spelled

theorem Spelling.map_meant (h : Spelling settings s ds) :
    (Reader.meant (Tokens.ofSource settings s).pairs).map Prod.fst = ds.flatMap Datum.spelled := by
  rw [← h.2, List.filter_map]
  rfl

theorem Spelling.readAll (h : Spelling settings s ds) :
    s.readAll settings =
      (Reader.ofTokens settings.modes (Reader.meant (Tokens.ofSource settings s).pairs)
        none).readAll.1 := by
  rw [Reader.readAll_meant, ← h.1]
  rfl

/-- Data whose atoms are each written as one token are read back. -/
theorem Spelling.read {P : Atom → Prop} {dots : Prop} (h : Spelling settings s ds)
    (fits : ∀ d ∈ ds, d.Fits P dots Reader.maxDepth) (whole : ∀ a, P a → a.splits = false)
    (improper : dots → settings.modes.allowImproperLists = true) :
    ∃ back, s.readAll settings = .ok back ∧ back.map Datum.tree = ds.map Datum.tree := by
  have spelled : ∀ a, P a → a.spelled = [.atom a] := by
    intro a ha
    exact Atom.spelled_whole (whole a ha)
  obtain ⟨back, read, trees⟩ := Reader.readAll_spelled fits spelled improper h.map_meant
  exact ⟨back, h.readAll.trans read, trees⟩

/-- No atom that is written as two can be read from the text. -/
theorem Spelling.whole {back : List Datum} (h : Spelling settings s ds)
    (read : s.readAll settings = .ok back) :
    ∀ d ∈ back, ∀ a ∈ d.leaves, a.splits = false := by
  have spelled : ∀ x ∈ Reader.meant (Tokens.ofSource settings s).pairs,
      x.1 ≠ .datumComment ∧ ∀ a ∈ x.1.atoms, a.splits = false := by
    intro x hx
    have mem : x.1 ∈ ds.flatMap Datum.spelled := by
      rw [← h.map_meant]
      exact List.mem_map_of_mem hx
    obtain ⟨d, -, inside⟩ := List.mem_flatMap.1 mem
    exact Datum.of_mem_spelled inside
  have kept : ∀ x ∈ Reader.meant (Tokens.ofSource settings s).pairs, x.1 ≠ .datumComment := by
    intro x hx
    exact (spelled x hx).1
  rw [h.readAll] at read
  have leaves := Reader.leaves_of_readAll kept read
  intro d hd a ha
  have mem : a ∈ back.flatMap Datum.leaves := List.mem_flatMap.2 ⟨d, hd, ha⟩
  rw [leaves] at mem
  obtain ⟨x, hx, inside⟩ := List.mem_flatMap.1 mem
  exact (spelled x hx).2 a inside

end

/-- Data that are printable in a format, well shaped and not too deep have a text as which they are
written, unless a number in them has too many digits to be written out, and they are read back from
it, whether blanks and comments are kept or not. -/
theorem readAll_writeAll (fmt : Format) (keepBlanks keepComments : Bool) (ds : List Datum)
    (printable : ∀ d ∈ ds, d.Printable fmt) (shaped : ∀ d ∈ ds, d.WellShaped fmt)
    (shallow : ∀ d ∈ ds, d.need ≤ Reader.maxDepth) :
    ∃ text, Written.WrittenAs fmt ds text ∧
      ∃ back, (Source.ofString text).readAll ⟨fmt, ⟨keepBlanks, keepComments, true⟩⟩ = .ok back ∧
        List.Forall₂ (fun b d => b.same d = true) back ds := by
  let settings : Settings := ⟨fmt, ⟨keepBlanks, keepComments, true⟩⟩
  have fits : ∀ d ∈ ds,
      d.Fits (Atom.Printable fmt) (fmt.hasDottedPairs = true) Reader.maxDepth := by
    intro d hd
    exact Datum.fits_of_need (printable d hd) (shaped d hd) (shallow d hd)
  have legible : ∀ d ∈ ds,
      d.Fits (Atom.Legible settings.format) (fmt.hasDottedPairs = true) Reader.maxDepth := by
    intro d hd
    apply (fits d hd).imp _ id
    intro a printable
    exact .inl printable
  have whole : ∀ a : Atom, a.Printable fmt → a.splits = false := by
    intro a printable
    exact Atom.splits_of_printable printable
  obtain ⟨text, written, spelling⟩ := Tokens.ofSource_writeAll legible id
  obtain ⟨back, read, trees⟩ := Spelling.read spelling fits whole fun _ => rfl
  have same := Datum.same_iff_trees.2 trees
  exact ⟨text, .of_writeAll written, back, read, same⟩

/-- The list `(a . k:)`. -/
theorem readAll_writeAll_pair :
    let pair := Datum.list .round [.symbol "a" none, .atom (.trailingKeyword "k") none]
      (some .start) none
    ∃ text, Written.WrittenAs .gambit [pair] text ∧
      ∃ back, (Source.ofString text).readAll ⟨.gambit, ⟨false, true, true⟩⟩ = .ok back ∧
        List.Forall₂ (fun b d => b.same d = true) back [pair] := by
  apply readAll_writeAll .gambit false true
  · intro d hd a inside
    obtain rfl := List.mem_singleton.1 hd
    simp only [Datum.symbol, Datum.leaves_list, Datum.leaves_atom, List.flatMap_cons,
      List.flatMap_nil, List.mem_cons, List.cons_append, List.nil_append, List.not_mem_nil,
      or_false] at inside
    rcases inside with rfl | rfl
    · trivial
    · exact ⟨by decide, List.all_eq_true.1 rfl, by simp⟩
  · intro d hd k items dot pos inside
    obtain rfl := List.mem_singleton.1 hd
    simp only [Datum.symbol, Datum.nodes, Datum.nodes.nodesAll, List.append_nil,
      List.cons_append, List.nil_append, List.mem_cons, List.not_mem_nil, reduceCtorEq,
      Datum.list.injEq, or_false] at inside
    obtain ⟨rfl, rfl, -⟩ := inside
    exact ⟨rfl, rfl, by decide, by simp [Datum.isRoundList]⟩
  · intro d hd
    obtain rfl := List.mem_singleton.1 hd
    decide

/-- What is read from a text is written as another text, unless a number in it has too many digits to
be written out. It is read back from there, and written again as before, unless the first text has a
keyword whose name begins with a backslash. -/
theorem readAll_writeAll_iff {settings : Settings} {text : String} {ds : List Datum}
    (read : (Source.ofString text).readAll settings = .ok ds) :
    ∃ out, Written.WrittenAs settings.format ds out ∧
      ((∃ back, (Source.ofString out).readAll settings = .ok back ∧
          List.Forall₂ (fun b d => b.same d = true) back ds ∧
          ∀ limit, Written.writeAll limit settings.format "" back =
            Written.writeAll limit settings.format "" ds) ↔
        ∀ d ∈ ds, ∀ a ∈ d.leaves, a.splits = false) := by
  have readable := readable_of_readAll read
  obtain ⟨out, written, spelling⟩ := Tokens.ofSource_writeAll readable And.left
  refine ⟨out, .of_writeAll written, ?_⟩
  constructor
  · rintro ⟨back, again, same, -⟩ d hd
    have trees := Datum.same_iff_trees.1 same
    have mem : d.tree ∈ back.map Datum.tree := by
      rw [trees]
      exact List.mem_map_of_mem hd
    obtain ⟨b, hb, tree⟩ := List.mem_map.1 mem
    rw [← Datum.leaves_of_tree tree]
    exact Spelling.whole spelling again b hb
  · intro whole
    have fits : ∀ d ∈ ds, d.Fits (fun a => a.Legible settings.format ∧ a.splits = false)
        (settings.format.hasDottedPairs = true ∧ settings.modes.allowImproperLists = true)
        Reader.maxDepth := by
      intro d hd
      exact (readable d hd).and_leaves (whole d hd)
    obtain ⟨back, again, trees⟩ := Spelling.read spelling fits (fun _ => And.right) And.right
    refine ⟨back, again, Datum.same_iff_trees.2 trees, ?_⟩
    intro limit
    exact Written.writeAll_of_trees trees ""

/-- The text `\a:` is a keyword, which is written `|\\a|:`. -/
theorem readAll_writeAll_backslash :
    let keyword := Datum.atom (.trailingKeyword "\\a") (some .start)
    (Source.ofString "\\a:").readAll .standard = .ok [keyword] ∧
      ∃ out, Written.WrittenAs .gambit [keyword] out ∧
        ¬ ∃ back, (Source.ofString out).readAll .standard = .ok back ∧
          List.Forall₂ (fun b d => b.same d = true) back [keyword] ∧
          ∀ limit, Written.writeAll limit .gambit "" back =
            Written.writeAll limit .gambit "" [keyword] := by
  intro keyword
  have scanned : Scan.token .standard '\\' .start (Input.ofChars ['a', ':'] ⟨0, 1⟩) =
      .upTo (some (.atom (.trailingKeyword "\\a"))) [] := by rfl
  have tokens : Tokens.ofSource .standard (.ofString "\\a:") =
      ⟨[⟨.atom (.trailingKeyword "\\a"), .start, [], true⟩], none, []⟩ := by
    have one := @Tokens.ofInput_token .standard [] '\\' .start (Input.ofChars ['a', ':'] ⟨0, 1⟩)
      (.atom (.trailingKeyword "\\a")) (by rw [scanned]; rfl)
    rw [scanned] at one
    exact one.trans (Tokens.ofInput_nil none)
  have read : (Source.ofString "\\a:").readAll .standard = .ok [keyword] := by
    rw [Source.readAll, Reader.ofSource, tokens, Reader.readAll_eq_ok,
      Reader.collect_datum (d := keyword) rfl, Reader.collect_end rfl]
    exact ⟨rfl, rfl⟩
  obtain ⟨out, written, again⟩ := readAll_writeAll_iff read
  refine ⟨read, out, written, ?_⟩
  intro back
  have whole := again.1 back keyword (List.mem_singleton.2 rfl) (.trailingKeyword "\\a")
    (List.mem_singleton.2 rfl)
  cases whole

end Sexpr
