import Sexpr.Proofs.Datum.Dumped
import Sexpr.Proofs.Roundtrip

/-!
Dumping.

- `dump_faithful`: a dump tells the datum, and it can be read back from its written form in every
  format and mode.
-/

namespace Sexpr

/-- A datum whose tokens a source has is the first that is read from it. -/
theorem Spelling.read_first {settings : Settings} {s : Source} {d : Datum} {P : Atom → Prop}
    {dots : Prop} (h : Spelling settings s [d]) (fits : d.Fits P dots Reader.maxDepth)
    (whole : ∀ a, P a → a.splits = false)
    (improper : dots → settings.modes.allowImproperLists = true) :
    ∃ back, (Reader.ofSource settings s).read.1 = .ok (some back) ∧ back.tree = d.tree := by
  have spelled : ∀ a, P a → a.spelled = [.atom a] := by
    intro a ha
    exact Atom.spelled_whole (whole a ha)
  have tokens : (Reader.meant (Tokens.ofSource settings s).pairs).map Prod.fst = d.spelled := by
    rw [h.map_meant]
    simp
  have readsBack : Reader.ReadsBack settings.modes .misplacedDot none Reader.maxDepth d :=
    Reader.readsBack_of_fits fits spelled improper
  obtain ⟨back, tree, reads⟩ := readsBack _ tokens
  refine ⟨back, ?_, tree⟩
  have first := reads [] [] (Nat.le_refl _) rfl
  rw [List.append_nil, Reader.readFrom_meant] at first
  have result := congrArg Reader.Reading.result first
  rw [← h.1] at result
  exact result

namespace Datum

variable {fmt : Format} {modes : Modes} {v x : Datum}

/-- What is made of proper lists, symbols and lasting numbers is read back from its written form
whatever the modes are. -/
theorem read_rendered (fits : x.Fits (Atom.Printable fmt) False Reader.maxDepth) (modes : Modes) :
    ∃ text back, x.HasForm fmt text ∧
      (Reader.ofSource ⟨fmt, modes⟩ (.ofString text)).read.1 = .ok (some back) ∧
      back.same x = true := by
  have legible : x.Fits (Atom.Legible fmt) False Reader.maxDepth := by
    apply fits.imp _ id
    intro a printable
    exact .inl printable
  obtain ⟨text, written, spells⟩ :=
    @Tokens.spells_datum ⟨fmt, modes⟩ _ _ _ legible False.elim
  have spelling : Spelling ⟨fmt, modes⟩ (.ofString text) [x] := by
    have reads := spells.2 [] (by simp [Scan.Ends])
    obtain ⟨stop, tokens⟩ := reads.ofSource
    exact ⟨stop, by simpa [Source.ofString] using tokens⟩
  have whole : ∀ a : Atom, a.Printable fmt → a.splits = false := by
    intro a printable
    exact Atom.splits_of_printable printable
  obtain ⟨back, read, tree⟩ := spelling.read_first fits whole False.elim
  refine ⟨text, back, hasForm_iff.2 ?_, read, (same_iff_tree back x).2 tree⟩
  rw [render_eq_written, written]

/-- Whatever is made of atoms of the classes and of lists can be dumped. Its dump is the same as
another one only if the data are the same, and if no number in it is a rational with the denominator
one and the dump is not too deep, it has a written form in every format and can be read back from
there in every mode. No number in the dump is too long to be written out but those in the datum. -/
theorem dump_faithful (concrete : ∀ a ∈ v.leaves, a.Concrete) :
    ∃ x, v.dump = .ok x ∧
      (∀ w : Datum, (∀ a ∈ w.leaves, a.Concrete) →
        ∃ y, w.dump = .ok y ∧ (x.same y = true ↔ v.same w = true)) ∧
      (∀ limit, x.Within limit ↔ v.Within limit) ∧
      (v.Lasting → x.nesting ≤ Reader.maxDepth → ∀ (fmt : Format) (modes : Modes),
        ∃ text back, x.HasForm fmt text ∧
          (Reader.ofSource ⟨fmt, modes⟩ (.ofString text)).read.1 = .ok (some back) ∧
          back.same x = true) := by
  simp only [dump_eq_dumped]
  obtain ⟨x, dump⟩ := exists_dumped concrete
  refine ⟨x, dump, ?_, fun limit => within_dumped dump, ?_⟩
  · intro w concrete'
    obtain ⟨y, dump'⟩ := exists_dumped concrete'
    exact ⟨y, dump', same_dumped_iff dump dump'⟩
  · intro lasting shallow fmt modes
    exact read_rendered ((fits_dumped dump lasting).mono shallow) modes

/-- A keyword that has no readable form, alone in an improper list of curly brackets. -/
theorem dump_faithful_keyword :
    let v := Datum.list .curly [.atom (.trailingKeyword ":;") none] (some .start) none
    ∃ x, v.dump = .ok x ∧
      (∃ y, (Datum.symbol ":;" none).dump = .ok y ∧ x.same y = false) ∧
      ∃ text back, x.HasForm .r7rs text ∧
        (Reader.ofSource ⟨.r7rs, ⟨true, true, false⟩⟩ (.ofString text)).read.1 = .ok (some back) ∧
        back.same x = true := by
  intro v
  have concrete : ∀ a ∈ v.leaves, a.Concrete := by
    intro a ha
    obtain rfl := List.mem_singleton.1 ha
    trivial
  have other : ∀ a ∈ (Datum.symbol ":;" none).leaves, a.Concrete := by
    intro a ha
    obtain rfl := List.mem_singleton.1 ha
    trivial
  have lasting : v.Lasting := by
    intro n hn
    cases List.mem_singleton.1 hn
  obtain ⟨x, dump, tells, -, reads⟩ := dump_faithful concrete
  obtain ⟨y, dump', same⟩ := tells (.symbol ":;" none) other
  refine ⟨x, dump, ⟨y, dump', ?_⟩, ?_⟩
  · apply Bool.eq_false_iff.2
    intro equal
    have trees := (same_iff_tree _ _).1 (same.1 equal)
    cases trees
  · apply reads lasting
    rw [dump_eq_dumped] at dump
    cases dump
    decide

end Datum

end Sexpr
