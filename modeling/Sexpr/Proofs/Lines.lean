import Mathlib.Data.List.Forall2
import Sexpr.Proofs.Datum.Lines
import Sexpr.Proofs.Folder

/-!
The lines of written data: one line for each datum, and an empty one after it.

- `Written.lines_writeAll`: the lines of what is written are the written forms, which can be told
  from them; and a file with the text is read without a change.
-/

namespace Sexpr

/-- The texts before, between and after the line feeds of a text. -/
def Text.lines (text : String) : List String := (text.split '\n').toList.map (·.copy)

namespace Written

variable {limit : DigitLimit} {fmt : Format} {ds : List Datum} {forms : List String}

/-- Each form on its line, and an empty line after it. -/
def spaced (forms : List String) : List String := forms.flatMap fun s => [s, ""]

theorem spaced_cons (s : String) (ss : List String) : spaced (s :: ss) = s :: "" :: spaced ss := rfl

theorem spaced_injective : Function.Injective spaced := by
  intro ss ts same
  induction ss generalizing ts with
  | nil => cases ts with
    | nil => rfl
    | cons => cases same
  | cons s ss ih =>
    cases ts with
    | nil => cases same
    | cons t ts =>
      simp only [spaced_cons, List.cons.injEq, true_and] at same
      rw [same.1, ih same.2]

/-- What is written after the line `line`. -/
theorem writeLater_eq (h : List.Forall₂ (fun d s => d.render limit fmt = .ok s) ds forms)
    (line : String) :
    writeLater limit fmt (line ++ "\n") ds =
      ⟨"\n".intercalate (line :: "" :: spaced forms), none⟩ := by
  induction h generalizing line with
  | nil => simp [writeLater, spaced, String.intercalate_cons_cons]
  | @cons d s ds ss first _ ih =>
    have text : "\n".intercalate ((line ++ "\n" ++ "\n" ++ s) :: "" :: spaced ss) =
        "\n".intercalate (line :: "" :: spaced (s :: ss)) := by
      simp only [spaced_cons, String.intercalate_cons_cons]
      apply String.toList_inj.1
      simp
    simp only [writeLater, writeLine, first, ih, text]

theorem writeAll_eq (h : List.Forall₂ (fun d s => d.render limit fmt = .ok s) ds forms) :
    writeAll limit fmt "" ds = ⟨"\n".intercalate (spaced forms), none⟩ := by
  cases h with
  | nil => simp [writeAll, spaced]
  | cons first others =>
    rw [writeAll_cons first, String.empty_append, writeLater_eq others, spaced_cons]

/-- The forms of data, one on a line, are the text that the data are written as. -/
theorem writtenAs_forms (h : List.Forall₂ (fun d s => d.HasForm fmt s) ds forms) :
    WrittenAs fmt ds ("\n".intercalate (spaced forms)) :=
  .of_writeAll (writeAll_eq (h.imp fun _ _ => Datum.hasForm_iff.1))

theorem oneLine_spaced (h : ∀ s ∈ forms, Text.OneLine s) : ∀ s ∈ spaced forms, Text.OneLine s := by
  intro s hs
  obtain ⟨t, ht, inside⟩ := List.mem_flatMap.1 hs
  simp only [List.mem_cons, List.not_mem_nil, or_false] at inside
  rcases inside with rfl | rfl
  · exact h s ht
  · decide

theorem lines_intercalate (some : forms ≠ []) (h : ∀ s ∈ forms, Text.OneLine s) :
    Text.lines ("\n".intercalate (spaced forms)) = spaced forms := by
  have noFeed : ∀ s ∈ spaced forms, '\n' ∉ s.toList := by
    intro s hs feed
    exact oneLine_spaced h s hs '\n' feed (by decide)
  obtain ⟨s, ss, rfl⟩ := List.exists_cons_of_ne_nil some
  exact (String.toList_split_intercalate noFeed).trans (if_neg (by simp [spaced_cons]))

theorem mem_intercalate {sep : String} {ss : List String} {c : Char}
    (h : c ∈ (sep.intercalate ss).toList) : c ∈ sep.toList ∨ ∃ s ∈ ss, c ∈ s.toList := by
  induction ss with
  | nil => simp at h
  | cons s ss ih =>
    cases ss with
    | nil => exact .inr ⟨s, List.mem_cons_self, by simpa using h⟩
    | cons t ts =>
      rw [String.intercalate_cons_cons, String.toList_append, String.toList_append,
        List.mem_append, List.mem_append] at h
      rcases h with (first | between) | later
      · exact .inr ⟨s, List.mem_cons_self, first⟩
      · exact .inl between
      · apply (ih later).imp_right
        rintro ⟨u, hu, inside⟩
        exact ⟨u, List.mem_cons_of_mem s hu, inside⟩

theorem noReturn_intercalate (h : ∀ s ∈ forms, Text.OneLine s) :
    '\r' ∉ ("\n".intercalate (spaced forms)).toList := by
  intro inside
  rcases mem_intercalate inside with feed | ⟨s, hs, inside⟩
  · simp at feed
  · exact oneLine_spaced h s hs '\r' inside (by decide)

theorem forms_eq {forms' : List String} (h : ∀ s ∈ forms, Text.OneLine s)
    (h' : ∀ s ∈ forms', Text.OneLine s)
    (same : "\n".intercalate (spaced forms) = "\n".intercalate (spaced forms')) :
    forms = forms' := by
  have empty {ss : List String} (none : "\n".intercalate (spaced ss) = "") : ss = [] := by
    cases ss with
    | nil => rfl
    | cons s ss => simp [spaced_cons, String.intercalate_cons_cons] at none
  by_cases nil : forms = []
  · subst nil
    exact (empty same.symm).symm
  · have nil' : forms' ≠ [] := by
      rintro rfl
      exact nil (empty same)
    apply spaced_injective
    rw [← lines_intercalate nil h, same, lines_intercalate nil' h']

theorem oneLine_of_forms
    (h : List.Forall₂ (fun d s => d.HasForm fmt s ∧ Text.OneLine s) ds forms) :
    ∀ s ∈ forms, Text.OneLine s := by
  intro s hs
  obtain ⟨d, -, -, line⟩ := exists_of_mem_forall₂ h hs
  exact line

/-- A text with no carriage return has none in what is written of it beyond a limit. -/
theorem WrittenAs.noReturn {text : String} (h : WrittenAs fmt ds text) (kept : '\r' ∉ text.toList) :
    '\r' ∉ (writeAll limit fmt "" ds).text.toList := by
  by_cases within : ∀ d ∈ ds, d.Within limit
  · rw [h.within limit within]
    exact kept
  · obtain ⟨part, rest, e, rfl, written, -⟩ := h.beyond limit within
    rw [written]
    intro inside
    apply kept
    rw [String.toList_append]
    exact List.mem_append_left _ inside

/-- Data without plain atoms have written forms on one line each, and are written with an empty line
after each of them. So the lines of the text tell the forms, and no data with other forms in any
format are written as this text. A file with the text, or with what is written of it where a number
has too many digits, is read without a change, since no carriage return is in it. -/
theorem lines_writeAll (fmt : Format) (some : ds ≠ [])
    (concrete : ∀ d ∈ ds, ∀ a ∈ d.leaves, a.Concrete) :
    ∃ forms text,
      List.Forall₂ (fun d s => d.HasForm fmt s ∧ Text.OneLine s) ds forms ∧
      WrittenAs fmt ds text ∧
      Text.lines text = forms.flatMap (fun s => [s, ""]) ∧
      (∀ limit fmt' es, (∀ e ∈ es, ∀ a ∈ e.leaves, a.Concrete) →
        (writeAll limit fmt' "" es = ⟨text, none⟩ ↔
          List.Forall₂ (fun e s => e.render limit fmt' = .ok s) es forms)) ∧
      Text.unifyNewlines false text.toList = (text.toList, false) ∧
      ∀ limit f f' path w, Folder.writeData limit f fmt path ds = .ok (f', w) →
        ((∀ d ∈ ds, d.Within limit) → w = ⟨text, none⟩) ∧
        ∀ blocking, ∀ n ≠ 0, f'.source blocking path n = .ofString w.text := by
  obtain ⟨forms, written⟩ := exists_forall₂ fun d hd => Datum.exists_hasForm fmt (concrete d hd)
  have oneLine := oneLine_of_forms written
  have filled : forms ≠ [] := by
    rintro rfl
    exact some (List.forall₂_nil_right_iff.1 written)
  have text := writtenAs_forms (written.imp fun _ _ => And.left)
  have kept := noReturn_intercalate oneLine
  refine ⟨forms, _, written, text, lines_intercalate filled oneLine, ?_,
    Text.unifyNewlines_of_not_mem kept, ?_⟩
  · intro limit fmt' es concrete'
    constructor
    · intro same
      obtain ⟨forms', written'⟩ :=
        exists_forall₂ fun e he => Datum.exists_hasForm fmt' (concrete' e he)
      obtain ⟨within, texts⟩ :=
        (writtenAs_forms (written'.imp fun _ _ => And.left)).writeAll_iff.1 same
      rw [forms_eq oneLine (oneLine_of_forms written') texts]
      have each := (List.forall₂_and_left _ _).2 ⟨within, written'⟩
      exact each.imp fun e s form => form.2.1.within limit form.1
    · exact writeAll_eq
  · intro limit f f' path w stored
    obtain ⟨rfl, name, writable, rfl⟩ := Folder.writeData_eq_ok stored
    exact ⟨text.within limit, fun blocking n nonzero =>
      Folder.source_put writable (text.noReturn kept) blocking nonzero⟩

/-- A line feed as a character and two other line ends in a string, in an improper list; and a
control character that ends no line and is written as it is. -/
theorem lines_writeAll_breaks :
    let breaks := [Datum.list .round [.atom (.char '\n') none, .atom (.string "\r\x85") none]
      (some .start) none, .atom (.leadingKeyword "\x1c") none]
    breaks ≠ [] ∧ (∀ d ∈ breaks, ∀ a ∈ d.leaves, a.Concrete) ∧
      ∃ text, WrittenAs .gambit breaks text ∧
        Text.lines text = ["(#\\newline . \x22\\r\\u0085\x22)", "", ":\x1c", ""] := by
  intro breaks
  have some : breaks ≠ [] := by simp [breaks]
  have concrete : ∀ d ∈ breaks, ∀ a ∈ d.leaves, a.Concrete := by
    intro d hd a ha
    simp only [breaks, List.mem_cons, List.not_mem_nil, or_false] at hd
    rcases hd with rfl | rfl
    · simp only [Datum.leaves_list, Datum.leaves_atom, List.flatMap_cons, List.flatMap_nil,
        List.cons_append, List.nil_append, List.mem_cons, List.not_mem_nil, or_false] at ha
      rcases ha with rfl | rfl <;> trivial
    · obtain rfl := List.mem_singleton.1 ha
      trivial
  obtain ⟨forms, text, rendered, written, lines, -⟩ := lines_writeAll .gambit some concrete
  refine ⟨some, concrete, text, written, ?_⟩
  obtain ⟨s, ss, first, later, rfl⟩ := List.forall₂_cons_left_iff.1 rendered
  obtain ⟨t, ts, second, none, rfl⟩ := List.forall₂_cons_left_iff.1 later
  obtain rfl := List.forall₂_nil_left_iff.1 none
  have first := Datum.hasForm_iff.1 first.1
  have second := Datum.hasForm_iff.1 second.1
  rw [Datum.render_eq_written] at first second
  cases first
  cases second
  rw [lines]
  decide

end Written

end Sexpr
