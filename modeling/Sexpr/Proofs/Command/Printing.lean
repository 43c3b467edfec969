import Sexpr.Proofs.Command.Brackets
import Sexpr.Proofs.Lines
import Sexpr.Proofs.Messages
import Sexpr.Proofs.Reader.Sound

/-!
What a task prints for one source.

- `exists_forms`: whatever is read can be printed, and so can its dump.
- `prints_perform`: data are printed all or not at all, and tokens up to a fault.
- `Prints.faults`: nothing but a number with too many digits ends what is printed before its end.
-/

namespace Sexpr

open Text (OneLine)

namespace Command

variable {limit : DigitLimit} {o : Options} {settings : Settings} {source : Source}

/-! ## Data that are read can be printed -/

/-- Whatever is read has a written form, and so has its dump. -/
theorem exists_forms {ds : List Datum} (task : Task) (read : source.readAll settings = .ok ds) :
    ∃ es forms, prepared task ds = .ok es ∧
      List.Forall₂ (fun d s => d.HasForm settings.format s) es forms := by
  have legible : ∀ d ∈ ds, ∀ a ∈ d.leaves, a.Legible settings.format := by
    intro d hd
    exact (readable_of_readAll read d hd).of_mem_leaves
  have concrete : ∀ d ∈ ds, ∀ a ∈ d.leaves, a.Concrete := by
    intro d hd a ha
    exact (legible d hd a ha).concrete
  have written {es : List Datum} (h : ∀ e ∈ es, ∀ a ∈ e.leaves, a.Concrete) :
      ∃ forms, List.Forall₂ (fun d s => d.HasForm settings.format s) es forms := by
    obtain ⟨forms, lines⟩ :=
      exists_forall₂ fun e he => Datum.exists_hasForm settings.format (h e he)
    exact ⟨forms, lines.imp fun _ _ => And.left⟩
  cases task with
  | dump =>
    obtain ⟨es, dumps⟩ := exists_forall₂ fun d hd => Datum.exists_dumped (concrete d hd)
    -- The atoms of a dump are symbols and the numbers of the datum, so they can be printed too.
    have printable : ∀ e ∈ es, ∀ a ∈ e.leaves, a.Concrete := by
      intro e he a ha
      obtain ⟨d, hd, dump⟩ := exists_of_mem_forall₂ dumps he
      have lasting : d.Lasting := fun n hn => (legible d hd _ hn).lasting
      have fits : e.Fits (Atom.Printable settings.format) True e.nesting :=
        Datum.fits_dumped dump lasting
      exact Atom.Legible.concrete (.inl (fits.of_mem_leaves a ha))
    obtain ⟨forms, lines⟩ := written printable
    refine ⟨es, forms, mapM_eq_ok.2 (dumps.imp fun d x dump => ?_), lines⟩
    rwa [Datum.dump_eq_dumped]
  | tokens | tree =>
    obtain ⟨forms, lines⟩ := written concrete
    exact ⟨ds, forms, rfl, lines⟩

/-! ## What a task prints for one source -/

/-- What is printed of some lines: all of them, or those before the first that cannot be written. -/
inductive Shows : List (Except WriteError String) → Written → Prop
  | all (texts : List String) : Shows (texts.map .ok) ⟨String.join texts, none⟩
  | upTo (texts : List String) (e : WriteError) (more : List (Except WriteError String)) :
      Shows (texts.map .ok ++ .error e :: more) ⟨String.join texts, some e⟩

theorem ofLines_ok (out : String) (texts : List String)
    (more : List (Except WriteError String)) :
    Written.ofLines out (texts.map .ok ++ more) = .ofLines (out ++ String.join texts) more := by
  induction texts generalizing out with
  | nil => simp
  | cons s texts ih =>
    rw [List.map_cons, List.cons_append, Written.ofLines, ih, String.join_cons, String.append_assoc]

theorem shows_iff {lines : List (Except WriteError String)} {w : Written} :
    Shows lines w ↔ w = .ofLines "" lines := by
  constructor
  · rintro (texts | ⟨texts, e, more⟩)
    · have whole := ofLines_ok "" texts []
      rw [List.append_nil] at whole
      rw [whole, String.empty_append, Written.ofLines]
    · rw [ofLines_ok, String.empty_append, Written.ofLines]
  · rintro rfl
    have shown (texts : List String) (lines : List (Except WriteError String)) :
        Shows (texts.map .ok ++ lines) (.ofLines "" (texts.map .ok ++ lines)) := by
      induction lines generalizing texts with
      | nil =>
        rw [ofLines_ok, String.empty_append, List.append_nil]
        exact .all texts
      | cons line lines ih =>
        cases line with
        | error e =>
          rw [ofLines_ok, String.empty_append]
          exact .upTo texts e lines
        | ok s => simpa using ih (texts ++ [s])
    exact shown [] lines

/-- What a task prints for a source and the error that ends it, if nothing is traced. Data are
printed when all have been read, and tokens as long as neither the characters nor the brackets are a
fault. -/
inductive Prints (limit : DigitLimit) (o : Options) (settings : Settings) (source : Source) :
    Written → Option ReadError → Prop
  | unread {e : ReadError} (task : o.task ≠ .tokens) (read : source.readAll settings = .error e) :
      Prints limit o settings source ⟨"", none⟩ (some e)
  | data {ds es : List Datum} {forms : List String} (task : o.task ≠ .tokens)
      (read : source.readAll settings = .ok ds) (made : prepared o.task ds = .ok es)
      (lines : List.Forall₂ (fun d s => d.HasForm settings.format s) es forms)
      (text : Written.WrittenAs settings.format es ("\n".intercalate (Written.spaced forms))) :
      Prints limit o settings source
        (if o.print then .writeAll limit settings.format "" es else ⟨"", none⟩) none
  | listed {s : Tally} {ts : List (Token × Pos)} {w : Written} (task : o.task = .tokens)
      (tokens : (Tokens.ofSource settings source).pairs = ts)
      (stop : (Tokens.ofSource settings source).stop = none)
      (counted : Tally.start.count ts = .ok s)
      (shows : Shows (linesAfter limit o [] ts ++
        [.ok s!";; count_toplevel = {outermost ts}, count_enter = {openings ts}\n"]) w) :
      Prints limit o settings source w none
  | broken {s : Tally} {ts : List (Token × Pos)} {e : ReadError} {w : Written}
      (task : o.task = .tokens) (tokens : (Tokens.ofSource settings source).pairs = ts)
      (stop : (Tokens.ofSource settings source).stop = some e)
      (counted : Tally.start.count ts = .ok s) (shows : Shows (linesAfter limit o [] ts) w) :
      Prints limit o settings source w (some e)
  | mismatched {before after : List (Token × Pos)} {t : Token} {s : Tally} {e : ReadError}
      {w : Written} (task : o.task = .tokens)
      (tokens : (Tokens.ofSource settings source).pairs = before ++ (t, e.pos) :: after)
      (counted : Tally.start.count before = .ok s) (failed : s.step t e.pos = .error e)
      (shows : Shows (linesAfter limit o [] before) w) :
      Prints limit o settings source w (some e)

theorem perform_tokens (limit : DigitLimit) (task : o.task = .tokens) :
    perform limit o settings source = listTokens limit o (Tokens.ofSource settings source).stop
      .start (Tokens.ofSource settings source).pairs := by
  simp only [perform, task]

theorem perform_data (limit : DigitLimit) (task : o.task ≠ .tokens) :
    perform limit o settings source =
      printData limit o settings (Tokens.ofSource settings source) := by
  cases named : o.task with
  | tokens => exact absurd named task
  | tree | dump => simp only [perform, named]

theorem perform_unread {e : ReadError} (noDebug : o.debug = false) (task : o.task ≠ .tokens)
    (read : source.readAll settings = .error e) :
    perform limit o settings source = ⟨[], some e⟩ := by
  have failed : (Reader.ofTokens settings.modes (Tokens.ofSource settings source).pairs
    (Tokens.ofSource settings source).stop).readAll.1 = .error e := read
  simp [perform_data limit task, printData, failed, noDebug]

theorem perform_read {ds es : List Datum} (noDebug : o.debug = false) (task : o.task ≠ .tokens)
    (read : source.readAll settings = .ok ds) (made : prepared o.task ds = .ok es) :
    perform limit o settings source =
      ⟨if o.print then (Written.writeAll limit settings.format "" es).lines else [], none⟩ := by
  have all : (Reader.ofTokens settings.modes (Tokens.ofSource settings source).pairs
    (Tokens.ofSource settings source).stop).readAll.1 = .ok ds := read
  simp only [perform_data limit task, printData, all, dataLines, made, noDebug,
    Bool.false_eq_true, if_false, List.nil_append]

theorem ofLines_lines (w : Written) : Written.ofLines "" w.lines = w := by
  rcases w with ⟨text, none | e⟩ <;> simp [Written.lines, Written.ofLines]

theorem traceOf_quiet (noDebug : o.debug = false) (t : Token) (pos : Pos) :
    traceOf limit o t pos = [] := by
  simp [traceOf, noDebug]

/-- No error keeps a task from printing what it should for a source. -/
theorem prints_perform (limit : DigitLimit) (noDebug : o.debug = false) (settings : Settings)
    (source : Source) :
    Prints limit o settings source (perform limit o settings source).written
      (perform limit o settings source).failure := by
  by_cases task : o.task = .tokens
  · rw [perform_tokens limit task]
    rcases listTokens_cases limit o (Tokens.ofSource settings source).stop
      (Tokens.ofSource settings source).pairs with
      ⟨before, t, pos, after, s, e, split, counted, failed, listed⟩ | ⟨s, counted, counts, listed⟩
    · obtain ⟨-, rfl, -⟩ := step_eq_error failed
      rw [listed, traceOf_quiet noDebug, List.append_nil]
      exact .mismatched task split counted failed (shows_iff.2 rfl)
    · rw [listed]
      cases stop : (Tokens.ofSource settings source).stop with
      | none =>
        rw [if_pos rfl, counts.text]
        exact .listed task rfl stop counted (shows_iff.2 rfl)
      | some e =>
        rw [if_neg nofun, List.append_nil]
        exact .broken task rfl stop counted (shows_iff.2 rfl)
  · cases read : source.readAll settings with
    | error e =>
      rw [perform_unread noDebug task read]
      exact .unread task read
    | ok ds =>
      obtain ⟨es, forms, made, lines⟩ := exists_forms o.task read
      have printed : Prints limit o settings source _ _ :=
        .data task read made lines (Written.writtenAs_forms lines)
      rw [perform_read noDebug task read made, Output.written]
      cases shown : o.print with
      | false => simpa [shown, Written.ofLines] using printed
      | true => simpa [shown, ofLines_lines] using printed

/-- Nothing else is printed. -/
theorem perform_of_prints {w : Written} {failure : Option ReadError} (noDebug : o.debug = false)
    (h : Prints limit o settings source w failure) :
    (perform limit o settings source).written = w ∧
      (perform limit o settings source).failure = failure := by
  cases h with
  | unread task read =>
    rw [perform_unread noDebug task read]
    exact ⟨rfl, rfl⟩
  | data task read made =>
    rw [perform_read noDebug task read made, Output.written]
    refine ⟨?_, rfl⟩
    split
    · exact ofLines_lines _
    · rfl
  | listed task tokens stop counted shows =>
    obtain ⟨listed, counts⟩ := listTokens_taken limit o none counted
    rw [perform_tokens limit task, tokens, stop, listed, if_pos rfl, counts.text]
    exact ⟨(shows_iff.1 shows).symm, rfl⟩
  | @broken s ts e w task tokens stop counted shows =>
    obtain ⟨listed, -⟩ := listTokens_taken limit o (some e) counted
    rw [perform_tokens limit task, tokens, stop, listed, if_neg nofun, List.append_nil]
    exact ⟨(shows_iff.1 shows).symm, rfl⟩
  | @mismatched before after t s e w task tokens counted failed shows =>
    have listed :=
      listTokens_refused limit o (Tokens.ofSource settings source).stop counted failed after
    rw [perform_tokens limit task, tokens, listed, traceOf_quiet noDebug, List.append_nil]
    exact ⟨(shows_iff.1 shows).symm, rfl⟩

/-- Data that fail are not printed at all. -/
theorem Prints.all_or_nothing {w : Written} {e : ReadError}
    (h : Prints limit o settings source w (some e)) (task : o.task ≠ .tokens) : w = ⟨"", none⟩ := by
  cases h with
  | unread => rfl
  | broken tokens | mismatched tokens => exact absurd tokens task

/-- Nothing but digits ends what is printed before its end. -/
theorem Prints.faults {w : Written} {failure : Option ReadError} {e : WriteError}
    (h : Prints limit o settings source w failure) (unwritten : w.failure = some e) :
    limit.Faults e := by
  have legible := Tokens.ofSource_legible settings source
  cases h with
  | unread => cases unwritten
  | @data ds es forms task read made lines text =>
    split at unwritten
    · by_cases within : ∀ d ∈ es, d.Within limit
      · rw [text.within limit within] at unwritten
        cases unwritten
      · obtain ⟨part, rest, e', -, written, fault⟩ := text.beyond limit within
        rw [written] at unwritten
        cases unwritten
        exact fault
    · cases unwritten
  | listed task tokens stop counted shows =>
    rw [tokens] at legible
    rw [shows_iff.1 shows] at unwritten
    rcases List.mem_append.1 (mem_of_ofLines unwritten) with line | count
    · exact faults_of_linesAfter legible line
    · simp at count
  | broken task tokens stop counted shows =>
    rw [tokens] at legible
    rw [shows_iff.1 shows] at unwritten
    exact faults_of_linesAfter legible (mem_of_ofLines unwritten)
  | mismatched task tokens counted failed shows =>
    rw [tokens, List.forall_mem_append] at legible
    rw [shows_iff.1 shows] at unwritten
    exact faults_of_linesAfter legible.1 (mem_of_ofLines unwritten)

theorem Prints.oneLine {w : Written} {e : ReadError} {path line : String}
    (h : Prints limit o settings source w (some e)) (told : source.OneLine)
    (said : (FileError.unread (.file path) e).message limit = .ok line) : OneLine line := by
  apply FileError.oneLine_unread _ said
  cases h with
  | unread _ read => exact oneLine_of_readAll told read
  | broken _ _ stop => exact oneLine_of_stop told stop
  | mismatched _ _ _ failed =>
    obtain ⟨bracket, -, f, fault⟩ := step_eq_error failed
    rw [fault]
    cases f with
    | missingDatumAfter => simp [ReadError.isBracketFault, fault] at bracket
    | _ => simp [Fault.handedOn]

end Command

end Sexpr
