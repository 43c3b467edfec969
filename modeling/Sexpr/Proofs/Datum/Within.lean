import Sexpr.Proofs.Datum.Dumped
import Sexpr.Proofs.Datum.Spelled
import Sexpr.Writer

/-!
Limits of digits. A datum has one written form in a format, which it has under every limit that its
numbers are within. Beyond a limit there is no form, and the number of digits is the fault.

- `Datum.hasForm_iff`: the form under no limit is the form.
- `Written.WrittenAs.of_writeAll`: so is the text that data are written as.
-/

namespace Sexpr

variable {limit : DigitLimit} {fmt : Format}

/-- An atom whose digits, if it is a number, are not too many. -/
def Atom.Within (limit : DigitLimit) : Atom → Prop
  | .number n => n.Within limit
  | _ => True

/-- A datum whose numbers are within a limit. -/
def Datum.Within (limit : DigitLimit) (d : Datum) : Prop := ∀ a ∈ d.leaves, a.Within limit

/-- Why writing ends at a number that is beyond a limit. -/
def DigitLimit.Faults (limit : DigitLimit) (e : WriteError) : Prop :=
  ∃ most ∈ limit.most?, e = .digits ⟨most⟩

/-- The written form of a datum in a format. -/
structure Datum.HasForm (fmt : Format) (d : Datum) (s : String) : Prop where
  within : ∀ limit : DigitLimit, d.Within limit → d.render limit fmt = .ok s
  beyond : ∀ limit : DigitLimit, ¬ d.Within limit →
    ∃ e, d.render limit fmt = .error e ∧ limit.Faults e

/-- The text that data are written as in a format. Beyond a limit of digits it is written up to a
number with too many. -/
structure Written.WrittenAs (fmt : Format) (ds : List Datum) (text : String) : Prop where
  within : ∀ limit : DigitLimit, (∀ d ∈ ds, d.Within limit) →
    Written.writeAll limit fmt "" ds = ⟨text, none⟩
  beyond : ∀ limit : DigitLimit, ¬ (∀ d ∈ ds, d.Within limit) →
    ∃ part rest e, text = part ++ rest ∧
      Written.writeAll limit fmt "" ds = ⟨part, some e⟩ ∧ limit.Faults e

/-! ## What is shown -/

/-- Whatever goes wrong is that a number has more digits than the limit. -/
def DigitLimit.Bounds {α : Type} (limit : DigitLimit) (x : Except DigitsError α) : Prop :=
  ∀ e, x = .error e → limit.most? = some e.most

section
variable {α β : Type} {x : Except DigitsError α}

theorem DigitLimit.Bounds.ok (a : α) : limit.Bounds (.ok a) := nofun

theorem DigitLimit.Bounds.bind {f : α → Except DigitsError β} (h : limit.Bounds x)
    (h' : ∀ a, limit.Bounds (f a)) : limit.Bounds (x >>= f) := by
  intro e failed
  cases first : x with
  | error e' =>
    rw [first] at failed
    cases failed
    exact h e first
  | ok a =>
    rw [first] at failed
    exact h' a e failed

theorem DigitLimit.Bounds.map {f : α → β} (h : limit.Bounds x) : limit.Bounds (x.map f) := by
  intro e failed
  cases first : x with
  | error e' =>
    rw [first] at failed
    cases failed
    exact h e first
  | ok a =>
    rw [first] at failed
    cases failed

end

theorem Integer.bounds_text (limit : DigitLimit) (n : Int) : limit.Bounds (Integer.text limit n) :=
  fun _ h => (Integer.text_eq_error h).2

theorem Number.bounds_inspect (limit : DigitLimit) (n : Number) :
    limit.Bounds (n.inspect limit) := by
  cases n with
  | integer n => exact .bind (Integer.bounds_text limit n) fun _ => .ok _
  | rational q =>
    exact .bind (Integer.bounds_text limit q.numerator) fun _ =>
      .bind (Integer.bounds_text limit q.denominator) fun _ => .ok _

theorem Atom.bounds_inspect (limit : DigitLimit) (a : Atom) : limit.Bounds (a.inspect limit) := by
  have payload : limit.Bounds (a.payload limit) := by
    cases a with
    | number n => exact n.bounds_inspect limit
    | _ => exact .ok _
  exact .bind payload fun _ => .ok _

theorem Datum.bounds_inspect (limit : DigitLimit) (d : Datum) :
    limit.Bounds (d.inspect limit) := by
  induction d using Datum.induction with
  | atom a pos => exact a.bounds_inspect limit
  | list k items dot pos ih =>
    have all : limit.Bounds (Datum.inspect.inspectAll limit items) := by
      induction items with
      | nil => exact .ok _
      | cons d ds more =>
        exact .bind (ih d List.mem_cons_self) fun _ =>
          .bind (more fun e he => ih e (List.mem_cons_of_mem d he)) fun _ => .ok _
    exact .bind all fun _ => .ok _

theorem Token.bounds_inspect (limit : DigitLimit) (t : Token) : limit.Bounds (t.inspect limit) := by
  have fields : limit.Bounds (t.inspectFields limit) := by
    cases t with
    | atom a => exact .bind (a.bounds_inspect limit) fun _ => .ok _
    | list k items dot => exact .bind (Datum.bounds_inspect limit _) fun _ => .ok _
    | comment n s => exact .bind (Integer.bounds_text limit n) fun _ => .ok _
    | _ => exact .ok _
  exact .bind fields fun _ => .ok _

theorem Fault.bounds_describe (limit : DigitLimit) (f : Fault) :
    limit.Bounds (f.describe limit) := by
  cases f with
  | structural f => exact .ok _
  | lexical f =>
    cases f with
    | invalidCodePoint code => exact .map (Integer.bounds_text limit code)
    | _ => exact .ok _

/-! ## Atoms -/

namespace Atom

theorem within_unlimited (a : Atom) : a.Within .unlimited := by
  cases a with
  | number n =>
    cases n with
    | integer n => exact DigitLimit.allows_unlimited n
    | rational q => exact ⟨DigitLimit.allows_unlimited _, DigitLimit.allows_unlimited _⟩
  | _ => trivial

theorem render_numeral (n : Number) : (number n).render .unlimited fmt = .ok n.numeral := by
  rw [render, Number.text_eq_ok.2 ⟨within_unlimited (.number n), rfl⟩]
  rfl

theorem render_of_within {a : Atom} (h : a.Within limit) :
    a.render limit fmt = a.render .unlimited fmt := by
  cases a with
  | number n =>
    rw [render_numeral, render, Number.text_eq_ok.2 ⟨h, rfl⟩]
    rfl
  | _ => rfl

theorem render_of_beyond {a : Atom} (h : ¬ a.Within limit) :
    ∃ e, a.render limit fmt = .error e ∧ limit.Faults e := by
  cases a with
  | number n =>
    cases told : n.text limit with
    | ok s => exact absurd (Number.text_eq_ok.1 told).1 h
    | error e =>
      obtain ⟨-, most⟩ := Number.text_eq_error told
      exact ⟨.digits e, by rw [render, told]; rfl, e.most, most, rfl⟩
  | _ => exact absurd trivial h

theorem Legible.concrete {a : Atom} (h : a.Legible fmt) : a.Concrete := by
  cases a with
  | plain =>
    rcases h with ⟨⟨⟩⟩ | splits
    cases splits
  | _ => trivial

theorem Legible.lasting {n : Number} (h : (number n).Legible fmt) : n.Lasting := by
  rcases h with lasting | ⟨⟨⟩⟩
  exact lasting

/-- Nothing but digits keeps an atom of the classes from being written. -/
theorem faults_of_render {a : Atom} {e : WriteError} (concrete : a.Concrete)
    (h : a.render limit fmt = .error e) : limit.Faults e := by
  by_cases within : a.Within limit
  · rw [render_of_within within] at h
    cases a with
    | number n =>
      rw [render_numeral] at h
      cases h
    | plain => cases concrete
    | _ => cases h
  · obtain ⟨e', refused, fault⟩ := @render_of_beyond limit fmt a within
    obtain rfl := Except.error.inj (refused.symm.trans h)
    exact fault

end Atom

/-! ## Data -/

namespace Datum

variable {d : Datum} {ds : List Datum} {s : String} {ss : List String}

theorem within_unlimited (d : Datum) : d.Within .unlimited := fun a _ => a.within_unlimited

theorem within_atom {a : Atom} {pos : Option Pos} :
    (Datum.atom a pos).Within limit ↔ a.Within limit := by
  simp [Within, leaves_atom]

theorem within_list {k : Bracket} {items : List Datum} {dot pos : Option Pos} :
    (Datum.list k items dot pos).Within limit ↔ ∀ d ∈ items, d.Within limit := by
  simp only [Within, mem_leaves_list]
  constructor
  · intro all d hd a ha
    exact all a ⟨d, hd, ha⟩
  · rintro all a ⟨d, hd, ha⟩
    exact all d hd a ha

theorem written_of_within (h : d.Within limit) :
    d.written limit fmt = d.written .unlimited fmt := by
  induction d using Datum.induction with
  | atom a pos => exact Atom.render_of_within (within_atom.1 h)
  | list k items dot pos ih =>
    have same : items.map (written limit fmt) = items.map (written .unlimited fmt) :=
      List.map_congr_left fun d hd => ih d hd (within_list.1 h d hd)
    rw [written, written, writtenItems_eq_mapM, writtenItems_eq_mapM, mapM_of_map same]

/-- The first item beyond the limit is the fault. -/
theorem writtenItems_of_beyond
    (each : ∀ d ∈ ds, ¬ d.Within limit → ∃ e, d.written limit fmt = .error e ∧ limit.Faults e)
    (ok : written.writtenItems .unlimited fmt ds = .ok ss) (h : ¬ ∀ d ∈ ds, d.Within limit) :
    ∃ e, written.writtenItems limit fmt ds = .error e ∧ limit.Faults e := by
  induction ds generalizing ss with
  | nil => exact absurd nofun h
  | cons d ds ih =>
    by_cases first : d.Within limit
    · obtain ⟨s, ts, form, forms, -⟩ := List.forall₂_cons_left_iff.1 (writtenItems_eq_ok.1 ok)
      have others : ¬ ∀ d ∈ ds, d.Within limit := by
        intro all
        exact h (List.forall_mem_cons.2 ⟨first, all⟩)
      obtain ⟨e, refused, fault⟩ := ih (fun x hx => each x (List.mem_cons_of_mem d hx))
        (writtenItems_eq_ok.2 forms) others
      refine ⟨e, ?_, fault⟩
      rw [written.writtenItems, written_of_within first, form, refused]
      rfl
    · obtain ⟨e, refused, fault⟩ := each d List.mem_cons_self first
      refine ⟨e, ?_, fault⟩
      rw [written.writtenItems, refused]

theorem written_of_beyond (ok : d.written .unlimited fmt = .ok s) (h : ¬ d.Within limit) :
    ∃ e, d.written limit fmt = .error e ∧ limit.Faults e := by
  induction d using Datum.induction generalizing s with
  | atom a pos => exact Atom.render_of_beyond (mt within_atom.2 h)
  | list k items dot pos ih =>
    rw [written] at ok
    cases items' : written.writtenItems .unlimited fmt items with
    | error e => simp [items', Except.map] at ok
    | ok ss =>
      have each : ∀ d ∈ items, ¬ d.Within limit →
          ∃ e, d.written limit fmt = .error e ∧ limit.Faults e := by
        intro d hd beyond
        obtain ⟨s, -, form⟩ := exists_of_mem_forall₂ (writtenItems_eq_ok.1 items').flip hd
        exact ih d hd form beyond
      obtain ⟨e, refused, fault⟩ := writtenItems_of_beyond each items' (mt within_list.2 h)
      refine ⟨e, ?_, fault⟩
      rw [written, refused]
      rfl

/-- A datum that is written where nothing is beyond the limit has this form everywhere. -/
theorem hasForm_iff : d.HasForm fmt s ↔ d.render .unlimited fmt = .ok s := by
  constructor
  · intro form
    exact form.within .unlimited d.within_unlimited
  · intro ok
    rw [render_eq_written] at ok
    constructor
    · intro limit within
      rw [render_eq_written, written_of_within within, ok]
    · intro limit beyond
      rw [render_eq_written]
      exact written_of_beyond ok beyond

/-! ### Dumps -/

theorem within_symbol (name : String) (pos : Option Pos) : (Datum.symbol name pos).Within limit :=
  within_atom.2 trivial

theorem within_dumpList {name : String} {items : List Datum} {pos : Option Pos} :
    (Atom.dumpList name items pos).Within limit ↔ ∀ d ∈ items, d.Within limit := by
  rw [Atom.dumpList, within_list, List.forall_mem_cons]
  exact and_iff_right (within_symbol name none)

/-- No code of a character is too long. -/
theorem within_codes (text : String) : ∀ d ∈ Atom.codes text, d.Within limit := by
  intro d code
  obtain ⟨c, -, rfl⟩ := List.mem_map.1 code
  have valid : c.toNat < 0xd800 ∨ 0xdfff < c.toNat ∧ c.toNat < 0x110000 := c.valid
  have few : (Nat.toDigits 10 c.toNat).length ≤ 7 := by
    rw [Nat.length_toDigits_le_iff (by decide) (by decide)]
    omega
  exact within_atom.2 (DigitLimit.allows_of_length (Nat.le_trans few (by decide)))

theorem within_dump {a : Atom} {pos : Option Pos} {x : Datum} (h : a.dump pos = .ok x) :
    x.Within limit ↔ a.Within limit := by
  cases a with
  | bool =>
    cases h
    exact iff_of_true (within_symbol _ pos) trivial
  | char | string | symbol | uninterned | leadingKeyword | trailingKeyword =>
    cases h
    exact iff_of_true (within_dumpList.2 (within_codes _)) trivial
  | special =>
    cases h
    exact iff_of_true (within_dumpList.2 (by simpa using within_symbol _ none)) trivial
  | number n =>
    cases h
    rw [within_dumpList, List.forall_mem_singleton, within_atom]
  | plain => cases h

/-- The numbers in a dump are those of the datum, and codes. -/
theorem within_dumped {x : Datum} (h : d.dumped = .ok x) : x.Within limit ↔ d.Within limit := by
  induction d using Datum.induction generalizing x with
  | atom a pos => rw [within_dump h, within_atom]
  | list k items dot pos ih =>
    obtain ⟨xs, dumps, rfl⟩ := dumped_list_eq_ok.1 h
    rw [within_list, within_list, List.forall_mem_cons, and_iff_right (within_symbol _ none)]
    clear h
    induction dumps with
    | nil => simp
    | @cons d x ds xs dump _ more =>
      rw [List.forall_mem_cons, List.forall_mem_cons, ih d List.mem_cons_self dump,
        more fun e he => ih e (List.mem_cons_of_mem d he)]

end Datum

/-! ## Texts -/

namespace Written

variable {d : Datum} {ds : List Datum} {out s text : String}

theorem writeAll_cons (h : d.render limit fmt = .ok s) :
    writeAll limit fmt out (d :: ds) = writeLater limit fmt (out ++ s ++ "\n") ds := by
  simp only [writeAll, writeLine, h]

theorem writeAll_failed {e : WriteError} (h : d.render limit fmt = .error e) :
    writeAll limit fmt out (d :: ds) = ⟨out, some e⟩ := by
  simp only [writeAll, writeLine, h]

/-- After an empty line the others are written as if they were the first. -/
theorem writeLater_cons (limit : DigitLimit) (fmt : Format) (out : String) (d : Datum)
    (ds : List Datum) :
    writeLater limit fmt out (d :: ds) = writeAll limit fmt (out ++ "\n") (d :: ds) := rfl

theorem writeAll_extends (limit : DigitLimit) (fmt : Format) (out : String) (ds : List Datum) :
    ∃ more, (writeAll limit fmt out ds).text = out ++ more := by
  induction ds generalizing out with
  | nil => exact ⟨"", by simp [writeAll]⟩
  | cons d ds ih =>
    cases form : d.render limit fmt with
    | error e => exact ⟨"", by simp [writeAll_failed form]⟩
    | ok s =>
      rw [writeAll_cons form]
      cases ds with
      | nil => exact ⟨s ++ "\n", String.append_assoc ..⟩
      | cons d' ds =>
        obtain ⟨more, later⟩ := ih (out ++ s ++ "\n" ++ "\n")
        refine ⟨s ++ "\n" ++ "\n" ++ more, ?_⟩
        rw [writeLater_cons, later]
        simp only [String.append_assoc]

/-- What is written where nothing is beyond the limit is written up to the first datum that is. -/
theorem writeAll_cases (limit : DigitLimit)
    (ok : writeAll .unlimited fmt out ds = ⟨text, none⟩) :
    ((∀ d ∈ ds, d.Within limit) ∧ writeAll limit fmt out ds = ⟨text, none⟩) ∨
      (¬ ∀ d ∈ ds, d.Within limit) ∧ ∃ part rest e, text = part ++ rest ∧
        writeAll limit fmt out ds = ⟨part, some e⟩ ∧ limit.Faults e := by
  induction ds generalizing out with
  | nil => exact .inl ⟨nofun, ok⟩
  | cons d ds ih =>
    cases form : d.render .unlimited fmt with
    | error e => simp [writeAll_failed form] at ok
    | ok s =>
      by_cases within : d.Within limit
      · rw [List.forall_mem_cons, and_iff_right within,
          writeAll_cons ((Datum.hasForm_iff.2 form).within limit within)]
        rw [writeAll_cons form] at ok
        cases ds with
        | nil => exact .inl ⟨nofun, ok⟩
        | cons d' ds =>
          rw [writeLater_cons] at ok ⊢
          exact ih ok
      · obtain ⟨e, refused, fault⟩ := (Datum.hasForm_iff.2 form).beyond limit within
        obtain ⟨more, later⟩ := writeAll_extends .unlimited fmt out (d :: ds)
        rw [ok] at later
        exact .inr ⟨fun all => within (all d List.mem_cons_self),
          out, more, e, later, writeAll_failed refused, fault⟩

/-- Data that can be written are written as the same text wherever they are written out. -/
theorem WrittenAs.of_writeAll (ok : writeAll .unlimited fmt "" ds = ⟨text, none⟩) :
    WrittenAs fmt ds text := by
  constructor
  · intro limit within
    exact (writeAll_cases limit ok).elim And.right fun beyond => absurd within beyond.1
  · intro limit beyond
    exact (writeAll_cases limit ok).elim (fun within => absurd within.1 beyond) And.right

theorem WrittenAs.writeAll_iff (h : WrittenAs fmt ds text) {text' : String} :
    writeAll limit fmt "" ds = ⟨text', none⟩ ↔ (∀ d ∈ ds, d.Within limit) ∧ text' = text := by
  by_cases within : ∀ d ∈ ds, d.Within limit
  · rw [h.within limit within, Written.mk.injEq]
    exact ⟨fun same => ⟨within, same.1.symm⟩, fun both => ⟨both.2.symm, rfl⟩⟩
  · obtain ⟨part, rest, e, -, failed, -⟩ := h.beyond limit within
    simp [failed, within]

end Written

end Sexpr
