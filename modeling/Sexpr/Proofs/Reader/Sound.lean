import Sexpr.Proofs.Reader.Steps
import Sexpr.Proofs.Scan.Legible
import Sexpr.Reader.Source

/-!
The data that reading gives, told from what its stack holds.

- `feed_sound`: a token leaves a sound stack, or a datum that can be written and read again.
- `readable_of_readAll`: so can all data that are read from a source.
-/

namespace Sexpr

/-- The atoms are legible, dots stand where settings allow them, and `fuel` units of depth are
enough. -/
def Datum.Readable (settings : Settings) (fuel : Nat) (d : Datum) : Prop :=
  d.Fits (Atom.Legible settings.format)
    (settings.format.hasDottedPairs = true ∧ settings.modes.allowImproperLists = true) fuel

namespace Reader

/-- What a list holds in a phase. Only after its dot is it known to become improper, and its last
item then has one unit of depth less. -/
def Holds (settings : Settings) (fuel : Nat) (kind : Bracket) (items : List Datum) : Phase → Prop
  | .items | .close none => ∀ d ∈ items, d.Readable settings fuel
  | .tail _ =>
      settings.format.hasDottedPairs = true ∧ kind = .round ∧ items ≠ [] ∧ 0 < fuel ∧
      ∀ d ∈ items, d.Readable settings fuel
  | .close (some _) =>
      settings.format.hasDottedPairs = true ∧ kind = .round ∧ 0 < fuel ∧
      ∃ last others, items = last :: others ∧ others ≠ [] ∧ last.isRoundList = false ∧
        last.Readable settings (fuel - 1) ∧ ∀ d ∈ others, d.Readable settings fuel

/-- A list or a mark is opened where a datum may stand, and each has less depth than is left
outside. -/
inductive Sound (settings : Settings) : Stack → Prop
  | empty : Sound settings []
  | list {stack : Stack} {fuel : Nat} {pos : Pos} {kind : Bracket} {items : List Datum}
      {phase : Phase} (below : Sound settings stack) (waits : expectsClose stack = false)
      (room : fuel < innerDepth stack) (holds : Holds settings fuel kind items phase) :
      Sound settings (.list fuel pos kind items phase :: stack)
  | mark {stack : Stack} {fuel : Nat} {pos : Pos} {m : Mark} (below : Sound settings stack)
      (waits : expectsClose stack = false) (room : fuel < innerDepth stack) :
      Sound settings (.mark fuel pos m :: stack)
  | discard {stack : Stack} {fuel : Nat} {pos : Pos} (below : Sound settings stack) :
      Sound settings (.discard fuel pos :: stack)

def Step.Sound (settings : Settings) : Step → Prop
  | .stack s => Reader.Sound settings s
  | .datum d => d.Readable settings maxDepth

variable {settings : Settings} {outside : StructuralFault} {stop : Option ReadError}

/-- A datum after a dot ends its list, and a round list hands its own end over. -/
theorem holds_spliced {fuel : Nat} {kind : Bracket} {items more : List Datum} {dot : Pos}
    {dot' pos : Option Pos} (h : Holds settings fuel kind items (.tail dot))
    (hd : (Datum.list .round more dot' pos).Readable settings (fuel - 1)) :
    Holds settings fuel kind (more.reverseAux items) (.close dot') := by
  obtain ⟨dotted, kinds, nonempty, positive, all⟩ := h
  rw [List.reverseAux_eq]
  generalize hf : fuel - 1 = m at hd
  cases hd with
  | @proper n k items' pos inner =>
    have more : n ≤ fuel := by omega
    intro d hd
    rcases List.mem_append.1 hd with later | before
    · exact (inner d (List.mem_reverse.1 later)).mono more
    · exact all d before
  | @improper n init last dot pos allowed some inner tail flat =>
    have more : n + 1 ≤ fuel := by omega
    have less : n ≤ fuel - 1 := by omega
    refine ⟨dotted, kinds, positive, last, init.reverse ++ items, by simp, by simp [nonempty], flat,
      tail.mono less, ?_⟩
    intro d hd
    rcases List.mem_append.1 hd with later | before
    · exact (inner d (List.mem_reverse.1 later)).mono more
    · exact all d before

theorem holds_last {fuel : Nat} {kind : Bracket} {items : List Datum} {dot : Pos} {d : Datum}
    (h : Holds settings fuel kind items (.tail dot)) (hd : d.Readable settings (fuel - 1))
    (flat : d.isRoundList = false) : Holds settings fuel kind (d :: items) (.close (some dot)) := by
  obtain ⟨dotted, kinds, nonempty, positive, all⟩ := h
  exact ⟨dotted, kinds, positive, d, items, rfl, nonempty, flat, hd, all⟩

theorem readable_marked {fuel : Nat} {d : Datum} (hd : d.Readable settings fuel) (name : String)
    (pos : Option Pos) :
    (Datum.list .round [.symbol name pos, d] none pos).Readable settings (fuel + 1) := by
  apply Datum.Fits.proper
  intro e he
  simp only [List.mem_cons, List.not_mem_nil, or_false] at he
  rcases he with rfl | rfl
  · exact .atom (.inl trivial)
  · exact hd

theorem deliver_sound {stack : Stack} {d : Datum} (h : Sound settings stack)
    (waits : expectsClose stack = false) (hd : d.Readable settings (innerDepth stack)) :
    (deliver stack d).Sound settings := by
  induction h generalizing d with
  | empty => exact hd
  | discard below => exact below
  | @mark stack fuel pos m below waits' room ih =>
    have marked := readable_marked hd m.name (some pos)
    exact ih waits' (marked.mono room)
  | @list stack fuel pos kind items phase below waits' room holds =>
    cases phase with
    | items => exact .list below waits' room (List.forall_mem_cons.2 ⟨hd, holds⟩)
    | close dot => cases waits
    | tail dot =>
      by_cases round : d.isRoundList = true
      · cases d with
        | atom => cases round
        | list k more dot' pos' =>
          cases k with
          | round => exact .list below waits' room (holds_spliced holds hd)
          | square | curly => cases round
      · have flat : d.isRoundList = false := Bool.eq_false_iff.2 round
        rw [deliver_last flat]
        exact .list below waits' room (holds_last holds hd flat)

theorem dropDiscards_sound {stack : Stack} (h : Sound settings stack) :
    Sound settings (dropDiscards stack) := by
  induction h with
  | discard _ ih => exact ih
  | empty => exact .empty
  | list below waits room holds => exact .list below waits room holds
  | mark below waits room => exact .mark below waits room

/-- A list at its end, improper where that is allowed, has used no more depth than its frame has. -/
theorem readable_closed {fuel : Nat} {kind : Bracket} {items : List Datum} {phase : Phase}
    (h : Holds settings fuel kind items phase) (pos : Option Pos)
    (allowed : phase.dot?.isSome = true → settings.modes.allowImproperLists = true)
    (noTail : ∀ dot, phase ≠ .tail dot) :
    (Datum.list kind items.reverse phase.dot? pos).Readable settings (fuel + 1) := by
  cases phase with
  | tail dot => exact absurd rfl (noTail dot)
  | items =>
    apply Datum.Fits.proper
    intro d hd
    exact h d (List.mem_reverse.1 hd)
  | close dot =>
    cases dot with
    | none =>
      apply Datum.Fits.proper
      intro d hd
      exact h d (List.mem_reverse.1 hd)
    | some dot =>
      obtain ⟨dotted, rfl, positive, last, others, rfl, nonempty, flat, tail, all⟩ := h
      obtain ⟨m, rfl⟩ := Nat.exists_eq_add_of_le' positive
      have before : others.reverse ≠ [] := by simpa using nonempty
      rw [List.reverse_cons]
      apply Datum.Fits.improper ⟨dotted, allowed rfl⟩ before _ tail flat
      intro d hd
      exact all d (List.mem_reverse.1 hd)

/-- One token leaves what is sound. -/
theorem feed_sound {stack : Stack} {t : Token} {pos : Pos} {step : Step}
    (h : Sound settings stack) (legible : t.Legible settings.format)
    (ok : feed settings.modes outside stack t pos = .ok step) : step.Sound settings := by
  have inside := dropDiscards_sound h
  cases feeds_of_feed ok with
  | skipped => exact h
  | @closing fuel start k items phase stack' top noTail allowed =>
    rw [top] at inside
    cases inside with
    | list below waits room holds =>
      have closed := readable_closed holds (some start) allowed noTail
      exact deliver_sound below waits (closed.mono room)
  | dot top nonempty deep =>
    rw [top] at inside
    cases inside with
    | list below waits room holds =>
      exact .list below waits room ⟨legible, rfl, nonempty, deep, holds⟩
  | datumComment => exact .discard h
  | atom waits => exact deliver_sound h waits (.atom legible)
  | list => cases legible
  | opening waits room => exact .list h waits (by omega) (by simp [Holds])
  | mark waits room => exact .mark h waits (by omega)

theorem readFrom_sound {stack : Stack} {ts : List (Token × Pos)} {d : Datum}
    (h : Sound settings stack) (legible : ∀ x ∈ ts, x.1.Legible settings.format)
    (ok : (readFrom settings.modes outside stop stack ts).result = .ok (some d)) :
    d.Readable settings maxDepth := by
  induction ts generalizing stack with
  | nil =>
    cases stop with
    | some e => cases ok
    | none => cases ends : finish stack <;> simp [readFrom, ends, Except.map] at ok
  | cons x rest ih =>
    obtain ⟨t, pos⟩ := x
    rw [readFrom_cons] at ok
    cases fed : feed settings.modes outside stack t pos with
    | error e =>
      rw [fed] at ok
      cases ok
    | ok step =>
      have first := legible (t, pos) List.mem_cons_self
      have sound := feed_sound h first fed
      rw [fed] at ok
      cases step with
      | datum d =>
        cases ok
        exact sound
      | stack s =>
        apply ih sound _ ok
        intro x hx
        exact legible x (List.mem_cons_of_mem _ hx)

theorem collect_readable {found : List Datum} {r : Reader} (modes : r.modes = settings.modes)
    (legible : ∀ x ∈ r.pending, x.1.Legible settings.format)
    (h : ∀ d ∈ found, d.Readable settings maxDepth) :
    ∀ d ∈ (collect found r).1, d.Readable settings maxDepth := by
  have reverse {found : List Datum} (h : ∀ d ∈ found, d.Readable settings maxDepth) :
      ∀ d ∈ found.reverse, d.Readable settings maxDepth := by
    intro d hd
    exact h d (List.mem_reverse.1 hd)
  fun_induction collect found r with
  | case1 found r d _ _ read ih =>
    have suffix := readFrom_rest_suffix r.modes .dotOutsideList r.stop [] r.pending
    rw [modes] at read
    have first : d.Readable settings maxDepth := readFrom_sound .empty legible (by rw [read])
    apply ih modes
    · intro x hx
      exact legible x (suffix.subset hx)
    · exact List.forall_mem_cons.2 ⟨first, h⟩
  | case2 => exact reverse h
  | case3 => exact reverse h

end Reader

/-- All data that are read from a source can be written in the same settings, and the atoms that
are written as one token are read back. -/
theorem readable_of_readAll {settings : Settings} {s : Source} {ds : List Datum}
    (h : s.readAll settings = .ok ds) : ∀ d ∈ ds, d.Readable settings Reader.maxDepth := by
  obtain ⟨rfl, -⟩ := Reader.readAll_eq_ok.1 h
  exact Reader.collect_readable rfl (Tokens.ofSource_legible settings s) (by simp)

end Sexpr
