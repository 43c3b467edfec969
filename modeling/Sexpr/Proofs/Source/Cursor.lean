import Sexpr.Scan.Basic
import Sexpr.Source.Cursor

/-!
What is taken from a source character by character, beside what is scanned of its whole input.

- `next_cons`, `next_nil`: the next character is the first one that is left.
- `bind_outcome`: what takes as a scan says goes on from where the scan stops.
-/

namespace Sexpr

variable {α β : Type} {s : Source} {peeked : Bool} {rest : Input} {x : Char × Pos}

/-- The source of which `rest` is left. If the first character of it was looked at, or its end, then
it has been delivered, or told. -/
def Source.cursor (s : Source) (peeked : Bool) (rest : Input) : Cursor :=
  let left := Input.untaken peeked rest
  { back := if peeked then rest.head? else none
    left := left
    ending := s.ending
    ended := peeked && rest.isEmpty
    lastPos := ((s.input.take (s.input.length - left.length)).getLast?.map Prod.snd).getD .start }

/-- This much is left of the source, and it has not failed yet. -/
structure Source.Leaves (s : Source) (peeked : Bool) (rest : Input) : Prop where
  suffix : rest <:+ s.input
  going : peeked = true → rest = [] → s.failure? = none

/-- What a scan comes to if the source is asked for the characters: if it fails before the scan has
its result, that is the result. -/
def Scan.outcome (s : Source) (scan : Scan α) : Except ReadError α × Cursor :=
  match if scan.sawEnd then s.failure? else none with
  | some e => (.error e, s.cursor true [])
  | none => (scan.result, s.cursor scan.peeked scan.rest)

theorem Scan.outcome_of_going (scan : Scan α) (going : scan.sawEnd = true → s.failure? = none) :
    scan.outcome s = (scan.result, s.cursor scan.peeked scan.rest) := by
  have silent : (if scan.sawEnd = true then s.failure? else none) = none := by
    split
    · exact going ‹_›
    · rfl
  rw [Scan.outcome, silent]

theorem Source.leaves_all (s : Source) : s.Leaves false s.input :=
  ⟨List.suffix_refl _, by rintro ⟨⟩⟩

theorem Source.Leaves.tail (h : s.Leaves peeked (x :: rest)) : s.Leaves false rest :=
  ⟨(List.suffix_cons x rest).trans h.suffix, by rintro ⟨⟩⟩

theorem Source.Leaves.back (h : s.Leaves peeked (x :: rest)) : s.Leaves true (x :: rest) :=
  ⟨h.suffix, by rintro - ⟨⟩⟩

theorem Source.Leaves.after (h : s.Leaves peeked rest) {scan : Scan α} (left : scan.rest <:+ rest)
    (going : scan.sawEnd = true → s.failure? = none) : s.Leaves scan.peeked scan.rest := by
  refine ⟨left.trans h.suffix, ?_⟩
  intro looked nothing
  exact going (by rw [Scan.sawEnd, looked, nothing]; rfl)

namespace Cursor

theorem ofSource_eq (s : Source) : ofSource s = s.cursor false s.input := by
  simp [ofSource, Source.cursor, Input.untaken]

/-! ## One character -/

theorem next_cons (h : s.Leaves peeked (x :: rest)) :
    next (s.cursor peeked (x :: rest)) = (.ok (some x), s.cursor false rest) := by
  cases peeked with
  | true => simp [next, Source.cursor, Input.untaken]
  | false =>
    obtain ⟨before, input⟩ := h.suffix
    have count : s.input.length - rest.length = before.length + 1 := by
      rw [← input, List.length_append, List.length_cons]
      omega
    have last : s.input.take (s.input.length - rest.length) = before ++ [x] := by
      rw [count, ← input, List.take_length_add_append]
      rfl
    simp [next, Source.cursor, Input.untaken, last]

theorem next_nil (h : s.Leaves peeked []) :
    next (s.cursor peeked []) =
      (Scan.upTo none [] : Scan (Option (Char × Pos))).outcome s := by
  cases peeked with
  | true =>
    rw [Scan.outcome_of_going _ fun _ => h.going rfl rfl]
    rfl
  | false =>
    have last : s.lastPos =
        ((s.input.take (s.input.length - 0)).getLast?.map Prod.snd).getD .start := by
      rw [Nat.sub_zero, List.take_length, Source.lastPos]
      cases s.input.getLast? <;> rfl
    unfold Scan.outcome Source.failure?
    rw [last]
    cases ending : s.ending <;>
      simp [next, Source.cursor, Input.untaken, ending, Scan.upTo, Scan.sawEnd]

/-- The end is told again. -/
theorem next_ended (s : Source) : next (s.cursor true []) = (.ok none, s.cursor true []) := rfl

theorem unread_cons (x : Char × Pos) (rest : Input) :
    unread (some x) (s.cursor false rest) = (.ok (), s.cursor true (x :: rest)) := by
  simp [unread, Source.cursor, Input.untaken]

/-! ## One after the other -/

section
variable {m : Taking α} {c : Cursor} {scan : Scan α} {f : α → Taking β} {after : Scan β}

/-- What comes after a scan sees the end of the source if the scan did. -/
theorem bind_outcome (first : m c = scan.outcome s)
    (failed : ∀ e, scan.result = .error e → after = ⟨.error e, scan.rest, scan.peeked⟩)
    (goesOn : ∀ a, scan.result = .ok a → (scan.sawEnd = true → s.failure? = none) →
      f a (s.cursor scan.peeked scan.rest) = after.outcome s)
    (ends : scan.sawEnd = true → after.sawEnd = true) : (m >>= f) c = after.outcome s := by
  rw [bind_apply, first, Scan.outcome]
  cases told : if scan.sawEnd = true then s.failure? else none with
  | some e =>
    obtain ⟨saw, failure⟩ : scan.sawEnd = true ∧ s.failure? = some e := by simpa using told
    rw [Scan.outcome, if_pos (ends saw), failure]
  | none =>
    have going : scan.sawEnd = true → s.failure? = none := by simpa using told
    cases result : scan.result with
    | error e =>
      rw [failed e result, Scan.outcome_of_going ⟨.error e, scan.rest, scan.peeked⟩ going]
    | ok a => exact goesOn a result going

theorem map_outcome (first : m c = scan.outcome s) (g : α → β) :
    (do return g (← m)) c = (scan.map g).outcome s := by
  apply bind_outcome first
  · intro e failed
    simp [Scan.map, failed, Except.map]
  · intro a result going
    rw [Scan.outcome_of_going (scan.map g) going, Scan.map, result]
    rfl
  · exact id

theorem check_outcome (first : m c = scan.outcome s) (g : α → Except ReadError β) :
    (m >>= fun a => ofExcept (g a)) c = (scan.check g).outcome s := by
  apply bind_outcome first
  · intro e failed
    simp [Scan.check, failed, Except.bind]
  · intro a result going
    rw [Scan.outcome_of_going (scan.check g) going, Scan.check, result]
    rfl
  · exact id

end

section
variable {f : Option (Char × Pos) → Taking β}

theorem bind_next_cons (h : s.Leaves peeked (x :: rest)) :
    (next >>= f) (s.cursor peeked (x :: rest)) = f (some x) (s.cursor false rest) :=
  bind_ok (next_cons h)

/-- Where there is no character a scan stops. -/
theorem bind_next_nil (h : s.Leaves peeked []) {result : Except ReadError β}
    (stops : f none (s.cursor true []) = (result, s.cursor true [])) :
    (next >>= f) (s.cursor peeked []) = (⟨result, [], true⟩ : Scan β).outcome s := by
  apply bind_outcome (next_nil h)
  · rintro e ⟨⟩
  · rintro _ ⟨⟩ going
    rw [Scan.outcome_of_going ⟨result, [], true⟩ going]
    exact stops
  · exact id

end

end Cursor

end Sexpr
