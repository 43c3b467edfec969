import Sexpr.Source

/-!
The characters of a source, taken one by one as they are asked for. One that was looked at and does
not belong to what is being taken is put back, and then is the next one. Main statement: what takes
a character and puts at most this one back can take no more of them than before.
-/

namespace Sexpr

/-- A source in use: the character that was put back, those that are still to be delivered and
what comes after them, whether that has been told, and where the last character stands that has been
delivered. -/
structure Cursor where
  back : Option (Char × Pos)
  left : Input
  ending : Ending
  ended : Bool
  lastPos : Pos

/-- What is done with the characters of a source, unless something is wrong with them. -/
abbrev Taking := ExceptT ReadError (StateM Cursor)

namespace Cursor

variable {α β : Type} {m : Taking α} {f : α → Taking β} {c c' : Cursor}

def ofSource (s : Source) : Cursor where
  back := none
  left := s.input
  ending := s.ending
  ended := false
  lastPos := .start

/-- The next character, or none at the end. That the source has failed is told once. -/
def next : Taking (Option (Char × Pos)) := fun c =>
  match c.back with
  | some x => (.ok (some x), { c with back := none })
  | none =>
      if c.ended then (.ok none, c)
      else match c.left with
        | x :: left => (.ok (some x), { c with left := left, lastPos := x.2 })
        | [] =>
            match c.ending with
            | .complete => (.ok none, { c with ended := true })
            | .failed message =>
                (.error ⟨.lexical (.sourceFailed message), c.lastPos⟩, { c with ended := true })

/-- The end is not put back. -/
def unread (x? : Option (Char × Pos)) : Taking Unit := fun c =>
  match x? with
  | some x => (.ok (), { c with back := some x })
  | none => (.ok (), c)

/-- The character was looked at to know that what was found is complete. -/
def stopBefore (x : Char × Pos) (a : α) : Taking α := do
  unread (some x)
  return a

def ofExcept (result : Except ReadError α) : Taking α := fun c => (result, c)

def fault (f : LexicalFault) (pos : Pos) : Taking α := ofExcept (.error ⟨.lexical f, pos⟩)

theorem bind_apply (m : Taking α) (f : α → Taking β) (c : Cursor) :
    (m >>= f) c = match m c with
      | (.ok a, c') => f a c'
      | (.error e, c') => (.error e, c') := by
  change (match m c with
    | (result, c') => (ExceptT.bindCont f result : StateM Cursor (Except ReadError β)) c') = _
  rcases m c with ⟨_ | _, _⟩ <;> rfl

theorem bind_ok {a : α} (h : m c = (.ok a, c')) : (m >>= f) c = f a c' := by
  rw [bind_apply, h]

theorem bind_error {e : ReadError} (h : m c = (.error e, c')) : (m >>= f) c = (.error e, c') := by
  rw [bind_apply, h]

/-! ## How much is left -/

/-- How many characters can still be taken. -/
def size (c : Cursor) : Nat := c.back.toList.length + c.left.length

/-- A character that is taken is no longer left. -/
theorem size_next (c : Cursor) :
    (next c).2.size ≤ c.size ∧ ∀ x, (next c).1 = .ok (some x) → (next c).2.size < c.size := by
  obtain ⟨back, left, ending, ended, lastPos⟩ := c
  cases back with
  | some y => simp [next, size]
  | none =>
    cases ended with
    | true => simp [next, size]
    | false =>
      cases left with
      | cons y left => simp [next, size]
      | nil => cases ending <;> simp [next, size]

theorem next_le {result : Except ReadError (Option (Char × Pos))} (h : next c = (result, c')) :
    c'.size ≤ c.size := by
  have rest := (size_next c).1
  rwa [h] at rest

theorem next_lt {x : Char × Pos} (h : next c = (.ok (some x), c')) : c'.size < c.size := by
  have taken := (size_next c).2 x (by rw [h])
  rwa [h] at taken

/-- Afterwards no more than `n` characters more can be taken than before. -/
def Gains (n : Nat) (m : Taking α) : Prop := ∀ c, (m c).2.size ≤ c.size + n

theorem gains_unread (x : Char × Pos) : Gains 1 (unread (some x)) := by
  intro c
  change 1 + c.left.length ≤ c.back.toList.length + c.left.length + 1
  omega

theorem gains_stopBefore (x : Char × Pos) (a : α) : Gains 1 (stopBefore x a) := gains_unread x

theorem gains_ofExcept (n : Nat) (result : Except ReadError α) : Gains n (ofExcept result) :=
  fun _ => Nat.le_add_right ..

theorem gains_pure (n : Nat) (a : α) : Gains n (pure a : Taking α) := gains_ofExcept n (.ok a)

section
variable {n : Nat} {m' : Taking α}

theorem Gains.weaken (h : Gains 0 m) : Gains n m := fun c => Nat.le_add_right_of_le (h c)

theorem Gains.bind (hm : Gains n m) (hf : ∀ a, Gains 0 (f a)) : Gains n (m >>= f) := by
  intro c
  have first := hm c
  rw [bind_apply]
  rcases ran : m c with ⟨e | a, c'⟩
  · rwa [ran] at first
  · rw [ran] at first
    exact Nat.le_trans (hf a c') first

theorem Gains.map (hm : Gains n m) (g : α → β) : Gains n (do return g (← m)) :=
  hm.bind fun a => gains_pure 0 (g a)

theorem Gains.ite {p : Prop} [Decidable p] (h : Gains n m) (h' : Gains n m') :
    Gains n (if p then m else m') := by
  split
  · exact h
  · exact h'

/-- What is done with a character may put this one back. -/
theorem Gains.next {f : Option (Char × Pos) → Taking β} (none : Gains 0 (f none))
    (some : ∀ x, Gains 1 (f (some x))) : Gains 0 (next >>= f) := by
  intro c
  rw [bind_apply]
  rcases taken : Cursor.next c with ⟨e | _ | x, c'⟩
  · exact next_le taken
  · exact Nat.le_trans (none c') (next_le taken)
  · exact Nat.le_trans (some x c') (next_lt taken)

end

end Cursor

end Sexpr
