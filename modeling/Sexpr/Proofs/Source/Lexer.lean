import Sexpr.Proofs.Lookahead
import Sexpr.Proofs.Source.Scanner
import Sexpr.Source.Lexer

/-!
Reading from a source that is asked for one character after the other, beside reading from the
tokens of its whole input.

- `all_ofSource`: the tokens that are asked for are those of the input.
- `performAll_ofSource`: so the answers to all requests are the same, and a source has delivered as
  many characters as `Reader.taken` says.
-/

namespace Sexpr.Lexer

variable {settings : Settings} {s : Source} {l : Lexer} {us : List (Token × Pos)}
  {stop : Option ReadError} {ended : Bool}

/-- These tokens are still to be made, and this fault comes after them; or the tokens are over, and
their end has been told. -/
inductive Holds (settings : Settings) (s : Source) :
    Lexer → List (Token × Pos) → Option ReadError → Bool → Prop
  | going {done : List Lexeme} {ts : Tokens} {peeked : Bool} {rest : Input}
      (leaves : s.Leaves peeked rest) (makes : Tokens.Makes settings s.failure? rest ts)
      (split : Tokens.ofSource settings s = ⟨done ++ ts.lexemes, ts.stop, ts.untaken⟩)
      (stands : Input.untaken peeked rest = (done.getLast?.map Lexeme.untaken).getD s.input) :
      Holds settings s ⟨s.cursor peeked rest, false⟩ ts.pairs ts.stop false
  | finished {c : Cursor} (left : c.left = (Tokens.ofSource settings s).untaken) :
      Holds settings s ⟨c, true⟩ [] none true

theorem holds_ofSource (settings : Settings) (s : Source) :
    Holds settings s (ofSource s) (Tokens.ofSource settings s).pairs
      (Tokens.ofSource settings s).stop false := by
  have lexer : ofSource s = ⟨s.cursor false s.input, false⟩ := by
    rw [ofSource, Cursor.ofSource_eq]
  rw [lexer]
  exact @Holds.going settings s [] _ false s.input s.leaves_all (Tokens.makes_iff.2 rfl) rfl rfl

/-- The tokens are made in order; their end or the fault that ends them is told once. -/
theorem Holds.next (h : Holds settings s l us stop ended) :
    (∀ x more, us = x :: more → ∃ l', l.next settings = (.ok (some x), l') ∧
      Holds settings s l' more stop ended) ∧
    (us = [] → ∃ l', l.next settings = (stop.elim (.ok none) .error, l') ∧
      Holds settings s l' [] none true) := by
  cases h with
  | @going done ts peeked rest leaves makes split stands =>
    rcases Cursor.nextToken_makes makes peeked leaves with
      ⟨lexeme, later, lexemes, told, left, makes'⟩ | ⟨none, c, left, told⟩
    · have pairs : ts.pairs = (lexeme.token, lexeme.pos) :: later.map fun l => (l.token, l.pos) := by
        rw [Tokens.pairs, lexemes, List.map_cons]
      rw [pairs]
      refine ⟨?_, by rintro ⟨⟩⟩
      rintro _ _ ⟨⟩
      refine ⟨⟨s.cursor lexeme.peeked lexeme.rest, false⟩, ?_, ?_⟩
      · rw [Lexer.next, if_neg Bool.false_ne_true, told]
      · refine @Holds.going settings s (done ++ [lexeme]) _ _ _ left makes' ?_ ?_
        · rw [split, lexemes, List.append_assoc]
          rfl
        · rw [List.getLast?_concat]
          rfl
    · have pairs : ts.pairs = [] := by rw [Tokens.pairs, none, List.map_nil]
      rw [pairs]
      refine ⟨by rintro _ _ ⟨⟩, fun _ => ⟨⟨c, true⟩, ?_, .finished (by rw [split]; exact left)⟩⟩
      rw [Lexer.next, if_neg Bool.false_ne_true, told]
      cases ts.stop <;> rfl
  | finished left => exact ⟨by rintro _ _ ⟨⟩, fun _ => ⟨_, rfl, .finished left⟩⟩

theorem Holds.taken (h : Holds settings s l us stop ended) :
    s.input.length - l.cursor.left.length =
      (Tokens.ofSource settings s).taken s.input.length us.length ended := by
  cases h with
  | @going done ts peeked rest leaves makes split stands =>
    have latest := @Tokens.latest_append (Tokens.ofSource settings s) done ts.lexemes
      (by rw [split]) 0
    have count : ts.pairs.length = 0 + ts.lexemes.length := by simp [Tokens.pairs]
    rw [Tokens.taken_latest, count, latest, Nat.sub_zero, List.take_length]
    change s.input.length - (Input.untaken peeked rest).length = _
    -- how far the source has been asked is what the last token says, or nothing was asked for
    rw [stands]
    cases done.getLast? <;> simp
  | finished left =>
    rw [left]
    rfl

theorem Holds.all (h : Holds settings s l us stop ended) (found : List (Token × Pos)) :
    l.all settings found = (found.reverse ++ us, stop) := by
  induction us generalizing l found with
  | nil =>
    obtain ⟨l', told, -⟩ := h.next.2 rfl
    rw [List.append_nil, Lexer.all]
    split <;> rename_i same <;> rw [told] at same <;> cases stop <;> cases same <;> rfl
  | cons x more ih =>
    obtain ⟨l', told, left⟩ := h.next.1 x more rfl
    rw [Lexer.all]
    split <;> rename_i same <;> rw [told] at same <;> cases same
    rw [ih left, List.reverse_cons, List.append_assoc, List.singleton_append]

/-- The tokens of an input are those that are made of its characters one by one. -/
theorem all_ofSource (settings : Settings) (s : Source) :
    (ofSource s).all settings [] =
      ((Tokens.ofSource settings s).pairs, (Tokens.ofSource settings s).stop) :=
  (holds_ofSource settings s).all []

/-! ## One datum -/

/-- What is done after a token. -/
def resume (settings : Settings) (outside : StructuralFault) (l : Lexer) :
    Except ReadError Reader.Step → Except ReadError (Option Datum) × Lexer
  | .error e => (.error e, l)
  | .ok (.datum d) => (.ok (some d), l)
  | .ok (.stack stack) => l.readFrom settings outside stack

section
variable {l' : Lexer} {outside : StructuralFault} {stack : Reader.Stack}

theorem readFrom_token {t : Token} {pos : Pos} (told : l.next settings = (.ok (some (t, pos)), l')) :
    l.readFrom settings outside stack =
      l'.resume settings outside (Reader.feed settings.modes outside stack t pos) := by
  rw [readFrom]
  split <;> rename_i same <;> rw [told] at same <;> cases same
  rfl

theorem readFrom_end (told : l.next settings = (stop.elim (.ok none) .error, l')) :
    l.readFrom settings outside stack =
      ((Reader.readFrom settings.modes outside stop stack []).result, l') := by
  rw [readFrom]
  split <;> rename_i same <;> rw [told] at same <;> cases stop <;> cases same <;> rfl

/-- A datum is read from the tokens that are asked for as from those of the input. -/
theorem Holds.readFrom (h : Holds settings s l us stop ended) :
    let reading := Reader.readFrom settings.modes outside stop stack us
    ∃ l', l.readFrom settings outside stack = (reading.result, l') ∧
      Holds settings s l' reading.rest (if reading.ended then none else stop)
        (ended || reading.ended) := by
  induction us generalizing l stack with
  | nil =>
    obtain ⟨l', told, left⟩ := h.next.2 rfl
    refine ⟨l', readFrom_end told, ?_⟩
    cases stop <;> exact (Bool.or_true ended).symm ▸ left
  | cons x more ih =>
    obtain ⟨t, pos⟩ := x
    obtain ⟨l', told, left⟩ := h.next.1 _ more rfl
    rw [readFrom_token told, Reader.readFrom_cons]
    cases Reader.feed settings.modes outside stack t pos with
    | error e => exact ⟨l', rfl, (Bool.or_false ended).symm ▸ left⟩
    | ok step =>
      cases step with
      | datum d => exact ⟨l', rfl, (Bool.or_false ended).symm ▸ left⟩
      | stack stack => exact ih left

end

end Lexer

/-! ## Sessions -/

namespace LazyReader

variable {settings : Settings} {s : Source} {r : Reader} {x : LazyReader}

/-- The tokens that are still to be made are those that the other reader has left. -/
structure Follows (settings : Settings) (s : Source) (x : LazyReader) (r : Reader) : Prop where
  modes : r.modes = settings.modes
  holds : Lexer.Holds settings s x.lexer r.pending r.stop r.ended
  iterating : x.iterating = r.iterating

theorem follows_ofSource (settings : Settings) (s : Source) :
    Follows settings s (ofSource s) (Reader.ofSource settings s) :=
  ⟨rfl, Lexer.holds_ofSource settings s, rfl⟩

theorem Follows.readFrom (h : Follows settings s x r) (outside : StructuralFault) :
    ∃ l, x.lexer.readFrom settings outside [] = ((r.readWith outside).1, l) ∧
      Follows settings s ⟨l, x.iterating⟩ (r.readWith outside).2 := by
  obtain ⟨l, told, left⟩ := @Lexer.Holds.readFrom settings s x.lexer _ _ _ outside [] h.holds
  rw [← h.modes] at told left
  exact ⟨l, told, h.modes, left, h.iterating⟩

theorem Follows.collect (h : Follows settings s x r) (found : List Datum) :
    ∃ l, collect settings found x.lexer = ((r.collect found).1, (r.collect found).2.1, l) ∧
      Follows settings s ⟨l, x.iterating⟩ (r.collect found).2.2 := by
  fun_induction Reader.collect found r generalizing x with
  | case1 found r d rest ended read ih =>
    obtain ⟨l, told, left⟩ := h.readFrom .dotOutsideList
    rw [Reader.readWith, read] at told
    obtain ⟨l', collected, last⟩ := ih left
    refine ⟨l', ?_, last⟩
    rw [LazyReader.collect]
    split <;> rename_i same <;> rw [told] at same <;> cases same
    exact collected
  | case2 found r rest ended read | case3 found r e rest ended read =>
    obtain ⟨l, told, left⟩ := h.readFrom .dotOutsideList
    rw [Reader.readWith, read] at told
    refine ⟨l, ?_, left⟩
    rw [LazyReader.collect]
    split <;> rename_i same <;> rw [told] at same <;> cases same
    rfl

/-- An answer is the same, and the tokens that are left are the same after it. -/
theorem Follows.perform (h : Follows settings s x r) (q : Reader.Request) :
    (x.perform settings q).1 = (r.perform q).1 ∧
      Follows settings s (x.perform settings q).2 (r.perform q).2 := by
  cases q with
  | read =>
    obtain ⟨l, told, left⟩ := h.readFrom .misplacedDot
    simp only [LazyReader.perform, readWith, told]
    exact ⟨rfl, left⟩
  | readAll =>
    obtain ⟨l, told, left⟩ := h.collect []
    simp only [LazyReader.perform, Reader.perform, LazyReader.readAll, Reader.readAll, told]
    generalize r.collect [] = collected at left
    obtain ⟨ds, failure, r'⟩ := collected
    cases failure <;> exact ⟨rfl, left⟩
  | iterate => exact ⟨rfl, h.modes, h.holds, rfl⟩
  | next =>
    simp only [LazyReader.perform, Reader.perform, LazyReader.next, Reader.next, h.iterating]
    cases live : r.iterating with
    | false => exact ⟨rfl, h⟩
    | true =>
      obtain ⟨l, told, left⟩ := h.readFrom .dotOutsideList
      simp only [if_true, readWith, told]
      generalize r.readWith .dotOutsideList = reading at left
      obtain ⟨_ | _ | d, r'⟩ := reading
      · exact ⟨rfl, left.modes, left.holds, rfl⟩
      · exact ⟨rfl, left.modes, left.holds, rfl⟩
      · exact ⟨rfl, left⟩

theorem Follows.performAll (h : Follows settings s x r) (qs : List Reader.Request) :
    (x.performAll settings qs).1 = (r.performAll qs).1 ∧
      Follows settings s (x.performAll settings qs).2 (r.performAll qs).2 := by
  induction qs generalizing x r with
  | nil => exact ⟨rfl, h⟩
  | cons q qs ih =>
    obtain ⟨answer, later⟩ := h.perform q
    obtain ⟨answers, last⟩ := ih later
    exact ⟨congrArg₂ List.cons answer answers, last⟩

/-- A source that is asked for its characters one by one, only as far as the answers need them,
gives the answers of the reader that has all tokens before it. After every session it has delivered
as many characters as this reader is said to have taken. -/
theorem performAll_ofSource (settings : Settings) (s : Source) (requests : List Reader.Request) :
    let asked := (ofSource s).performAll settings requests
    let whole := (Reader.ofSource settings s).performAll requests
    asked.1 = whole.1 ∧
      s.input.length - asked.2.lexer.cursor.left.length = whole.2.taken settings s := by
  obtain ⟨answers, follows⟩ := (follows_ofSource settings s).performAll requests
  exact ⟨answers, follows.holds.taken⟩

end LazyReader

end Sexpr
