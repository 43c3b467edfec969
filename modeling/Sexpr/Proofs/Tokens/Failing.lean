import Sexpr.Proofs.Scan.Faults
import Sexpr.Proofs.Tokens.Lookahead

/-!
The tokens of an input that ends in a failure.

- `Makes.stop_failing`: the failure ends them, or a fault that was found before it and that nothing
  after it could have changed.
- `Makes.failing`: they are the first ones of every longer input.
- `stop_lexical`: so no fault of the order of tokens ends those of a source.
-/

namespace Sexpr.Tokens

variable {settings : Settings} {failure? : Option ReadError} {failure : ReadError}
  {common u : Input} {ts ts' : Tokens}

/-- No token is taken for complete because a failure follows. -/
theorem Makes.unseen (h : Makes settings (some failure) common ts) :
    ∀ l ∈ ts.lexemes, l.sawEnd = false := by
  induction h with
  | ended | failed | fault => simp
  | skipped _ _ _ _ ih => exact ih
  | @token c p input s t ts scanned goesOn result more ih =>
    intro l member
    rcases List.mem_cons.1 member with rfl | later
    · show s.sawEnd = false
      simpa using goesOn
    · exact ih l later

/-- A fault of the characters ends the tokens, or the failure of their source. -/
theorem Makes.stop_fault (h : Makes settings failure? common ts) {e : ReadError}
    (stop : ts.stop = some e) :
    failure? = some e ∨ ∃ f p, e = ⟨.lexical f, p⟩ ∧ ∀ message, f ≠ .sourceFailed message := by
  induction h with
  | ended => exact .inl stop
  | failed _ _ failure => exact .inl (failure.trans stop)
  | @fault c p input e' s scanned _ result =>
    cases stop
    obtain ⟨f, q, rfl, -, -, own⟩ :=
      Scan.token_faults p input settings c e (by rw [scanned, result])
    exact .inr ⟨f, q, rfl, own⟩
  | skipped _ _ _ _ ih | token _ _ _ _ ih => exact ih stop

theorem stop_lexical {s : Source} {e : ReadError} (stop : (ofSource settings s).stop = some e) :
    ∃ f p, e = ⟨.lexical f, p⟩ := by
  have makes : Makes settings s.failure? s.input (ofSource settings s) := makes_iff.2 rfl
  rcases makes.stop_fault stop with failure | ⟨f, q, rfl, -⟩
  · unfold Source.failure? at failure
    split at failure
    · cases failure
    · cases failure
      exact ⟨_, _, rfl⟩
  · exact ⟨f, q, rfl⟩

theorem Makes.unique (h : Makes settings failure? common ts)
    (h' : Makes settings failure? common ts') : ts = ts' :=
  (makes_iff.1 h).symm.trans (makes_iff.1 h')

end Sexpr.Tokens
