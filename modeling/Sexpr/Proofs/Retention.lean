import Sexpr.Proofs.Places
import Sexpr.Proofs.Reader.Feeding
import Sexpr.Proofs.Scan.Faults
import Sexpr.Proofs.Scan.Retention
import Sexpr.Proofs.Tokens.Lookahead

/-!
Keeping blanks and comments among the tokens.

- `Tokens.Makes.skipping`: they are only added to the tokens of the same input.
- `Tokens.retention`: so what is read does not depend on them, as long as no comment has too many
  semicolons.
-/

namespace Sexpr

namespace Tokens

open Reader (meant)

variable {settings : Settings} {failure? : Option ReadError} {input rest : Input}
  {ts ts' : Tokens} {c : Char} {p : Pos}

/-- What tokens made with blanks and comments have in common with those made without. A comment that
must not be kept cuts the first ones short. -/
inductive Kept (input : Input) (ts ts' : Tokens) : Prop
  | all (pairs : meant ts.pairs = ts'.pairs) (stop : ts.stop = ts'.stop)
  | cut {p : Pos} {earlier later : List Pos} {more : List (Token × Pos)}
      (split : input.map Prod.snd = earlier ++ p :: later)
      (stop : ts.stop = some ⟨.lexical .tooManySemicolons, p⟩)
      (pairs : meant ts.pairs ++ more = ts'.pairs)
      (before : List.Sublist ((meant ts.pairs).map Prod.snd) earlier)
      (after : List.Sublist (more.map Prod.snd) later)

theorem pairs_step (found : Option Token) (ts : Tokens) (p : Pos) (rest : Input) (peeked : Bool) :
    Tokens.pairs ⟨(found.map fun t => ⟨t, p, rest, peeked⟩).toList ++ ts.lexemes, ts.stop,
      ts.untaken⟩ = (found.map fun t => (t, p)).toList ++ ts.pairs := by
  cases found <;> rfl

theorem meant_step (found : Option Token) (p : Pos) (us : List (Token × Pos)) :
    meant ((found.map fun t => (t, p)).toList ++ us) =
      ((found.filter fun t => !t.isSkipped).map fun t => (t, p)).toList ++ meant us := by
  cases found with
  | none => rfl
  | some t => cases skipped : t.isSkipped <;> simp [meant, Option.filter, skipped]

theorem Kept.step (kept : Kept rest ts ts') (suffix : rest <:+ input) (found : Option Token)
    (peeked : Bool) :
    Kept ((c, p) :: input)
      ⟨(found.map fun t => ⟨t, p, rest, peeked⟩).toList ++ ts.lexemes, ts.stop, ts.untaken⟩
      ⟨((found.filter fun t => !t.isSkipped).map fun t => ⟨t, p, rest, peeked⟩).toList ++
        ts'.lexemes, ts'.stop, ts'.untaken⟩ := by
  cases kept with
  | all pairs stop =>
    refine .all ?_ stop
    rw [pairs_step, pairs_step, meant_step, pairs]
  | @cut q earlier later more split stop pairs before after =>
    obtain ⟨dropped, rfl⟩ := suffix
    have whole : ((c, p) :: (dropped ++ rest)).map Prod.snd =
        (p :: dropped.map Prod.snd ++ earlier) ++ q :: later := by
      rw [List.map_cons, List.map_append, split]
      simp
    refine .cut whole stop ?_ ?_ after
    · rw [pairs_step, pairs_step, meant_step, ← pairs, List.append_assoc]
    · rw [pairs_step, meant_step, List.map_append]
      refine List.Sublist.append ?_ before
      cases found.filter fun t => !t.isSkipped <;> simp

theorem sawEnd_skipping (settings : Settings) (c : Char) (p : Pos) (input : Input) :
    (Scan.token settings.skipping c p input).sawEnd = (Scan.token settings c p input).sawEnd := by
  rcases Scan.token_skipping settings c p input with same | ⟨-, passed⟩
  · rw [same]
    rfl
  · rw [passed]
    rfl

theorem makes_step {s : Scan (Option Token)} {found : Option Token}
    (scanned : Scan.token settings c p input = s) (goesOn : s.sawEnd = true → failure? = none)
    (result : s.result = .ok found) (more : Makes settings.skipping failure? s.rest ts')
    (kept : Kept s.rest ts ts') :
    ∃ ts'', Makes settings.skipping failure? ((c, p) :: input) ts'' ∧
      Kept ((c, p) :: input)
        ⟨(found.map fun t => ⟨t, p, s.rest, s.peeked⟩).toList ++ ts.lexemes, ts.stop, ts.untaken⟩
        ts'' := by
  have suffix : s.rest <:+ input := by
    rw [← scanned]
    exact Scan.token_rest_suffix settings c p input
  rcases Scan.token_skipping settings c p input with same | ⟨tooMany, -⟩
  · rw [scanned] at same
    have result' : s.meant.result = .ok (found.filter fun t => !t.isSkipped) := by
      rw [Scan.meant, Scan.map, result]
      rfl
    exact ⟨_, more.step same goesOn result', kept.step suffix found s.peeked⟩
  · rw [scanned, result] at tooMany
    cases tooMany

/-- Without blanks and comments the other tokens are the same, and the fault that ends them, as far
as no comment with too many semicolons has ended them before. -/
theorem Makes.skipping (h : Makes settings failure? input ts) :
    ∃ ts', Makes settings.skipping failure? input ts' ∧ Kept input ts ts' := by
  induction h with
  | ended => exact ⟨_, .ended, .all rfl rfl⟩
  | @failed c p input e s scanned ends failure =>
    exact ⟨_, .failed rfl (by rw [sawEnd_skipping, scanned, ends]) failure, .all rfl rfl⟩
  | @fault c p input e s scanned goesOn result =>
    have goesOn' : (Scan.token settings.skipping c p input).sawEnd = true → failure? = none := by
      rwa [sawEnd_skipping, scanned]
    rcases Scan.token_skipping settings c p input with same | ⟨tooMany, passed⟩
    · have result' : (Scan.token settings.skipping c p input).result = .error e := by
        rw [same, scanned, Scan.meant, Scan.map, result]
        rfl
      exact ⟨_, .fault rfl goesOn' result', .all rfl rfl⟩
    · rw [scanned, result] at tooMany
      cases tooMany
      obtain ⟨ts', more⟩ := @exists_makes settings.skipping failure?
        (Scan.token settings.skipping c p input).rest
      have suffix := Scan.token_rest_suffix settings.skipping c p input
      have split : ((c, p) :: input).map Prod.snd = [] ++ p :: input.map Prod.snd := rfl
      refine ⟨ts', .skipped rfl goesOn' (by rw [passed]) more, ?_⟩
      refine .cut split rfl (List.nil_append _) (.refl _) ?_
      have places := more.positions.trans (suffix.sublist.map Prod.snd)
      rwa [pairs, List.map_map]
  | skipped scanned goesOn result _ ih =>
    obtain ⟨ts', more, kept⟩ := ih
    exact makes_step scanned goesOn result more kept
  | token scanned goesOn result _ ih =>
    obtain ⟨ts', more, kept⟩ := ih
    exact makes_step scanned goesOn result more kept

/-- Where comments are not kept their semicolons are not counted. -/
theorem Makes.stop_skipping (h : Makes settings failure? input ts)
    (dropped : settings.modes.retainComments = false)
    (other : ∀ e, failure? = some e → e.fault ≠ .lexical .tooManySemicolons) :
    ∀ e, ts.stop = some e → e.fault ≠ .lexical .tooManySemicolons := by
  induction h with
  | ended => exact other
  | @failed c p input e s _ _ failure =>
    rintro e' ⟨⟩
    exact other e failure
  | @fault c p input e s scanned _ result =>
    rintro e' ⟨⟩ tooMany
    obtain ⟨f, q, rfl, -, comment, -⟩ :=
      Scan.token_faults p input settings c e (by rw [scanned, result])
    obtain rfl : f = .tooManySemicolons := by simpa using tooMany
    rw [comment rfl] at dropped
    cases dropped
  | skipped _ _ _ _ ih => exact ih
  | token _ _ _ _ ih => exact ih

/-- The blanks and comments of a text are only added to its other tokens, at the same positions and
with the same fault at their end, and the same data are read. Only a comment with too many
semicolons ends the tokens where it stands if comments are kept. -/
theorem retention (settings : Settings) (cs : List Char) (p : Pos) :
    let source := Source.ofChars cs p
    let kept := ofSource settings source
    let plain := ofSource settings.skipping source
    ((∀ q, kept.stop ≠ some ⟨.lexical .tooManySemicolons, q⟩) →
      meant kept.pairs = plain.pairs ∧ kept.stop = plain.stop ∧
        source.readAll settings = source.readAll settings.skipping) ∧
    ∀ q, kept.stop = some ⟨.lexical .tooManySemicolons, q⟩ →
      meant kept.pairs = plain.pairs.filter fun x => x.2 < q := by
  intro source kept plain
  have makes : Makes settings none source.input kept := makes_iff.2 rfl
  obtain ⟨ts', makes', together⟩ := makes.skipping
  obtain rfl : ts' = plain := (makes_iff.1 makes').symm
  cases together with
  | all pairs stop =>
    refine ⟨fun _ => ⟨pairs, stop, ?_⟩, ?_⟩
    · have improper : settings.modes.allowImproperLists =
          settings.skipping.modes.allowImproperLists := rfl
      have read : (Reader.ofTokens settings.modes kept.pairs kept.stop).readAll.1 =
          (Reader.ofTokens settings.skipping.modes plain.pairs plain.stop).readAll.1 := by
        rw [← Reader.readAll_meant, pairs, stop]
        exact Reader.readAll_modes improper _
      exact read
    · intro q tooMany
      rw [stop] at tooMany
      exact absurd rfl (makes'.stop_skipping rfl (by simp) _ tooMany)
  | @cut q earlier later more split stop pairs before after =>
    refine ⟨fun none => absurd stop (none q), ?_⟩
    intro q' stop'
    obtain rfl : q = q' := by
      rw [stop] at stop'
      simpa using stop'
    -- The positions of a text increase, so a token stands before the comment if its position does.
    have increase := Input.positions_increase cs p
    rw [show (Input.ofChars cs p).map Prod.snd = _ from split, List.pairwise_append,
      List.pairwise_cons] at increase
    obtain ⟨-, ⟨behind, -⟩, ahead⟩ := increase
    rw [← pairs, List.filter_append, List.filter_eq_self.2, List.filter_eq_nil_iff.2,
      List.append_nil]
    · intro x member
      have later := behind x.2 (after.subset (List.mem_map_of_mem member))
      simp only [decide_eq_true_eq, Pos.lt_def] at later ⊢
      omega
    · intro x member
      have earlier := before.subset (List.mem_map_of_mem member)
      exact decide_eq_true (ahead x.2 earlier q List.mem_cons_self)

end Tokens

end Sexpr
