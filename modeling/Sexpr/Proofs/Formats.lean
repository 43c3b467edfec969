import Mathlib.Data.List.Forall2
import Sexpr.Proofs.Scan.Formats
import Sexpr.Proofs.Tokens.Steps

/-!
The tokens of a text under two formats that differ in one flag.

- `Makes.sameBut`: where every single scan gives the same except at certain places, so do all of
  them together.
- `flags_change_named`: a flag changes the tokens that it is about and no others, and no place.
-/

namespace Sexpr.Tokens

/-- A token that may stand in the stead of another one: at certain places it is one that the other
becomes, and everywhere else the same. -/
inductive Replaced (place : Char → Input → Prop) (becomes : Token → Token → Prop) (input : Input) :
    Lexeme → Lexeme → Prop
  | same {l : Lexeme} {c : Char} {later : Input} (begins : (c, l.pos) :: later <:+ input)
      (elsewhere : ¬ place c later) : Replaced place becomes input l l
  | other {l : Lexeme} {t : Token} {c : Char} {later : Input}
      (begins : (c, l.pos) :: later <:+ input) (here : place c later) (turns : becomes l.token t) :
      Replaced place becomes input l { l with token := t }

/-- The same tokens with the same end, except at certain places of the input. -/
structure SameBut (place : Char → Input → Prop) (becomes : Token → Token → Prop) (input : Input)
    (ts ts' : Tokens) : Prop where
  lexemes : List.Forall₂ (Replaced place becomes input) ts.lexemes ts'.lexemes
  stop : ts'.stop = ts.stop
  untaken : ts'.untaken = ts.untaken

/-- The same for one scan, of which a place may make a fault too. -/
inductive Alike (place : Char → Input → Prop) (becomes : Token → Token → Prop) (c : Char)
    (input : Input) : Scan (Option Token) → Scan (Option Token) → Prop
  | same {s : Scan (Option Token)} (faulty : place c input → ∃ e, s.result = .error e) :
      Alike place becomes c input s s
  | replaced {t t' : Token} {rest : Input} {peeked : Bool} (here : place c input)
      (turns : becomes t t') :
      Alike place becomes c input ⟨.ok (some t), rest, peeked⟩ ⟨.ok (some t'), rest, peeked⟩

variable {place : Char → Input → Prop} {becomes : Token → Token → Prop}
  {settings settings' : Settings} {failure? : Option ReadError} {input input' : Input}
  {ts : Tokens}

theorem Replaced.mono {l l' : Lexeme} (h : Replaced place becomes input l l')
    (suffix : input <:+ input') : Replaced place becomes input' l l' := by
  cases h with
  | same begins elsewhere => exact .same (begins.trans suffix) elsewhere
  | other begins here turns => exact .other (begins.trans suffix) here turns

/-- Nothing is kept between tokens, so what holds of every scan holds of all of them in a row. -/
theorem Makes.sameBut
    (alike : ∀ c p input, Alike place becomes c input (Scan.token settings c p input)
      (Scan.token settings' c p input))
    (h : Makes settings failure? input ts) :
    ∃ ts', Makes settings' failure? input ts' ∧ SameBut place becomes input ts ts' := by
  have scans {c : Char} {p : Pos} {input : Input} {s : Scan (Option Token)}
      (scanned : Scan.token settings c p input = s) :
      ∃ s', Scan.token settings' c p input = s' ∧ Alike place becomes c input s s' := by
    rw [← scanned]
    exact ⟨_, rfl, alike c p input⟩
  induction h with
  | ended => exact ⟨_, .ended, .nil, rfl, rfl⟩
  | @failed c p input e s scanned ends failure =>
    obtain ⟨s', scanned', step⟩ := scans scanned
    cases step with
    | same | replaced => exact ⟨_, .failed scanned' ends failure, .nil, rfl, rfl⟩
  | @fault c p input e s scanned goesOn result =>
    obtain ⟨s', scanned', step⟩ := scans scanned
    cases step with
    | same => exact ⟨_, .fault scanned' goesOn result, .nil, rfl, rfl⟩
    | replaced => cases result
  | @skipped c p input s ts scanned goesOn result more ih =>
    obtain ⟨ts', more', lexemes, stop, untaken⟩ := ih
    obtain ⟨s', scanned', step⟩ := scans scanned
    cases step with
    | same =>
      have within := lexemes.imp fun l l' h => h.mono (scan_suffix scanned)
      exact ⟨ts', .skipped scanned' goesOn result more', within, stop, untaken⟩
    | replaced => cases result
  | @token c p input s t ts scanned goesOn result more ih =>
    obtain ⟨ts', more', lexemes, stop, untaken⟩ := ih
    have within := lexemes.imp fun l l' h => h.mono (scan_suffix scanned)
    obtain ⟨s', scanned', step⟩ := scans scanned
    cases step with
    | same faulty =>
      have elsewhere : ¬ place c input := by
        intro here
        obtain ⟨e, failed⟩ := faulty here
        rw [result] at failed
        cases failed
      exact ⟨_, .token scanned' goesOn result more',
        .cons (.same (List.suffix_refl _) elsewhere) within, stop, untaken⟩
    | replaced here turns =>
      cases result
      exact ⟨_, .token scanned' goesOn rfl more',
        .cons (.other (List.suffix_refl _) here turns) within, stop, untaken⟩

theorem ofSource_sameBut
    (alike : ∀ c p input, Alike place becomes c input (Scan.token settings c p input)
      (Scan.token settings' c p input)) (s : Source) :
    SameBut place becomes s.input (ofSource settings s) (ofSource settings' s) := by
  have makes : Makes settings s.failure? s.input (ofSource settings s) := makes_iff.2 rfl
  obtain ⟨ts', makes', same⟩ := makes.sameBut alike
  rwa [← makes_iff.1 makes'] at same

/-! ## The flags -/

section Flags

variable (fmt : Format) {c : Char} {p : Pos} {s s' : Scan (Option Token)}

theorem hashColon_alike
    (h : Scan.Compares { fmt with hashColonIsKeyword := false }
      { fmt with hashColonIsKeyword := true } c p input s s') :
    Alike Scan.HashColonAt
      (fun t t' => ∃ name, t = .atom (.uninterned name) ∧ t' = .atom (.leadingKeyword name))
      c input s s' := by
  cases h with
  | same noColon => exact .same fun here => absurd here noColon
  | hashColon stands s =>
    obtain ⟨result, rest, peeked⟩ := s
    cases result with
    | error e => exact .same fun _ => ⟨e, rfl⟩
    | ok name => exact .replaced stands ⟨name, rfl, rfl⟩
  | loneDot stands =>
    refine .same fun here => absurd here (Scan.not_hashColonAt ?_)
    rw [stands.1]
    decide
  | longBoolean stands => exact .same fun here => absurd here stands.not_hashColonAt

theorem loneDot_alike
    (h : Scan.Compares { fmt with hasDottedPairs := false } { fmt with hasDottedPairs := true }
      c p input s s') :
    Alike Scan.LoneDotAt (fun t t' => t = .atom (.symbol ".") ∧ t' = .dot) c input s s' := by
  have hash (is : c = '#') : ¬ Scan.LoneDotAt c input := by
    apply Scan.not_loneDotAt
    rw [is]
    decide
  cases h with
  | same _ noDot => exact .same fun here => absurd here noDot
  | hashColon stands s => exact .same fun here => absurd here (hash stands.1)
  | loneDot stands => exact .replaced stands ⟨rfl, rfl⟩
  | longBoolean stands => exact .same fun here => absurd here (hash stands.1)

/-- With long booleans the scan is the same, or it is one of them that was a fault before. -/
theorem longBoolean_alike
    (h : Scan.Compares { fmt with longBooleans := false } { fmt with longBooleans := true }
      c p input s s') :
    s' = s ∨ ∃ b rest, Scan.LongBooleanAt b c input ∧ s = .faultUpTo .invalidHash p rest ∧
      s' = .upTo (some (.atom (.bool b))) rest := by
  cases h with
  | same | hashColon | loneDot => exact .inl rfl
  | longBoolean stands => exact .inr ⟨_, _, stands, rfl, rfl⟩

end Flags

/-- The tokens go on where a long boolean ended them, and are the same otherwise. -/
inductive GoesOn (input : Input) (ts : Tokens) : Tokens → Prop
  | same : GoesOn input ts ts
  | further {b : Bool} {c : Char} {later : Input} {l : Lexeme} {more : List Lexeme}
      {stop : Option ReadError} {untaken : Input} (begins : (c, l.pos) :: later <:+ input)
      (stands : Scan.LongBooleanAt b c later)
      (stopped : ts.stop = some ⟨.lexical .invalidHash, l.pos⟩)
      (token : l.token = .atom (.bool b)) :
      GoesOn input ts ⟨ts.lexemes ++ l :: more, stop, untaken⟩

theorem Makes.goesOn {fmt : Format} {modes : Modes}
    (h : Makes ⟨{ fmt with longBooleans := false }, modes⟩ failure? input ts) :
    ∃ ts', Makes ⟨{ fmt with longBooleans := true }, modes⟩ failure? input ts' ∧
      GoesOn input ts ts' := by
  have scans (c : Char) (p : Pos) (input : Input) :=
    longBoolean_alike fmt (Scan.token_formats (by constructor <;> rfl) modes c p input)
  have later {c : Char} {p : Pos} {input : Input} {s : Scan (Option Token)}
      (scanned : Scan.token ⟨{ fmt with longBooleans := false }, modes⟩ c p input = s)
      {ts ts' : Tokens} (front : List Lexeme) (h : GoesOn s.rest ts ts') :
      GoesOn ((c, p) :: input) ⟨front ++ ts.lexemes, ts.stop, ts.untaken⟩
        ⟨front ++ ts'.lexemes, ts'.stop, ts'.untaken⟩ := by
    cases h with
    | same => exact .same
    | further begins stands stopped token =>
      rw [← List.append_assoc]
      exact .further (begins.trans (scan_suffix scanned)) stands stopped token
  induction h with
  | ended => exact ⟨_, .ended, .same⟩
  | @failed c p input e s scanned ends failure =>
    rcases scans c p input with same | ⟨b, rest, stands, off, on⟩
    · exact ⟨_, .failed (same.trans scanned) ends failure, .same⟩
    · rw [scanned] at off
      subst off
      exact ⟨_, .failed on ends failure, .same⟩
  | @fault c p input e s scanned goesOn result =>
    rcases scans c p input with same | ⟨b, rest, stands, off, on⟩
    · exact ⟨_, .fault (same.trans scanned) goesOn result, .same⟩
    · rw [scanned] at off
      subst off
      cases result
      obtain ⟨ts', more⟩ := @exists_makes ⟨{ fmt with longBooleans := true }, modes⟩ failure? rest
      exact ⟨_, .token on goesOn rfl more, .further (List.suffix_refl _) stands rfl rfl⟩
  | @skipped c p input s ts scanned goesOn result more ih =>
    obtain ⟨ts', more', ends⟩ := ih
    rcases scans c p input with same | ⟨b, rest, stands, off, on⟩
    · exact ⟨ts', .skipped (same.trans scanned) goesOn result more', later scanned [] ends⟩
    · rw [scanned] at off
      subst off
      cases result
  | @token c p input s t ts scanned goesOn result more ih =>
    obtain ⟨ts', more', ends⟩ := ih
    rcases scans c p input with same | ⟨b, rest, stands, off, on⟩
    · exact ⟨_, .token (same.trans scanned) goesOn result more', later scanned [_] ends⟩
    · rw [scanned] at off
      subst off
      cases result

theorem ofSource_goesOn (fmt : Format) (modes : Modes) (s : Source) :
    GoesOn s.input (ofSource ⟨{ fmt with longBooleans := false }, modes⟩ s)
      (ofSource ⟨{ fmt with longBooleans := true }, modes⟩ s) := by
  have makes : Makes ⟨{ fmt with longBooleans := false }, modes⟩ s.failure? s.input
    (ofSource _ s) := makes_iff.2 rfl
  obtain ⟨ts', makes', goesOn⟩ := makes.goesOn
  rwa [← makes_iff.1 makes'] at goesOn

/-- In the tokens of a text, which may end in a failure of its source,

- whether names after `#:` are keywords decides only what kind of name stands at a `#:`,
- whether there are dotted pairs decides only what a lone point is,
- to allow long booleans leaves the tokens as they are if they ended without a fault; otherwise it
  leaves those before the fault, and everything unless `#true` or `#false` was at fault.

Each token keeps its position, and so does the end of the tokens. -/
theorem flags_change_named (fmt : Format) (modes : Modes) (text : List Char) (start : Pos)
    (ending : Ending) :
    let source : Source := ⟨.ofChars text start, ending⟩
    let tokens (fmt : Format) := ofSource ⟨fmt, modes⟩ source
    let short := tokens { fmt with longBooleans := false }
    let long := tokens { fmt with longBooleans := true }
    SameBut Scan.HashColonAt
      (fun t t' => ∃ name, t = .atom (.uninterned name) ∧ t' = .atom (.leadingKeyword name))
      source.input (tokens { fmt with hashColonIsKeyword := false })
      (tokens { fmt with hashColonIsKeyword := true }) ∧
    SameBut Scan.LoneDotAt (fun t t' => t = .atom (.symbol ".") ∧ t' = .dot) source.input
      (tokens { fmt with hasDottedPairs := false }) (tokens { fmt with hasDottedPairs := true }) ∧
    (short.stop = none → long = short) ∧
    short.lexemes <+: long.lexemes ∧
    ∀ e, short.stop = some e → long = short ∨
      e.fault = .lexical .invalidHash ∧
        ∃ b c later, (c, e.pos) :: later <:+ source.input ∧ Scan.LongBooleanAt b c later := by
  intro source tokens short long
  refine ⟨ofSource_sameBut (fun c p input => ?_) source,
    ofSource_sameBut (fun c p input => ?_) source, ?_⟩
  · exact hashColon_alike fmt (Scan.token_formats (by constructor <;> rfl) modes c p input)
  · exact loneDot_alike fmt (Scan.token_formats (by constructor <;> rfl) modes c p input)
  have goesOn : GoesOn source.input short long := ofSource_goesOn fmt modes source
  generalize long = ts' at goesOn ⊢
  generalize short = ts at goesOn ⊢
  cases goesOn with
  | same => exact ⟨fun _ => rfl, List.prefix_refl _, fun _ _ => .inl rfl⟩
  | further begins stands stopped token =>
    refine ⟨?_, List.prefix_append _ _, ?_⟩
    · intro ended
      rw [ended] at stopped
      cases stopped
    · intro e failed
      rw [failed] at stopped
      cases stopped
      exact .inr ⟨rfl, _, _, _, begins, stands⟩

end Sexpr.Tokens
