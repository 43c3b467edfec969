import Sexpr.Proofs.Scan.Steps

/-!
The text of a token that is no atom.

- `token_verbatim`: it is what was taken from the input.
-/

namespace Sexpr.Scan

variable {settings : Settings} {c : Char} {p : Pos} {input : Input} {t : Token}

/-- A scan gives a token whose text, unless it is an atom, is what was taken after `before`. -/
def Verbatim (before : List Char) (input : Input) (s : Scan (Option Token)) : Prop :=
  ∀ t, s.result = .ok (some t) → t.className ≠ "AtomToken" →
    ∃ text, (∀ limit, t.text limit = .ok text) ∧
      before ++ input.map Prod.fst = text.toList ++ s.rest.map Prod.fst

theorem verbatim_atom {α : Type} {before : List Char} (s : Scan α) (f : α → Atom) :
    Verbatim before input (s.map fun a => some (.atom (f a))) := by
  intro t h noAtom
  obtain ⟨a, -, ⟨⟩⟩ := map_eq_ok h
  exact absurd rfl noAtom

theorem blockCommentFrom_chars {start : Pos} {found : List Char} {inner : Nat} {s : String}
    (h : (blockCommentFrom start found inner input).result = .ok s) :
    found.reverse ++ input.map Prod.fst =
      s.toList ++ ['|', '#'] ++ (blockCommentFrom start found inner input).rest.map Prod.fst := by
  fun_induction blockCommentFrom start found inner input with
  | case1 => cases h
  | case2 found p q rest =>
    cases h
    simp [done]
  | case3 found p q rest inner ih => simpa using ih h
  | case4 found inner p q rest ih => simpa using ih h
  | case5 found inner c p rest noClose noOpen ih => simpa using ih h

theorem lineComment_chars {start : Pos} {cs : List Char} {t : Token}
    (h : lineComment start cs = .ok t) (limit : DigitLimit) :
    t.text limit = .ok (String.ofList (';' :: cs)) := by
  obtain rfl := lineComment_eq_ok h
  have semicolons : cs.takeWhile (· == ';') =
      List.replicate (cs.takeWhile (· == ';')).length ';' := by
    apply List.eq_replicate_iff.2
    refine ⟨rfl, ?_⟩
    intro c hc
    simpa using List.all_eq_true.1 List.all_takeWhile c hc
  have more (n : Nat) : ((n : Int) + 1).toNat = n + 1 := by omega
  simp only [Token.text, splitSemicolons, more, List.replicate_succ]
  rw [← semicolons, ← String.ofList_append, List.cons_append, List.takeWhile_append_dropWhile]

theorem hash_verbatim (fmt : Format) (modes : Modes) (p : Pos) (input : Input) :
    Verbatim ['#'] input (hash fmt modes p input) := by
  fun_cases hash fmt modes p input with
  | case1 => rintro t ⟨⟩
  | case2 p rest => exact verbatim_atom _ .char
  | case3 p rest =>
    rintro t ⟨⟩ -
    exact ⟨"#;", fun _ => rfl, by simp [done]⟩
  | case4 p rest =>
    intro t h noAtom
    obtain ⟨s, found, kept⟩ := map_eq_ok h
    split at kept
    · cases kept
      have chars := blockCommentFrom_chars found
      refine ⟨"#|" ++ s ++ "|#", fun _ => rfl, ?_⟩
      simpa [blockComment] using chars
    · cases kept
  | case5 p rest => exact verbatim_atom _ _
  | case6 p rest cs rest' ran =>
    intro t h noAtom
    obtain ⟨t, found, ⟨⟩⟩ := map_eq_ok h
    obtain ⟨ds, -, named⟩ := check_eq_ok found
    obtain ⟨x, rfl⟩ := specialNamed_eq_ok named
    exact absurd rfl noAtom
  | case7 c p rest _ _ _ _ _ cs rest' ran =>
    intro t h noAtom
    obtain ⟨t, found, ⟨⟩⟩ := map_eq_ok h
    obtain ⟨ds, -, spelled⟩ := check_eq_ok found
    obtain ⟨b, rfl⟩ := boolSpelled_eq_ok spelled
    exact absurd rfl noAtom

theorem token_verbatim (settings : Settings) (c : Char) (p : Pos) (input : Input) :
    Verbatim [c] input (token settings c p input) := by
  cases begins c with
  | opening k =>
    rw [token_opening]
    rintro t ⟨⟩ -
    exact ⟨String.singleton k.opening, fun _ => rfl, by simp [done]⟩
  | closing k =>
    rw [token_closing]
    rintro t ⟨⟩ -
    exact ⟨String.singleton k.closing, fun _ => rfl, by simp [done]⟩
  | blank blank =>
    rw [token_blank settings p input blank]
    intro t h _
    cases kept : settings.modes.retainWhitespace with
    | false => simp [upTo, kept] at h
    | true =>
      simp only [upTo, kept, if_true, Except.ok.injEq, Option.some.injEq] at h
      refine ⟨String.ofList (c :: (run Text.isBlank input).1), fun _ => by rw [← h]; rfl, ?_⟩
      have chars := run_chars Text.isBlank input
      simpa [upTo] using chars
  | comment =>
    rw [token_comment]
    split
    · intro t h _
      obtain ⟨t, ok, ⟨⟩⟩ := map_eq_ok h
      obtain ⟨cs, whole, comment⟩ := check_eq_ok ok
      cases whole
      refine ⟨_, lineComment_chars comment, ?_⟩
      have chars := run_chars (· != '\n') input
      simpa [upTo, map, check] using chars
    · rintro t ⟨⟩
  | hash => exact hash_verbatim settings.format settings.modes p input
  | string => exact verbatim_atom _ .string
  | barred => exact verbatim_atom _ .symbol
  | quote | quasiquote =>
    rintro t ⟨⟩ -
    exact ⟨_, fun _ => rfl, rfl⟩
  | unquote =>
    rcases splicing_or input with ⟨q, rest, rfl⟩ | alone
    · rintro t ⟨⟩ -
      exact ⟨",@", fun _ => rfl, rfl⟩
    · rw [token_unquote settings p input alone]
      rintro t ⟨⟩ -
      exact ⟨",", fun _ => rfl, rfl⟩
  | bare plain comment hash =>
    rw [token_bare settings p input plain comment hash]
    intro t h noAtom
    simp only [upTo, Except.ok.injEq, Option.some.injEq] at h
    unfold bareToken at h
    split at h
    · rename_i dot
      subst h
      have chars := run_chars Text.isSymbolChar input
      obtain ⟨rfl, none⟩ := List.cons.inj dot.1
      rw [none] at chars
      refine ⟨".", fun _ => rfl, ?_⟩
      simpa [upTo] using chars
    · subst h
      exact absurd rfl noAtom

end Sexpr.Scan
