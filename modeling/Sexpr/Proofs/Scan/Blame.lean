import Sexpr.Proofs.Scan.Steps

/-!
Where the faults of scanning stand.

- `token_blames`: at a character that the scan has taken, and if the fault names the character that
  it stands at, that is the one.
-/

namespace Sexpr

/-- The character that a fault complains of where it stands. -/
def LexicalFault.char? : LexicalFault → Option Char
  | .invalidEscape c | .nonHexDigit c => some c
  | _ => none

/-- The error is one of the characters, and stands at one of those that have been taken. -/
def ReadError.PointsInto (taken : Input) (e : ReadError) : Prop :=
  ∃ c f, (c, e.pos) ∈ taken ∧ e.fault = .lexical f ∧ ∀ x ∈ f.char?, x = c

namespace Scan

variable {α β : Type} {s : Scan α} {own used input rest : Input} {c : Char} {p start : Pos}
  {f : LexicalFault}

/-- A fault points into what the scan has taken, or into `own`, which was taken before it. -/
def Blames (own input : Input) (s : Scan α) : Prop :=
  ∀ e, s.result = .error e → ∃ used, input = used ++ s.rest ∧ e.PointsInto (own ++ used)

theorem blames_ok {a : α} (result : s.result = .ok a) : s.Blames own input := by
  intro e failed
  rw [result] at failed
  cases failed

/-- The fault stands at a character from before. -/
theorem blames_before (before : p ∈ own.map Prod.snd) (unnamed : f.char? = none)
    (result : s.result = .error ⟨.lexical f, p⟩) (left : s.rest <:+ input) :
    s.Blames own input := by
  intro e failed
  rw [result] at failed
  cases failed
  obtain ⟨used, rfl⟩ := left
  obtain ⟨⟨c, q⟩, member, rfl⟩ := List.mem_map.1 before
  refine ⟨used, rfl, c, f, List.mem_append_left used member, rfl, ?_⟩
  rw [unnamed]
  simp

/-- The fault stands at the first character. -/
theorem blames_here (named : ∀ x ∈ f.char?, x = c) (rest : Input) :
    (fault f p rest : Scan α).Blames own ((c, p) :: rest) := by
  rintro e ⟨⟩
  exact ⟨[(c, p)], rfl, c, f, by simp, rfl, named⟩

theorem Blames.after (h : s.Blames (own ++ used) rest) : s.Blames own (used ++ rest) := by
  intro e failed
  obtain ⟨more, rfl, points⟩ := h e failed
  refine ⟨used ++ more, (List.append_assoc used more s.rest).symm, ?_⟩
  rwa [List.append_assoc] at points

theorem Blames.more (h : s.Blames own input) (used : Input) : s.Blames (own ++ used) input := by
  intro e failed
  obtain ⟨taken, rfl, c, f, member, points⟩ := h e failed
  refine ⟨taken, rfl, c, f, ?_, points⟩
  rcases List.mem_append.1 member with before | here
  · exact List.mem_append_left _ (List.mem_append_left _ before)
  · exact List.mem_append_right _ here

theorem Blames.later (h : s.Blames own rest) (left : rest <:+ input) : s.Blames own input := by
  obtain ⟨used, rfl⟩ := left
  exact (h.more used).after

theorem Blames.map (h : s.Blames own input) (g : α → β) : (s.map g).Blames own input := by
  intro e failed
  apply h e
  cases result : s.result with
  | error e' => simpa [Scan.map, result, Except.map] using failed
  | ok a => simp [Scan.map, result, Except.map] at failed

/-- What a check finds wrong stands at one place. -/
def ChecksAt (p : Pos) (g : α → Except ReadError β) : Prop :=
  ∀ a e, g a = .error e → ∃ f, e = ⟨.lexical f, p⟩ ∧ f.char? = none

theorem Blames.check {g : α → Except ReadError β} (h : s.Blames own input) (checks : ChecksAt p g)
    (before : p ∈ own.map Prod.snd) (left : s.rest <:+ input) : (s.check g).Blames own input := by
  cases result : s.result with
  | error e' =>
    intro e failed
    apply h e
    simpa [Scan.check, result, Except.bind] using failed
  | ok a =>
    have checked : (s.check g).result = g a := by simp [Scan.check, result, Except.bind]
    cases bad : g a with
    | ok b => exact blames_ok (checked.trans bad)
    | error e =>
      obtain ⟨f, rfl, unnamed⟩ := checks a e bad
      exact blames_before before unnamed (checked.trans bad) left

theorem checksAt_codeChar (p : Pos) : ChecksAt p (codeChar p) := by
  intro code e bad
  exact ⟨_, codeChar_eq_error bad, rfl⟩

theorem checksAt_charOfSpelling (p : Pos) :
    ChecksAt p fun x : Char × List Char => charOfSpelling p x.1 x.2 := by
  intro x e bad
  rcases charOfSpelling_eq_error bad with ⟨code, same⟩ | same
  · exact ⟨_, same, rfl⟩
  · exact ⟨_, same, rfl⟩

theorem checksAt_specialNamed (p : Pos) : ChecksAt p (specialNamed p) := by
  intro cs e bad
  exact ⟨_, specialNamed_eq_error bad, rfl⟩

theorem checksAt_boolSpelled (fmt : Format) (p : Pos) : ChecksAt p (boolSpelled fmt p) := by
  intro cs e bad
  exact ⟨_, boolSpelled_eq_error bad, rfl⟩

theorem checksAt_lineComment (p : Pos) : ChecksAt p (lineComment p) := by
  intro cs e bad
  exact ⟨_, lineComment_eq_error bad, rfl⟩

/-! ## The scanners -/

section Scanners

variable (fmt : Format) (input : Input)

theorem codeDigits_blames (begins : start ∈ own.map Prod.snd) (ends : CodeEnd) (limit : Int)
    (digits code : Nat) : (codeDigits ends limit start digits code input).Blames own input := by
  fun_induction codeDigits ends limit start digits code input with
  | case1 | case4 | case6 | case8 => exact blames_ok rfl
  | case2 => exact blames_before begins rfl rfl (List.suffix_refl _)
  | case3 | case7 | case9 => exact blames_here (by simp [LexicalFault.char?]) _
  | case5 _ _ _ _ _ _ _ _ _ ih => exact ih.later (List.suffix_cons _ _)

theorem hexChar_blames {letter : Pos} (begins : start ∈ own.map Prod.snd)
    (before : letter ∈ own.map Prod.snd) (ends : CodeEnd) (limit : Int) :
    (hexChar ends limit start letter input).Blames own input :=
  (codeDigits_blames input begins ends limit 0 0).check (checksAt_codeChar letter) before
    (codeDigits_rest_suffix ends limit start 0 0 input)

theorem octalDigits_ok (n code : Nat) (input : Input) :
    ∃ value, (octalDigits n code input).result = .ok value := by
  fun_induction octalDigits n code input with
  | case1 | case2 | case4 => exact ⟨_, rfl⟩
  | case3 _ _ _ _ _ _ _ ih => exact ih

theorem escape_blames (begins : start ∈ own.map Prod.snd) :
    (escape fmt start input).Blames own input := by
  -- The letter of the escape has been taken when its digits are read.
  have code {c : Char} {p : Pos} {rest : Input} (ends : CodeEnd) (limit : Int) :
      ((hexChar ends limit start p rest).map Piece.char).Blames own ((c, p) :: rest) := by
    have begins' : start ∈ (own ++ [(c, p)]).map Prod.snd := by simp [begins]
    have letter : p ∈ (own ++ [(c, p)]).map Prod.snd := by simp
    have digits := (hexChar_blames rest begins' letter ends limit).map Piece.char
    exact digits.after
  fun_cases escape fmt start input with
  | case1 => exact blames_before begins rfl rfl (List.suffix_refl _)
  | case2 | case6 | case8 => exact blames_ok rfl
  | case3 | case4 | case5 => exact code _ _
  | case7 e p rest _ _ _ _ _ d =>
    obtain ⟨value, result⟩ := octalDigits_ok 2 d rest
    exact blames_ok (by rw [Scan.map, result]; rfl)
  | case9 | case10 => exact blames_here (by simp [LexicalFault.char?]) _

theorem piece_blames (begins : start ∈ own.map Prod.snd) (delimiter : Char) :
    (piece fmt delimiter start input).Blames own input := by
  fun_cases piece fmt delimiter start input with
  | case1 => exact blames_before begins rfl rfl (List.suffix_refl _)
  | case2 | case4 => exact blames_ok rfl
  | case3 => exact (escape_blames fmt _ begins).later (List.suffix_cons _ _)

theorem delimitedFrom_blames (begins : start ∈ own.map Prod.snd) (delimiter : Char)
    (found : List Char) : (delimitedFrom fmt delimiter start found input).Blames own input := by
  fun_induction delimitedFrom fmt delimiter start found input with
  | case1 found input s e failed =>
    rintro e' ⟨⟩
    exact piece_blames fmt input begins delimiter e failed
  | case2 => exact blames_ok rfl
  | case3 found input s cs more ih =>
    exact ih.later (piece_rest_suffix fmt delimiter start input)

theorem blockCommentFrom_blames (begins : start ∈ own.map Prod.snd) (found : List Char)
    (inner : Nat) : (blockCommentFrom start found inner input).Blames own input := by
  fun_induction blockCommentFrom start found inner input with
  | case1 => exact blames_before begins rfl rfl (List.suffix_refl _)
  | case2 => exact blames_ok rfl
  | case3 _ _ _ _ _ ih => exact (ih.later (List.suffix_cons _ _)).later (List.suffix_cons _ _)
  | case4 _ _ _ _ _ ih => exact (ih.later (List.suffix_cons _ _)).later (List.suffix_cons _ _)
  | case5 _ _ _ _ _ _ _ ih => exact ih.later (List.suffix_cons _ _)

/-- A run that is checked where the token begins. -/
theorem run_blames {g : α → Except ReadError β} (checks : ChecksAt p g)
    (before : p ∈ own.map Prod.snd) (a : α) (pred : Char → Bool) :
    ((upTo a (run pred input).2).check g).Blames own input :=
  (blames_ok rfl).check checks before (run_rest_suffix pred input)

theorem charLiteral_blames (begins : start ∈ own.map Prod.snd) :
    (charLiteral start input).Blames own input := by
  cases input with
  | nil => exact blames_before begins rfl rfl (List.suffix_refl _)
  | cons x rest =>
    exact (run_blames rest (checksAt_charOfSpelling start) begins _ _).later (List.suffix_cons _ _)

theorem hashColonName_blames (begins : start ∈ own.map Prod.snd) :
    (hashColonName fmt start input).Blames own input := by
  fun_cases hashColonName fmt start input with
  | case1 => exact blames_before begins rfl rfl (List.suffix_refl _)
  | case2 p rest => exact (delimitedFrom_blames fmt rest begins '|' []).later (List.suffix_cons _ _)
  | case3 => exact blames_ok rfl

theorem hash_blames (begins : start ∈ own.map Prod.snd) (modes : Modes) :
    (hash fmt modes start input).Blames own input := by
  fun_cases hash fmt modes start input with
  | case1 => exact blames_before begins rfl rfl (List.suffix_refl _)
  | case2 p rest => exact ((charLiteral_blames rest begins).map _).later (List.suffix_cons _ _)
  | case3 => exact blames_ok rfl
  | case4 p rest =>
    exact ((blockCommentFrom_blames rest begins [] 0).map _).later (List.suffix_cons _ _)
  | case5 p rest => exact ((hashColonName_blames fmt rest begins).map _).later (List.suffix_cons _ _)
  | case6 p rest _ _ ran =>
    have named := run_blames rest (checksAt_specialNamed start) begins
      (run Text.isAsciiLetter rest).1 Text.isAsciiLetter
    rw [ran] at named
    exact (named.map _).later (List.suffix_cons _ _)
  | case7 c p rest _ _ _ _ _ _ _ ran =>
    have spelled := run_blames ((c, p) :: rest) (checksAt_boolSpelled fmt start) begins
      (run Text.isAsciiLetter ((c, p) :: rest)).1 Text.isAsciiLetter
    rw [ran] at spelled
    exact spelled.map _

end Scanners

/-- A fault of a token stands at one of the characters that were taken for it, its first one
included. -/
theorem token_blames (settings : Settings) (c : Char) (p : Pos) (input : Input) :
    (token settings c p input).Blames [(c, p)] input := by
  have own (c : Char) : p ∈ [(c, p)].map Prod.snd := List.mem_singleton_self p
  cases begins c with
  | opening k =>
    rw [token_opening]
    exact blames_ok rfl
  | closing k =>
    rw [token_closing]
    exact blames_ok rfl
  | blank blank =>
    rw [token_blank settings p input blank]
    exact blames_ok rfl
  | comment =>
    rw [token_comment]
    cases settings.modes.retainComments with
    | true => exact (run_blames input (checksAt_lineComment p) (own ';') _ _).map _
    | false => exact blames_ok rfl
  | hash =>
    rw [token_hash]
    exact hash_blames settings.format input (own '#') settings.modes
  | string | barred => exact (delimitedFrom_blames settings.format input (own _) _ []).map _
  | quote | quasiquote => exact blames_ok rfl
  | unquote =>
    rcases splicing_or input with ⟨q, rest, rfl⟩ | alone
    · exact blames_ok rfl
    · rw [token_unquote settings p input alone]
      exact blames_ok rfl
  | bare plain comment hash =>
    rw [token_bare settings p input plain comment hash]
    exact blames_ok rfl

end Scan

end Sexpr
