import Sexpr.Proofs.Scan.Steps

/-!
The faults of scanning: they are faults of the characters, nothing is found unfinished before the
end of the input is seen, and semicolons are counted only in comments that are kept. A failure of
the source is none of them.

- `token_faults`: so it is for one token.
-/

namespace Sexpr.Scan

variable {α β : Type} {s : Scan α}

/-- What the scan can find wrong. A later piece of the source could still finish what ended with the
input, so that fault needs the end; too many semicolons are found only in comments; and a failure of
the source is not found by scanning. -/
def Faults (comments : Bool) (s : Scan α) : Prop :=
  ∀ e, s.result = .error e →
    ∃ f p, e = ⟨.lexical f, p⟩ ∧ (∀ inside, f = .unexpectedEnd inside → s.sawEnd = true) ∧
      (f = .tooManySemicolons → comments = true) ∧ ∀ message, f ≠ .sourceFailed message

variable {comments : Bool}

@[simp] theorem faults_done (a : α) (rest : Input) : (done a rest).Faults comments := by
  rintro e ⟨⟩

@[simp] theorem faults_upTo (a : α) (rest : Input) : (upTo a rest).Faults comments := by
  rintro e ⟨⟩

theorem faults_atEnd {f : LexicalFault} (p : Pos) (other : f ≠ .tooManySemicolons)
    (own : ∀ message, f ≠ .sourceFailed message) :
    (faultUpTo f p [] : Scan α).Faults comments := by
  rintro e ⟨⟩
  exact ⟨f, p, rfl, fun _ _ => rfl, fun same => absurd same other, own⟩

theorem faults_fault {f : LexicalFault} (p : Pos) (rest : Input)
    (finished : ∀ inside, f ≠ .unexpectedEnd inside) (other : f ≠ .tooManySemicolons)
    (own : ∀ message, f ≠ .sourceFailed message) :
    (fault f p rest : Scan α).Faults comments := by
  rintro e ⟨⟩
  exact ⟨f, p, rfl, fun inside same => absurd same (finished inside),
    fun same => absurd same other, own⟩

theorem Faults.map (h : s.Faults comments) (f : α → β) : (s.map f).Faults comments := by
  intro e failed
  apply h e
  cases result : s.result with
  | error e' => simpa [Scan.map, result, Except.map] using failed
  | ok a => simp [Scan.map, result, Except.map] at failed

/-- The fault that a check finds is none of the end. -/
def Checks (comments : Bool) (f : α → Except ReadError β) : Prop :=
  ∀ a e, f a = .error e → ∃ g p, e = ⟨.lexical g, p⟩ ∧ (∀ inside, g ≠ .unexpectedEnd inside) ∧
    (g = .tooManySemicolons → comments = true) ∧ ∀ message, g ≠ .sourceFailed message

theorem Faults.check (h : s.Faults comments) {f : α → Except ReadError β}
    (checks : Checks comments f) : (s.check f).Faults comments := by
  intro e failed
  cases result : s.result with
  | error e' =>
    apply h e
    simpa [Scan.check, result, Except.bind] using failed
  | ok a =>
    have bad : f a = .error e := by simpa [Scan.check, result, Except.bind] using failed
    obtain ⟨g, p, rfl, finished, comment, own⟩ := checks a e bad
    exact ⟨g, p, rfl, fun inside same => absurd same (finished inside), comment, own⟩

theorem checks_codeChar (p : Pos) : Checks comments (codeChar p) := by
  intro code e bad
  obtain rfl := codeChar_eq_error bad
  exact ⟨_, p, rfl, by simp, by simp, by simp⟩

theorem checks_charOfSpelling (p : Pos) : Checks comments
    fun x : Char × List Char => charOfSpelling p x.1 x.2 := by
  intro x e bad
  rcases charOfSpelling_eq_error bad with ⟨code, rfl⟩ | rfl
  · exact ⟨_, p, rfl, by simp, by simp, by simp⟩
  · exact ⟨_, p, rfl, by simp, by simp, by simp⟩

theorem checks_specialNamed (p : Pos) : Checks comments (specialNamed p) := by
  intro cs e bad
  obtain rfl := specialNamed_eq_error bad
  exact ⟨_, p, rfl, by simp, by simp, by simp⟩

theorem checks_boolSpelled (fmt : Format) (p : Pos) : Checks comments (boolSpelled fmt p) := by
  intro cs e bad
  obtain rfl := boolSpelled_eq_error bad
  exact ⟨_, p, rfl, by simp, by simp, by simp⟩

theorem checks_lineComment (p : Pos) : Checks true (lineComment p) := by
  intro cs e bad
  obtain rfl := lineComment_eq_error bad
  exact ⟨_, p, rfl, by simp, by simp, by simp⟩

/-! ## The scanners -/

variable (fmt : Format) (start : Pos) (input : Input)

theorem codeDigits_faults (ends : CodeEnd) (limit : Int) (digits code : Nat) :
    (codeDigits ends limit start digits code input).Faults comments := by
  fun_induction codeDigits ends limit start digits code input with
  | case1 | case4 | case6 | case8 => simp
  | case2 => exact faults_atEnd _ (by simp) (by simp)
  | case3 | case7 | case9 => exact faults_fault _ _ (by simp) (by simp) (by simp)
  | case5 _ _ _ _ _ _ _ _ _ ih => exact ih

theorem hexChar_faults (ends : CodeEnd) (limit : Int) (pos : Pos) :
    (hexChar ends limit start pos input).Faults comments :=
  (codeDigits_faults start input ends limit 0 0).check (checks_codeChar pos)

theorem octalDigits_faults (n code : Nat) : (octalDigits n code input).Faults comments := by
  fun_induction octalDigits n code input with
  | case1 | case2 | case4 => simp
  | case3 _ _ _ _ _ _ _ ih => exact ih

theorem escape_faults : (escape fmt start input).Faults comments := by
  fun_cases escape fmt start input with
  | case1 => exact faults_atEnd _ (by simp) (by simp)
  | case2 | case8 => exact faults_done _ _
  | case3 | case4 | case5 => exact Faults.map (hexChar_faults start _ _ _ _) _
  | case6 => exact faults_upTo _ _
  | case7 => exact Faults.map (octalDigits_faults _ 2 _) _
  | case9 | case10 => exact faults_fault _ _ (by simp) (by simp) (by simp)

theorem piece_faults (delimiter : Char) : (piece fmt delimiter start input).Faults comments := by
  fun_cases piece fmt delimiter start input with
  | case1 => exact faults_atEnd _ (by simp) (by simp)
  | case2 | case4 => simp
  | case3 => exact escape_faults fmt start _

theorem delimitedFrom_faults (delimiter : Char) (found : List Char) :
    (delimitedFrom fmt delimiter start found input).Faults comments := by
  fun_induction delimitedFrom fmt delimiter start found input with
  | case1 found input s e failed =>
    rintro e' ⟨⟩
    exact piece_faults fmt start input delimiter e failed
  | case2 => simp
  | case3 _ _ _ _ _ ih => exact ih

theorem blockCommentFrom_faults (found : List Char) (inner : Nat) :
    (blockCommentFrom start found inner input).Faults comments := by
  fun_induction blockCommentFrom start found inner input with
  | case1 => exact faults_atEnd _ (by simp) (by simp)
  | case2 => simp
  | case3 _ _ _ _ _ ih => exact ih
  | case4 _ _ _ _ _ ih => exact ih
  | case5 _ _ _ _ _ _ _ ih => exact ih

theorem charLiteral_faults : (charLiteral start input).Faults comments := by
  cases input with
  | nil => exact faults_atEnd _ (by simp) (by simp)
  | cons x rest => exact Faults.check (faults_upTo _ _) (checks_charOfSpelling start)

theorem hashColonName_faults : (hashColonName fmt start input).Faults comments := by
  fun_cases hashColonName fmt start input with
  | case1 => exact faults_atEnd _ (by simp) (by simp)
  | case2 => exact delimitedFrom_faults fmt start _ '|' []
  | case3 => exact faults_upTo _ _

theorem hash_faults (modes : Modes) : (hash fmt modes start input).Faults comments := by
  fun_cases hash fmt modes start input with
  | case1 => exact faults_atEnd _ (by simp) (by simp)
  | case2 => exact Faults.map (charLiteral_faults start _) _
  | case3 => exact faults_done _ _
  | case4 => exact Faults.map (blockCommentFrom_faults start _ [] 0) _
  | case5 => exact Faults.map (hashColonName_faults fmt start _) _
  | case6 => exact Faults.map (Faults.check (faults_upTo _ _) (checks_specialNamed start)) _
  | case7 => exact Faults.map (Faults.check (faults_upTo _ _) (checks_boolSpelled fmt start)) _

theorem token_faults (settings : Settings) (c : Char) :
    (token settings c start input).Faults settings.modes.retainComments := by
  cases begins c with
  | opening k =>
    rw [token_opening]
    simp
  | closing k =>
    rw [token_closing]
    simp
  | blank blank =>
    rw [token_blank settings start input blank]
    simp
  | comment =>
    rw [token_comment]
    cases settings.modes.retainComments with
    | true => exact Faults.map (Faults.check (faults_upTo _ _) (checks_lineComment start)) _
    | false => exact faults_upTo _ _
  | hash => exact hash_faults settings.format start input settings.modes
  | string | barred => exact Faults.map (delimitedFrom_faults settings.format start input _ []) _
  | quote | quasiquote => exact faults_done _ _
  | unquote =>
    rcases splicing_or input with ⟨q, rest, rfl⟩ | alone
    · exact faults_done _ _
    · rw [token_unquote settings start input alone]
      simp
  | bare plain comment hash =>
    rw [token_bare settings start input plain comment hash]
    simp

end Sexpr.Scan
