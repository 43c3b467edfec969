import Sexpr.Proofs.Scan.Steps

/-!
How far scanning looks. Either the characters that stand first decide a scan, and then it goes the
same way whatever follows them, or it takes something of what follows or sees that nothing does.

- `token_decides`: so it is for one token.
-/

namespace Sexpr.Scan

variable {α β : Type} {F : Input → Scan α} {s : Scan α} {input : Input}

/-- The scan looks at nothing of what follows. -/
def Ignores (F : Input → Scan α) : Prop :=
  ∃ result mid peeked, (peeked = true → mid ≠ []) ∧ ∀ u, F u = ⟨result, mid ++ u, peeked⟩

/-- The scan takes something of what follows or sees that nothing does. -/
def Reaches (F : Input → Scan α) : Prop :=
  ∀ u, (F u).untaken.length < u.length ∨ (F u).sawEnd = true

def Decides (F : Input → Scan α) : Prop := Ignores F ∨ Reaches F

theorem decides_done (a : α) (mid : Input) : Decides fun u => done a (mid ++ u) :=
  .inl ⟨.ok a, mid, false, by simp, fun _ => rfl⟩

theorem decides_fault (f : LexicalFault) (p : Pos) (mid : Input) :
    Decides fun u => (fault f p (mid ++ u) : Scan α) :=
  .inl ⟨.error ⟨.lexical f, p⟩, mid, false, by simp, fun _ => rfl⟩

theorem decides_upTo (a : α) (x : Char × Pos) (mid : Input) :
    Decides fun u => upTo a (x :: (mid ++ u)) :=
  .inl ⟨.ok a, x :: mid, true, by simp, fun _ => rfl⟩

theorem Decides.map (h : Decides F) (f : α → β) : Decides fun u => (F u).map f := by
  rcases h with ⟨result, mid, peeked, kept, same⟩ | reaches
  · refine .inl ⟨result.map f, mid, peeked, kept, ?_⟩
    intro u
    dsimp only
    rw [same]
    rfl
  · exact .inr reaches

theorem Decides.check (h : Decides F) (f : α → Except ReadError β) :
    Decides fun u => (F u).check f := by
  rcases h with ⟨result, mid, peeked, kept, same⟩ | reaches
  · refine .inl ⟨result.bind f, mid, peeked, kept, ?_⟩
    intro u
    dsimp only
    rw [same]
    rfl
  · exact .inr reaches

/-- Something is taken if the scan goes on after the first character. -/
theorem takes_rest {x : Char × Pos} (h : s.rest <:+ input) :
    s.untaken.length < (x :: input).length ∨ s.sawEnd = true := by
  have le := h.length_le
  refine .inl ?_
  unfold untaken Input.untaken
  split
  · rw [List.length_tail, List.length_cons]
    omega
  · rw [List.length_cons]
    omega

/-- Something is taken if the first character is looked at. -/
theorem takes_peeked (h : s.rest <:+ input) (peeked : s.peeked = true) :
    s.untaken.length < input.length ∨ s.sawEnd = true := by
  have le := h.length_le
  cases rest : s.rest with
  | nil => exact .inr (by simp [sawEnd, peeked, rest])
  | cons x more =>
    refine .inl ?_
    simp only [rest, List.length_cons] at le
    simp only [untaken, Input.untaken, peeked, rest, if_true, List.tail_cons]
    omega

/-- What is taken after a scan is more than what the scan has taken. -/
theorem takes_then {n k : Nat} {ended : Prop}
    (first : s.untaken.length < n ∨ s.sawEnd = true) (later : k < s.rest.length ∨ ended) :
    k < n ∨ ended := by
  rcases later with less | ends
  · refine .inl ?_
    rcases first with takes | ended
    · have tail : s.rest.length ≤ s.untaken.length + 1 := by
        unfold untaken Input.untaken
        split
        · rw [List.length_tail]
          omega
        · omega
      omega
    · simp only [sawEnd, Bool.and_eq_true, List.isEmpty_iff] at ended
      simp [ended.2] at less
  · exact .inr ends

/-! ## The scanners -/

theorem run_decides (pred : Char → Bool) (f : List Char → α) (common : Input) :
    Decides fun u => upTo (f (run pred (common ++ u)).1) (run pred (common ++ u)).2 := by
  induction common generalizing f with
  | nil => exact .inr fun u => takes_peeked (run_rest_suffix pred u) rfl
  | cons x common ih =>
    cases fits : pred x.1 with
    | true =>
      have more := ih fun cs => f (x.1 :: cs)
      simpa [run, fits] using more
    | false => simpa [run, fits] using decides_upTo (f []) x common

theorem codeDigits_reaches (ends : CodeEnd) (limit : Int) (start : Pos) (digits code : Nat) :
    Reaches (codeDigits ends limit start digits code) := by
  intro u
  fun_cases codeDigits ends limit start digits code u with
  | case1 | case2 => exact .inr rfl
  | case3 | case4 | case6 | case7 | case9 => exact takes_rest (List.suffix_refl _)
  | case5 => exact takes_rest (codeDigits_rest_suffix ..)
  | case8 => exact takes_peeked (List.suffix_refl _) rfl

theorem codeDigits_decides (ends : CodeEnd) (limit : Int) (start : Pos) (digits code : Nat)
    (common : Input) : Decides fun u => codeDigits ends limit start digits code (common ++ u) := by
  induction common generalizing digits code with
  | nil => exact .inr (codeDigits_reaches ends limit start digits code)
  | cons x common ih =>
    obtain ⟨c, pos⟩ := x
    simp only [List.cons_append, codeDigits]
    cases Text.hexDigit? c with
    | some d =>
      dsimp only
      by_cases many : (digits : Int) = limit
      · simp only [if_pos many]
        exact decides_fault _ _ _
      · simp only [if_neg many]
        by_cases full : ends ≠ .semicolon ∧ (digits + 1 : Int) = limit
        · simp only [if_pos full]
          exact decides_done _ _
        · simp only [if_neg full]
          exact ih (digits + 1) (code * 16 + d)
    | none =>
      dsimp only
      by_cases closed : ends = .semicolon ∧ c = ';' ∧ 0 < digits
      · simp only [if_pos closed]
        exact decides_done _ _
      · simp only [if_neg closed]
        by_cases bad : digits = 0 ∨ ends = .fixed
        · simp only [if_pos bad]
          exact decides_fault _ _ _
        · simp only [if_neg bad]
          by_cases anywhere : ends = .anywhere
          · simp only [if_pos anywhere]
            exact decides_upTo _ _ _
          · simp only [if_neg anywhere]
            exact decides_fault _ _ _

theorem hexChar_decides (ends : CodeEnd) (limit : Int) (start pos : Pos) (common : Input) :
    Decides fun u => hexChar ends limit start pos (common ++ u) :=
  (codeDigits_decides ends limit start 0 0 common).check (codeChar pos)

theorem octalDigits_decides (n code : Nat) (common : Input) :
    Decides fun u => octalDigits n code (common ++ u) := by
  induction common generalizing n code with
  | nil =>
    cases n with
    | zero => exact decides_done code []
    | succ n =>
      refine .inr ?_
      intro u
      dsimp only
      rw [List.nil_append]
      cases u with
      | nil => exact .inr rfl
      | cons x u =>
        rw [octalDigits]
        split
        · exact takes_rest (octalDigits_rest_suffix ..)
        · exact takes_peeked (List.suffix_refl _) rfl
  | cons x common ih =>
    obtain ⟨c, pos⟩ := x
    cases n with
    | zero => exact decides_done code ((c, pos) :: common)
    | succ n =>
      simp only [List.cons_append, octalDigits]
      cases Text.octalDigit? c with
      | some d => exact ih n (code * 8 + d)
      | none => exact decides_upTo _ _ _

theorem escape_reaches (fmt : Format) (start : Pos) : Reaches (escape fmt start) := by
  intro u
  fun_cases escape fmt start u with
  | case1 => exact .inr rfl
  | case2 | case8 | case9 | case10 => exact takes_rest (List.suffix_refl _)
  | case3 pos rest | case4 pos rest | case5 pos rest =>
    exact takes_rest (hexChar_rest_suffix _ _ start pos rest)
  | case6 => exact takes_rest (run_rest_suffix ..)
  | case7 => exact takes_rest (octalDigits_rest_suffix ..)

theorem escape_decides (fmt : Format) (start : Pos) (common : Input) :
    Decides fun u => escape fmt start (common ++ u) := by
  cases common with
  | nil => exact .inr (escape_reaches fmt start)
  | cons x common =>
    obtain ⟨e, pos⟩ := x
    simp only [List.cons_append, escape]
    cases Text.escaped? e with
    | some c => exact decides_done _ _
    | none =>
      dsimp only
      by_cases u : e = 'u'
      · simp only [if_pos u]
        exact (hexChar_decides ..).map _
      · simp only [if_neg u]
        by_cases u' : e = 'U'
        · simp only [if_pos u']
          exact (hexChar_decides ..).map _
        · simp only [if_neg u']
          by_cases x : e = 'x'
          · simp only [if_pos x]
            exact (hexChar_decides ..).map _
          · simp only [if_neg x]
            by_cases newline : e = '\n'
            · simp only [if_pos newline]
              exact run_decides Text.isBlank (fun _ => Piece.chars []) common
            · simp only [if_neg newline]
              cases Text.octalDigit? e with
              | none => exact decides_fault _ _ _
              | some d =>
                dsimp only
                by_cases octal : fmt.octalEscapes = true
                · simp only [if_pos octal]
                  exact (octalDigits_decides ..).map _
                · simp only [if_neg octal]
                  by_cases zero : e = '0'
                  · simp only [if_pos zero]
                    exact decides_done _ _
                  · simp only [if_neg zero]
                    exact decides_fault _ _ _

theorem piece_reaches (fmt : Format) (delimiter : Char) (start : Pos) :
    Reaches (piece fmt delimiter start) := by
  intro u
  fun_cases piece fmt delimiter start u with
  | case1 => exact .inr rfl
  | case2 | case4 => exact takes_rest (List.suffix_refl _)
  | case3 => exact takes_rest (escape_rest_suffix ..)

theorem piece_decides (fmt : Format) (delimiter : Char) (start : Pos) (common : Input) :
    Decides fun u => piece fmt delimiter start (common ++ u) := by
  cases common with
  | nil => exact .inr (piece_reaches fmt delimiter start)
  | cons x common =>
    obtain ⟨c, pos⟩ := x
    simp only [List.cons_append, piece]
    by_cases closed : c = delimiter
    · simp only [if_pos closed]
      exact decides_done _ _
    · simp only [if_neg closed]
      by_cases backslash : c = '\\'
      · simp only [if_pos backslash]
        exact escape_decides fmt start common
      · simp only [if_neg backslash]
        exact decides_done _ _

theorem escape_ne_close (fmt : Format) (start : Pos) (input : Input) :
    (escape fmt start input).result ≠ .ok .close := by
  intro h
  revert h
  fun_cases escape fmt start input with
  | case1 | case2 | case6 | case8 | case9 | case10 => rintro ⟨⟩
  | case3 | case4 | case5 | case7 =>
    intro h
    obtain ⟨c, -, ⟨⟩⟩ := map_eq_ok h

/-- The closing delimiter is the last that is looked at. -/
theorem piece_close {fmt : Format} {delimiter : Char} {start : Pos}
    (h : (piece fmt delimiter start input).result = .ok .close) :
    (piece fmt delimiter start input).peeked = false := by
  revert h
  fun_cases piece fmt delimiter start input with
  | case1 | case4 => rintro ⟨⟩
  | case2 => exact fun _ => rfl
  | case3 => exact fun h => absurd h (escape_ne_close fmt start _)

theorem delimitedFrom_reaches (fmt : Format) (q : Char) (start : Pos) (found : List Char) :
    Reaches (delimitedFrom fmt q start found) := by
  intro u
  have reaches := piece_reaches fmt q start u
  fun_induction delimitedFrom fmt q start found u with
  | case1 => exact reaches
  | case2 found u s closed => exact .inl (piece_rest_lt fmt q start u .close closed)
  | case3 found u s cs chars ih => exact takes_then reaches (ih (piece_reaches fmt q start s.rest))

theorem delimitedFrom_decides (fmt : Format) (q : Char) (start : Pos) (found : List Char)
    (common : Input) : Decides fun u => delimitedFrom fmt q start found (common ++ u) := by
  rcases piece_decides fmt q start common with ⟨result, mid, peeked, kept, same⟩ | reaches
  · dsimp only at same
    have results (u : Input) : (piece fmt q start (common ++ u)).result = result := by rw [same]
    cases result with
    | error e =>
      refine .inl ⟨.error e, mid, peeked, kept, ?_⟩
      intro u
      dsimp only
      rw [delimitedFrom_error (results u), same]
    | ok p =>
      have shorter := piece_rest_lt fmt q start (common ++ []) p (results [])
      rw [same, List.append_nil, List.append_nil] at shorter
      cases p with
      | close =>
        refine .inl ⟨.ok (String.ofList found.reverse), mid, false, by simp, ?_⟩
        intro u
        dsimp only
        rw [delimitedFrom_close (results u), same]
        rfl
      | chars cs =>
        have more := delimitedFrom_decides fmt q start (cs.reverse ++ found) mid
        have step (u : Input) : delimitedFrom fmt q start found (common ++ u) =
            delimitedFrom fmt q start (cs.reverse ++ found) (mid ++ u) := by
          rw [delimitedFrom_chars (results u), same]
        simpa only [step] using more
  · refine .inr ?_
    intro u
    have first := reaches u
    dsimp only at first ⊢
    cases result : (piece fmt q start (common ++ u)).result with
    | error e =>
      rw [delimitedFrom_error result]
      exact first
    | ok p =>
      cases p with
      | close =>
        rw [delimitedFrom_close result]
        simp only [untaken, sawEnd, piece_close result, Bool.false_and, Bool.false_eq_true,
          or_false] at first
        exact .inl first
      | chars cs =>
        rw [delimitedFrom_chars result]
        exact takes_then first (delimitedFrom_reaches fmt q start _ _)
termination_by common.length
decreasing_by exact shorter

theorem blockCommentFrom_reaches (start : Pos) (found : List Char) (inner : Nat) :
    Reaches (blockCommentFrom start found inner) := by
  intro u
  fun_cases blockCommentFrom start found inner u with
  | case1 => exact .inr rfl
  | case2 => exact takes_rest (List.suffix_cons _ _)
  | case3 | case4 =>
    exact takes_rest ((blockCommentFrom_rest_suffix ..).trans (List.suffix_cons _ _))
  | case5 => exact takes_rest (blockCommentFrom_rest_suffix ..)

/-- After one character it depends on the next what that one means. -/
theorem blockCommentFrom_cons_reaches (start : Pos) (found : List Char) (inner : Nat)
    (x : Char × Pos) : Reaches fun u => blockCommentFrom start found inner (x :: u) := by
  intro u
  dsimp only
  generalize whole : x :: u = v
  fun_cases blockCommentFrom start found inner v with
  | case1 => cases whole
  | case2 =>
    cases whole
    exact takes_rest (List.suffix_refl _)
  | case3 | case4 =>
    cases whole
    exact takes_rest (blockCommentFrom_rest_suffix ..)
  | case5 =>
    cases whole
    exact blockCommentFrom_reaches _ _ _ u

theorem blockCommentFrom_decides (start : Pos) (found : List Char) (inner : Nat)
    (common : Input) : Decides fun u => blockCommentFrom start found inner (common ++ u) := by
  fun_induction blockCommentFrom start found inner common with
  | case1 found inner => exact .inr (blockCommentFrom_reaches start found inner)
  | case2 found p q rest => exact decides_done _ rest
  | case3 found p q rest inner ih => exact ih
  | case4 found inner p q rest ih => exact ih
  | case5 found inner c p rest noClose noOpen ih =>
    cases rest with
    | nil => exact .inr (blockCommentFrom_cons_reaches start found inner (c, p))
    | cons y rest =>
      have step (u : Input) : blockCommentFrom start found inner ((c, p) :: y :: rest ++ u) =
          blockCommentFrom start (c :: found) inner (y :: rest ++ u) := by
        rw [List.cons_append, List.cons_append, blockCommentFrom]
        · rintro q more ⟨⟩
          exact noClose q rest rfl
        · rintro q more ⟨⟩
          exact noOpen q rest rfl
      simp only [step]
      exact ih

theorem charLiteral_reaches (start : Pos) : Reaches (charLiteral start) := by
  intro u
  cases u with
  | nil => exact .inr rfl
  | cons x u => exact takes_rest (run_rest_suffix _ u)

theorem charLiteral_decides (start : Pos) (common : Input) :
    Decides fun u => charLiteral start (common ++ u) := by
  cases common with
  | nil => exact .inr (charLiteral_reaches start)
  | cons x common =>
    exact (run_decides Text.isSymbolChar (fun cs => (x.1, cs)) common).check _

theorem hashColonName_reaches (fmt : Format) (start : Pos) :
    Reaches (hashColonName fmt start) := by
  intro u
  fun_cases hashColonName fmt start u with
  | case1 => exact .inr rfl
  | case2 => exact takes_rest (delimited_rest_suffix ..)
  | case3 _ _ _ _ _ _ ran => exact takes_rest (run_suffix ran)

theorem hashColonName_decides (fmt : Format) (start : Pos) (common : Input) :
    Decides fun u => hashColonName fmt start (common ++ u) := by
  cases common with
  | nil => exact .inr (hashColonName_reaches fmt start)
  | cons x common =>
    obtain ⟨c, pos⟩ := x
    simp only [List.cons_append, hashColonName]
    by_cases bar : c = '|'
    · simp only [if_pos bar]
      exact delimitedFrom_decides fmt '|' start [] common
    · simp only [if_neg bar]
      exact run_decides Text.isSymbolChar (fun cs => String.ofList (c :: cs)) common

theorem hash_reaches (fmt : Format) (modes : Modes) (start : Pos) :
    Reaches (hash fmt modes start) := by
  intro u
  fun_cases hash fmt modes start u with
  | case1 => exact .inr rfl
  | case2 => exact takes_rest (charLiteral_rest_suffix ..)
  | case3 => exact takes_rest (List.suffix_refl _)
  | case4 => exact takes_rest (blockCommentFrom_rest_suffix ..)
  | case5 => exact takes_rest (hashColonName_rest_suffix ..)
  | case6 _ _ _ _ ran => exact takes_rest (run_suffix ran)
  | case7 _ _ _ _ _ _ _ _ _ _ ran => exact takes_peeked (run_suffix ran) rfl

theorem hash_decides (fmt : Format) (modes : Modes) (start : Pos) (common : Input) :
    Decides fun u => hash fmt modes start (common ++ u) := by
  cases common with
  | nil => exact .inr (hash_reaches fmt modes start)
  | cons x common =>
    obtain ⟨c, pos⟩ := x
    simp only [List.cons_append, hash]
    by_cases backslash : c = '\\'
    · simp only [if_pos backslash]
      exact (charLiteral_decides start common).map _
    · simp only [if_neg backslash]
      by_cases semicolon : c = ';'
      · simp only [if_pos semicolon]
        exact decides_done _ _
      · simp only [if_neg semicolon]
        by_cases bar : c = '|'
        · simp only [if_pos bar]
          exact (blockCommentFrom_decides start [] 0 common).map _
        · simp only [if_neg bar]
          by_cases colon : c = ':'
          · simp only [if_pos colon]
            exact (hashColonName_decides fmt start common).map _
          · simp only [if_neg colon]
            by_cases bang : c = '!'
            · simp only [if_pos bang]
              exact ((run_decides Text.isAsciiLetter id common).check _).map _
            · simp only [if_neg bang]
              exact ((run_decides Text.isAsciiLetter id ((c, pos) :: common)).check _).map _

theorem token_decides (settings : Settings) (c : Char) (p : Pos) (common : Input) :
    Decides fun u => token settings c p (common ++ u) := by
  cases begins c with
  | opening k =>
    simp only [token_opening]
    exact decides_done _ _
  | closing k =>
    simp only [token_closing]
    exact decides_done _ _
  | blank blank =>
    simp only [token_blank settings p _ blank]
    exact run_decides Text.isBlank (fun cs => if settings.modes.retainWhitespace then
      some (Token.blank (String.ofList (c :: cs))) else none) common
  | comment =>
    simp only [token_comment]
    by_cases kept : settings.modes.retainComments = true
    · simp only [if_pos kept]
      exact ((run_decides (· != '\n') id common).check _).map _
    · simp only [if_neg kept]
      exact run_decides (· != '\n') (fun _ => none) common
  | hash => exact hash_decides settings.format settings.modes p common
  | string => exact (delimitedFrom_decides settings.format '\x22' p [] common).map _
  | barred => exact (delimitedFrom_decides settings.format '|' p [] common).map _
  | quote => exact decides_done _ _
  | quasiquote => exact decides_done _ _
  | unquote =>
    cases common with
    | nil =>
      refine .inr ?_
      intro u
      dsimp only
      rw [List.nil_append]
      rcases splicing_or u with ⟨q, rest, rfl⟩ | alone
      · rw [token_unquoteSplicing]
        exact takes_rest (List.suffix_refl _)
      · rw [token_unquote settings p u alone]
        exact takes_peeked (List.suffix_refl _) rfl
    | cons x common =>
      rcases splicing_or (x :: common) with ⟨q, rest, ⟨⟩⟩ | alone
      · exact decides_done _ _
      · have unquote (u : Input) : token settings ',' p (x :: common ++ u) =
            upTo (some (.mark .unquote)) (x :: (common ++ u)) :=
          token_unquote settings p _ (by simpa using alone)
        simp only [unquote]
        exact decides_upTo _ _ _
  | bare plain comment hash =>
    simp only [token_bare settings p _ plain comment hash]
    exact run_decides Text.isSymbolChar (fun cs => some (bareToken settings.format (c :: cs)))
      common

end Sexpr.Scan
