import Mathlib.Tactic.SplitIfs
import Sexpr.Proofs.Scan.Lookahead
import Sexpr.Proofs.Source.Cursor
import Sexpr.Proofs.Tokens.Steps
import Sexpr.Source.Scanner

/-!
Scanners that take one character after the other do what scanning the whole input does. Those that
loop recur on what a source has left, so they are first told by what is done with the next character
(`run_eq` and its like).

- `token_outcome`: so it is for the token that begins with a character.
- `nextToken_makes`: the next token is the first of those of what is left, and what it leaves is what
  they say.
-/

namespace Sexpr.Cursor

variable {s : Source} {peeked : Bool} {rest : Input} {x : Char × Pos} {p : Char → Bool}
  {found : List Char} {α : Type} {fmt : Format} {delimiter : Char} {start : Pos}

theorem ite_taking (q : Prop) [Decidable q] (m m' : Taking α) (c : Cursor) :
    (if q then m else m') c = if q then m c else m' c := by
  split <;> rfl

theorem ite_outcome {q : Prop} [Decidable q] {m m' : Taking α} {c : Cursor} {scan scan' : Scan α}
    (h : m c = scan.outcome s) (h' : m' c = scan'.outcome s) :
    (if q then m else m') c = (if q then scan else scan').outcome s := by
  split
  · exact h
  · exact h'

theorem run_eq (p : Char → Bool) (found : List Char) :
    run p found = next >>= fun x? => x?.elim (pure found.reverse) fun x =>
      if p x.1 = true then run p (x.1 :: found) else stopBefore x found.reverse := by
  funext c
  rw [run, bind_apply]
  split <;> rename_i taken <;> rw [taken]
  · rfl
  · dsimp only [Option.elim]
    rw [ite_taking]

theorem stopBefore_outcome (a : α) (x : Char × Pos) (rest : Input) :
    stopBefore x a (s.cursor false rest) = (Scan.upTo a (x :: rest)).outcome s := by
  rw [stopBefore, bind_ok (unread_cons x rest)]
  rfl

theorem run_outcome (h : s.Leaves peeked rest) (found : List Char) :
    run p found (s.cursor peeked rest) =
      (Scan.upTo (found.reverse ++ (Scan.run p rest).1) (Scan.run p rest).2).outcome s := by
  induction rest generalizing peeked found with
  | nil =>
    have nothing : found.reverse ++ (Scan.run p []).1 = found.reverse := List.append_nil _
    rw [run_eq, bind_next_nil h rfl, nothing]
    rfl
  | cons x rest ih =>
    rw [run_eq, bind_next_cons h]
    dsimp only [Option.elim, Scan.run]
    cases property : p x.1 with
    | true =>
      rw [if_pos rfl, ih h.tail]
      simp [Scan.run, property]
    | false =>
      rw [if_neg Bool.false_ne_true, stopBefore_outcome]
      simp [property]

/-! ## Text between delimiters -/

theorem codeDigits_eq (ends : Scan.CodeEnd) (limit : Int) (start : Pos) (digits code : Nat) :
    codeDigits ends limit start digits code = next >>= fun x? => x?.elim
      (if ends = .anywhere ∧ 0 < digits then pure code
        else fault (.unexpectedEnd .delimited) start) fun x =>
      (Text.hexDigit? x.1).elim
        (if ends = .semicolon ∧ x.1 = ';' ∧ 0 < digits then pure code
          else if digits = 0 ∨ ends = .fixed then fault (.nonHexDigit x.1) x.2
          else if ends = .anywhere then stopBefore x code
          else fault (.missingDelimiter ';') x.2) fun d =>
        if (digits : Int) = limit then fault .tooManyDigits x.2
        else if ends ≠ .semicolon ∧ (digits + 1 : Int) = limit then pure (code * 16 + d)
        else codeDigits ends limit start (digits + 1) (code * 16 + d) := by
  funext c
  rw [codeDigits, bind_apply]
  split <;> rename_i taken <;> rw [taken] <;> simp only [Option.elim, ite_taking]
  · rfl
  · cases Text.hexDigit? _ <;> simp only [ite_taking] <;> rfl

theorem codeDigits_outcome (ends : Scan.CodeEnd) (limit : Int) (start : Pos) (digits code : Nat)
    (h : s.Leaves peeked rest) :
    codeDigits ends limit start digits code (s.cursor peeked rest) =
      (Scan.codeDigits ends limit start digits code rest).outcome s := by
  induction rest generalizing peeked digits code with
  | nil =>
    rw [codeDigits_eq, Scan.codeDigits]
    split_ifs <;> exact bind_next_nil h rfl
  | cons x rest ih =>
    rw [codeDigits_eq, bind_next_cons h, Scan.codeDigits]
    dsimp only [Option.elim]
    cases Text.hexDigit? x.1 with
    | none =>
      dsimp only
      split_ifs <;> rfl
    | some d =>
      dsimp only
      split_ifs
      · rfl
      · rfl
      · exact ih _ _ h.tail

theorem hexChar_outcome (ends : Scan.CodeEnd) (limit : Int) (start pos : Pos)
    (h : s.Leaves peeked rest) :
    hexChar ends limit start pos (s.cursor peeked rest) =
      (Scan.hexChar ends limit start pos rest).outcome s :=
  check_outcome (codeDigits_outcome ends limit start 0 0 h) (Scan.codeChar pos)

theorem octalDigits_outcome (n code : Nat) (rest : Input) (h : s.Leaves false rest) :
    octalDigits n code (s.cursor false rest) = (Scan.octalDigits n code rest).outcome s := by
  induction n generalizing code rest with
  | zero => rfl
  | succ n ih =>
    cases rest with
    | nil => exact bind_next_nil h rfl
    | cons x rest =>
      rw [octalDigits, bind_next_cons h, Scan.octalDigits]
      dsimp only
      cases Text.octalDigit? x.1 with
      | none => rfl
      | some d => exact ih _ _ h.tail

theorem escape_outcome (fmt : Format) (start : Pos) (h : s.Leaves false rest) :
    escape fmt start (s.cursor false rest) = (Scan.escape fmt start rest).outcome s := by
  cases rest with
  | nil => exact bind_next_nil h rfl
  | cons x rest =>
    obtain ⟨e, pos⟩ := x
    rw [escape, bind_next_cons h, Scan.escape]
    dsimp only
    cases Text.escaped? e with
    | some c => rfl
    | none =>
      have hex (ends : Scan.CodeEnd) (limit : Int) :=
        map_outcome (hexChar_outcome ends limit start pos h.tail) Scan.Piece.char
      have line := map_outcome (@run_outcome s false rest Text.isBlank h.tail [])
        fun _ => Scan.Piece.chars []
      refine ite_outcome (hex _ _) (ite_outcome (hex _ _) (ite_outcome (hex _ _) ?_))
      refine ite_outcome line ?_
      cases Text.octalDigit? e with
      | none => rfl
      | some d =>
        exact ite_outcome (map_outcome (octalDigits_outcome 2 d rest h.tail) _) (ite_outcome rfl rfl)

theorem piece_outcome (fmt : Format) (delimiter : Char) (start : Pos) (h : s.Leaves peeked rest) :
    piece fmt delimiter start (s.cursor peeked rest) =
      (Scan.piece fmt delimiter start rest).outcome s := by
  cases rest with
  | nil => exact bind_next_nil h rfl
  | cons x rest =>
    rw [piece, bind_next_cons h, Scan.piece]
    exact ite_outcome rfl (ite_outcome (escape_outcome fmt start h.tail) rfl)

def afterPiece (fmt : Format) (delimiter : Char) (start : Pos) (found : List Char) :
    Scan.Piece → Taking String
  | .close => return String.ofList found.reverse
  | .chars cs => delimitedFrom fmt delimiter start (cs.reverse ++ found)

theorem delimitedFrom_eq (fmt : Format) (delimiter : Char) (start : Pos) (found : List Char) :
    delimitedFrom fmt delimiter start found =
      piece fmt delimiter start >>= afterPiece fmt delimiter start found := by
  funext c
  rw [delimitedFrom, bind_apply]
  split <;> rename_i ran <;> rw [ran] <;> rfl

/-- Where nothing is left, no delimiter comes. -/
theorem sawEnd_delimitedFrom (found : List Char) :
    (Scan.delimitedFrom fmt delimiter start found []).sawEnd = true := by
  have nothing : (Scan.piece fmt delimiter start []).result = .error _ := rfl
  rw [Scan.delimitedFrom_error nothing]
  rfl

theorem delimitedFrom_outcome (fmt : Format) (delimiter : Char) (start : Pos)
    (found : List Char) (rest : Input) (peeked : Bool) (h : s.Leaves peeked rest) :
    delimitedFrom fmt delimiter start found (s.cursor peeked rest) =
      (Scan.delimitedFrom fmt delimiter start found rest).outcome s := by
  revert peeked
  fun_induction Scan.delimitedFrom fmt delimiter start found rest with
  | case1 found rest scan e failed =>
    intro peeked h
    rw [delimitedFrom_eq]
    apply bind_outcome (piece_outcome fmt delimiter start h)
    · intro e' told
      cases failed.symm.trans told
      rfl
    · intro a ok
      cases failed.symm.trans ok
    · exact id
  | case2 found rest scan closes =>
    intro peeked h
    have taken : scan.peeked = false := Scan.piece_close closes
    rw [delimitedFrom_eq]
    apply bind_outcome (piece_outcome fmt delimiter start h)
    · intro e failed
      cases closes.symm.trans failed
    · intro a ok _
      cases closes.symm.trans ok
      change _ = (Except.ok _, s.cursor false scan.rest)
      rw [← taken]
      rfl
    · intro saw
      simp [Scan.sawEnd, scan, taken] at saw
  | case3 found rest scan cs chars ih =>
    intro peeked h
    rw [delimitedFrom_eq]
    apply bind_outcome (piece_outcome fmt delimiter start h)
    · intro e failed
      cases chars.symm.trans failed
    · intro a ok going
      cases chars.symm.trans ok
      exact ih _ (h.after (Scan.piece_rest_suffix fmt delimiter start rest) going)
    · intro saw
      -- the piece has seen the end, so nothing is left for the next one
      have nothing : scan.rest = [] := by
        rw [Scan.sawEnd, Bool.and_eq_true] at saw
        exact List.isEmpty_iff.1 saw.2
      rw [nothing]
      exact sawEnd_delimitedFrom _

/-! ## Tokens that begin with a hash -/

/-- What is done where a comment is closed. -/
def closeComment (start : Pos) (found : List Char) : Nat → Taking String
  | 0 => return String.ofList found.reverse
  | n + 1 => blockCommentFrom start ('#' :: '|' :: found) n

theorem blockCommentFrom_eq (start : Pos) (found : List Char) (inner : Nat) :
    blockCommentFrom start found inner = next >>= fun x? => x?.elim
      (fault (.unexpectedEnd .comment) start) fun x =>
        if x.1 = '|' ∨ x.1 = '#' then
          next >>= fun y? => y?.elim (blockCommentFrom start (x.1 :: found) inner) fun y =>
            if x.1 = '|' ∧ y.1 = '#' then closeComment start found inner
            else if x.1 = '#' ∧ y.1 = '|' then
              blockCommentFrom start ('|' :: '#' :: found) (inner + 1)
            else unread (some y) >>= fun _ => blockCommentFrom start (x.1 :: found) inner
        else blockCommentFrom start (x.1 :: found) inner := by
  funext c
  rw [blockCommentFrom, bind_apply]
  split <;> rename_i taken <;> rw [taken] <;> dsimp only [Option.elim]
  rw [ite_taking]
  split
  · rw [bind_apply]
    split <;> rename_i again <;> rw [again]
    simp only [ite_taking]
    cases inner <;> rfl
  · rfl

theorem blockCommentFrom_outcome (start : Pos) (found : List Char) (inner : Nat) (rest : Input)
    (peeked : Bool) (h : s.Leaves peeked rest) :
    blockCommentFrom start found inner (s.cursor peeked rest) =
      (Scan.blockCommentFrom start found inner rest).outcome s := by
  have ended (found : List Char) (inner : Nat) :
      blockCommentFrom start found inner (s.cursor true []) =
        (.error ⟨.lexical (.unexpectedEnd .comment), start⟩, s.cursor true []) := by
    rw [blockCommentFrom_eq, bind_ok (next_ended s)]
    rfl
  revert peeked
  fun_induction Scan.blockCommentFrom start found inner rest with
  | case1 found inner =>
    intro peeked h
    rw [blockCommentFrom_eq]
    exact bind_next_nil h rfl
  | case2 found p q rest =>
    intro peeked h
    rw [blockCommentFrom_eq, bind_next_cons h]
    dsimp only [Option.elim]
    rw [if_pos (.inl rfl), bind_next_cons h.tail]
    rfl
  | case3 found p q rest n ih =>
    intro peeked h
    rw [blockCommentFrom_eq, bind_next_cons h]
    dsimp only [Option.elim]
    rw [if_pos (.inl rfl), bind_next_cons h.tail]
    exact ih false h.tail.tail
  | case4 found inner p q rest ih =>
    intro peeked h
    rw [blockCommentFrom_eq, bind_next_cons h]
    dsimp only [Option.elim]
    rw [if_pos (.inr rfl), bind_next_cons h.tail]
    exact ih false h.tail.tail
  | case5 found inner c p rest noClose noOpen ih =>
    intro peeked h
    rw [blockCommentFrom_eq, bind_next_cons h]
    dsimp only [Option.elim]
    split
    -- a second character is looked at, which is put back or is the end, told once more
    · cases rest with
      | nil => exact bind_next_nil h.tail (ended (c :: found) inner)
      | cons y rest =>
        have close : ¬ (c = '|' ∧ y.1 = '#') := fun both =>
          noClose y.2 rest (by rw [← both.2]) both.1
        have open' : ¬ (c = '#' ∧ y.1 = '|') := fun both =>
          noOpen y.2 rest (by rw [← both.2]) both.1
        rw [bind_next_cons h.tail]
        dsimp only
        rw [if_neg close, if_neg open', bind_ok (unread_cons y rest)]
        exact ih true h.tail.back
    · exact ih false h.tail

theorem delimited_outcome (fmt : Format) (delimiter : Char) (start : Pos)
    (h : s.Leaves false rest) :
    delimited fmt delimiter start (s.cursor false rest) =
      (Scan.delimited fmt delimiter start rest).outcome s :=
  delimitedFrom_outcome fmt delimiter start [] rest false h

theorem charLiteral_outcome (start : Pos) (h : s.Leaves false rest) :
    charLiteral start (s.cursor false rest) = (Scan.charLiteral start rest).outcome s := by
  cases rest with
  | nil => exact bind_next_nil h rfl
  | cons x rest =>
    rw [charLiteral, bind_next_cons h]
    exact check_outcome (run_outcome h.tail []) fun cs => Scan.charOfSpelling start x.1 cs

theorem hashColonName_outcome (fmt : Format) (start : Pos) (h : s.Leaves false rest) :
    hashColonName fmt start (s.cursor false rest) =
      (Scan.hashColonName fmt start rest).outcome s := by
  cases rest with
  | nil => exact bind_next_nil h rfl
  | cons x rest =>
    rw [hashColonName, bind_next_cons h]
    exact ite_outcome (delimited_outcome fmt '|' start h.tail)
      (map_outcome (run_outcome h.tail []) fun cs => String.ofList (x.1 :: cs))

theorem hash_outcome (fmt : Format) (modes : Modes) (start : Pos) (h : s.Leaves false rest) :
    hash fmt modes start (s.cursor false rest) = (Scan.hash fmt modes start rest).outcome s := by
  have letters {peeked : Bool} {rest : Input} (h : s.Leaves peeked rest)
      (f : List Char → Except ReadError Token) :
      (do ofExcept ((f (← run Text.isAsciiLetter [])).map some)) (s.cursor peeked rest) =
        (((Scan.upTo (Scan.run Text.isAsciiLetter rest).1
          (Scan.run Text.isAsciiLetter rest).2).check f).map some).outcome s :=
    check_outcome (run_outcome h []) fun cs => (f cs).map some
  cases rest with
  | nil => exact bind_next_nil h rfl
  | cons x rest =>
    rw [hash, bind_next_cons h, Scan.hash]
    refine ite_outcome (map_outcome (charLiteral_outcome start h.tail) _) (ite_outcome rfl ?_)
    refine ite_outcome (map_outcome (blockCommentFrom_outcome start [] 0 rest false h.tail) _) ?_
    refine ite_outcome (map_outcome (hashColonName_outcome fmt start h.tail) _) ?_
    refine ite_outcome (letters h.tail _) ?_
    rw [bind_ok (unread_cons x rest)]
    exact letters h.back _

/-! ## Tokens -/

theorem token_outcome (settings : Settings) (c : Char) (start : Pos) (h : s.Leaves false rest) :
    token settings c start (s.cursor false rest) =
      (Scan.token settings c start rest).outcome s := by
  have text := delimited_outcome settings.format c start h
  unfold token Scan.token
  cases Bracket.ofOpening? c with
  | some k => rfl
  | none =>
    cases Bracket.ofClosing? c with
    | some k => rfl
    | none =>
      refine ite_outcome (map_outcome (run_outcome h []) _) (ite_outcome ?_ ?_)
      · cases kept : settings.modes.retainComments with
        | true =>
          exact check_outcome (run_outcome h []) fun cs => (Scan.lineComment start cs).map some
        | false => exact map_outcome (run_outcome h []) fun _ => none
      · refine ite_outcome (hash_outcome _ _ start h) ?_
        refine ite_outcome (map_outcome text _) (ite_outcome (map_outcome text _) ?_)
        refine ite_outcome rfl (ite_outcome rfl (ite_outcome ?_ (map_outcome (run_outcome h []) _)))
        cases rest with
        | nil => exact bind_next_nil h rfl
        | cons x rest =>
          rw [bind_next_cons h]
          obtain ⟨y, p⟩ := x
          by_cases splicing : y = '@'
          · subst splicing
            rfl
          · dsimp only
            rw [if_neg splicing]
            split
            · rename_i same
              cases same
              exact absurd rfl splicing
            · exact stopBefore_outcome _ _ rest

/-! ## The next token that is kept -/

theorem nextToken_eq (settings : Settings) :
    nextToken settings = next >>= fun x? => x?.elim (pure none) fun x =>
      token settings x.1 x.2 >>= fun t? => t?.elim (nextToken settings) fun t =>
        pure (some (t, x.2)) := by
  funext c
  rw [nextToken, bind_apply]
  split <;> rename_i taken <;> rw [taken] <;> dsimp only [Option.elim]
  · rfl
  · rw [bind_apply]
    split <;> rename_i made <;> rw [made]
    rfl

/-- Where the tokens of what is left begin with one, this is the next, and the source is left as
the token says. Where there are none, the end of them is told. -/
theorem nextToken_makes {settings : Settings} {ts : Tokens}
    (makes : Tokens.Makes settings s.failure? rest ts) (peeked : Bool) (h : s.Leaves peeked rest) :
    (∃ l more, ts.lexemes = l :: more ∧
      nextToken settings (s.cursor peeked rest) =
        (.ok (some (l.token, l.pos)), s.cursor l.peeked l.rest) ∧
      s.Leaves l.peeked l.rest ∧
      Tokens.Makes settings s.failure? l.rest ⟨more, ts.stop, ts.untaken⟩) ∨
    ts.lexemes = [] ∧ ∃ c, c.left = ts.untaken ∧
      nextToken settings (s.cursor peeked rest) = (ts.stop.elim (.ok none) .error, c) := by
  -- a token that is scanned is taken, and the source has not failed meanwhile
  have taken {c : Char} {p : Pos} {input : Input} {scan : Scan (Option Token)} {peeked : Bool}
      (scanned : Scan.token settings c p input = scan)
      (goesOn : scan.sawEnd = true → s.failure? = none) (h : s.Leaves peeked ((c, p) :: input)) :
      token settings c p (s.cursor false input) =
        (scan.result, s.cursor scan.peeked scan.rest) ∧ s.Leaves scan.peeked scan.rest := by
    subst scanned
    have left := Scan.token_rest_suffix settings c p input
    refine ⟨?_, h.tail.after left goesOn⟩
    rw [token_outcome settings c p h.tail, Scan.outcome_of_going _ goesOn]
  induction makes generalizing peeked with
  | ended =>
    refine .inr ⟨rfl, s.cursor true [], rfl, ?_⟩
    rw [nextToken_eq, bind_next_nil h rfl, Scan.outcome]
    cases s.failure? <;> rfl
  | @failed c p input e scan scanned ends failure =>
    have told : token settings c p (s.cursor false input) = (.error e, s.cursor true []) := by
      rw [token_outcome settings c p h.tail, scanned, Scan.outcome, if_pos ends, failure]
    refine .inr ⟨rfl, s.cursor true [], rfl, ?_⟩
    rw [nextToken_eq, bind_next_cons h]
    exact bind_error told
  | @fault c p input e scan scanned goesOn result =>
    obtain ⟨told, -⟩ := taken scanned goesOn h
    rw [result] at told
    refine .inr ⟨rfl, s.cursor scan.peeked scan.rest, rfl, ?_⟩
    rw [nextToken_eq, bind_next_cons h]
    exact bind_error told
  | @skipped c p input scan ts scanned goesOn result more ih =>
    obtain ⟨told, left⟩ := taken scanned goesOn h
    rw [result] at told
    rw [nextToken_eq, bind_next_cons h]
    dsimp only [Option.elim]
    rw [bind_ok told]
    exact ih scan.peeked left
  | @token c p input scan t ts scanned goesOn result more ih =>
    obtain ⟨told, left⟩ := taken scanned goesOn h
    rw [result] at told
    refine .inl ⟨_, _, rfl, ?_, left, more⟩
    rw [nextToken_eq, bind_next_cons h]
    dsimp only [Option.elim]
    rw [bind_ok told]
    rfl

end Sexpr.Cursor
