import Sexpr.Scan.Token
import Sexpr.Source.Cursor

/-!
One token after the other, made of characters as they are taken from a source. Main statement: each
token takes a character, so making tokens comes to an end.
-/

namespace Sexpr.Cursor

/-- The longest run of characters that all have a property, after some that have been found
already, in reverse. -/
def run (p : Char → Bool) (found : List Char) (c : Cursor) :
    Except ReadError (List Char) × Cursor :=
  match _h : next c with
  | (.error e, c') => (.error e, c')
  | (.ok none, c') => (.ok found.reverse, c')
  | (.ok (some x), c') =>
      if p x.1 then run p (x.1 :: found) c'
      else stopBefore x found.reverse c'
termination_by c.size
decreasing_by exact next_lt _h

/-! ## Text between delimiters -/

/-- The rest of a code, after digits that make up `code` already. -/
def codeDigits (ends : Scan.CodeEnd) (limit : Int) (start : Pos) (digits code : Nat)
    (c : Cursor) : Except ReadError Nat × Cursor :=
  match _h : next c with
  | (.error e, c') => (.error e, c')
  | (.ok none, c') =>
      if ends = .anywhere ∧ 0 < digits then (.ok code, c')
      else fault (.unexpectedEnd .delimited) start c'
  | (.ok (some x), c') =>
      match Text.hexDigit? x.1 with
      | some d =>
          if (digits : Int) = limit then fault .tooManyDigits x.2 c'
          else if ends ≠ .semicolon ∧ (digits + 1 : Int) = limit then (.ok (code * 16 + d), c')
          else codeDigits ends limit start (digits + 1) (code * 16 + d) c'
      | none =>
          if ends = .semicolon ∧ x.1 = ';' ∧ 0 < digits then (.ok code, c')
          else if digits = 0 ∨ ends = .fixed then fault (.nonHexDigit x.1) x.2 c'
          else if ends = .anywhere then stopBefore x code c'
          else fault (.missingDelimiter ';') x.2 c'
termination_by c.size
decreasing_by exact next_lt _h

def hexChar (ends : Scan.CodeEnd) (limit : Int) (start pos : Pos) : Taking Char := do
  let code ← codeDigits ends limit start 0 0
  ofExcept (Scan.codeChar pos code)

/-- At most so many more octal digits. -/
def octalDigits : Nat → Nat → Taking Nat
  | 0, code => return code
  | n + 1, code => do
      match ← next with
      | none => return code
      | some x =>
          match Text.octalDigit? x.1 with
          | some d => octalDigits n (code * 8 + d)
          | none => stopBefore x code

/-- What follows a backslash. -/
def escape (fmt : Format) (start : Pos) : Taking Scan.Piece := do
  match ← next with
  | none => fault (.unexpectedEnd .delimited) start
  | some (e, pos) =>
      match Text.escaped? e with
      | some c => return .char c
      | none =>
          if e = 'u' then return .char (← hexChar .fixed 4 start pos)
          else if e = 'U' then return .char (← hexChar .fixed 8 start pos)
          else if e = 'x' then
            let ends := if fmt.hexEscapesEndWithSemicolon then .semicolon else .anywhere
            return .char (← hexChar ends fmt.hexEscapeDigits start pos)
          else if e = '\n' then
            let _ ← run Text.isBlank []
            return .chars []
          else match Text.octalDigit? e with
            | some d =>
                if fmt.octalEscapes then return .char (Char.ofNat (← octalDigits 2 d))
                else if e = '0' then return .char '\x00'
                else fault (.invalidEscape e) pos
            | none => fault (.invalidEscape e) pos

def piece (fmt : Format) (delimiter : Char) (start : Pos) : Taking Scan.Piece := do
  match ← next with
  | none => fault (.unexpectedEnd .delimited) start
  | some (c, _) =>
      if c = delimiter then return .close
      else if c = '\\' then escape fmt start
      else return .char c

theorem gains_run (p : Char → Bool) (found : List Char) : Gains 0 (run p found) := by
  intro c
  fun_induction run p found c with
  | case1 _ _ _ _ taken | case2 _ _ _ taken => exact next_le taken
  | case3 _ _ _ _ taken _ ih => exact Nat.le_trans ih (next_le taken)
  | case4 _ _ x c' taken => exact Nat.le_trans (gains_stopBefore x _ c') (next_lt taken)

theorem gains_codeDigits (ends : Scan.CodeEnd) (limit : Int) (start : Pos) (digits code : Nat) :
    Gains 0 (codeDigits ends limit start digits code) := by
  intro c
  fun_induction codeDigits ends limit start digits code c with
  | case1 _ _ _ _ _ taken | case2 _ _ _ _ taken | case3 _ _ _ _ taken
  | case4 _ _ _ _ _ taken | case5 _ _ _ _ _ taken | case7 _ _ _ _ _ taken
  | case8 _ _ _ _ _ taken | case10 _ _ _ _ _ taken => exact next_le taken
  | case6 _ _ _ _ _ taken _ _ _ _ ih => exact Nat.le_trans ih (next_le taken)
  | case9 _ _ _ x c' taken => exact Nat.le_trans (gains_stopBefore x _ c') (next_lt taken)

theorem gains_hexChar (ends : Scan.CodeEnd) (limit : Int) (start pos : Pos) :
    Gains 0 (hexChar ends limit start pos) :=
  (gains_codeDigits ends limit start 0 0).bind fun _ => gains_ofExcept 0 _

theorem gains_octalDigits (n code : Nat) : Gains 0 (octalDigits n code) := by
  induction n generalizing code with
  | zero => exact gains_pure 0 code
  | succ n ih =>
    apply Gains.next
    · exact gains_pure 0 code
    · intro x
      dsimp only
      cases Text.octalDigit? x.1 with
      | some d => exact (ih _).weaken
      | none => exact gains_stopBefore x code

theorem gains_escape (fmt : Format) (start : Pos) : Gains 0 (escape fmt start) := by
  have hex (ends : Scan.CodeEnd) (limit : Int) (pos : Pos) :
      Gains 0 (do return Scan.Piece.char (← hexChar ends limit start pos)) :=
    (gains_hexChar ends limit start pos).map _
  have octal (d : Nat) :
      Gains 0 (do return Scan.Piece.char (Char.ofNat (← octalDigits 2 d))) :=
    (gains_octalDigits 2 d).map _
  apply Gains.next
  · exact gains_ofExcept 0 _
  · rintro ⟨e, pos⟩
    apply Gains.weaken
    have bad : Gains 0 (fault (.invalidEscape e) pos : Taking Scan.Piece) := gains_ofExcept 0 _
    dsimp only
    cases Text.escaped? e with
    | some x => exact gains_pure 0 _
    | none =>
      have line := (gains_run Text.isBlank []).map fun _ => Scan.Piece.chars []
      refine (hex _ _ _).ite ((hex _ _ _).ite ((hex _ _ _).ite (line.ite ?_)))
      cases Text.octalDigit? e with
      | some d => exact (octal d).ite ((gains_pure 0 _).ite bad)
      | none => exact bad

/-- What is left once a piece has begun. -/
theorem gains_piece (fmt : Format) (delimiter : Char) (start : Pos) (x : Char) :
    Gains 0 (if x = delimiter then return .close
      else if x = '\\' then escape fmt start
      else return .char x) :=
  (gains_pure 0 _).ite ((gains_escape fmt start).ite (gains_pure 0 _))

theorem piece_lt {fmt : Format} {delimiter : Char} {start : Pos} {c c' : Cursor} {x : Scan.Piece}
    (h : piece fmt delimiter start c = (.ok x, c')) : c'.size < c.size := by
  rw [piece, bind_apply] at h
  rcases taken : next c with ⟨e | _ | y, c''⟩
  · rw [taken] at h
    cases h
  · rw [taken] at h
    cases h
  · have rest := gains_piece fmt delimiter start y.1 c''
    rw [taken] at h
    dsimp only at h
    rw [h] at rest
    exact Nat.lt_of_le_of_lt rest (next_lt taken)

/-- The text up to the delimiter, after characters that have been found already, in reverse. -/
def delimitedFrom (fmt : Format) (delimiter : Char) (start : Pos) (found : List Char)
    (c : Cursor) : Except ReadError String × Cursor :=
  match _h : piece fmt delimiter start c with
  | (.error e, c') => (.error e, c')
  | (.ok .close, c') => (.ok (String.ofList found.reverse), c')
  | (.ok (.chars cs), c') => delimitedFrom fmt delimiter start (cs.reverse ++ found) c'
termination_by c.size
decreasing_by exact piece_lt _h

def delimited (fmt : Format) (delimiter : Char) (start : Pos) : Taking String :=
  delimitedFrom fmt delimiter start []

/-! ## Tokens that begin with a hash -/

/-- The body of a block comment, after a part of it, in reverse, with so many more comments open
inside. -/
def blockCommentFrom (start : Pos) (found : List Char) (inner : Nat) (c : Cursor) :
    Except ReadError String × Cursor :=
  match _h : next c with
  | (.error e, c') => (.error e, c')
  | (.ok none, c') => fault (.unexpectedEnd .comment) start c'
  | (.ok (some x), c') =>
      if x.1 = '|' ∨ x.1 = '#' then
        match _h' : next c' with
        | (.error e, c'') => (.error e, c'')
        | (.ok none, c'') => blockCommentFrom start (x.1 :: found) inner c''
        | (.ok (some y), c'') =>
            if x.1 = '|' ∧ y.1 = '#' then
              match inner with
              | 0 => (.ok (String.ofList found.reverse), c'')
              | n + 1 => blockCommentFrom start ('#' :: '|' :: found) n c''
            else if x.1 = '#' ∧ y.1 = '|' then
              blockCommentFrom start ('|' :: '#' :: found) (inner + 1) c''
            else blockCommentFrom start (x.1 :: found) inner (unread (some y) c'').2
      else blockCommentFrom start (x.1 :: found) inner c'
termination_by c.size
decreasing_by
  · exact Nat.lt_of_le_of_lt (next_le _h') (next_lt _h)
  · exact Nat.lt_trans (next_lt _h') (next_lt _h)
  · exact Nat.lt_trans (next_lt _h') (next_lt _h)
  · exact Nat.lt_of_le_of_lt (Nat.le_trans (gains_unread y c'') (next_lt _h')) (next_lt _h)
  · exact next_lt _h

def blockComment (start : Pos) : Taking String := blockCommentFrom start [] 0

def charLiteral (start : Pos) : Taking Char := do
  match ← next with
  | none => fault .invalidHash start
  | some x =>
      let cs ← run Text.isSymbolChar []
      ofExcept (Scan.charOfSpelling start x.1 cs)

def hashColonName (fmt : Format) (start : Pos) : Taking String := do
  match ← next with
  | none => fault (.unexpectedEnd .hashColon) start
  | some x =>
      if x.1 = '|' then delimited fmt '|' start
      else return String.ofList (x.1 :: (← run Text.isSymbolChar []))

/-- The token of a hash that has been taken; none for a block comment that is not kept. -/
def hash (fmt : Format) (modes : Modes) (start : Pos) : Taking (Option Token) := do
  match ← next with
  | none => fault .invalidHash start
  | some x =>
      if x.1 = '\\' then return some (.atom (.char (← charLiteral start)))
      else if x.1 = ';' then return some .datumComment
      else if x.1 = '|' then
        let s ← blockComment start
        return if modes.retainComments then some (.blockComment s) else none
      else if x.1 = ':' then
        let s ← hashColonName fmt start
        return some (.atom (if fmt.hashColonIsKeyword then .leadingKeyword s else .uninterned s))
      else if x.1 = '!' then
        let cs ← run Text.isAsciiLetter []
        ofExcept ((Scan.specialNamed start cs).map some)
      else
        unread (some x)
        let cs ← run Text.isAsciiLetter []
        ofExcept ((Scan.boolSpelled fmt start cs).map some)

/-! ## Tokens -/

/-- The token that begins with `c`, or none where blanks or a comment are not kept. -/
def token (settings : Settings) (c : Char) (start : Pos) : Taking (Option Token) :=
  let fmt := settings.format
  let modes := settings.modes
  match Bracket.ofOpening? c, Bracket.ofClosing? c with
  | some k, _ => return some (.opening k)
  | none, some k => return some (.closing k)
  | none, none =>
      if Text.isBlank c then do
        let cs ← run Text.isBlank []
        return if modes.retainWhitespace then some (.blank (String.ofList (c :: cs))) else none
      else if c = ';' then do
        let cs ← run (· != '\n') []
        if modes.retainComments then ofExcept ((Scan.lineComment start cs).map some)
        else return none
      else if c = '#' then hash fmt modes start
      else if c = '\x22' then return some (.atom (.string (← delimited fmt c start)))
      else if c = '|' then return some (.atom (.symbol (← delimited fmt c start)))
      else if c = '\x27' then return some (.mark .quote)
      else if c = '\x60' then return some (.mark .quasiquote)
      else if c = ',' then do
        match ← next with
        | none => return some (.mark .unquote)
        | some x =>
            if x.1 = '@' then return some (.mark .unquoteSplicing)
            else stopBefore x (some (.mark .unquote))
      else do
        let cs ← run Text.isSymbolChar []
        return some (bareToken fmt (c :: cs))

theorem gains_delimited (fmt : Format) (delimiter : Char) (start : Pos) :
    Gains 0 (delimited fmt delimiter start) := by
  have piece (c : Cursor) : (piece fmt delimiter start c).2.size ≤ c.size :=
    Gains.next (gains_ofExcept 0 _) (fun x => (gains_piece fmt delimiter start x.1).weaken) c
  have rest (found : List Char) : Gains 0 (delimitedFrom fmt delimiter start found) := by
    intro c
    fun_induction delimitedFrom fmt delimiter start found c with
    | case1 _ c _ _ ran | case2 _ c _ ran =>
      have rest := piece c
      rwa [ran] at rest
    | case3 _ c _ _ ran ih => exact Nat.le_trans ih (Nat.le_of_lt (piece_lt ran))
  exact rest []

theorem gains_blockCommentFrom (start : Pos) (found : List Char) (inner : Nat) :
    Gains 0 (blockCommentFrom start found inner) := by
  intro c
  fun_induction blockCommentFrom start found inner c with
  | case1 _ _ _ _ _ taken | case2 _ _ _ _ taken => exact next_le taken
  | case3 _ _ _ _ _ taken _ _ _ again | case5 _ _ _ _ taken _ _ _ again =>
    exact Nat.le_trans (next_le again) (next_le taken)
  | case4 _ _ _ _ _ taken _ _ again ih | case6 _ _ _ _ taken _ _ _ again _ _ ih
  | case7 _ _ _ _ _ taken _ _ _ again _ _ ih =>
    exact Nat.le_trans ih (Nat.le_trans (next_le again) (next_le taken))
  | case8 _ _ _ _ _ taken _ y c'' again _ _ ih =>
    have back := Nat.le_trans (gains_unread y c'') (next_lt again)
    exact Nat.le_trans ih (Nat.le_trans back (next_le taken))
  | case9 _ _ _ _ _ taken _ ih => exact Nat.le_trans ih (next_le taken)

theorem gains_charLiteral (start : Pos) : Gains 0 (charLiteral start) := by
  apply Gains.next
  · exact gains_ofExcept 0 _
  · intro x
    exact ((gains_run _ _).bind fun _ => gains_ofExcept 0 _).weaken

theorem gains_hashColonName (fmt : Format) (start : Pos) : Gains 0 (hashColonName fmt start) := by
  apply Gains.next
  · exact gains_ofExcept 0 _
  · intro x
    exact ((gains_delimited fmt '|' start).ite ((gains_run _ _).map _)).weaken

theorem gains_hash (fmt : Format) (modes : Modes) (start : Pos) :
    Gains 0 (hash fmt modes start) := by
  have letters (f : List Char → Except ReadError Token) :
      Gains 0 (do ofExcept ((f (← run Text.isAsciiLetter [])).map some)) :=
    (gains_run _ _).bind fun _ => gains_ofExcept 0 _
  apply Gains.next
  · exact gains_ofExcept 0 _
  · intro x
    refine .ite ((gains_charLiteral start).map _).weaken (.ite (gains_pure 1 _) ?_)
    refine .ite ((gains_blockCommentFrom start [] 0).map _).weaken ?_
    refine .ite ((gains_hashColonName fmt start).map _).weaken (.ite (letters _).weaken ?_)
    exact (gains_unread x).bind fun _ => letters _

theorem gains_token (settings : Settings) (c : Char) (start : Pos) :
    Gains 0 (token settings c start) := by
  unfold token
  cases Bracket.ofOpening? c with
  | some k => exact gains_pure 0 _
  | none =>
    cases Bracket.ofClosing? c with
    | some k => exact gains_pure 0 _
    | none =>
      have text := gains_delimited settings.format c start
      have comma : Gains 0 (do
          match ← next with
          | none => return some (Token.mark .unquote)
          | some x =>
              if x.1 = '@' then return some (.mark .unquoteSplicing)
              else stopBefore x (some (.mark .unquote))) :=
        .next (gains_pure 0 _) fun x => (gains_pure 1 _).ite (gains_stopBefore x _)
      refine .ite ((gains_run _ _).map _) (.ite ?_ (.ite (gains_hash _ _ _) ?_))
      · exact (gains_run _ _).bind fun _ => (gains_ofExcept 0 _).ite (gains_pure 0 _)
      · refine .ite (text.map _) (.ite (text.map _) ?_)
        exact .ite (gains_pure 0 _) (.ite (gains_pure 0 _) (.ite comma ((gains_run _ _).map _)))

theorem token_le {settings : Settings} {x : Char} {start : Pos} {c c' : Cursor}
    {result : Except ReadError (Option Token)} (h : token settings x start c = (result, c')) :
    c'.size ≤ c.size := by
  have rest := gains_token settings x start c
  rwa [h] at rest

/-- The next token that is kept, or none at the end. -/
def nextToken (settings : Settings) (c : Cursor) :
    Except ReadError (Option (Token × Pos)) × Cursor :=
  match _h : next c with
  | (.error e, c') => (.error e, c')
  | (.ok none, c') => (.ok none, c')
  | (.ok (some (x, pos)), c') =>
      match _h' : token settings x pos c' with
      | (.error e, c'') => (.error e, c'')
      | (.ok (some t), c'') => (.ok (some (t, pos)), c'')
      | (.ok none, c'') => nextToken settings c''
termination_by c.size
decreasing_by exact Nat.lt_of_le_of_lt (token_le _h') (next_lt _h)

theorem nextToken_lt {settings : Settings} {c c' : Cursor} {x : Token × Pos}
    (h : nextToken settings c = (.ok (some x), c')) : c'.size < c.size := by
  fun_induction nextToken settings c with
  | case1 | case2 | case3 => cases h
  | case4 _ _ _ _ taken _ _ made =>
    cases h
    exact Nat.lt_of_le_of_lt (token_le made) (next_lt taken)
  | case5 _ _ _ _ taken _ made ih =>
    exact Nat.lt_trans (ih h) (Nat.lt_of_le_of_lt (token_le made) (next_lt taken))

end Sexpr.Cursor
