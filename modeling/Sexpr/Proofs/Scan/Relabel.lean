import Sexpr.Proofs.Scan.Steps

/-!
Positions are labels. Where the characters of an input get other positions, the same is scanned, and
every position that comes out is the new one of the same character.

- `token_relabel`: so it is for one token.
-/

namespace Sexpr

/-- The same characters at the positions that `f` moves them to. -/
def Input.relabel (f : Pos → Pos) (input : Input) : Input := input.map fun x => (x.1, f x.2)

/-- A bracket that does not match is told with the position of the opening one. -/
def StructuralFault.relabel (f : Pos → Pos) : StructuralFault → StructuralFault
  | .mismatch opened openPos closed => .mismatch opened (f openPos) closed
  | g => g

def Fault.relabel (f : Pos → Pos) : Fault → Fault
  | .lexical g => .lexical g
  | .structural g => .structural (g.relabel f)

def ReadError.relabel (f : Pos → Pos) (e : ReadError) : ReadError := ⟨e.fault.relabel f, f e.pos⟩

namespace Scan

def relabel (f : Pos → Pos) {α : Type} (s : Scan α) : Scan α where
  result := s.result.mapError (ReadError.relabel f)
  rest := s.rest.relabel f
  peeked := s.peeked

variable {α β : Type} {f : Pos → Pos} {s : Scan α} {input : Input} {start p : Pos}

@[simp] theorem relabel_nil : Input.relabel f [] = [] := rfl

@[simp] theorem relabel_cons (c : Char) (p : Pos) (input : Input) :
    Input.relabel f ((c, p) :: input) = (c, f p) :: input.relabel f := rfl

@[simp] theorem relabel_done (a : α) (input : Input) :
    (done a input).relabel f = done a (input.relabel f) := rfl

@[simp] theorem relabel_upTo (a : α) (input : Input) :
    (upTo a input).relabel f = upTo a (input.relabel f) := rfl

@[simp] theorem relabel_fault (g : LexicalFault) (p : Pos) (input : Input) :
    (fault g p input : Scan α).relabel f = fault g (f p) (input.relabel f) := rfl

@[simp] theorem relabel_faultUpTo (g : LexicalFault) (p : Pos) (input : Input) :
    (faultUpTo g p input : Scan α).relabel f = faultUpTo g (f p) (input.relabel f) := rfl

theorem relabel_map (s : Scan α) (g : α → β) : (s.map g).relabel f = (s.relabel f).map g := by
  simp only [relabel, map, Scan.mk.injEq, and_true]
  cases s.result <;> rfl

/-- A check whose faults are labelled the same way. -/
theorem relabel_check (s : Scan α) {g g' : α → Except ReadError β}
    (agree : ∀ a, g' a = (g a).mapError (ReadError.relabel f)) :
    (s.check g).relabel f = (s.relabel f).check g' := by
  simp only [relabel, check, Scan.mk.injEq, and_true]
  cases s.result with
  | error e => rfl
  | ok a => exact (agree a).symm

theorem run_relabel (pred : Char → Bool) (input : Input) :
    run pred (input.relabel f) = ((run pred input).1, (run pred input).2.relabel f) := by
  simp only [run, Input.relabel, List.takeWhile_map, List.dropWhile_map, List.map_map]
  rfl

/-! ## The scanners -/

theorem codeDigits_relabel (ends : CodeEnd) (limit : Int) (digits code : Nat) :
    codeDigits ends limit (f start) digits code (input.relabel f) =
      (codeDigits ends limit start digits code input).relabel f := by
  fun_induction codeDigits ends limit start digits code input <;> simp_all [codeDigits]

theorem codeChar_relabel (p : Pos) (code : Nat) :
    codeChar (f p) code = (codeChar p code).mapError (ReadError.relabel f) := by
  unfold codeChar
  cases Text.scalar? code <;> rfl

theorem hexChar_relabel (ends : CodeEnd) (limit : Int) :
    hexChar ends limit (f start) (f p) (input.relabel f) =
      (hexChar ends limit start p input).relabel f := by
  rw [hexChar, hexChar, relabel_check _ (codeChar_relabel p), codeDigits_relabel]

theorem octalDigits_relabel (n code : Nat) :
    octalDigits n code (input.relabel f) = (octalDigits n code input).relabel f := by
  fun_induction octalDigits n code input <;> simp_all [octalDigits]

theorem escape_relabel (fmt : Format) :
    escape fmt (f start) (input.relabel f) = (escape fmt start input).relabel f := by
  fun_cases escape fmt start input with
  | case1 => rfl
  | case2 e p rest c name => simp [escape, name]
  | case3 p rest =>
    rw [relabel_map, ← hexChar_relabel]
    rfl
  | case4 p rest =>
    rw [relabel_map, ← hexChar_relabel]
    rfl
  | case5 p rest ends =>
    rw [relabel_map, ← hexChar_relabel]
    rfl
  | case6 p rest =>
    rw [relabel_upTo, relabel_cons]
    exact congrArg (upTo _) (congrArg Prod.snd (run_relabel Text.isBlank rest))
  | case7 e p rest noName u u' x newline d octal on =>
    rw [relabel_map, ← octalDigits_relabel]
    simp [escape, ‹Text.escaped? e = none›, u, u', x, newline, octal, on]
  | case8 | case9 | case10 => simp_all [escape]

theorem piece_relabel (fmt : Format) (delimiter : Char) :
    piece fmt delimiter (f start) (input.relabel f) =
      (piece fmt delimiter start input).relabel f := by
  fun_cases piece fmt delimiter start input <;> simp_all [piece, escape_relabel]

theorem delimitedFrom_relabel (fmt : Format) (delimiter : Char) (found : List Char) :
    delimitedFrom fmt delimiter (f start) found (input.relabel f) =
      (delimitedFrom fmt delimiter start found input).relabel f := by
  have same (input : Input) := @piece_relabel f input start fmt delimiter
  fun_induction delimitedFrom fmt delimiter start found input with
  | case1 found input s e failed =>
    have failed' : (piece fmt delimiter (f start) (input.relabel f)).result =
        .error (e.relabel f) := by
      rw [same, relabel, failed]
      rfl
    rw [delimitedFrom_error failed', same]
    rfl
  | case2 found input s closes =>
    have closes' : (piece fmt delimiter (f start) (input.relabel f)).result = .ok .close := by
      rw [same, relabel, closes]
      rfl
    rw [delimitedFrom_close closes', same]
    rfl
  | case3 found input s cs more ih =>
    have more' : (piece fmt delimiter (f start) (input.relabel f)).result = .ok (.chars cs) := by
      rw [same, relabel, more]
      rfl
    rw [delimitedFrom_chars more', same]
    exact ih

theorem delimited_relabel (fmt : Format) (delimiter : Char) :
    delimited fmt delimiter (f start) (input.relabel f) =
      (delimited fmt delimiter start input).relabel f :=
  delimitedFrom_relabel fmt delimiter []

theorem head_of_relabel {c : Char} {q : Pos} {more : Input}
    (h : input.relabel f = (c, q) :: more) : ∃ p rest, input = (c, p) :: rest := by
  obtain ⟨⟨d, p⟩, rest, rfl, same, -⟩ := List.map_eq_cons_iff.1 h
  obtain ⟨rfl, -⟩ := Prod.mk.inj same
  exact ⟨p, rest, rfl⟩

theorem blockCommentFrom_relabel (found : List Char) (inner : Nat) :
    blockCommentFrom (f start) found inner (input.relabel f) =
      (blockCommentFrom start found inner input).relabel f := by
  fun_induction blockCommentFrom start found inner input with
  | case1 => rfl
  | case2 => rfl
  | case3 _ _ _ _ _ ih => exact ih
  | case4 _ _ _ _ _ ih => simpa [blockCommentFrom] using ih
  | case5 found inner c p rest noClose noOpen ih =>
    rw [relabel_cons, blockCommentFrom]
    · exact ih
    · intro q more same close
      obtain ⟨q', more', rfl⟩ := head_of_relabel same
      exact noClose q' more' rfl close
    · intro q more same opens
      obtain ⟨q', more', rfl⟩ := head_of_relabel same
      exact noOpen q' more' rfl opens

theorem charOfSpelling_relabel (c : Char) (cs : List Char) :
    charOfSpelling (f start) c cs =
      (charOfSpelling start c cs).mapError (ReadError.relabel f) := by
  unfold charOfSpelling
  split
  · rfl
  · split
    · exact codeChar_relabel start _
    · split <;> rfl

theorem charLiteral_relabel :
    charLiteral (f start) (input.relabel f) = (charLiteral start input).relabel f := by
  fun_cases charLiteral start input with
  | case1 => rfl
  | case2 c p rest cs rest' ran =>
    have agree (x : Char × List Char) :
        charOfSpelling (f start) x.1 x.2 =
          (charOfSpelling start x.1 x.2).mapError (ReadError.relabel f) :=
      charOfSpelling_relabel x.1 x.2
    rw [relabel_check _ agree, relabel_cons, charLiteral, run_relabel, ran]
    rfl

theorem hashColonName_relabel (fmt : Format) :
    hashColonName fmt (f start) (input.relabel f) = (hashColonName fmt start input).relabel f := by
  fun_cases hashColonName fmt start input with
  | case1 => rfl
  | case2 p rest => exact delimited_relabel fmt '|'
  | case3 c p rest bar cs rest' ran => simp [hashColonName, bar, run_relabel, ran]

theorem specialNamed_relabel (cs : List Char) :
    specialNamed (f start) cs = (specialNamed start cs).mapError (ReadError.relabel f) := by
  unfold specialNamed
  dsimp only
  split <;> rfl

theorem boolSpelled_relabel (fmt : Format) (cs : List Char) :
    boolSpelled fmt (f start) cs = (boolSpelled fmt start cs).mapError (ReadError.relabel f) := by
  unfold boolSpelled
  dsimp only
  split
  · rfl
  · split <;> rfl

theorem lineComment_relabel (cs : List Char) :
    lineComment (f start) cs = (lineComment start cs).mapError (ReadError.relabel f) := by
  unfold lineComment
  dsimp only
  split <;> rfl

theorem hash_relabel (fmt : Format) (modes : Modes) :
    hash fmt modes (f start) (input.relabel f) = (hash fmt modes start input).relabel f := by
  fun_cases hash fmt modes start input with
  | case1 => rfl
  | case2 p rest =>
    rw [relabel_map, ← charLiteral_relabel]
    rfl
  | case3 => rfl
  | case4 p rest =>
    rw [relabel_map, blockComment, ← blockCommentFrom_relabel]
    rfl
  | case5 p rest =>
    rw [relabel_map, ← hashColonName_relabel]
    rfl
  | case6 p rest cs rest' ran =>
    rw [relabel_map, relabel_check _ specialNamed_relabel, relabel_upTo]
    have ran' := run_relabel (f := f) Text.isAsciiLetter rest
    rw [ran] at ran'
    simp [hash, ran']
  | case7 c p rest backslash semicolon bar colon bang cs rest' ran =>
    rw [relabel_map, relabel_check _ (boolSpelled_relabel fmt), relabel_upTo]
    have ran' := run_relabel (f := f) Text.isAsciiLetter ((c, p) :: rest)
    rw [ran, relabel_cons] at ran'
    simp [hash, backslash, semicolon, bar, colon, bang, ran']

theorem token_relabel (settings : Settings) (c : Char) (p : Pos) (input : Input) :
    token settings c (f p) (input.relabel f) = (token settings c p input).relabel f := by
  cases begins c with
  | opening k => rw [token_opening, token_opening, relabel_done]
  | closing k => rw [token_closing, token_closing, relabel_done]
  | blank blank => rw [token_blank _ _ _ blank, token_blank _ _ _ blank, run_relabel, relabel_upTo]
  | comment =>
    rw [token_comment, token_comment, run_relabel]
    split
    · rw [relabel_map, relabel_check _ lineComment_relabel, relabel_upTo]
    · rw [relabel_upTo]
  | hash => rw [token_hash, token_hash, hash_relabel]
  | string => rw [token_string, token_string, relabel_map, delimited_relabel]
  | barred => rw [token_barred, token_barred, relabel_map, delimited_relabel]
  | quote | quasiquote => rfl
  | unquote =>
    rcases splicing_or input with ⟨q, rest, rfl⟩ | alone
    · rfl
    · have alone' : ∀ x ∈ (input.relabel f).head?, x.1 ≠ '@' := by
        rintro ⟨d, q⟩ head rfl
        obtain ⟨more, cons⟩ := List.head?_eq_some_iff.1 head
        obtain ⟨q', rest, rfl⟩ := head_of_relabel cons
        exact alone _ rfl rfl
      rw [token_unquote _ _ _ alone, token_unquote _ _ _ alone', relabel_upTo]
  | bare plain comment hash =>
    rw [token_bare _ _ _ plain comment hash, token_bare _ _ _ plain comment hash, run_relabel,
      relabel_upTo]

end Scan

end Sexpr
