import Sexpr.Proofs.Scan.Bare
import Sexpr.Proofs.Scan.Steps

/-!
One token under two formats that have the same escapes.

- `token_formats`: it is the same, unless it is a name after `#:`, a lone point or a long boolean.
-/

namespace Sexpr

namespace Format

/-- Between delimiters both formats read the same escapes. -/
structure EscapesAlike (fmt fmt' : Format) : Prop where
  octal : fmt'.octalEscapes = fmt.octalEscapes
  semicolon : fmt'.hexEscapesEndWithSemicolon = fmt.hexEscapesEndWithSemicolon
  digits : fmt'.hexEscapeDigits = fmt.hexEscapeDigits

/-- What a name after `#:` is. -/
def hashColonAtom (fmt : Format) (name : String) : Atom :=
  if fmt.hashColonIsKeyword then .leadingKeyword name else .uninterned name

/-- What a lone point is. -/
def pointToken (fmt : Format) : Token :=
  if fmt.hasDottedPairs then .dot else .atom (.symbol ".")

end Format

namespace Scan

/-! ## Where formats differ -/

/-- A hash and a colon stand at the beginning. -/
def HashColonAt (c : Char) (input : Input) : Prop := c = '#' ∧ ∃ q rest, input = (':', q) :: rest

/-- A point stands at the beginning, and no symbol goes on after it. -/
def LoneDotAt (c : Char) (input : Input) : Prop :=
  c = '.' ∧ ∀ x ∈ input.head?, Text.isSymbolChar x.1 = false

def longName (b : Bool) : String := if b then "true" else "false"

/-- A hash and the long name of a boolean stand at the beginning, and no letter after them. -/
def LongBooleanAt (b : Bool) (c : Char) (input : Input) : Prop :=
  c = '#' ∧ ∃ name rest, input = name ++ rest ∧ name.map Prod.fst = (longName b).toList ∧
    ∀ x ∈ rest.head?, Text.isAsciiLetter x.1 = false

/-- The scan of a hash and letters that are the long name of a boolean. -/
def longBoolean (fmt : Format) (b : Bool) (p : Pos) (rest : Input) : Scan (Option Token) :=
  if fmt.longBooleans then .upTo (some (.atom (.bool b))) rest else .faultUpTo .invalidHash p rest

/-- How scans of the same input under two formats compare. -/
inductive Compares (fmt fmt' : Format) (c : Char) (p : Pos) (input : Input) :
    Scan (Option Token) → Scan (Option Token) → Prop
  | same {s : Scan (Option Token)} (noColon : ¬ HashColonAt c input)
      (noDot : ¬ LoneDotAt c input) : Compares fmt fmt' c p input s s
  | hashColon (stands : HashColonAt c input) (s : Scan String) :
      Compares fmt fmt' c p input (s.map fun name => some (.atom (fmt.hashColonAtom name)))
        (s.map fun name => some (.atom (fmt'.hashColonAtom name)))
  | loneDot (stands : LoneDotAt c input) :
      Compares fmt fmt' c p input (.upTo (some fmt.pointToken) input)
        (.upTo (some fmt'.pointToken) input)
  | longBoolean {b : Bool} {rest : Input} (stands : LongBooleanAt b c input) :
      Compares fmt fmt' c p input (longBoolean fmt b p rest) (longBoolean fmt' b p rest)

variable {fmt fmt' : Format} {start p : Pos} {c : Char} {input rest : Input} {cs : List Char}

theorem not_hashColonAt (other : c ≠ '#') : ¬ HashColonAt c input := by
  rintro ⟨hash, -⟩
  exact other hash

theorem not_loneDotAt (other : c ≠ '.') : ¬ LoneDotAt c input := by
  rintro ⟨point, -⟩
  exact other point

theorem LongBooleanAt.not_hashColonAt {b : Bool} (h : LongBooleanAt b c input) :
    ¬ HashColonAt c input := by
  rintro ⟨-, q, rest', rfl⟩
  obtain ⟨-, name, rest, parts, chars, -⟩ := h
  cases name with
  | nil => cases b <;> cases chars
  | cons x name =>
    cases parts
    cases b <;> cases chars

/-! ## Delimited text -/

theorem escape_formats (alike : fmt.EscapesAlike fmt') (start : Pos) (input : Input) :
    escape fmt' start input = escape fmt start input := by
  simp only [escape, alike.octal, alike.semicolon, alike.digits]

theorem piece_formats (alike : fmt.EscapesAlike fmt') (delimiter : Char) (start : Pos)
    (input : Input) : piece fmt' delimiter start input = piece fmt delimiter start input := by
  simp only [piece, escape_formats alike]

theorem delimitedFrom_formats (alike : fmt.EscapesAlike fmt') (delimiter : Char) (start : Pos)
    (found : List Char) (input : Input) :
    delimitedFrom fmt' delimiter start found input =
      delimitedFrom fmt delimiter start found input := by
  have same (input : Input) := piece_formats alike delimiter start input
  fun_induction delimitedFrom fmt delimiter start found input with
  | case1 found input s e failed => rw [delimitedFrom_error (by rw [same, failed]), same]
  | case2 found input s closes => rw [delimitedFrom_close (by rw [same, closes]), same]
  | case3 found input s cs more ih => rw [delimitedFrom_chars (by rw [same, more]), same, ih]

/-! ## Hashes and points -/

theorem boolSpelled_long (fmt : Format) (p : Pos) (b : Bool) :
    boolSpelled fmt p (longName b).toList =
      if fmt.longBooleans then .ok (.atom (.bool b)) else .error ⟨.lexical .invalidHash, p⟩ := by
  cases b <;> cases long : fmt.longBooleans <;> simp [boolSpelled, longName, long]

theorem boolSpelled_formats (other : ∀ b, cs ≠ (longName b).toList) (p : Pos) :
    boolSpelled fmt' p cs = boolSpelled fmt p cs := by
  have noTrue : String.ofList cs ≠ "true" := by
    intro same
    exact other true (by rw [← String.toList_ofList (l := cs), same]; rfl)
  have noFalse : String.ofList cs ≠ "false" := by
    intro same
    exact other false (by rw [← String.toList_ofList (l := cs), same]; rfl)
  simp [boolSpelled, noTrue, noFalse]

theorem longBooleanAt_of_run {b : Bool}
    (ran : run Text.isAsciiLetter input = ((longName b).toList, rest)) :
    LongBooleanAt b '#' input := by
  obtain ⟨chars, left⟩ := Prod.mk.inj ran
  refine ⟨rfl, input.takeWhile fun x => Text.isAsciiLetter x.1, rest, ?_, chars, ?_⟩
  · rw [← left, List.takeWhile_append_dropWhile]
  · intro x first
    exact run_stops ran x.1 (by rw [List.head?_map, first]; rfl)

/-- Under formats with the same escapes only what follows a hash and a colon may differ, and a long
boolean. -/
theorem hash_formats (alike : fmt.EscapesAlike fmt') (modes : Modes) (p : Pos) (input : Input) :
    Compares fmt fmt' '#' p input (hash fmt modes p input) (hash fmt' modes p input) := by
  have noDot : ¬ LoneDotAt '#' input := not_loneDotAt (by decide)
  fun_cases hash fmt modes p input with
  | case1 => exact .same (by rintro ⟨-, q, rest, ⟨⟩⟩) noDot
  | case2 | case3 | case4 => exact .same (by rintro ⟨-, q, rest, ⟨⟩⟩) noDot
  | case6 q rest cs rest' ran =>
    have scan' : hash fmt' modes p (('!', q) :: rest) =
        ((upTo cs rest').check (specialNamed p)).map some := by
      show ((upTo (run _ rest).1 (run _ rest).2).check (specialNamed p)).map some = _
      rw [ran]
    rw [scan']
    exact .same (by rintro ⟨-, q, rest, ⟨⟩⟩) noDot
  | case5 q rest =>
    have name : hashColonName fmt' p rest = hashColonName fmt p rest := by
      cases rest with
      | nil => rfl
      | cons x rest => simp only [hashColonName, delimited, delimitedFrom_formats alike]
    have scan' : hash fmt' modes p ((':', q) :: rest) = (hashColonName fmt p rest).map
        fun s => some (.atom (fmt'.hashColonAtom s)) := by
      rw [← name]
      rfl
    rw [scan']
    exact .hashColon ⟨rfl, q, rest, rfl⟩ (hashColonName fmt p rest)
  | case7 c q rest backslash semicolon bar colon bang cs rest' ran =>
    have scan' : hash fmt' modes p ((c, q) :: rest) =
        ((upTo cs rest').check (boolSpelled fmt' p)).map some := by
      rw [hash, if_neg backslash, if_neg semicolon, if_neg bar, if_neg colon, if_neg bang, ran]
    rw [scan']
    by_cases long : ∃ b, cs = (longName b).toList
    · obtain ⟨b, rfl⟩ := long
      have spelled (fmt : Format) :
          ((upTo (longName b).toList rest').check (boolSpelled fmt p)).map some =
            longBoolean fmt b p rest' := by
        simp only [check, upTo, Except.bind, boolSpelled_long, longBoolean]
        split <;> rfl
      rw [spelled, spelled]
      exact .longBoolean (longBooleanAt_of_run ran)
    · have other : ∀ b, cs ≠ (longName b).toList := not_exists.1 long
      have agree : boolSpelled fmt' p cs = boolSpelled fmt p cs := boolSpelled_formats other p
      have same : (upTo cs rest').check (boolSpelled fmt' p) =
          (upTo cs rest').check (boolSpelled fmt p) := by
        simp only [check, upTo, Except.bind, agree]
      rw [same]
      refine .same ?_ noDot
      rintro ⟨-, q, rest, ⟨⟩⟩
      exact colon rfl

theorem bareToken_point (fmt : Format) : bareToken fmt ['.'] = fmt.pointToken := by
  cases dots : fmt.hasDottedPairs <;> simp [bareToken, Format.pointToken, dots]
  rfl

theorem run_eq_nil {pred : Char → Bool} (ran : (run pred input).1 = []) :
    ∀ x ∈ input.head?, pred x.1 = false := by
  cases input with
  | nil => simp
  | cons x input => cases fits : pred x.1 <;> simp_all [run]

theorem run_of_stops {pred : Char → Bool} (stops : ∀ x ∈ input.head?, pred x.1 = false) :
    run pred input = ([], input) := by
  have ends : ∀ c ∈ (input.map Prod.fst).head?, pred c = false := by
    intro c first
    obtain ⟨x, here, rfl⟩ := Option.map_eq_some_iff.1 (List.head?_map ▸ first)
    exact stops x here
  simpa using @run_append pred [] input (by simp) ends

/-- The same token under two formats with the same escapes, unless it is one of those that they may
differ about. -/
theorem token_formats (alike : fmt.EscapesAlike fmt') (modes : Modes) (c : Char) (p : Pos)
    (input : Input) :
    Compares fmt fmt' c p input (token ⟨fmt, modes⟩ c p input) (token ⟨fmt', modes⟩ c p input) := by
  have same {s s' : Scan (Option Token)} (noHash : c ≠ '#') (noDot : c ≠ '.') (eq : s' = s) :
      Compares fmt fmt' c p input s s' := by
    subst eq
    exact .same (not_hashColonAt noHash) (not_loneDotAt noDot)
  cases begins c with
  | opening k =>
    rw [token_opening, token_opening]
    exact same (by cases k <;> decide) (by cases k <;> decide) rfl
  | closing k =>
    rw [token_closing, token_closing]
    exact same (by cases k <;> decide) (by cases k <;> decide) rfl
  | blank blank =>
    rw [token_blank _ p input blank, token_blank _ p input blank]
    exact same (by rintro rfl; cases blank) (by rintro rfl; cases blank) rfl
  | comment =>
    rw [token_comment, token_comment]
    exact same (by decide) (by decide) rfl
  | hash =>
    rw [token_hash, token_hash]
    exact hash_formats alike modes p input
  | string | barred =>
    refine same (by decide) (by decide) ?_
    exact congrArg (fun s => Scan.map _ s) (delimitedFrom_formats alike _ p [] input)
  | quote | quasiquote => exact same (by decide) (by decide) rfl
  | unquote =>
    rcases splicing_or input with ⟨q, rest, rfl⟩ | alone
    · exact same (by decide) (by decide) rfl
    · rw [token_unquote _ p input alone, token_unquote _ p input alone]
      exact same (by decide) (by decide) rfl
  | bare plain comment noHash =>
    rw [token_bare _ p input plain comment noHash, token_bare _ p input plain comment noHash]
    by_cases point : c :: (run Text.isSymbolChar input).1 = ['.']
    · obtain ⟨rfl, nothing⟩ := List.cons.inj point
      have stops := run_eq_nil nothing
      rw [run_of_stops stops, bareToken_point, bareToken_point]
      exact .loneDot ⟨rfl, stops⟩
    · rw [bareToken_of_noDot point, bareToken_of_noDot point]
      refine .same (not_hashColonAt noHash) ?_
      rintro ⟨rfl, stops⟩
      exact point (by rw [run_of_stops stops])

end Scan

end Sexpr
