import Sexpr.Proofs.Scan.Steps
import Sexpr.Proofs.Text.Digits

/-!
The grammar of text between delimiters: pieces that stand for a character each, or for none, and the
delimiter after them.

- `delimitedFrom_sound`: what is scanned is such a text.
- `delimitedFrom_complete`: every such text is scanned, as what it stands for and no further.
-/

namespace Sexpr

namespace Text

/-- What may stand after a backslash, and the character that both stand for. -/
def namedEscapes : List (Char × Char) :=
  [('a', '\x07'), ('b', '\x08'), ('t', '\x09'), ('n', '\x0a'), ('v', '\x0b'), ('f', '\x0c'),
   ('r', '\x0d'), ('\\', '\\'), ('\x22', '\x22'), ('\x27', '\x27'), ('|', '|')]

theorem escaped?_eq_some {e c : Char} : escaped? e = some c ↔ (e, c) ∈ namedEscapes := by
  constructor
  · intro h
    unfold escaped? at h
    split at h
    · rename_i self
      cases h
      have mem : e ∈ ['\\', '\x22', '\x27', '|'] := List.contains_iff_mem.1 self
      simp only [List.mem_cons, List.not_mem_nil, or_false] at mem
      rcases mem with rfl | rfl | rfl | rfl <;> decide
    · obtain ⟨before, after, table, -⟩ := List.lookup_eq_some_iff.1 h
      have letters : ∀ x ∈ escapeLetters, x ∈ namedEscapes := by decide
      apply letters
      rw [table]
      simp
  · intro h
    have table : ∀ x ∈ namedEscapes, escaped? x.1 = some x.2 := by decide
    exact table (e, c) h

/-- A digit or a letter before a code is no name. -/
theorem escaped?_eq_none {e : Char} (h : ∀ x ∈ namedEscapes, x.1 ≠ e) : escaped? e = none := by
  cases found : escaped? e with
  | none => rfl
  | some c => exact absurd rfl (h (e, c) (escaped?_eq_some.1 found))

theorem scalar?_eq_some {n : Nat} {c : Char} :
    scalar? n = some c ↔ n.isValidChar ∧ c = Char.ofNat n := by
  unfold scalar?
  by_cases valid : n.isValidChar
  · rw [dif_pos valid, Char.ofNat, dif_pos valid, Option.some.injEq]
    constructor
    · rintro rfl
      exact ⟨valid, rfl⟩
    · rintro ⟨-, rfl⟩
      rfl
  · rw [dif_neg valid]
    constructor
    · rintro ⟨⟩
    · rintro ⟨valid', -⟩
      exact absurd valid' valid

end Text

namespace Scan

/-! ## The grammar -/

/-- How a code of so many digits ends: the mark after it, and what may follow. The limit is none if
it is negative. -/
inductive CodeStops (limit : Int) (digits : Nat) (after : List Char) : CodeEnd → List Char → Prop
  | fixed (all : (digits : Int) = limit) : CodeStops limit digits after .fixed []
  | semicolon (few : limit < 0 ∨ (digits : Int) ≤ limit) :
      CodeStops limit digits after .semicolon [';']
  | anywhere (few : limit < 0 ∨ (digits : Int) ≤ limit)
      (last : (digits : Int) = limit ∨ ∀ c ∈ after.head?, ¬ Text.IsDigit 16 c) :
      CodeStops limit digits after .anywhere []

/-- The letters that a code may follow, with the end and the limit of its digits. -/
inductive CodeLetter (fmt : Format) : Char → CodeEnd → Int → Prop
  | four : CodeLetter fmt 'u' .fixed 4
  | eight : CodeLetter fmt 'U' .fixed 8
  | closed (on : fmt.hexEscapesEndWithSemicolon = true) :
      CodeLetter fmt 'x' .semicolon fmt.hexEscapeDigits
  | loose (off : fmt.hexEscapesEndWithSemicolon = false) :
      CodeLetter fmt 'x' .anywhere fmt.hexEscapeDigits

/-- Characters that are one piece before `after`, and what they stand for. -/
inductive IsPiece (fmt : Format) (q : Char) (after : List Char) : List Char → List Char → Prop
  | plain {c : Char} (noQuote : c ≠ q) (noBackslash : c ≠ '\\') : IsPiece fmt q after [c] [c]
  | named {e c : Char} (named : (e, c) ∈ Text.namedEscapes) : IsPiece fmt q after ['\\', e] [c]
  | code {letter : Char} {ends : CodeEnd} {limit : Int} {ds mark : List Char}
      (form : CodeLetter fmt letter ends limit) (nonempty : ds ≠ [])
      (hex : ∀ c ∈ ds, Text.IsDigit 16 c) (stops : CodeStops limit ds.length after ends mark)
      (valid : (Text.positional 16 ds).isValidChar) :
      IsPiece fmt q after ('\\' :: letter :: (ds ++ mark)) [Char.ofNat (Text.positional 16 ds)]
  | octal {ds : List Char} (on : fmt.octalEscapes = true) (nonempty : ds ≠ [])
      (few : ds.length ≤ 3) (octal : ∀ c ∈ ds, Text.IsDigit 8 c)
      (last : ds.length = 3 ∨ ∀ c ∈ after.head?, ¬ Text.IsDigit 8 c) :
      IsPiece fmt q after ('\\' :: ds) [Char.ofNat (Text.positional 8 ds)]
  | zero (off : fmt.octalEscapes = false) : IsPiece fmt q after ['\\', '0'] ['\x00']
  | continuation {blanks : List Char} (blank : ∀ c ∈ blanks, Text.isBlank c = true)
      (last : ∀ c ∈ after.head?, Text.isBlank c = false) :
      IsPiece fmt q after ('\\' :: '\n' :: blanks) []

/-- Pieces up to the delimiter: the text they stand for, and what is left after it. -/
inductive Denotes (fmt : Format) (q : Char) : List Char → List Char → List Char → Prop
  | close (rest : List Char) : Denotes fmt q (q :: rest) [] rest
  | piece {written denoted after text rest : List Char}
      (first : IsPiece fmt q after written denoted) (more : Denotes fmt q after text rest) :
      Denotes fmt q (written ++ after) (denoted ++ text) rest

/-! ## Digits -/

variable {α β : Type} {fmt : Format} {q : Char} {start p : Pos} {input : Input}

/-- A scan gives a value and leaves an input. -/
def Yields (s : Scan α) (a : α) (rest : Input) : Prop := s.result = .ok a ∧ s.rest = rest

theorem Yields.map {s : Scan α} {a : α} {rest : Input} (h : Yields s a rest) (f : α → β) :
    Yields (s.map f) (f a) rest := by
  constructor
  · rw [Scan.map, h.1]
    rfl
  · exact h.2

theorem Yields.check {s : Scan α} {a : α} {b : β} {rest : Input} (h : Yields s a rest)
    {f : α → Except ReadError β} (passes : f a = .ok b) : Yields (s.check f) b rest := by
  constructor
  · rw [Scan.check, h.1]
    exact passes
  · exact h.2

theorem Yields.eq_done {s : Scan α} {a : α} {rest : Input} (h : Yields s a rest)
    (closed : s.peeked = false) : s = .done a rest := by
  obtain ⟨result, left, peeked⟩ := s
  obtain ⟨rfl, rfl⟩ := h
  cases closed
  rfl

section
variable {limit : Int} {digits : Nat} {after mark : List Char} {ends : CodeEnd}

theorem CodeStops.few (h : CodeStops limit digits after ends mark) :
    limit < 0 ∨ (digits : Int) ≤ limit := by
  cases h with
  | fixed all => exact .inr (Int.le_of_eq all)
  | semicolon few | anywhere few => exact few

theorem CodeStops.mark_eq_nil (h : CodeStops limit digits after ends mark)
    (noSemicolon : ends ≠ .semicolon) : mark = [] := by
  cases h with
  | fixed | anywhere => rfl
  | semicolon => exact absurd rfl noSemicolon

theorem CodeStops.eq_limit (h : CodeStops limit digits after .fixed mark) :
    (digits : Int) = limit := by
  cases h with
  | fixed all => exact all

end

theorem codeDigits_sound {ends : CodeEnd} {limit : Int} {digits code v : Nat}
    (few : limit < 0 ∨ (digits : Int) ≤ limit)
    (h : (codeDigits ends limit start digits code input).result = .ok v) :
    ∃ ds mark, 0 < digits + ds.length ∧ (∀ c ∈ ds, Text.IsDigit 16 c) ∧
      v = Text.positionalFrom 16 code ds ∧
      input.map Prod.fst = ds ++ (mark ++
        (codeDigits ends limit start digits code input).rest.map Prod.fst) ∧
      CodeStops limit (digits + ds.length)
        ((codeDigits ends limit start digits code input).rest.map Prod.fst) ends mark := by
  fun_induction codeDigits ends limit start digits code input with
  | case1 digits code opened =>
    cases h
    obtain ⟨rfl, some⟩ := opened
    exact ⟨[], [], some, by simp, rfl, rfl, .anywhere few (.inr (by simp))⟩
  | case2 | case3 | case7 | case9 => cases h
  | case4 digits code c p rest d hex below full =>
    cases h
    obtain ⟨noSemicolon, last⟩ := full
    obtain ⟨digit, rfl⟩ := Text.hexDigit?_eq_some.1 hex
    refine ⟨[c], [], Nat.succ_pos _, ?_, rfl, rfl, ?_⟩
    · simpa using digit
    · cases ends with
      | fixed => exact .fixed (by simpa using last)
      | anywhere =>
        have exact' : ((digits + 1 : Nat) : Int) = limit := by omega
        exact .anywhere (.inr (Int.le_of_eq exact')) (.inl exact')
      | semicolon => exact absurd rfl noSemicolon
  | case5 digits code c p rest d hex below full ih =>
    obtain ⟨first, rfl⟩ := Text.hexDigit?_eq_some.1 hex
    obtain ⟨ds, mark, -, digit, rfl, chars, stops⟩ := ih (by omega) h
    have length : digits + (c :: ds).length = digits + 1 + ds.length := by
      simp only [List.length_cons]
      omega
    refine ⟨c :: ds, mark, Nat.succ_pos _, ?_, rfl, ?_, by rwa [length]⟩
    · intro x hx
      rcases List.mem_cons.1 hx with rfl | later
      · exact first
      · exact digit x later
    · rw [List.map_cons, chars]
      rfl
  | case6 digits code c p rest hex closed =>
    cases h
    obtain ⟨rfl, rfl, some⟩ := closed
    exact ⟨[], [';'], some, by simp, rfl, rfl, .semicolon few⟩
  | case8 digits code c p rest hex closed bad anywhere =>
    cases h
    obtain ⟨some, -⟩ := not_or.1 bad
    subst anywhere
    have other : ¬ Text.IsDigit 16 c := Text.hexDigit?_eq_none.1 hex
    exact ⟨[], [], Nat.pos_of_ne_zero some, by simp, rfl, rfl,
      .anywhere few (.inr (by simpa using other))⟩

/-- Digits are read up to the mark after them, or up to where nothing may follow. -/
theorem codeDigits_complete {ends : CodeEnd} {limit : Int} {digits : Nat} (code : Nat)
    {ds mark after : Input} (some : 0 < digits + ds.length)
    (hex : ∀ x ∈ ds, Text.IsDigit 16 x.1)
    (stops : CodeStops limit (digits + ds.length) (after.map Prod.fst) ends (mark.map Prod.fst))
    (goesOn : ds = [] → ends ≠ .fixed ∧ (ends = .anywhere → (digits : Int) ≠ limit)) :
    Yields (codeDigits ends limit start digits code (ds ++ (mark ++ after)))
      (Text.positionalFrom 16 code (ds.map Prod.fst)) after := by
  induction ds generalizing digits code with
  | nil =>
    obtain ⟨noFixed, open'⟩ := goesOn rfl
    rw [List.length_nil, Nat.add_zero] at some
    generalize chars : mark.map Prod.fst = cs at stops
    cases stops with
    | fixed => exact absurd rfl noFixed
    | semicolon =>
      obtain ⟨⟨c, p⟩, tail, rfl, rfl, noMore⟩ := List.map_eq_cons_iff.1 chars
      obtain rfl := List.map_eq_nil_iff.1 noMore
      have noDigit : Text.hexDigit? ';' = none := rfl
      rw [List.nil_append, List.singleton_append, codeDigits, noDigit]
      dsimp only
      rw [if_pos ⟨rfl, rfl, some⟩]
      exact ⟨rfl, rfl⟩
    | anywhere few last =>
      obtain rfl := List.map_eq_nil_iff.1 chars
      have other := last.resolve_left (by simpa using open' rfl)
      cases after with
      | nil =>
        rw [List.nil_append, List.nil_append, codeDigits, if_pos ⟨rfl, some⟩]
        exact ⟨rfl, rfl⟩
      | cons x after =>
        obtain ⟨c, p⟩ := x
        have noDigit : Text.hexDigit? c = none := Text.hexDigit?_eq_none.2 (other c rfl)
        rw [List.nil_append, List.nil_append, codeDigits, noDigit]
        dsimp only
        rw [if_neg (by simp), if_neg (by simp; omega), if_pos rfl]
        exact ⟨rfl, rfl⟩
  | cons x ds ih =>
    obtain ⟨c, p⟩ := x
    have hd := Text.hexDigit?_eq_some.2 ⟨hex (c, p) List.mem_cons_self, rfl⟩
    have later : ∀ x ∈ ds, Text.IsDigit 16 x.1 := by
      intro x hx
      exact hex x (List.mem_cons_of_mem _ hx)
    have length : digits + ((c, p) :: ds).length = digits + 1 + ds.length := by
      simp only [List.length_cons]
      omega
    rw [length] at stops
    have room := stops.few
    rw [List.cons_append, codeDigits, hd, List.map_cons, Text.positionalFrom_cons]
    dsimp only
    rw [if_neg (by omega)]
    by_cases full : ends ≠ .semicolon ∧ (digits + 1 : Int) = limit
    · obtain rfl : ds = [] := List.length_eq_zero_iff.1 (by omega)
      obtain rfl : mark = [] := List.map_eq_nil_iff.1 (stops.mark_eq_nil full.1)
      rw [if_pos full]
      exact ⟨rfl, rfl⟩
    · rw [if_neg full]
      refine ih _ (by omega) later stops ?_
      rintro rfl
      constructor
      · rintro rfl
        exact full ⟨by simp, by simpa using stops.eq_limit⟩
      · rintro rfl last
        exact full ⟨by simp, by simpa using last⟩

theorem octalDigits_sound {n code v : Nat} (h : (octalDigits n code input).result = .ok v) :
    ∃ ds, ds.length ≤ n ∧ (∀ c ∈ ds, Text.IsDigit 8 c) ∧ v = Text.positionalFrom 8 code ds ∧
      input.map Prod.fst = ds ++ (octalDigits n code input).rest.map Prod.fst ∧
      (ds.length = n ∨ ∀ c ∈ ((octalDigits n code input).rest.map Prod.fst).head?,
        ¬ Text.IsDigit 8 c) := by
  fun_induction octalDigits n code input with
  | case1 =>
    cases h
    exact ⟨[], Nat.le_refl _, by simp, rfl, rfl, .inl rfl⟩
  | case2 =>
    cases h
    exact ⟨[], Nat.zero_le _, by simp, rfl, rfl, .inr (by simp)⟩
  | case3 n code c p rest d octal ih =>
    obtain ⟨first, rfl⟩ := Text.octalDigit?_eq_some.1 octal
    obtain ⟨ds, few, digit, rfl, chars, last⟩ := ih h
    refine ⟨c :: ds, Nat.succ_le_succ few, ?_, rfl, ?_, ?_⟩
    · intro x hx
      rcases List.mem_cons.1 hx with rfl | later
      · exact first
      · exact digit x later
    · rw [List.map_cons, chars]
      rfl
    · exact last.imp_left (congrArg Nat.succ)
  | case4 n code c p rest octal =>
    cases h
    have other : ¬ Text.IsDigit 8 c := Text.octalDigit?_eq_none.1 octal
    exact ⟨[], Nat.zero_le _, by simp, rfl, rfl, .inr (by simpa using other)⟩

theorem octalDigits_complete {n : Nat} (code : Nat) {ds after : Input} (few : ds.length ≤ n)
    (octal : ∀ x ∈ ds, Text.IsDigit 8 x.1)
    (last : ds.length = n ∨ ∀ c ∈ (after.map Prod.fst).head?, ¬ Text.IsDigit 8 c) :
    Yields (octalDigits n code (ds ++ after)) (Text.positionalFrom 8 code (ds.map Prod.fst))
      after := by
  induction ds generalizing n code with
  | nil =>
    cases n with
    | zero => exact ⟨rfl, rfl⟩
    | succ n =>
      have other := last.resolve_left (by simp)
      cases after with
      | nil => exact ⟨rfl, rfl⟩
      | cons x after =>
        obtain ⟨c, p⟩ := x
        have noDigit : Text.octalDigit? c = none := Text.octalDigit?_eq_none.2 (other c rfl)
        rw [List.nil_append, octalDigits, noDigit]
        exact ⟨rfl, rfl⟩
  | cons x ds ih =>
    obtain ⟨c, p⟩ := x
    have hd := Text.octalDigit?_eq_some.2 ⟨octal (c, p) List.mem_cons_self, rfl⟩
    cases n with
    | zero => cases few
    | succ n =>
      rw [List.cons_append, octalDigits, hd, List.map_cons, Text.positionalFrom_cons]
      apply ih
      · exact Nat.le_of_succ_le_succ few
      · intro x hx
        exact octal x (List.mem_cons_of_mem _ hx)
      · exact last.imp_left Nat.succ.inj

/-! ## Pieces -/

theorem codeChar_eq_ok {code : Nat} {c : Char} :
    codeChar p code = .ok c ↔ code.isValidChar ∧ c = Char.ofNat code := by
  rw [← Text.scalar?_eq_some]
  unfold codeChar
  cases Text.scalar? code <;> simp

theorem code_sound {letter c : Char} {ends : CodeEnd} {limit : Int}
    (form : CodeLetter fmt letter ends limit)
    (h : (hexChar ends limit start p input).result = .ok c) :
    ∃ written, '\\' :: letter :: input.map Prod.fst =
        written ++ (hexChar ends limit start p input).rest.map Prod.fst ∧
      IsPiece fmt q ((hexChar ends limit start p input).rest.map Prod.fst) written [c] := by
  obtain ⟨code, digits, char⟩ := check_eq_ok h
  obtain ⟨valid, rfl⟩ := codeChar_eq_ok.1 char
  obtain ⟨ds, mark, some, hex, rfl, chars, stops⟩ := codeDigits_sound (by omega) digits
  rw [Text.positionalFrom_zero] at valid
  rw [Nat.zero_add] at some stops
  refine ⟨'\\' :: letter :: (ds ++ mark), ?_, ?_⟩
  · rw [chars]
    simp [hexChar]
  · rw [Text.positionalFrom_zero]
    exact .code form (List.ne_nil_of_length_pos some) hex stops valid

theorem escape_sound {x : Piece} (h : (escape fmt start input).result = .ok x) :
    ∃ written denoted, x = .chars denoted ∧
      '\\' :: input.map Prod.fst = written ++ (escape fmt start input).rest.map Prod.fst ∧
      IsPiece fmt q ((escape fmt start input).rest.map Prod.fst) written denoted := by
  revert h
  fun_cases escape fmt start input with
  | case1 => rintro ⟨⟩
  | case2 e p rest c name =>
    rintro ⟨⟩
    exact ⟨['\\', e], [c], rfl, rfl, .named (Text.escaped?_eq_some.1 name)⟩
  | case3 =>
    intro h
    obtain ⟨c, ok, rfl⟩ := map_eq_ok h
    obtain ⟨written, chars, one⟩ := code_sound .four ok
    exact ⟨written, [c], rfl, chars, one⟩
  | case4 =>
    intro h
    obtain ⟨c, ok, rfl⟩ := map_eq_ok h
    obtain ⟨written, chars, one⟩ := code_sound .eight ok
    exact ⟨written, [c], rfl, chars, one⟩
  | case5 p rest ends =>
    intro h
    obtain ⟨c, ok, rfl⟩ := map_eq_ok h
    have form : CodeLetter fmt 'x' ends fmt.hexEscapeDigits := by
      cases closed : fmt.hexEscapesEndWithSemicolon with
      | true => simpa [ends, closed] using CodeLetter.closed closed
      | false => simpa [ends, closed] using CodeLetter.loose closed
    obtain ⟨written, chars, one⟩ := code_sound form ok
    exact ⟨written, [c], rfl, chars, one⟩
  | case6 p rest =>
    rintro ⟨⟩
    refine ⟨'\\' :: '\n' :: (run Text.isBlank rest).1, [], rfl, ?_, ?_⟩
    · rw [List.map_cons, run_chars Text.isBlank rest]
      rfl
    · exact .continuation (of_mem_run rfl) (run_stops rfl)
  | case7 e p rest noName _ _ _ _ d octal on =>
    intro h
    obtain ⟨first, rfl⟩ := Text.octalDigit?_eq_some.1 octal
    obtain ⟨code, ok, rfl⟩ := map_eq_ok h
    obtain ⟨ds, few, digit, rfl, chars, last⟩ := octalDigits_sound ok
    have value : Text.positionalFrom 8 (Text.digitValue e) ds = Text.positional 8 (e :: ds) := by
      rw [← Text.positionalFrom_zero, Text.positionalFrom_cons, Nat.zero_mul, Nat.zero_add]
    refine ⟨'\\' :: e :: ds, [Char.ofNat (Text.positional 8 (e :: ds))], ?_, ?_, ?_⟩
    · rw [value]
      rfl
    · rw [List.map_cons, chars]
      rfl
    · refine .octal on (List.cons_ne_nil e ds) (Nat.succ_le_succ few) ?_
        (last.imp_left (congrArg Nat.succ))
      intro c hc
      rcases List.mem_cons.1 hc with rfl | later
      · exact first
      · exact digit c later
  | case8 p rest d off =>
    rintro ⟨⟩
    exact ⟨['\\', '0'], ['\x00'], rfl, rfl, .zero (Bool.eq_false_iff.2 off)⟩
  | case9 | case10 => rintro ⟨⟩

theorem piece_sound {x : Piece} (h : (piece fmt q start input).result = .ok x) :
    x = .close ∧ input.map Prod.fst = q :: (piece fmt q start input).rest.map Prod.fst ∨
    ∃ written denoted, x = .chars denoted ∧
      input.map Prod.fst = written ++ (piece fmt q start input).rest.map Prod.fst ∧
      IsPiece fmt q ((piece fmt q start input).rest.map Prod.fst) written denoted := by
  revert h
  fun_cases piece fmt q start input with
  | case1 => rintro ⟨⟩
  | case2 p rest =>
    rintro ⟨⟩
    exact .inl ⟨rfl, rfl⟩
  | case3 p rest =>
    intro h
    exact .inr (escape_sound h)
  | case4 c p rest noQuote noBackslash =>
    rintro ⟨⟩
    exact .inr ⟨[c], [c], rfl, rfl, .plain noQuote noBackslash⟩

/-- What is scanned is text up to a delimiter. -/
theorem delimitedFrom_sound {found : List Char} {s : String}
    (h : (delimitedFrom fmt q start found input).result = .ok s) :
    ∃ text, s = String.ofList (found.reverse ++ text) ∧
      Denotes fmt q (input.map Prod.fst) text
        ((delimitedFrom fmt q start found input).rest.map Prod.fst) := by
  fun_induction delimitedFrom fmt q start found input with
  | case1 => cases h
  | case2 found input one closes =>
    cases h
    rcases piece_sound closes with ⟨-, chars⟩ | ⟨written, denoted, ⟨⟩, -⟩
    refine ⟨[], by rw [List.append_nil], ?_⟩
    rw [chars]
    exact .close _
  | case3 found input one cs more ih =>
    rcases piece_sound more with ⟨⟨⟩, -⟩ | ⟨written, denoted, ⟨⟩, chars, first⟩
    obtain ⟨text, rfl, later⟩ := ih h
    refine ⟨cs ++ text, by simp, ?_⟩
    rw [chars]
    exact .piece first later

theorem escape_of_escaped {fmt : Format} {start p : Pos} {e c : Char}
    (h : Text.escaped? e = some c) (rest : Input) :
    escape fmt start ((e, p) :: rest) = .done (.char c) rest := by
  simp [escape, h]

theorem ne_backslash {q : Char} (quote : q = '\x22' ∨ q = '|') : q ≠ '\\' := by
  rcases quote with rfl | rfl <;> decide

theorem piece_backslash {fmt : Format} {q : Char} (other : q ≠ '\\') (start p : Pos)
    (input : Input) : piece fmt q start (('\\', p) :: input) = escape fmt start input := by
  simp [piece, other.symm]

theorem exists_of_map_cons {written : Input} {c : Char} {cs : List Char}
    (h : written.map Prod.fst = c :: cs) :
    ∃ p more, written = (c, p) :: more ∧ more.map Prod.fst = cs := by
  obtain ⟨⟨_, p⟩, more, rfl, rfl, rest⟩ := List.map_eq_cons_iff.1 h
  exact ⟨p, more, rfl, rest⟩

theorem escape_code {letter : Char} {ends : CodeEnd} {limit : Int}
    (form : CodeLetter fmt letter ends limit) (p : Pos) (input : Input) :
    escape fmt start ((letter, p) :: input) = (hexChar ends limit start p input).map .char := by
  cases form with
  | four => rfl
  | eight => rfl
  | closed on =>
    have noName : Text.escaped? 'x' = none := rfl
    simp [escape, noName, on]
  | loose off =>
    have noName : Text.escaped? 'x' = none := rfl
    simp [escape, noName, off]

theorem escape_octal (on : fmt.octalEscapes = true) {e : Char} {d : Nat}
    (octal : Text.octalDigit? e = some d) (p : Pos) (input : Input) :
    escape fmt start ((e, p) :: input) =
      (octalDigits 2 d input).map fun code => .char (Char.ofNat code) := by
  have noName : Text.escaped? e = none := by
    have noDigits : ∀ x ∈ Text.namedEscapes, Text.octalDigit? x.1 = none := by decide
    apply Text.escaped?_eq_none
    rintro x mem rfl
    rw [noDigits x mem] at octal
    cases octal
  have other (c : Char) (noDigit : Text.octalDigit? c = none) : e ≠ c := by
    rintro rfl
    rw [noDigit] at octal
    cases octal
  simp [escape, noName, other 'u' rfl, other 'U' rfl, other 'x' rfl, other '\n' rfl, octal, on]

theorem escape_complete {written after : Input} {denoted : List Char}
    (h : IsPiece fmt q (after.map Prod.fst) ('\\' :: written.map Prod.fst) denoted) :
    Yields (escape fmt start (written ++ after)) (.chars denoted) after := by
  generalize chars : written.map Prod.fst = cs at h
  cases h with
  | plain noQuote noBackslash => exact absurd rfl noBackslash
  | named name =>
    obtain ⟨p, more, rfl, noMore⟩ := exists_of_map_cons chars
    obtain rfl := List.map_eq_nil_iff.1 noMore
    rw [List.singleton_append, escape_of_escaped (Text.escaped?_eq_some.2 name)]
    exact ⟨rfl, rfl⟩
  | code form nonempty hex stops valid =>
    obtain ⟨p, more, rfl, digits⟩ := exists_of_map_cons chars
    obtain ⟨ds, mark, rfl, rfl, rfl⟩ := List.map_eq_append_iff.1 digits
    rw [List.cons_append, escape_code form, List.append_assoc]
    rw [← Text.positionalFrom_zero] at valid ⊢
    have some : 0 < 0 + ds.length := by
      rw [Nat.zero_add]
      exact List.length_pos_iff.2 (by simpa using nonempty)
    apply Yields.map (β := Piece) _ Piece.char
    refine (codeDigits_complete 0 some ?_ ?_ ?_).check (codeChar_eq_ok.2 ⟨valid, rfl⟩)
    · intro x hx
      exact hex x.1 (List.mem_map_of_mem hx)
    · simpa using stops
    · rintro rfl
      exact absurd rfl nonempty
  | octal on nonempty few octal last =>
    cases written with
    | nil => exact absurd chars.symm nonempty
    | cons x ds =>
      obtain ⟨e, p⟩ := x
      subst chars
      have digit := Text.octalDigit?_eq_some.2 ⟨octal e List.mem_cons_self, rfl⟩
      rw [List.cons_append, escape_octal on digit, List.map_cons, ← Text.positionalFrom_zero,
        Text.positionalFrom_cons, Nat.zero_mul, Nat.zero_add]
      apply Yields.map (β := Piece) _ fun code => Piece.char (Char.ofNat code)
      apply octalDigits_complete
      · rw [List.length_map, List.length_cons] at few
        omega
      · intro x hx
        exact octal x.1 (List.mem_cons_of_mem _ (List.mem_map_of_mem hx))
      · refine last.imp_left ?_
        simp
  | zero off =>
    obtain ⟨p, more, rfl, noMore⟩ := exists_of_map_cons chars
    obtain rfl := List.map_eq_nil_iff.1 noMore
    have zero : escape fmt start (('0', p) :: after) = .done (.char '\x00') after := by
      have noName : Text.escaped? '0' = none := rfl
      have octal : Text.octalDigit? '0' = some 0 := rfl
      simp [escape, noName, octal, off]
    rw [List.singleton_append, zero]
    exact ⟨rfl, rfl⟩
  | continuation blank last =>
    obtain ⟨p, blanks, rfl, rfl⟩ := exists_of_map_cons chars
    have line : escape fmt start (('\n', p) :: (blanks ++ after)) =
        .upTo (.chars []) (run Text.isBlank (blanks ++ after)).2 := rfl
    rw [List.cons_append, line, run_append ?_ last]
    · exact ⟨rfl, rfl⟩
    · intro x hx
      exact blank x.1 (List.mem_map_of_mem hx)

theorem IsPiece.eq_plain {c : Char} {after cs denoted : List Char}
    (h : IsPiece fmt q after (c :: cs) denoted) (noBackslash : c ≠ '\\') :
    cs = [] ∧ denoted = [c] ∧ c ≠ q := by
  cases h with
  | plain noQuote => exact ⟨rfl, rfl, noQuote⟩
  | named | code | octal | zero | continuation => exact absurd rfl noBackslash

theorem piece_complete (other : q ≠ '\\') {written after : Input} {denoted : List Char}
    (h : IsPiece fmt q (after.map Prod.fst) (written.map Prod.fst) denoted) :
    Yields (piece fmt q start (written ++ after)) (.chars denoted) after := by
  cases written with
  | nil => cases h
  | cons x more =>
    obtain ⟨c, p⟩ := x
    by_cases backslash : c = '\\'
    · subst backslash
      rw [List.cons_append, piece_backslash other]
      exact escape_complete h
    · obtain ⟨noMore, rfl, noQuote⟩ := h.eq_plain backslash
      obtain rfl := List.map_eq_nil_iff.1 noMore
      have plain : piece fmt q start ((c, p) :: after) = .done (.char c) after := by
        simp [piece, noQuote, backslash]
      rw [List.singleton_append, plain]
      exact ⟨rfl, rfl⟩

/-- Every text up to a delimiter is scanned. -/
theorem delimitedFrom_complete (other : q ≠ '\\') {cs text left : List Char}
    (h : Denotes fmt q cs text left) (found : List Char) {input : Input}
    (chars : input.map Prod.fst = cs) :
    ∃ rest, rest.map Prod.fst = left ∧
      Yields (delimitedFrom fmt q start found input) (String.ofList (found.reverse ++ text))
        rest := by
  induction h generalizing found input with
  | close left =>
    obtain ⟨p, rest, rfl, rfl⟩ := exists_of_map_cons chars
    have closes : piece fmt q start ((q, p) :: rest) = .done .close rest := if_pos rfl
    refine ⟨rest, rfl, ?_⟩
    rw [delimitedFrom_close (by rw [closes]; rfl), closes, List.append_nil]
    exact ⟨rfl, rfl⟩
  | @piece _ denoted _ text left first more ih =>
    obtain ⟨written, after, rfl, rfl, rfl⟩ := List.map_eq_append_iff.1 chars
    obtain ⟨one, rest⟩ := @piece_complete fmt q start other _ _ _ first
    rw [delimitedFrom_chars one, rest]
    obtain ⟨rest, left, yields⟩ := ih (denoted.reverse ++ found) rfl
    refine ⟨rest, left, ?_⟩
    simpa using yields

/-- Two ends of an input with the same characters are the same. -/
theorem suffix_unique {a b : Input} (ha : a <:+ input) (hb : b <:+ input)
    (same : a.map Prod.fst = b.map Prod.fst) : a = b := by
  have length : a.length = b.length := by
    rw [← List.length_map (f := Prod.fst), same, List.length_map]
  exact (List.suffix_of_suffix_length_le ha hb (Nat.le_of_eq length)).eq_of_length length

theorem delimited_yields_iff (quote : q = '\x22' ∨ q = '|') {s : String} {rest : Input} :
    Yields (delimited fmt q start input) s rest ↔
      rest <:+ input ∧ Denotes fmt q (input.map Prod.fst) s.toList (rest.map Prod.fst) := by
  have suffix := delimited_rest_suffix fmt q start input
  constructor
  · rintro ⟨ok, rfl⟩
    obtain ⟨text, rfl, denotes⟩ := delimitedFrom_sound ok
    refine ⟨suffix, ?_⟩
    rw [List.reverse_nil, List.nil_append, String.toList_ofList]
    exact denotes
  · rintro ⟨ending, denotes⟩
    obtain ⟨rest', chars, yields⟩ := delimitedFrom_complete (ne_backslash quote) denotes [] rfl
    have whole : String.ofList ([].reverse ++ s.toList) = s := String.ofList_toList
    rw [whole] at yields
    obtain rfl : rest' = rest := by
      apply suffix_unique _ ending chars
      rw [← yields.2]
      exact suffix
    exact yields

end Scan

end Sexpr
