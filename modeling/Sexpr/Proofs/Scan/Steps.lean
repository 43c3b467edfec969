import Sexpr.Tokens

/-!
What the scanners do first: the end of a run, the class of the first character, one piece of
delimited text, and one token of an input.

- `gives_of_token`: all tokens that there are, each with the settings that allow it.
-/

namespace Sexpr

namespace Scan

theorem run_append {pred : Char → Bool} {input rest : Input}
    (all : ∀ x ∈ input, pred x.1 = true) (ends : ∀ c ∈ (rest.map Prod.fst).head?, pred c = false) :
    run pred (input ++ rest) = (input.map Prod.fst, rest) := by
  rw [run, List.takeWhile_append_of_pos all, List.dropWhile_append_of_pos all]
  cases rest with
  | nil => simp
  | cons x rest =>
    have stop : pred x.1 = false := ends x.1 rfl
    simp [stop]

theorem run_ofChars {pred : Char → Bool} {cs rest : List Char} (p : Pos)
    (all : ∀ c ∈ cs, pred c = true) (ends : ∀ c ∈ rest.head?, pred c = false) :
    run pred (Input.ofChars (cs ++ rest) p) = (cs, Input.ofChars rest (p.advanceAll cs)) := by
  rw [Input.ofChars_append, run_append, Input.map_fst_ofChars]
  · intro x hx
    apply all
    rw [← Input.map_fst_ofChars cs p]
    exact List.mem_map_of_mem hx
  · rwa [Input.map_fst_ofChars]

theorem run_chars (pred : Char → Bool) (input : Input) :
    input.map Prod.fst = (run pred input).1 ++ (run pred input).2.map Prod.fst := by
  rw [run, ← List.map_append, List.takeWhile_append_dropWhile]

theorem of_mem_run {pred : Char → Bool} {input rest : Input} {cs : List Char}
    (h : run pred input = (cs, rest)) : ∀ c ∈ cs, pred c = true := by
  intro c hc
  obtain rfl : (run pred input).1 = cs := by rw [h]
  obtain ⟨x, mem, rfl⟩ := List.mem_map.1 hc
  exact List.all_eq_true.1 List.all_takeWhile x mem

/-- The character after a run is none of it. -/
theorem run_stops {pred : Char → Bool} {input rest : Input} {cs : List Char}
    (h : run pred input = (cs, rest)) : ∀ c ∈ (rest.map Prod.fst).head?, pred c = false := by
  intro c hc
  obtain rfl : (run pred input).2 = rest := by rw [h]
  have stop := List.head?_dropWhile_not (fun x : Char × Pos => pred x.1) input
  rw [List.head?_map] at hc
  obtain ⟨x, first, rfl⟩ := Option.map_eq_some_iff.1 hc
  rw [run] at first
  rwa [first] at stop

theorem run_suffix {pred : Char → Bool} {input rest : Input} {cs : List Char}
    (h : run pred input = (cs, rest)) : rest <:+ input := by
  have suffix := run_rest_suffix pred input
  rwa [h] at suffix

theorem map_eq_ok {α β : Type} {f : α → β} {s : Scan α} {b : β} (h : (s.map f).result = .ok b) :
    ∃ a, s.result = .ok a ∧ f a = b := by
  unfold map at h
  cases result : s.result with
  | error e => simp [result, Except.map] at h
  | ok a =>
    simp only [result, Except.map, Except.ok.injEq] at h
    exact ⟨a, rfl, h⟩

theorem check_eq_ok {α β : Type} {f : α → Except ReadError β} {s : Scan α} {b : β}
    (h : (s.check f).result = .ok b) : ∃ a, s.result = .ok a ∧ f a = .ok b := by
  unfold check at h
  cases result : s.result with
  | error e => simp [result, Except.bind] at h
  | ok a =>
    simp only [result, Except.bind] at h
    exact ⟨a, rfl, h⟩

theorem specialNamed_eq_ok {p : Pos} {cs : List Char} {t : Token}
    (h : specialNamed p cs = .ok t) : ∃ x, t = .atom (.special x) := by
  unfold specialNamed at h
  dsimp only at h
  split at h
  · cases h
    exact ⟨_, rfl⟩
  · cases h

theorem boolSpelled_eq_ok {fmt : Format} {p : Pos} {cs : List Char} {t : Token}
    (h : boolSpelled fmt p cs = .ok t) : ∃ b, t = .atom (.bool b) := by
  unfold boolSpelled at h
  dsimp only at h
  split at h
  · cases h
    exact ⟨true, rfl⟩
  · split at h
    · cases h
      exact ⟨false, rfl⟩
    · cases h

theorem lineComment_eq_ok {p : Pos} {cs : List Char} {t : Token} (h : lineComment p cs = .ok t) :
    t = .comment ((splitSemicolons cs).1 + 1) (String.ofList (splitSemicolons cs).2) := by
  unfold lineComment at h
  dsimp only at h
  split at h
  · cases h
  · cases h
    rfl

theorem codeChar_eq_error {p : Pos} {code : Nat} {e : ReadError}
    (h : codeChar p code = .error e) : e = ⟨.lexical (.invalidCodePoint code), p⟩ := by
  unfold codeChar at h
  split at h
  · cases h
  · cases h
    rfl

theorem charOfSpelling_eq_error {p : Pos} {c : Char} {cs : List Char} {e : ReadError}
    (h : charOfSpelling p c cs = .error e) :
    (∃ code, e = ⟨.lexical (.invalidCodePoint code), p⟩) ∨ e = ⟨.lexical .invalidHash, p⟩ := by
  unfold charOfSpelling at h
  split at h
  · cases h
  · split at h
    · exact .inl ⟨_, codeChar_eq_error h⟩
    · split at h
      · cases h
      · cases h
        exact .inr rfl

theorem specialNamed_eq_error {p : Pos} {cs : List Char} {e : ReadError}
    (h : specialNamed p cs = .error e) :
    e = ⟨.lexical (.invalidSpecial (String.ofList cs)), p⟩ := by
  unfold specialNamed at h
  dsimp only at h
  split at h
  · cases h
  · cases h
    rfl

theorem boolSpelled_eq_error {fmt : Format} {p : Pos} {cs : List Char} {e : ReadError}
    (h : boolSpelled fmt p cs = .error e) : e = ⟨.lexical .invalidHash, p⟩ := by
  unfold boolSpelled at h
  dsimp only at h
  split at h
  · cases h
  · split at h
    · cases h
    · cases h
      rfl

theorem lineComment_eq_error {p : Pos} {cs : List Char} {e : ReadError}
    (h : lineComment p cs = .error e) : e = ⟨.lexical .tooManySemicolons, p⟩ := by
  unfold lineComment at h
  dsimp only at h
  split at h
  · cases h
    rfl
  · cases h

theorem isSymbolChar_iff {c : Char} :
    Text.isSymbolChar c = true ↔ Text.isBlank c = false ∧ c ∉ Text.delimiters := by
  simp [Text.isSymbolChar]

theorem ofOpening?_eq_none {c : Char} (h : c ∉ Text.delimiters) : Bracket.ofOpening? c = none := by
  simp only [Text.delimiters, List.mem_cons, not_or] at h
  simp [Bracket.ofOpening?, Bracket.all, Bracket.opening, Ne.symm, h]

theorem ofClosing?_eq_none {c : Char} (h : c ∉ Text.delimiters) : Bracket.ofClosing? c = none := by
  simp only [Text.delimiters, List.mem_cons, not_or] at h
  simp [Bracket.ofClosing?, Bracket.all, Bracket.closing, Ne.symm, h]

/-! ## The first character -/

/-- What a character may begin: it decides which kind of token follows. -/
inductive Begins : Char → Prop
  | opening (k : Bracket) : Begins k.opening
  | closing (k : Bracket) : Begins k.closing
  | blank {c : Char} (blank : Text.isBlank c = true) : Begins c
  | comment : Begins ';'
  | hash : Begins '#'
  | string : Begins '\x22'
  | barred : Begins '|'
  | quote : Begins '\x27'
  | quasiquote : Begins '\x60'
  | unquote : Begins ','
  | bare {c : Char} (plain : Text.isSymbolChar c = true ∨ c = '\\') (comment : c ≠ ';')
      (hash : c ≠ '#') : Begins c

theorem begins (c : Char) : Begins c := by
  by_cases delimiter : c ∈ Text.delimiters
  · simp only [Text.delimiters, List.mem_cons, List.not_mem_nil, or_false] at delimiter
    rcases delimiter with rfl | rfl | rfl | rfl | rfl | rfl | rfl | rfl | rfl | rfl | rfl | rfl
    · exact .quote
    · exact .quasiquote
    · exact .unquote
    · exact .string
    · exact .barred
    · exact .opening .round
    · exact .closing .round
    · exact .opening .square
    · exact .closing .square
    · exact .opening .curly
    · exact .closing .curly
    · exact .bare (.inr rfl) (by decide) (by decide)
  · by_cases blank : Text.isBlank c = true
    · exact .blank blank
    · by_cases comment : c = ';'
      · subst comment
        exact .comment
      · by_cases hash : c = '#'
        · subst hash
          exact .hash
        · exact .bare (.inl (isSymbolChar_iff.2 ⟨Bool.eq_false_iff.2 blank, delimiter⟩)) comment
            hash

section
variable (settings : Settings) {c : Char} (p : Pos) (input : Input)

theorem token_opening (k : Bracket) :
    token settings k.opening p input = .done (some (.opening k)) input := by
  cases k <;> rfl

theorem token_closing (k : Bracket) :
    token settings k.closing p input = .done (some (.closing k)) input := by
  cases k <;> rfl

theorem token_blank (blank : Text.isBlank c = true) :
    token settings c p input =
      .upTo
        (if settings.modes.retainWhitespace then
          some (.blank (String.ofList (c :: (run Text.isBlank input).1))) else none)
        (run Text.isBlank input).2 := by
  have delimiter : c ∉ Text.delimiters := by
    have : ∀ d ∈ Text.delimiters, Text.isBlank d = false := by
      simp [Text.delimiters, Text.isBlank]
    exact fun mem => by simp [this c mem] at blank
  unfold token
  rw [ofOpening?_eq_none delimiter, ofClosing?_eq_none delimiter]
  exact if_pos blank

theorem token_comment :
    token settings ';' p input =
      if settings.modes.retainComments then
        ((upTo (run (· != '\n') input).1 (run (· != '\n') input).2).check (lineComment p)).map some
      else .upTo none (run (· != '\n') input).2 := rfl

theorem token_hash : token settings '#' p input = hash settings.format settings.modes p input := rfl

theorem token_string :
    token settings '\x22' p input =
      (delimited settings.format '\x22' p input).map fun s => some (.atom (.string s)) := rfl

theorem token_barred :
    token settings '|' p input =
      (delimited settings.format '|' p input).map fun s => some (.atom (.symbol s)) := rfl

theorem token_quote : token settings '\x27' p input = .done (some (.mark .quote)) input := rfl

theorem token_quasiquote :
    token settings '\x60' p input = .done (some (.mark .quasiquote)) input := rfl

/-- The sign that splices stands after the comma or not. -/
theorem splicing_or (input : Input) :
    (∃ q rest, input = ('@', q) :: rest) ∨ ∀ x ∈ input.head?, x.1 ≠ '@' := by
  cases input with
  | nil => exact .inr (by simp)
  | cons x rest =>
    obtain ⟨d, q⟩ := x
    by_cases sign : d = '@'
    · exact .inl ⟨q, rest, by rw [sign]⟩
    · refine .inr fun y hy => ?_
      cases hy
      exact sign

theorem token_unquoteSplicing (q : Pos) :
    token settings ',' p (('@', q) :: input) = .done (some (.mark .unquoteSplicing)) input := rfl

theorem token_unquote (alone : ∀ x ∈ input.head?, x.1 ≠ '@') :
    token settings ',' p input = .upTo (some (.mark .unquote)) input := by
  have opening : Bracket.ofOpening? ',' = none := rfl
  have closing : Bracket.ofClosing? ',' = none := rfl
  have blank : Text.isBlank ',' = false := rfl
  unfold token
  simp only [opening, closing, blank, Bool.false_eq_true, if_false, Char.reduceEq, if_true]
  split
  · exact absurd rfl (alone _ rfl)
  · rfl

theorem token_bare (plain : Text.isSymbolChar c = true ∨ c = '\\') (comment : c ≠ ';')
    (hash : c ≠ '#') :
    token settings c p input =
      .upTo (some (bareToken settings.format (c :: (run Text.isSymbolChar input).1)))
        (run Text.isSymbolChar input).2 := by
  rcases plain with symbol | rfl
  · obtain ⟨blank, delimiter⟩ := isSymbolChar_iff.1 symbol
    have opening := ofOpening?_eq_none delimiter
    have closing := ofClosing?_eq_none delimiter
    simp only [Text.delimiters, List.mem_cons, not_or] at delimiter
    obtain ⟨quote, backquote, comma, doubleQuote, bar, -⟩ := delimiter
    unfold token
    rw [opening, closing]
    dsimp only
    rw [if_neg (by simp [blank]), if_neg comment, if_neg hash, if_neg doubleQuote, if_neg bar,
      if_neg quote, if_neg backquote, if_neg comma]
  · rfl

end

/-! ## The tokens there are -/

/-- The tokens that a scan can give, with what is known of the settings and of the input then. -/
inductive Gives (settings : Settings) (c : Char) (input : Input) : Token → Prop
  | opening (k : Bracket) : Gives settings c input (.opening k)
  | closing (k : Bracket) : Gives settings c input (.closing k)
  | blank (kept : settings.modes.retainWhitespace = true) (text : String) :
      Gives settings c input (.blank text)
  | comment (kept : settings.modes.retainComments = true) (semicolons : Int) (text : String) :
      Gives settings c input (.comment semicolons text)
  | blockComment (kept : settings.modes.retainComments = true) (text : String) :
      Gives settings c input (.blockComment text)
  | datumComment : Gives settings c input .datumComment
  | mark (m : Mark) : Gives settings c input (.mark m)
  | char (x : Char) : Gives settings c input (.atom (.char x))
  | string (s : String) : Gives settings c input (.atom (.string s))
  | barred (s : String) : Gives settings c input (.atom (.symbol s))
  | keyword (on : settings.format.hashColonIsKeyword = true) (s : String) :
      Gives settings c input (.atom (.leadingKeyword s))
  | uninterned (off : settings.format.hashColonIsKeyword = false) (s : String) :
      Gives settings c input (.atom (.uninterned s))
  | special (x : Special) : Gives settings c input (.atom (.special x))
  | bool (b : Bool) : Gives settings c input (.atom (.bool b))
  | bare (plain : Text.isSymbolChar c = true ∨ c = '\\') (comment : c ≠ ';') (hash : c ≠ '#') :
      Gives settings c input
        (bareToken settings.format (c :: (run Text.isSymbolChar input).1))

section
variable {settings : Settings} {c : Char} {p : Pos} {input : Input} {t : Token}

theorem gives_of_hash {input' : Input}
    (h : (hash settings.format settings.modes p input').result = .ok (some t)) :
    Gives settings c input t := by
  revert h
  fun_cases hash settings.format settings.modes p input' with
  | case1 => rintro ⟨⟩
  | case2 =>
    intro h
    obtain ⟨x, -, ⟨⟩⟩ := map_eq_ok h
    exact .char x
  | case3 =>
    rintro ⟨⟩
    exact .datumComment
  | case4 =>
    intro h
    obtain ⟨s, -, kept⟩ := map_eq_ok h
    split at kept
    · cases kept
      exact .blockComment ‹_› s
    · cases kept
  | case5 =>
    intro h
    obtain ⟨s, -, ⟨⟩⟩ := map_eq_ok h
    split
    · exact .keyword ‹_› s
    · exact .uninterned (Bool.eq_false_iff.2 ‹_›) s
  | case6 =>
    intro h
    obtain ⟨t, ok, ⟨⟩⟩ := map_eq_ok h
    obtain ⟨cs, -, named⟩ := check_eq_ok ok
    obtain ⟨x, rfl⟩ := specialNamed_eq_ok named
    exact .special x
  | case7 =>
    intro h
    obtain ⟨t, ok, ⟨⟩⟩ := map_eq_ok h
    obtain ⟨cs, -, spelled⟩ := check_eq_ok ok
    obtain ⟨b, rfl⟩ := boolSpelled_eq_ok spelled
    exact .bool b

theorem gives_of_token (h : (token settings c p input).result = .ok (some t)) :
    Gives settings c input t := by
  cases begins c with
  | opening k =>
    rw [token_opening] at h
    cases h
    exact .opening k
  | closing k =>
    rw [token_closing] at h
    cases h
    exact .closing k
  | blank blank =>
    rw [token_blank settings p input blank] at h
    cases kept : settings.modes.retainWhitespace with
    | false => simp [upTo, kept] at h
    | true =>
      simp only [upTo, kept, if_true, Except.ok.injEq, Option.some.injEq] at h
      rw [← h]
      exact .blank kept _
  | comment =>
    rw [token_comment] at h
    split at h
    · obtain ⟨t, ok, ⟨⟩⟩ := map_eq_ok h
      obtain ⟨cs, -, comment⟩ := check_eq_ok ok
      rw [lineComment_eq_ok comment]
      exact .comment ‹_› _ _
    · cases h
  | hash => exact gives_of_hash h
  | string =>
    obtain ⟨s, -, ⟨⟩⟩ := map_eq_ok h
    exact .string s
  | barred =>
    obtain ⟨s, -, ⟨⟩⟩ := map_eq_ok h
    exact .barred s
  | quote =>
    cases h
    exact .mark .quote
  | quasiquote =>
    cases h
    exact .mark .quasiquote
  | unquote =>
    rcases splicing_or input with ⟨q, rest, rfl⟩ | alone
    · cases h
      exact .mark .unquoteSplicing
    · rw [token_unquote settings p input alone] at h
      cases h
      exact .mark .unquote
  | bare plain comment hash =>
    rw [token_bare settings p input plain comment hash] at h
    cases h
    exact .bare plain comment hash

end

theorem delimitedFrom_error {fmt : Format} {q : Char} {start : Pos} {found : List Char}
    {input : Input} {e : ReadError} (h : (piece fmt q start input).result = .error e) :
    delimitedFrom fmt q start found input =
      ⟨.error e, (piece fmt q start input).rest, (piece fmt q start input).peeked⟩ := by
  rw [delimitedFrom]
  split <;> simp_all

theorem delimitedFrom_close {fmt : Format} {q : Char} {start : Pos} {found : List Char}
    {input : Input} (h : (piece fmt q start input).result = .ok .close) :
    delimitedFrom fmt q start found input =
      .done (String.ofList found.reverse) (piece fmt q start input).rest := by
  rw [delimitedFrom]
  split <;> simp_all

theorem delimitedFrom_chars {fmt : Format} {q : Char} {start : Pos} {found cs : List Char}
    {input : Input} (h : (piece fmt q start input).result = .ok (.chars cs)) :
    delimitedFrom fmt q start found input =
      delimitedFrom fmt q start (cs.reverse ++ found) (piece fmt q start input).rest := by
  rw [delimitedFrom]
  split <;> simp_all

/-- The closing delimiter is the last that is looked at. -/
theorem delimitedFrom_closed {fmt : Format} {delimiter : Char} {start : Pos} {found : List Char}
    {input : Input} {a : String}
    (ok : (delimitedFrom fmt delimiter start found input).result = .ok a) :
    (delimitedFrom fmt delimiter start found input).peeked = false := by
  fun_induction delimitedFrom fmt delimiter start found input with
  | case1 => cases ok
  | case2 => rfl
  | case3 _ _ _ _ _ ih => exact ih ok

end Scan

namespace Tokens

variable {settings : Settings} {found : List Lexeme} {c : Char} {p : Pos} {input : Input}

theorem ofInput_nil (failure? : Option ReadError) :
    ofInput settings failure? found [] = ⟨found.reverse, failure?, []⟩ := by
  rw [ofInput]

theorem ofInput_token {t : Token} (h : (Scan.token settings c p input).result = .ok (some t)) :
    ofInput settings none found ((c, p) :: input) =
      ofInput settings none
        (⟨t, p, (Scan.token settings c p input).rest, (Scan.token settings c p input).peeked⟩ ::
          found)
        (Scan.token settings c p input).rest := by
  rw [ofInput]
  simp [h]

theorem ofInput_skip (h : (Scan.token settings c p input).result = .ok none) :
    ofInput settings none found ((c, p) :: input) =
      ofInput settings none found (Scan.token settings c p input).rest := by
  rw [ofInput]
  simp [h]

theorem ofInput_error {e : ReadError} (h : (Scan.token settings c p input).result = .error e) :
    ofInput settings none found ((c, p) :: input) =
      ⟨found.reverse, some e, (Scan.token settings c p input).untaken⟩ := by
  rw [ofInput]
  simp [h]

end Tokens

end Sexpr
