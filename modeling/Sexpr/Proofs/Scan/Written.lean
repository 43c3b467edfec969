import Sexpr.Datum.Render
import Sexpr.Proofs.Number.Numerals
import Sexpr.Proofs.Scan.Quoting

/-!
The written forms of atoms, scanned as single tokens. Each statement is about one form and about
every text after it that does not go on with a character of a symbol.
-/

namespace Sexpr.Scan

/-- Nothing follows, or a character that belongs to no symbol. -/
def Ends (rest : List Char) : Prop := ∀ c ∈ rest.head?, Text.isSymbolChar c = false

/-- Written before `rest`, the characters are scanned as one token. -/
def Takes (settings : Settings) (cs rest : List Char) (t : Token) : Prop :=
  ∀ p : Pos, ∃ c u peeked, cs = c :: u ∧
    token settings c p (Input.ofChars (u ++ rest) (p.advance c)) =
      ⟨.ok (some t), Input.ofChars rest (p.advanceAll cs), peeked⟩

variable {settings : Settings} {rest : List Char}

theorem takes_opening (k : Bracket) : Takes settings [k.opening] rest (.opening k) := by
  intro p
  exact ⟨k.opening, [], false, rfl, token_opening ..⟩

theorem takes_closing (k : Bracket) : Takes settings [k.closing] rest (.closing k) := by
  intro p
  exact ⟨k.closing, [], false, rfl, token_closing ..⟩

theorem takes_bare {cs : List Char} (some : cs ≠ []) (symbol : ∀ c ∈ cs, Text.isSymbolChar c = true)
    (head : ∀ c ∈ cs.head?, c ≠ ';' ∧ c ≠ '#') (ends : Ends rest) :
    Takes settings cs rest (bareToken settings.format cs) := by
  intro p
  obtain ⟨c, u, rfl⟩ := List.exists_cons_of_ne_nil some
  refine ⟨c, u, true, rfl, ?_⟩
  obtain ⟨semicolon, hash⟩ := head c rfl
  rw [token_bare settings _ _ (.inl (symbol c List.mem_cons_self)) semicolon hash,
    run_ofChars _ (fun d hd => symbol d (List.mem_cons_of_mem c hd)) ends]
  rfl

theorem takes_dot (dots : settings.format.hasDottedPairs = true) (ends : Ends rest) :
    Takes settings ['.'] rest .dot := by
  have dot : bareToken settings.format ['.'] = .dot := by simp [bareToken, dots]
  rw [← dot]
  exact takes_bare (by simp) (List.all_eq_true.1 rfl) (by simp) ends

theorem takes_quoted (s : String) :
    Takes settings (Text.delimited '\x22' s).toList rest (.atom (.string s)) := by
  intro p
  refine ⟨'\x22', (Text.delimited '\x22' s).toList.tail, false, by rw [toList_delimited]; rfl, ?_⟩
  rw [token_string, delimited_written _ (.inl rfl), toList_delimited, Pos.advanceAll_cons]
  rfl

theorem takes_barred (s : String) :
    Takes settings (Text.delimited '|' s).toList rest (.atom (.symbol s)) := by
  intro p
  refine ⟨'|', (Text.delimited '|' s).toList.tail, false, by rw [toList_delimited]; rfl, ?_⟩
  rw [token_barred, delimited_written _ (.inr rfl), toList_delimited, Pos.advanceAll_cons]
  rfl

theorem isAsciiLetter_iff {c : Char} :
    Text.isAsciiLetter c = true ↔
      (97 ≤ c.toNat ∧ c.toNat ≤ 122) ∨ (65 ≤ c.toNat ∧ c.toNat ≤ 90) := by
  simp [Text.isAsciiLetter, Char.le_def, UInt32.le_iff_toNat_le]

theorem isDigit_iff {c : Char} : Decimal.isDigit c = true ↔ 48 ≤ c.toNat ∧ c.toNat ≤ 57 := by
  simp [Decimal.isDigit, Char.le_def, UInt32.le_iff_toNat_le]

theorem isSymbolChar_of_isAsciiLetter {c : Char} (h : Text.isAsciiLetter c = true) :
    Text.isSymbolChar c = true := by
  have none : ∀ d ∈ Text.delimiters, Text.isAsciiLetter d = false := by
    simp [Text.delimiters, Text.isAsciiLetter]
  apply isSymbolChar_iff.2
  constructor
  · rw [isAsciiLetter_iff] at h
    simp only [Text.isBlank, Bool.or_eq_false_iff, Bool.and_eq_false_iff, decide_eq_false_iff_not,
      beq_eq_false_iff_ne]
    omega
  · intro mem
    simp [none c mem] at h

theorem isSymbolChar_of_isDigit {c : Char} (h : Decimal.isDigit c = true) :
    Text.isSymbolChar c = true := by
  have none : ∀ d ∈ Text.delimiters, Decimal.isDigit d = false := by
    simp [Text.delimiters, Decimal.isDigit]
  apply isSymbolChar_iff.2
  constructor
  · rw [isDigit_iff] at h
    simp only [Text.isBlank, Bool.or_eq_false_iff, Bool.and_eq_false_iff, decide_eq_false_iff_not,
      beq_eq_false_iff_ne]
    omega
  · intro mem
    simp [none c mem] at h

/-- The characters of a number are digits, a slash or a minus sign. -/
theorem mem_of_bareNumber? {cs : List Char} {n : Number} (h : bareNumber? cs = some n) {c : Char}
    (hc : c ∈ cs) : Decimal.isDigit c = true ∨ c = '/' ∨ c = '-' := by
  cases cs with
  | nil => cases hc
  | cons d ds =>
    by_cases digit : Decimal.isDigit d = true
    · rw [bareNumber?, if_pos digit] at h
      exact (Decimal.mem_of_number? h hc).imp_right .inl
    · rw [bareNumber?, if_neg digit] at h
      by_cases minus : d = '-'
      · rw [if_pos minus] at h
        rcases List.mem_cons.1 hc with rfl | later
        · exact .inr (.inr minus)
        · exact (Decimal.mem_of_number? h later).imp_right .inl
      · rw [if_neg minus] at h
        cases h

theorem isSymbolChar_of_bareNumber? {cs : List Char} {n : Number} (h : bareNumber? cs = some n)
    {c : Char} (hc : c ∈ cs) : Text.isSymbolChar c = true := by
  rcases mem_of_bareNumber? h hc with digit | rfl | rfl
  · exact isSymbolChar_of_isDigit digit
  · decide
  · decide

theorem takes_number {n : Number} (h : n.Lasting) (ends : Ends rest) :
    Takes settings n.numeral.toList rest (.atom (.number n)) := by
  have number := bareNumber?_numeral h
  have some : n.numeral.toList ≠ [] := by
    intro none
    rw [none] at number
    cases number
  have dot : n.numeral.toList ≠ ['.'] := by
    intro dot
    rw [dot] at number
    cases number
  have bare : bareToken settings.format n.numeral.toList = .atom (.number n) := by
    simp [bareToken, dot, bareAtom, number]
  rw [← bare]
  apply takes_bare some _ _ ends
  · intro c hc
    exact isSymbolChar_of_bareNumber? number hc
  · intro c hc
    rcases mem_of_bareNumber? number (List.mem_of_mem_head? hc) with digit | rfl | rfl
    · constructor <;> rintro rfl <;> cases digit
    · decide
    · decide

/-- A run is a symbol if it is no number and no colon stands at its ends. -/
theorem takes_symbol {cs : List Char} (letter : ∀ c ∈ cs.head?, Text.isAsciiLetter c = true)
    (some : cs ≠ []) (symbol : ∀ c ∈ cs, Text.isSymbolChar c = true) (colon : ':' ∉ cs)
    (ends : Ends rest) : Takes settings cs rest (.atom (.symbol (String.ofList cs))) := by
  obtain ⟨c, u, rfl⟩ := List.exists_cons_of_ne_nil some
  have first := letter c rfl
  have number : bareNumber? (c :: u) = none := by
    have digit : Decimal.isDigit c = false := by
      rw [isAsciiLetter_iff] at first
      rw [← Bool.not_eq_true, isDigit_iff]
      omega
    have minus : c ≠ '-' := by rintro rfl; cases first
    simp [bareNumber?, digit, minus]
  have dot : c :: u ≠ ['.'] := by rintro ⟨⟩; cases first
  have leading : c ≠ ':' := by rintro rfl; cases first
  have trailing : (c :: u).getLast? ≠ Option.some ':' := by
    intro last
    exact colon (List.mem_of_getLast? last)
  have bare : bareToken settings.format (c :: u) = .atom (.symbol (String.ofList (c :: u))) := by
    simp only [bareToken, bareAtom, number, dot, false_and, if_false, List.head?_cons,
      Option.some.injEq, leading, trailing]
  rw [← bare]
  apply takes_bare some symbol _ ends
  intro d hd
  have plain := letter d hd
  constructor
  · rintro rfl
    cases plain
  · rintro rfl
    cases plain

theorem chars_of_isBare {s : String} (h : Text.isBare s = true) :
    (∃ c u, s.toList = c :: u ∧ Text.isAsciiLetter c = true) ∧
    ∀ c ∈ s.toList, Text.isSymbolChar c = true ∧ c ≠ ':' := by
  unfold Text.isBare at h
  cases chars : s.toList with
  | nil => simp [chars] at h
  | cons c u =>
    simp only [chars, Bool.and_eq_true, List.all_eq_true, Bool.or_eq_true, decide_eq_true_eq] at h
    obtain ⟨first, others⟩ := h
    refine ⟨⟨c, u, rfl, first⟩, ?_⟩
    intro d hd
    have plain : Text.isAsciiLetter d = true ∨ Decimal.isDigit d = true := by
      rcases List.mem_cons.1 hd with rfl | later
      · exact .inl first
      · apply (others d later).imp_right
        intro digit
        simpa [Decimal.isDigit] using digit
    rcases plain with letter | digit
    · constructor
      · exact isSymbolChar_of_isAsciiLetter letter
      · rintro rfl
        cases letter
    · constructor
      · exact isSymbolChar_of_isDigit digit
      · rintro rfl
        cases digit

theorem takes_renderSymbol (s : String) (ends : Ends rest) :
    Takes settings (Atom.renderSymbol s).toList rest (.atom (.symbol s)) := by
  unfold Atom.renderSymbol
  split
  · rename_i bare
    obtain ⟨⟨c, u, chars, letter⟩, plain⟩ := chars_of_isBare bare
    have symbol : Takes settings s.toList rest (.atom (.symbol (String.ofList s.toList))) := by
      apply takes_symbol (by simp [chars, letter]) (by simp [chars]) _ _ ends
      · intro d hd
        exact (plain d hd).1
      · intro colon
        exact (plain ':' colon).2 rfl
    rwa [String.ofList_toList] at symbol
  · exact takes_barred s

theorem takes_leadingKeyword {s : String} (symbol : ∀ c ∈ s.toList, Text.isSymbolChar c = true)
    (ends : Ends rest) : Takes settings (":" ++ s).toList rest (.atom (.leadingKeyword s)) := by
  have text : (":" ++ s).toList = ':' :: s.toList := by simp
  have bare : bareToken settings.format (':' :: s.toList) = .atom (.leadingKeyword s) := by
    simp [bareToken, bareAtom, bareNumber?, Decimal.isDigit]
  rw [text, ← bare]
  apply takes_bare (by simp) _ (by simp) ends
  intro c hc
  rcases List.mem_cons.1 hc with rfl | hc
  · decide
  · exact symbol c hc

theorem takes_trailingKeyword {s : String} (some : s.toList ≠ [])
    (symbol : ∀ c ∈ s.toList, Text.isSymbolChar c = true)
    (head : ∀ c ∈ s.toList.head?, c ≠ ':' ∧ c ≠ '#' ∧ c ≠ ';') (ends : Ends rest) :
    Takes settings (s ++ ":").toList rest (.atom (.trailingKeyword s)) := by
  have text : (s ++ ":").toList = s.toList ++ [':'] := by simp
  have number : bareNumber? (s.toList ++ [':']) = none := by
    cases number : bareNumber? (s.toList ++ [':']) with
    | none => rfl
    | some n =>
      have last : ':' ∈ s.toList ++ [':'] := by simp
      have digit := mem_of_bareNumber? number last
      simp [Decimal.isDigit] at digit
  obtain ⟨c, u, chars⟩ := List.exists_cons_of_ne_nil some
  obtain ⟨colon, hash, semicolon⟩ := head c (by simp [chars])
  have bare : bareToken settings.format (s.toList ++ [':']) = .atom (.trailingKeyword s) := by
    have dot : s.toList ++ [':'] ≠ ['.'] := by simp [chars]
    have leading : (s.toList ++ [':']).head? ≠ Option.some ':' := by simp [chars, colon]
    simp only [bareToken, bareAtom, number, dot, false_and, if_false, leading,
      List.getLast?_concat, if_true, List.dropLast_concat, String.ofList_toList]
  rw [text, ← bare]
  apply takes_bare (by simp) _ _ ends
  · intro c hc
    rcases List.mem_append.1 hc with hc | hc
    · exact symbol c hc
    · rw [List.mem_singleton.1 hc]
      decide
  · intro d hd
    rw [chars] at hd
    cases hd
    exact ⟨semicolon, hash⟩

theorem isAsciiLetter_of_ends (ends : Ends rest) :
    ∀ c ∈ rest.head?, Text.isAsciiLetter c = false := by
  intro c hc
  rw [← Bool.not_eq_true]
  intro letter
  have symbol := isSymbolChar_of_isAsciiLetter letter
  rw [ends c hc] at symbol
  cases symbol

theorem takes_hash {u : List Char} {t : Token} (peeked : Bool)
    (h : ∀ p p', hash settings.format settings.modes p (Input.ofChars (u ++ rest) p') =
      ⟨.ok (some t), Input.ofChars rest (p'.advanceAll u), peeked⟩) :
    Takes settings ('#' :: u) rest t := by
  intro p
  refine ⟨'#', u, peeked, rfl, ?_⟩
  rw [token_hash, h, Pos.advanceAll_cons]

theorem takes_bool (b : Bool) (ends : Ends rest) :
    Takes settings (if b then "#t" else "#f").toList rest (.atom (.bool b)) := by
  have letters (c : Char) (letter : Text.isAsciiLetter c = true) (p : Pos) :
      run Text.isAsciiLetter ((c, p) :: Input.ofChars rest (p.advance c)) =
        ([c], Input.ofChars rest (p.advance c)) := by
    have run : run Text.isAsciiLetter (Input.ofChars ([c] ++ rest) p) =
        ([c], Input.ofChars rest (p.advanceAll [c])) :=
      run_ofChars p (by simp [letter]) (isAsciiLetter_of_ends ends)
    rwa [List.singleton_append, Input.ofChars_cons] at run
  cases b with
  | false =>
    apply takes_hash (u := ['f']) true
    intro p p'
    simp only [List.singleton_append, Input.ofChars_cons, hash]
    rw [letters 'f' (by decide)]
    simp [upTo, check, map, boolSpelled, Except.bind, Except.map, Pos.advanceAll_cons,
      Pos.advanceAll_nil, String.ext_iff]
  | true =>
    apply takes_hash (u := ['t']) true
    intro p p'
    simp only [List.singleton_append, Input.ofChars_cons, hash]
    rw [letters 't' (by decide)]
    simp [upTo, check, map, boolSpelled, Except.bind, Except.map, Pos.advanceAll_cons,
      Pos.advanceAll_nil, String.ext_iff]

theorem takes_special (x : Special) (ends : Ends rest) :
    Takes settings ("#!" ++ x.name).toList rest (.atom (.special x)) := by
  have text : ("#!" ++ x.name).toList = '#' :: '!' :: x.name.toList := by simp
  have letters : ∀ c ∈ x.name.toList, Text.isAsciiLetter c = true := by
    cases x <;> exact List.all_eq_true.1 rfl
  have named : Special.named? x.name = some x := by
    cases x <;> decide
  rw [text]
  apply takes_hash true
  intro p p'
  simp only [List.cons_append, Input.ofChars_cons, hash]
  rw [run_ofChars _ letters (isAsciiLetter_of_ends ends)]
  simp [upTo, check, map, specialNamed, named, Except.bind, Except.map, Pos.advanceAll_cons]

/-- The name of an uninterned symbol or keyword may stand between bars. -/
theorem hashColonName_barred (fmt : Format) (start p : Pos) (s : String) :
    hashColonName fmt start (Input.ofChars ((Text.delimited '|' s).toList ++ rest) p) =
      .done s (Input.ofChars rest (p.advanceAll (Text.delimited '|' s).toList)) := by
  have text : (Text.delimited '|' s).toList = '|' :: (Text.delimited '|' s).toList.tail := by
    rw [toList_delimited]; rfl
  rw [text, List.cons_append, Input.ofChars_cons, hashColonName, if_pos rfl,
    delimited_written _ (.inr rfl), Pos.advanceAll_cons]

theorem takes_hashColon {u : List Char} {s : String} (peeked : Bool)
    (h : ∀ p p', hashColonName settings.format p (Input.ofChars (u ++ rest) p') =
      ⟨.ok s, Input.ofChars rest (p'.advanceAll u), peeked⟩) :
    Takes settings ('#' :: ':' :: u) rest (.atom
      (if settings.format.hashColonIsKeyword then .leadingKeyword s else .uninterned s)) := by
  apply takes_hash peeked
  intro p p'
  simp only [List.cons_append, Input.ofChars_cons, hash]
  rw [h]
  simp [map, Except.map, Pos.advanceAll_cons]

theorem takes_uninterned (s : String) (h : settings.format.hashColonIsKeyword = false)
    (ends : Ends rest) :
    Takes settings ("#:" ++ Atom.renderSymbol s).toList rest (.atom (.uninterned s)) := by
  have text : ("#:" ++ Atom.renderSymbol s).toList =
      '#' :: ':' :: (Atom.renderSymbol s).toList := by simp
  have kind : Atom.uninterned s =
      if settings.format.hashColonIsKeyword then .leadingKeyword s else .uninterned s := by simp [h]
  rw [text, kind]
  unfold Atom.renderSymbol
  split
  · rename_i bare
    apply takes_hashColon true
    intro p p'
    obtain ⟨⟨c, u, chars, letter⟩, plain⟩ := chars_of_isBare bare
    have bar : c ≠ '|' := by
      rintro rfl
      cases letter
    have tail : ∀ d ∈ u, Text.isSymbolChar d = true := by
      intro d hd
      have member : d ∈ s.toList := by
        rw [chars]
        exact List.mem_cons_of_mem c hd
      exact (plain d member).1
    have name : String.ofList (c :: u) = s := by rw [← chars, String.ofList_toList]
    rw [chars, List.cons_append, Input.ofChars_cons, hashColonName, if_neg bar,
      run_ofChars _ tail ends]
    dsimp only
    rw [name, Pos.advanceAll_cons]
    rfl
  · exact takes_hashColon false fun p p' => hashColonName_barred _ p p' s

theorem takes_barredKeyword (s : String) (h : settings.format.hashColonIsKeyword = true) :
    Takes settings ("#:" ++ Text.delimited '|' s).toList rest (.atom (.leadingKeyword s)) := by
  have text : ("#:" ++ Text.delimited '|' s).toList =
      '#' :: ':' :: (Text.delimited '|' s).toList := by simp
  have kind : Atom.leadingKeyword s =
      if settings.format.hashColonIsKeyword then .leadingKeyword s else .uninterned s := by simp [h]
  rw [text, kind]
  exact takes_hashColon false fun p p' => hashColonName_barred _ p p' s

theorem takes_charSpelled {c x : Char} {u : List Char}
    (symbol : ∀ d ∈ u, Text.isSymbolChar d = true)
    (spelled : ∀ p, charOfSpelling p c u = .ok x) (ends : Ends rest) :
    Takes settings ('#' :: '\\' :: c :: u) rest (.atom (.char x)) := by
  apply takes_hash true
  intro p p'
  simp only [List.cons_append, Input.ofChars_cons, hash, charLiteral]
  rw [run_ofChars _ symbol ends]
  simp [upTo, check, map, spelled, Except.bind, Except.map, Pos.advanceAll_cons]

theorem isHexDigit_iff {c : Char} : isHexDigit c = true ↔ Text.IsDigit 16 c := by
  simp [isHexDigit, Text.hexDigit?_eq]

theorem isSymbolChar_of_hex {c : Char} (h : Text.IsDigit 16 c) : Text.isSymbolChar c = true := by
  have table : ∀ n < 128, Text.IsDigit 16 (Char.ofNat n) →
      Text.isSymbolChar (Char.ofNat n) = true := by
    decide
  have symbol := table c.toNat h.ascii
  rw [Char.ofNat_toNat] at symbol
  exact symbol h

/-- A blank or control character has its code after `x`. -/
theorem charOfSpelling_code (p : Pos) (c : Char) :
    charOfSpelling p 'x' (Text.hex 1 c.toNat).toList = .ok c := by
  obtain ⟨value, digits⟩ := Text.positional_hex 1 c.toNat
  have length : (Text.hex 1 c.toNat).toList.length ≤ 8 := by
    have code : c.toNat < 0x110000 := by
      have valid : c.toNat < 0xd800 ∨ 0xdfff < c.toNat ∧ c.toNat < 0x110000 := c.valid
      omega
    have below : c.toNat < 16 ^ 8 := by omega
    have few := (Nat.length_toDigits_le_iff (by decide) (by decide)).2 below
    simp only [Text.hex, String.toList_ofList, List.length_append, List.length_replicate]
    omega
  have some : (Text.hex 1 c.toNat).toList ≠ [] := by
    simp [Text.hex]
  have all : (Text.hex 1 c.toNat).toList.all isHexDigit = true := by
    simpa only [List.all_eq_true, isHexDigit_iff] using digits
  rw [charOfSpelling, if_neg some, if_pos ⟨by decide, length, all⟩, Text.foldl_hexDigit? digits,
    value]
  simp [codeChar, scalar?_toNat]

/-- A name is spelled with letters, and no name looks like a code. -/
theorem charOfSpelling_name {name : String} {c : Char} (h : (name, c) ∈ Text.writtenNames) :
    ∃ d u, name.toList = d :: u ∧ (∀ x ∈ u, Text.isAsciiLetter x = true) ∧
      ∀ p, charOfSpelling p d u = .ok c := by
  simp only [Text.writtenNames, List.mem_cons, Prod.mk.injEq, List.not_mem_nil, or_false] at h
  rcases h with ⟨rfl, rfl⟩ | ⟨rfl, rfl⟩ | ⟨rfl, rfl⟩ | ⟨rfl, rfl⟩ | ⟨rfl, rfl⟩ | ⟨rfl, rfl⟩ |
    ⟨rfl, rfl⟩ | ⟨rfl, rfl⟩ | ⟨rfl, rfl⟩ <;>
    exact ⟨_, _, rfl, List.all_eq_true.1 rfl, fun _ => rfl⟩

theorem takes_renderChar (c : Char) (ends : Ends rest) :
    Takes settings (Atom.renderChar c).toList rest (.atom (.char c)) := by
  unfold Atom.renderChar
  cases name : Text.nameOf? c with
  | some name =>
    obtain ⟨⟨_, _⟩, found, rfl⟩ := Option.map_eq_some_iff.1 name
    obtain rfl : _ = c := by simpa using List.find?_some found
    obtain ⟨d, u, chars, letters, spelled⟩ := charOfSpelling_name (List.mem_of_find?_eq_some found)
    have symbol : ∀ x ∈ u, Text.isSymbolChar x = true := by
      intro x hx
      exact isSymbolChar_of_isAsciiLetter (letters x hx)
    rw [String.toList_append, chars]
    exact takes_charSpelled symbol spelled ends
  | none =>
    by_cases unseen : (Text.isBlank c || Text.isControl c) = true
    · rw [if_pos unseen]
      have text : ("#\\x" ++ Text.hex 1 c.toNat).toList =
          '#' :: '\\' :: 'x' :: (Text.hex 1 c.toNat).toList := by simp
      obtain ⟨-, digits⟩ := Text.positional_hex 1 c.toNat
      have symbol : ∀ d ∈ (Text.hex 1 c.toNat).toList, Text.isSymbolChar d = true := by
        intro d hd
        exact isSymbolChar_of_hex (digits d hd)
      rw [text]
      exact takes_charSpelled symbol (fun p => charOfSpelling_code p c) ends
    · rw [if_neg unseen, String.toList_ofList]
      exact takes_charSpelled (by simp) (fun p => rfl) ends

end Sexpr.Scan
