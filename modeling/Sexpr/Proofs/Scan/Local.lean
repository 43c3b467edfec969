import Sexpr.Proofs.Scan.Steps

/-!
Scanning looks at nothing beyond what it takes: it gives the same value, and leaves the same, where
characters after it are cut off and where the text stands somewhere else.

- `token_shrinks`: so it is for one token.
-/

namespace Sexpr

/-- The characters of the first input are those of the second and then some more. -/
def Input.Cut (cut : List Char) (large small : Input) : Prop :=
  large.map Prod.fst = small.map Prod.fst ++ cut

namespace Scan

open Input (Cut)

variable {α β : Type} {cut : List Char} {c : Char} {p : Pos} {input small rest : Input}
  {s s' : Scan α}

/-- If the first scan gives a value and takes nothing of what is cut off, the second one gives the
same value. -/
def Shrinks (cut : List Char) (s s' : Scan α) : Prop :=
  ∀ a, s.result = .ok a → cut.length ≤ s.rest.length →
    s'.result = .ok a ∧ Cut cut s.rest s'.rest

theorem cut_nil (h : Cut cut [] small) : small = [] ∧ cut = [] := by
  obtain ⟨left, right⟩ := List.append_eq_nil_iff.1 (Eq.symm h)
  exact ⟨List.map_eq_nil_iff.1 left, right⟩

/-- A character that is not cut off stands in both inputs. -/
theorem cut_cons (h : Cut cut ((c, p) :: rest) small) (le : cut.length ≤ rest.length) :
    ∃ p' rest', small = (c, p') :: rest' ∧ Cut cut rest rest' := by
  cases small with
  | nil =>
    have length := congrArg List.length h
    simp only [List.map_cons, List.map_nil, List.nil_append, List.length_cons, List.length_map]
      at length
    omega
  | cons x rest' =>
    obtain ⟨d, p'⟩ := x
    obtain ⟨rfl, more⟩ := List.cons.inj h
    exact ⟨p', rest', rfl, more⟩

/-- What stands first in the smaller input stands first in the larger one. -/
theorem head_of_cut (h : Cut cut input ((c, p) :: small)) : ∃ q rest, input = (c, q) :: rest := by
  cases input with
  | nil => cases h
  | cons x rest =>
    obtain ⟨d, q⟩ := x
    obtain ⟨rfl, -⟩ := List.cons.inj h
    exact ⟨q, rest, rfl⟩

/-- A scan that takes the first character is looked at where both inputs have it. -/
theorem shrinks_cons (h : Cut cut ((c, p) :: input) small) (taken : s.rest <:+ input)
    (next : ∀ p' input', small = (c, p') :: input' → Cut cut input input' → Shrinks cut s s') :
    Shrinks cut s s' := by
  intro a ok le
  obtain ⟨p', input', rfl, more⟩ := cut_cons h (Nat.le_trans le taken.length_le)
  exact next p' input' rfl more a ok le

theorem shrinks_error {e : ReadError} (h : s.result = .error e) : Shrinks cut s s' := by
  intro a ok
  rw [h] at ok
  cases ok

theorem shrinks_done (a : α) (h : Cut cut input small) :
    Shrinks cut (done a input) (done a small) := by
  rintro b ⟨⟩ -
  exact ⟨rfl, h⟩

theorem shrinks_upTo (a : α) (h : Cut cut input small) :
    Shrinks cut (upTo a input) (upTo a small) := by
  rintro b ⟨⟩ -
  exact ⟨rfl, h⟩

theorem Shrinks.map (h : Shrinks cut s s') (f : α → β) : Shrinks cut (s.map f) (s'.map f) := by
  intro b ok le
  cases result : s.result with
  | error e => simp [Scan.map, result, Except.map] at ok
  | ok a =>
    obtain ⟨result', more⟩ := h a result le
    simp only [Scan.map, result, result', Except.map] at ok ⊢
    exact ⟨ok, more⟩

theorem Shrinks.check (h : Shrinks cut s s') {f f' : α → Except ReadError β}
    (agree : ∀ a b, f a = .ok b → f' a = .ok b) : Shrinks cut (s.check f) (s'.check f') := by
  intro b ok le
  cases result : s.result with
  | error e => simp [Scan.check, result, Except.bind] at ok
  | ok a =>
    obtain ⟨result', more⟩ := h a result le
    simp only [Scan.check, result, result', Except.bind] at ok ⊢
    exact ⟨agree a b ok, more⟩

/-! ## The scanners -/

theorem run_cut {pred : Char → Bool} {cs : List Char} (h : Cut cut input small)
    (ran : run pred input = (cs, rest)) (le : cut.length ≤ rest.length) :
    ∃ rest', run pred small = (cs, rest') ∧ Cut cut rest rest' := by
  induction input generalizing small cs with
  | nil =>
    obtain ⟨rfl, rfl⟩ := cut_nil h
    cases ran
    exact ⟨[], rfl, h⟩
  | cons x input ih =>
    obtain ⟨c, p⟩ := x
    cases fits : pred c with
    | true =>
      obtain ⟨ds, more, ran'⟩ : ∃ ds more, run pred input = (ds, more) := ⟨_, _, rfl⟩
      have whole : run pred ((c, p) :: input) = (c :: ds, more) := by
        simp only [run, Prod.mk.injEq] at ran' ⊢
        simp [fits, ran']
      obtain ⟨rfl, rfl⟩ := Prod.mk.inj (whole.symm.trans ran)
      have shorter := (run_rest_suffix pred input).length_le
      rw [ran'] at shorter
      obtain ⟨p', input', rfl, cuts⟩ := cut_cons h (Nat.le_trans le shorter)
      obtain ⟨rest', small', more'⟩ := ih cuts ran'
      refine ⟨rest', ?_, more'⟩
      simp only [run, Prod.mk.injEq] at small' ⊢
      simp [fits, small']
    | false =>
      have whole : run pred ((c, p) :: input) = ([], (c, p) :: input) := by simp [run, fits]
      obtain ⟨rfl, rfl⟩ := Prod.mk.inj (whole.symm.trans ran)
      refine ⟨small, ?_, h⟩
      cases small with
      | nil => rfl
      | cons x small =>
        obtain ⟨d, p'⟩ := x
        obtain ⟨q, more, ⟨⟩⟩ := head_of_cut h
        simp [run, fits]

theorem run_shrinks (pred : Char → Bool) {cs : List Char} (f : List Char → α)
    (ran : run pred input = (cs, rest)) (h : Cut cut input small) :
    Shrinks cut (upTo (f cs) rest) (upTo (f (run pred small).1) (run pred small).2) := by
  rintro a ⟨⟩ le
  obtain ⟨rest', ran', more⟩ := run_cut h ran le
  rw [ran']
  exact ⟨rfl, more⟩

theorem codeDigits_shrinks {ends : CodeEnd} {limit : Int} {start start' : Pos} {digits code : Nat}
    (h : Cut cut input small) :
    Shrinks cut (codeDigits ends limit start digits code input)
      (codeDigits ends limit start' digits code small) := by
  fun_induction codeDigits ends limit start digits code input generalizing small with
  | case1 digits code open' =>
    obtain ⟨rfl, rfl⟩ := cut_nil h
    rw [codeDigits, if_pos open']
    exact shrinks_upTo _ h
  | case2 => exact shrinks_error rfl
  | case3 => exact shrinks_error rfl
  | case4 digits code c pos rest d hex more full =>
    refine shrinks_cons h (List.suffix_refl _) ?_
    rintro p' rest' rfl cuts
    rw [codeDigits, hex]
    dsimp only
    rw [if_neg more, if_pos full]
    exact shrinks_done _ cuts
  | case5 digits code c pos rest d hex more full ih =>
    refine shrinks_cons h (codeDigits_rest_suffix ..) ?_
    rintro p' rest' rfl cuts
    rw [codeDigits, hex]
    dsimp only
    rw [if_neg more, if_neg full]
    exact ih cuts
  | case6 digits code c pos rest hex closed =>
    refine shrinks_cons h (List.suffix_refl _) ?_
    rintro p' rest' rfl cuts
    rw [codeDigits, hex]
    dsimp only
    rw [if_pos closed]
    exact shrinks_done _ cuts
  | case7 => exact shrinks_error rfl
  | case8 digits code c pos rest hex closed bad anywhere =>
    obtain ⟨some, -⟩ := not_or.1 bad
    cases small with
    | nil =>
      rw [codeDigits, if_pos ⟨anywhere, Nat.pos_of_ne_zero some⟩]
      exact shrinks_upTo _ h
    | cons x small =>
      obtain ⟨d, p'⟩ := x
      obtain ⟨q, more, ⟨⟩⟩ := head_of_cut h
      rw [codeDigits, hex]
      dsimp only
      rw [if_neg closed, if_neg bad, if_pos anywhere]
      exact shrinks_upTo _ h
  | case9 => exact shrinks_error rfl

theorem codeChar_agree (p p' : Pos) (code : Nat) (c : Char) (h : codeChar p code = .ok c) :
    codeChar p' code = .ok c := by
  unfold codeChar at h ⊢
  split at h
  · exact h
  · cases h

theorem hexChar_shrinks (ends : CodeEnd) (limit : Int) (start start' p p' : Pos)
    (h : Cut cut input small) :
    Shrinks cut (hexChar ends limit start p input) (hexChar ends limit start' p' small) :=
  (codeDigits_shrinks h).check (codeChar_agree p p')

theorem octalDigits_shrinks (n code : Nat) (h : Cut cut input small) :
    Shrinks cut (octalDigits n code input) (octalDigits n code small) := by
  fun_induction octalDigits n code input generalizing small with
  | case1 => exact shrinks_done _ h
  | case2 =>
    obtain ⟨rfl, rfl⟩ := cut_nil h
    exact shrinks_upTo _ h
  | case3 n code c pos rest d octal ih =>
    refine shrinks_cons h (octalDigits_rest_suffix ..) ?_
    rintro p' rest' rfl cuts
    rw [octalDigits, octal]
    exact ih cuts
  | case4 n code c pos rest octal =>
    cases small with
    | nil => exact shrinks_upTo _ h
    | cons x small =>
      obtain ⟨d, p'⟩ := x
      obtain ⟨q, more, ⟨⟩⟩ := head_of_cut h
      rw [octalDigits, octal]
      exact shrinks_upTo _ h

theorem escape_shrinks (fmt : Format) (start start' : Pos) (h : Cut cut input small) :
    Shrinks cut (escape fmt start input) (escape fmt start' small) := by
  fun_cases escape fmt start input with
  | case1 => exact shrinks_error rfl
  | case2 e p rest c letter =>
    refine shrinks_cons h (List.suffix_refl _) ?_
    rintro p' rest' rfl cuts
    rw [escape, letter]
    exact shrinks_done _ cuts
  | case3 p rest noLetter =>
    refine shrinks_cons h (hexChar_rest_suffix _ _ start p rest) ?_
    rintro p' rest' rfl cuts
    exact (hexChar_shrinks _ _ _ _ _ _ cuts).map _
  | case4 p rest noLetter u =>
    refine shrinks_cons h (hexChar_rest_suffix _ _ start p rest) ?_
    rintro p' rest' rfl cuts
    exact (hexChar_shrinks _ _ _ _ _ _ cuts).map _
  | case5 p rest ends noLetter u u' =>
    refine shrinks_cons h (hexChar_rest_suffix ends _ start p rest) ?_
    rintro p' rest' rfl cuts
    exact (hexChar_shrinks ends _ _ _ _ _ cuts).map _
  | case6 p rest noLetter u u' x =>
    refine shrinks_cons h (run_rest_suffix _ rest) ?_
    rintro p' rest' rfl cuts
    exact run_shrinks Text.isBlank (fun _ => Piece.chars []) rfl cuts
  | case7 e p rest noLetter u u' x newline d digit octal =>
    refine shrinks_cons h (octalDigits_rest_suffix ..) ?_
    rintro p' rest' rfl cuts
    rw [escape, noLetter]
    dsimp only
    rw [if_neg u, if_neg u', if_neg x, if_neg newline, digit]
    dsimp only
    rw [if_pos octal]
    exact (octalDigits_shrinks _ _ cuts).map _
  | case8 p rest d octal noLetter u u' x newline digit =>
    refine shrinks_cons h (List.suffix_refl _) ?_
    rintro p' rest' rfl cuts
    rw [escape, noLetter]
    dsimp only
    rw [if_neg u, if_neg u', if_neg x, if_neg newline, digit]
    dsimp only
    rw [if_neg octal, if_pos rfl]
    exact shrinks_done _ cuts
  | case9 => exact shrinks_error rfl
  | case10 => exact shrinks_error rfl

theorem piece_shrinks (fmt : Format) (delimiter : Char) (start start' : Pos)
    (h : Cut cut input small) :
    Shrinks cut (piece fmt delimiter start input) (piece fmt delimiter start' small) := by
  cases input with
  | nil => exact shrinks_error rfl
  | cons x rest =>
    obtain ⟨c, p⟩ := x
    rw [piece]
    split
    · rename_i closed
      refine shrinks_cons h (List.suffix_refl _) ?_
      rintro p' rest' rfl cuts
      rw [piece, if_pos closed]
      exact shrinks_done _ cuts
    · rename_i opened
      split
      · rename_i backslash
        refine shrinks_cons h (escape_rest_suffix ..) ?_
        rintro p' rest' rfl cuts
        rw [piece, if_neg opened, if_pos backslash]
        exact escape_shrinks fmt start start' cuts
      · rename_i plain
        refine shrinks_cons h (List.suffix_refl _) ?_
        rintro p' rest' rfl cuts
        rw [piece, if_neg opened, if_neg plain]
        exact shrinks_done _ cuts

theorem delimitedFrom_shrinks (fmt : Format) (delimiter : Char) (start start' : Pos)
    (found : List Char) (h : Cut cut input small) :
    Shrinks cut (delimitedFrom fmt delimiter start found input)
      (delimitedFrom fmt delimiter start' found small) := by
  fun_induction delimitedFrom fmt delimiter start found input generalizing small with
  | case1 => exact shrinks_error rfl
  | case2 found input s =>
    rename_i closed
    rintro a ⟨⟩ le
    obtain ⟨closed', more⟩ := piece_shrinks fmt delimiter start start' h _ closed le
    rw [delimitedFrom_close closed']
    exact ⟨rfl, more⟩
  | case3 found input s cs chars =>
    rename_i ih
    intro a ok le
    have le' : cut.length ≤ (piece fmt delimiter start input).rest.length :=
      Nat.le_trans le (delimitedFrom_rest_suffix ..).length_le
    obtain ⟨chars', more⟩ := piece_shrinks fmt delimiter start start' h _ chars le'
    rw [delimitedFrom_chars chars']
    exact ih more a ok le

theorem blockCommentFrom_shrinks (start start' : Pos) (found : List Char) (inner : Nat)
    (h : Cut cut input small) :
    Shrinks cut (blockCommentFrom start found inner input)
      (blockCommentFrom start' found inner small) := by
  fun_induction blockCommentFrom start found inner input generalizing small with
  | case1 => exact shrinks_error rfl
  | case2 found p q rest =>
    refine shrinks_cons h (List.suffix_cons ..) ?_
    rintro p' rest' rfl cuts
    refine shrinks_cons cuts (List.suffix_refl _) ?_
    rintro q' rest' rfl cuts
    exact shrinks_done _ cuts
  | case3 found p q rest inner ih =>
    have taken := blockCommentFrom_rest_suffix start ('#' :: '|' :: found) inner rest
    refine shrinks_cons h (taken.trans (List.suffix_cons ..)) ?_
    rintro p' rest' rfl cuts
    refine shrinks_cons cuts taken ?_
    rintro q' rest' rfl cuts
    exact ih cuts
  | case4 found inner p q rest ih =>
    have taken := blockCommentFrom_rest_suffix start ('|' :: '#' :: found) (inner + 1) rest
    refine shrinks_cons h (taken.trans (List.suffix_cons ..)) ?_
    rintro p' rest' rfl cuts
    refine shrinks_cons cuts taken ?_
    rintro q' rest' rfl cuts
    rw [blockCommentFrom]
    exact ih cuts
  | case5 found inner c p rest noClose noOpen ih =>
    refine shrinks_cons h (blockCommentFrom_rest_suffix ..) ?_
    rintro p' rest' rfl cuts
    have head {d : Char} (no : ∀ q more, rest = (d, q) :: more → False) (q : Pos) (more : Input) :
        rest' ≠ (d, q) :: more := by
      rintro rfl
      obtain ⟨q', more', same⟩ := head_of_cut cuts
      exact no q' more' same
    rw [blockCommentFrom]
    · exact ih cuts
    · intro q more same close
      exact head (fun q more same => noClose q more same close) q more same
    · intro q more same opens
      exact head (fun q more same => noOpen q more same opens) q more same

theorem charOfSpelling_agree (start start' : Pos) (c : Char) (cs : List Char) (x : Char)
    (h : charOfSpelling start c cs = .ok x) : charOfSpelling start' c cs = .ok x := by
  unfold charOfSpelling at h ⊢
  split
  · rename_i alone
    rwa [if_pos alone] at h
  · rename_i more
    rw [if_neg more] at h
    split
    · rename_i code
      rw [if_pos code] at h
      exact codeChar_agree _ _ _ _ h
    · rename_i name
      rw [if_neg name] at h
      split at h
      · exact h
      · cases h

theorem charLiteral_shrinks (start start' : Pos) (h : Cut cut input small) :
    Shrinks cut (charLiteral start input) (charLiteral start' small) := by
  cases input with
  | nil => exact shrinks_error rfl
  | cons x rest =>
    obtain ⟨c, p⟩ := x
    refine shrinks_cons h (run_rest_suffix _ rest) ?_
    rintro p' rest' rfl cuts
    exact (run_shrinks Text.isSymbolChar (fun cs => (c, cs)) rfl cuts).check fun x =>
      charOfSpelling_agree start start' x.1 x.2

theorem hashColonName_shrinks (fmt : Format) (start start' : Pos) (h : Cut cut input small) :
    Shrinks cut (hashColonName fmt start input) (hashColonName fmt start' small) := by
  cases input with
  | nil => exact shrinks_error rfl
  | cons x rest =>
    obtain ⟨c, p⟩ := x
    rw [hashColonName]
    split
    · rename_i bar
      refine shrinks_cons h (delimited_rest_suffix ..) ?_
      rintro p' rest' rfl cuts
      rw [hashColonName, if_pos bar]
      exact delimitedFrom_shrinks fmt '|' start start' [] cuts
    · rename_i bar
      refine shrinks_cons h (run_rest_suffix _ rest) ?_
      rintro p' rest' rfl cuts
      rw [hashColonName, if_neg bar]
      exact run_shrinks Text.isSymbolChar (fun cs => String.ofList (c :: cs)) rfl cuts

theorem specialNamed_agree (start start' : Pos) (cs : List Char) (t : Token)
    (h : specialNamed start cs = .ok t) : specialNamed start' cs = .ok t := by
  unfold specialNamed at h ⊢
  dsimp only at h ⊢
  split at h
  · exact h
  · cases h

theorem boolSpelled_agree (fmt : Format) (start start' : Pos) (cs : List Char) (t : Token)
    (h : boolSpelled fmt start cs = .ok t) : boolSpelled fmt start' cs = .ok t := by
  unfold boolSpelled at h ⊢
  dsimp only at h ⊢
  split
  · rename_i yes
    rwa [if_pos yes] at h
  · rename_i yes
    rw [if_neg yes] at h
    split
    · rename_i no
      rwa [if_pos no] at h
    · rename_i no
      rw [if_neg no] at h
      cases h

theorem lineComment_agree (start start' : Pos) (cs : List Char) (t : Token)
    (h : lineComment start cs = .ok t) : lineComment start' cs = .ok t := by
  unfold lineComment at h ⊢
  dsimp only at h ⊢
  split
  · rename_i many
    rw [if_pos many] at h
    cases h
  · rename_i many
    rwa [if_neg many] at h

/-- No boolean is spelled without letters, so the first of them is taken. -/
theorem suffix_of_boolSpelled {fmt : Format} {start : Pos} {cs : List Char} {t : Token}
    (ran : run Text.isAsciiLetter ((c, p) :: input) = (cs, rest))
    (spelled : boolSpelled fmt start cs = .ok t) : rest <:+ input := by
  simp only [run, Prod.mk.injEq] at ran
  obtain ⟨rfl, rfl⟩ := ran
  cases letter : Text.isAsciiLetter c with
  | true =>
    rw [List.dropWhile_cons_of_pos (by exact letter)]
    exact List.dropWhile_suffix _
  | false => simp [letter, boolSpelled, String.ext_iff] at spelled

theorem hash_shrinks (fmt : Format) (modes : Modes) (start start' : Pos)
    (h : Cut cut input small) :
    Shrinks cut (hash fmt modes start input) (hash fmt modes start' small) := by
  fun_cases hash fmt modes start input with
  | case1 => exact shrinks_error rfl
  | case2 p rest =>
    refine shrinks_cons h (charLiteral_rest_suffix ..) ?_
    rintro p' rest' rfl cuts
    exact (charLiteral_shrinks start start' cuts).map _
  | case3 p rest =>
    refine shrinks_cons h (List.suffix_refl _) ?_
    rintro p' rest' rfl cuts
    exact shrinks_done _ cuts
  | case4 p rest =>
    refine shrinks_cons h (blockCommentFrom_rest_suffix ..) ?_
    rintro p' rest' rfl cuts
    exact (blockCommentFrom_shrinks start start' [] 0 cuts).map _
  | case5 p rest =>
    refine shrinks_cons h (hashColonName_rest_suffix ..) ?_
    rintro p' rest' rfl cuts
    exact (hashColonName_shrinks fmt start start' cuts).map _
  | case6 p rest cs rest' ran =>
    refine shrinks_cons h (run_suffix ran) ?_
    rintro p' small rfl cuts
    exact ((run_shrinks _ id ran cuts).check (specialNamed_agree start start')).map _
  | case7 c p rest backslash semicolon bar colon bang cs rest' ran =>
    intro a ok le
    obtain ⟨t, found, -⟩ := map_eq_ok ok
    obtain ⟨ds, whole, spelled⟩ := check_eq_ok found
    cases whole
    refine shrinks_cons h (suffix_of_boolSpelled ran spelled) ?_ a ok le
    rintro p' small rfl cuts
    rw [hash, if_neg backslash, if_neg semicolon, if_neg bar, if_neg colon, if_neg bang]
    exact ((run_shrinks _ id ran h).check (boolSpelled_agree fmt start start')).map _

theorem token_shrinks (settings : Settings) (c : Char) (start start' : Pos)
    (h : Cut cut input small) :
    Shrinks cut (token settings c start input) (token settings c start' small) := by
  cases begins c with
  | opening k =>
    rw [token_opening, token_opening]
    exact shrinks_done _ h
  | closing k =>
    rw [token_closing, token_closing]
    exact shrinks_done _ h
  | blank blank =>
    rw [token_blank settings start input blank, token_blank settings start' small blank]
    exact run_shrinks Text.isBlank (fun cs => if settings.modes.retainWhitespace then
      some (Token.blank (String.ofList (c :: cs))) else none) rfl h
  | comment =>
    rw [token_comment, token_comment]
    by_cases kept : settings.modes.retainComments = true
    · rw [if_pos kept, if_pos kept]
      have line := run_shrinks (· != '\n') id rfl h
      exact (line.check (lineComment_agree start start')).map _
    · rw [if_neg kept, if_neg kept]
      exact run_shrinks (· != '\n') (fun _ => none) rfl h
  | hash =>
    rw [token_hash, token_hash]
    exact hash_shrinks _ _ start start' h
  | string =>
    have text := delimitedFrom_shrinks settings.format '\x22' start start' [] h
    rw [token_string, token_string]
    exact text.map _
  | barred =>
    have text := delimitedFrom_shrinks settings.format '|' start start' [] h
    rw [token_barred, token_barred]
    exact text.map _
  | quote =>
    rw [token_quote, token_quote]
    exact shrinks_done _ h
  | quasiquote =>
    rw [token_quasiquote, token_quasiquote]
    exact shrinks_done _ h
  | unquote =>
    rcases splicing_or input with ⟨q, rest, rfl⟩ | alone
    · rw [token_unquoteSplicing]
      refine shrinks_cons h (List.suffix_refl _) ?_
      rintro q' rest' rfl cuts
      rw [token_unquoteSplicing]
      exact shrinks_done _ cuts
    · have alone' : ∀ x ∈ small.head?, x.1 ≠ '@' := by
        rintro ⟨d, p⟩ head rfl
        obtain ⟨u, rfl⟩ := List.head?_eq_some_iff.1 head
        obtain ⟨q, rest, rfl⟩ := head_of_cut h
        exact alone _ rfl rfl
      rw [token_unquote settings start input alone, token_unquote settings start' small alone']
      exact shrinks_upTo _ h
  | bare plain comment hash =>
    rw [token_bare settings start input plain comment hash,
      token_bare settings start' small plain comment hash]
    exact run_shrinks Text.isSymbolChar (fun cs => some (bareToken settings.format (c :: cs))) rfl h

end Scan

end Sexpr
