import Sexpr.Proofs.Scan.Local
import Sexpr.Proofs.Scan.Verbatim

/-!
The slices of a text that its tokens are made from, where blanks and comments are kept.

- `ofSource_tile`: the slices follow one another without a gap, and each of them alone gives its
  token.
- `tokens_tile`: the same told by offsets in the text.
-/

namespace Sexpr

theorem Input.suffix_ofChars {cs : List Char} {p : Pos} {rest : Input}
    (h : rest <:+ ofChars cs p) :
    ∃ used left, cs = used ++ left ∧ rest = ofChars left (p.advanceAll used) := by
  induction cs generalizing p with
  | nil =>
    obtain rfl := List.suffix_nil.1 h
    exact ⟨[], [], rfl, rfl⟩
  | cons c cs ih =>
    rw [ofChars_cons] at h
    rcases List.suffix_cons_iff.1 h with rfl | later
    · exact ⟨[], c :: cs, rfl, by rw [ofChars_cons]; rfl⟩
    · obtain ⟨used, left, rfl, rfl⟩ := ih later
      exact ⟨c :: used, left, rfl, rfl⟩

namespace Scan

/-- Where blanks and comments are kept, there is a token for everything that is scanned. -/
theorem token_kept {settings : Settings} (blanks : settings.modes.retainWhitespace = true)
    (comments : settings.modes.retainComments = true) (c : Char) (p : Pos) (input : Input) :
    (token settings c p input).result ≠ .ok none := by
  intro h
  cases begins c with
  | opening k =>
    rw [token_opening] at h
    cases h
  | closing k =>
    rw [token_closing] at h
    cases h
  | blank blank =>
    rw [token_blank settings p input blank, if_pos blanks] at h
    cases h
  | comment =>
    rw [token_comment, if_pos comments] at h
    obtain ⟨t, -, ⟨⟩⟩ := map_eq_ok h
  | hash =>
    rw [token_hash] at h
    revert h
    fun_cases hash settings.format settings.modes p input with
    | case1 | case3 => rintro ⟨⟩
    | case2 | case5 | case6 | case7 =>
      intro h
      obtain ⟨t, -, ⟨⟩⟩ := map_eq_ok h
    | case4 =>
      intro h
      obtain ⟨s, -, dropped⟩ := map_eq_ok h
      rw [if_pos comments] at dropped
      cases dropped
  | string | barred =>
    obtain ⟨s, -, ⟨⟩⟩ := map_eq_ok h
  | quote | quasiquote => cases h
  | unquote =>
    rcases splicing_or input with ⟨q, rest, rfl⟩ | alone
    · cases h
    · rw [token_unquote settings p input alone] at h
      cases h
  | bare plain comment hash =>
    rw [token_bare settings p input plain comment hash] at h
    cases h

end Scan

namespace Tokens

variable {settings : Settings} {p : Pos} {t : Token} {slices : List (List Char)}
  {ts : List (Token × Pos)}

/-- The characters alone are one token, and all of them stand in its text unless it is an atom. -/
def IsSlice (settings : Settings) (t : Token) (slice : List Char) : Prop :=
  (ofSource settings (.ofChars slice .start)).pairs = [(t, .start)] ∧
  (ofSource settings (.ofChars slice .start)).stop = none ∧
  (t.className ≠ "AtomToken" → ∀ limit, t.text limit = .ok (String.ofList slice))

/-- Tokens and their slices, beginning at a position. -/
inductive Tile (settings : Settings) : Pos → List (List Char) → List (Token × Pos) → Prop
  | nil (p : Pos) : Tile settings p [] []
  | cons {p : Pos} {slice : List Char} {slices : List (List Char)} {t : Token}
      {ts : List (Token × Pos)} (nonempty : slice ≠ []) (isSlice : IsSlice settings t slice)
      (more : Tile settings (p.advanceAll slice) slices ts) :
      Tile settings p (slice :: slices) ((t, p) :: ts)

/-- What a token takes of an input is its slice. -/
theorem isSlice_of_token {c : Char} {cs : List Char}
    (h : (Scan.token settings c p (.ofChars cs (p.advance c))).result = .ok (some t)) :
    ∃ used left, cs = used ++ left ∧
      (Scan.token settings c p (.ofChars cs (p.advance c))).rest =
        .ofChars left (p.advanceAll (c :: used)) ∧
      IsSlice settings t (c :: used) := by
  obtain ⟨used, left, rfl, rest⟩ :=
    Input.suffix_ofChars (Scan.token_rest_suffix settings c p (.ofChars cs (p.advance c)))
  refine ⟨used, left, rfl, rest, ?_⟩
  have cuts : Input.Cut left (.ofChars (used ++ left) (p.advance c))
      (.ofChars used (Pos.start.advance c)) := by
    simp [Input.Cut, Input.map_fst_ofChars]
  have length : left.length =
      (Scan.token settings c p (.ofChars (used ++ left) (p.advance c))).rest.length := by
    rw [rest, ← List.length_map Prod.fst, Input.map_fst_ofChars]
  obtain ⟨alone, remains⟩ :=
    Scan.token_shrinks settings c p .start cuts _ h (Nat.le_of_eq length)
  have ends : (Scan.token settings c .start (.ofChars used (Pos.start.advance c))).rest = [] := by
    rw [rest, Input.Cut, Input.map_fst_ofChars] at remains
    simpa using remains
  have tokens : ∃ peeked, ofSource settings (.ofChars (c :: used) .start) =
      ⟨[⟨t, .start, [], peeked⟩], none, []⟩ := by
    refine ⟨(Scan.token settings c .start (.ofChars used (Pos.start.advance c))).peeked, ?_⟩
    show ofInput settings none [] (.ofChars (c :: used) .start) = _
    rw [Input.ofChars_cons, ofInput_token alone, ends, ofInput_nil]
    rfl
  obtain ⟨peeked, tokens⟩ := tokens
  refine ⟨?_, ?_, ?_⟩
  · rw [tokens]
    rfl
  · rw [tokens]
  · intro noAtom limit
    obtain ⟨text, shown, chars⟩ := Scan.token_verbatim settings c p _ t h noAtom
    rw [rest, Input.map_fst_ofChars, Input.map_fst_ofChars, List.singleton_append,
      ← List.cons_append] at chars
    rw [shown, List.append_cancel_right chars, String.ofList_toList]

/-- The tokens of a text tile it as far as its first fault, and all of it if there is none. -/
theorem ofInput_tile (blanks : settings.modes.retainWhitespace = true)
    (comments : settings.modes.retainComments = true) (found : List Lexeme) (cs : List Char)
    (p : Pos) :
    ∃ slices left ts, cs = slices.flatten ++ left ∧ Tile settings p slices ts ∧
      (ofInput settings none found (.ofChars cs p)).pairs =
        found.reverse.map (fun l => (l.token, l.pos)) ++ ts ∧
      ((ofInput settings none found (.ofChars cs p)).stop = none → left = []) := by
  cases cs with
  | nil =>
    refine ⟨[], [], [], rfl, .nil p, ?_, fun _ => rfl⟩
    rw [Input.ofChars_nil, ofInput_nil, pairs, List.append_nil]
  | cons c cs =>
    rw [Input.ofChars_cons]
    cases scanned : (Scan.token settings c p (.ofChars cs (p.advance c))).result with
    | error e =>
      refine ⟨[], c :: cs, [], rfl, .nil p, ?_, ?_⟩
      · rw [ofInput_error scanned, pairs, List.append_nil]
      · rw [ofInput_error scanned]
        rintro ⟨⟩
    | ok token? =>
      cases token? with
      | none => exact absurd scanned (Scan.token_kept blanks comments c p _)
      | some t =>
        obtain ⟨used, later, split, rest, isSlice⟩ := isSlice_of_token scanned
        have shorter : later.length < (c :: cs).length := by
          rw [split, List.length_cons, List.length_append]
          omega
        rw [ofInput_token scanned, rest]
        obtain ⟨slices, left, ts, rfl, tile, pairs, all⟩ :=
          ofInput_tile blanks comments (⟨t, p, .ofChars later (p.advanceAll (c :: used)),
            (Scan.token settings c p (.ofChars cs (p.advance c))).peeked⟩ :: found) later
            (p.advanceAll (c :: used))
        refine ⟨(c :: used) :: slices, left, (t, p) :: ts, by simp [split],
          .cons (by simp) isSlice tile, ?_, all⟩
        rw [pairs]
        simp
termination_by cs.length
decreasing_by exact shorter

theorem ofSource_tile (blanks : settings.modes.retainWhitespace = true)
    (comments : settings.modes.retainComments = true) (cs : List Char) (p : Pos) :
    ∃ slices left, cs = slices.flatten ++ left ∧
      Tile settings p slices (ofSource settings (.ofChars cs p)).pairs ∧
      ((ofSource settings (.ofChars cs p)).stop = none → left = []) := by
  obtain ⟨slices, left, ts, chars, tile, pairs, all⟩ := ofInput_tile blanks comments [] cs p
  rw [List.reverse_nil, List.map_nil, List.nil_append] at pairs
  rw [← pairs] at tile
  exact ⟨slices, left, chars, tile, all⟩

/-! ## Offsets -/

theorem Tile.length (h : Tile settings p slices ts) : slices.length = ts.length := by
  induction h with
  | nil => rfl
  | cons _ _ _ ih => simp [ih]

theorem Tile.slice (h : Tile settings p slices ts) {i : Nat} {q : Pos}
    (at' : ts[i]? = some (t, q)) :
    ∃ slice, slices[i]? = some slice ∧ slice ≠ [] ∧ IsSlice settings t slice ∧
      q = p.advanceAll (slices.take i).flatten := by
  induction h generalizing i with
  | nil => cases at'
  | cons nonempty isSlice _ ih =>
    cases i with
    | zero =>
      cases at'
      exact ⟨_, rfl, nonempty, isSlice, rfl⟩
    | succ i =>
      obtain ⟨slice, here, some, isSlice, pos⟩ := ih at'
      refine ⟨slice, here, some, isSlice, ?_⟩
      rw [pos, List.take_succ_cons, List.flatten_cons, Pos.advanceAll_append]

/-- A slice stands in the text between its offset and the next one. -/
theorem extract_slice {slices : List (List Char)} {slice : List Char} {i : Nat} (left : List Char)
    (here : slices[i]? = some slice) :
    (slices.flatten ++ left).take (slices.take i).flatten.length = (slices.take i).flatten ∧
    (slices.flatten ++ left).extract (slices.take i).flatten.length
      (slices.take (i + 1)).flatten.length = slice ∧
    (slices.take (i + 1)).flatten.length = (slices.take i).flatten.length + slice.length := by
  have next : slices.take (i + 1) = slices.take i ++ [slice] := by
    rw [List.take_add_one, here]
    rfl
  have whole : slices.flatten ++ left =
      (slices.take i).flatten ++ (slice ++ ((slices.drop (i + 1)).flatten ++ left)) := by
    conv => lhs; rw [← List.take_append_drop (i + 1) slices, next]
    simp
  have longer : (slices.take (i + 1)).flatten.length =
      (slices.take i).flatten.length + slice.length := by
    rw [next]
    simp
  refine ⟨?_, ?_, longer⟩
  · rw [whole, List.take_left]
  · rw [longer, whole, List.extract, List.drop_left, Nat.add_sub_cancel_left, List.take_left]

/-- Where blanks and comments are kept, the tokens of a text begin at increasing offsets, the first
one at its beginning. Each stands at the position of its offset, is the only token of what lies
between this offset and the next, and shows that text unless it is an atom. The last offset is the
end of the text, or a place before the first fault. -/
theorem tokens_tile (fmt : Format) (allowImproper : Bool) (text : String) :
    let settings : Settings := ⟨fmt, ⟨true, true, allowImproper⟩⟩
    let ts := ofSource settings (.ofString text)
    ∃ offset : Nat → Nat, offset 0 = 0 ∧
      (∀ i < ts.pairs.length, offset i < offset (i + 1)) ∧
      offset ts.pairs.length ≤ text.toList.length ∧
      (ts.stop = none → offset ts.pairs.length = text.toList.length) ∧
      ∀ i t p, ts.pairs[i]? = some (t, p) →
        let slice := text.toList.extract (offset i) (offset (i + 1))
        p = Pos.start.advanceAll (text.toList.take (offset i)) ∧
        (ofSource settings (.ofChars slice .start)).pairs = [(t, .start)] ∧
        (ofSource settings (.ofChars slice .start)).stop = none ∧
        (t.className ≠ "AtomToken" → ∀ limit, t.text limit = .ok (String.ofList slice)) := by
  intro settings ts
  obtain ⟨slices, left, chars, tile, all⟩ :=
    @ofSource_tile settings rfl rfl text.toList .start
  have whole : slices.take ts.pairs.length = slices :=
    List.take_of_length_le (Nat.le_of_eq tile.length)
  refine ⟨fun i => (slices.take i).flatten.length, rfl, ?_, ?_, ?_, ?_⟩
  · intro i hi
    obtain ⟨slice, here, nonempty, -⟩ := tile.slice (List.getElem?_eq_getElem hi)
    have longer := (extract_slice left here).2.2
    have positive := List.length_pos_iff.2 nonempty
    dsimp only
    omega
  · dsimp only
    rw [whole, chars, List.length_append]
    omega
  · intro noFault
    dsimp only
    rw [whole, chars, all noFault, List.append_nil]
  · intro i t p at'
    obtain ⟨slice, here, -, isSlice, pos⟩ := tile.slice at'
    obtain ⟨before, between, -⟩ := extract_slice left here
    dsimp only
    rw [chars, before, between]
    exact ⟨pos, isSlice⟩

end Tokens

end Sexpr
