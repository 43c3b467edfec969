import Sexpr.Proofs.Reader.Places
import Sexpr.Proofs.Reader.Session
import Sexpr.Proofs.Scan.Legible
import Sexpr.Proofs.Tokens.Steps
import Sexpr.Proofs.Tokens.Tiling

/-!
Where the data of a text stand.

- `Tokens.token_at`: from the beginning of a token on, a text has the same tokens.
- `Reader.data_stand`: the same for data, and the order in which their positions come.
-/

namespace Sexpr

/-! ## Positions of characters -/

theorem Pos.le_of_mem_ofChars {cs : List Char} {p q : Pos}
    (h : q ∈ (Input.ofChars cs p).map Prod.snd) : p = q ∨ p < q := by
  induction cs generalizing p with
  | nil => cases h
  | cons c cs ih =>
    rw [Input.ofChars_cons, List.map_cons, List.mem_cons] at h
    rcases h with rfl | later
    · exact .inl rfl
    · rcases ih later with rfl | after
      · exact .inr (p.lt_advance c)
      · exact .inr (Pos.lt_trans (p.lt_advance c) after)

theorem Input.positions_increase (cs : List Char) (p : Pos) :
    ((Input.ofChars cs p).map Prod.snd).Pairwise (· < ·) := by
  induction cs generalizing p with
  | nil => exact .nil
  | cons c cs ih =>
    rw [Input.ofChars_cons, List.map_cons]
    refine .cons ?_ (ih (p.advance c))
    intro q hq
    rcases Pos.le_of_mem_ofChars hq with rfl | after
    · exact p.lt_advance c
    · exact Pos.lt_trans (p.lt_advance c) after

/-! ## Places of tokens -/

namespace Tokens

variable {settings : Settings} {cs : List Char} {p q : Pos} {t : Token}
  {before rest : List (Token × Pos)}

theorem token_at (split : (ofSource settings (.ofChars cs p)).pairs = before ++ (t, q) :: rest) :
    ∃ used c later, cs = used ++ c :: later ∧ q = p.advanceAll used ∧
      (ofSource settings (.ofChars (c :: later) q)).pairs = (t, q) :: rest ∧
      (Scan.token settings c q (.ofChars later (q.advance c))).result = .ok (some t) := by
  have makes : Makes settings none (Input.ofChars cs p) (ofSource settings (.ofChars cs p)) :=
    makes_iff.2 rfl
  obtain ⟨ls, ls', lexemes, -, after⟩ := List.map_eq_append_iff.1 split
  obtain ⟨l, ms, rfl, same, others⟩ := List.map_eq_cons_iff.1 after
  cases same
  obtain ⟨c, input, suffix, scanned, from', -⟩ := makes.lexeme lexemes
  obtain ⟨used, left, rfl, here⟩ := Input.suffix_ofChars suffix
  cases left with
  | nil => cases here
  | cons c' later =>
    rw [Input.ofChars_cons] at here
    obtain ⟨⟨rfl, place⟩, rfl⟩ : ((c = c' ∧ l.pos = p.advanceAll used) ∧
        input = Input.ofChars later ((p.advanceAll used).advance c')) := by simpa using here
    rw [← place] at scanned from'
    refine ⟨used, c, later, rfl, place, ?_, by rw [scanned]⟩
    rw [← Input.ofChars_cons] at from'
    show (ofInput settings none [] (.ofChars (c :: later) l.pos)).pairs = _
    rw [makes_iff.1 from', ← others]
    rfl

theorem positions_increase (settings : Settings) (cs : List Char) (p : Pos) :
    ((ofSource settings (.ofChars cs p)).pairs.map Prod.snd).Pairwise (· < ·) := by
  have makes : Makes settings none (Input.ofChars cs p) (ofSource settings (.ofChars cs p)) :=
    makes_iff.2 rfl
  have places : (ofSource settings (.ofChars cs p)).pairs.map Prod.snd =
      (ofSource settings (.ofChars cs p)).lexemes.map Lexeme.pos := by
    rw [pairs, List.map_map]
    rfl
  rw [places]
  exact (Input.positions_increase cs p).sublist makes.positions

theorem plain_ofSource (settings : Settings) (s : Source) :
    Reader.Plain (ofSource settings s).pairs := by
  intro k items dot pos h
  exact ofSource_legible settings s _ h

end Tokens

namespace Scan

variable {settings : Settings} {c : Char} {p : Pos} {input : Input}

/-- The text of a token that is no atom stands where it begins. -/
theorem text_here {t : Token} {text : String}
    (h : (token settings c p input).result = .ok (some t)) (noAtom : t.className ≠ "AtomToken")
    (shown : t.text .unlimited = .ok text) : text.toList <+: c :: input.map Prod.fst := by
  obtain ⟨text', shown', chars⟩ := token_verbatim settings c p input t h noAtom
  obtain rfl := Except.ok.inj (shown.symm.trans (shown' .unlimited))
  exact ⟨_, chars.symm⟩

theorem className_mark (m : Mark) : (Token.mark m).className ≠ "AtomToken" := by
  cases m <;> decide

end Scan

namespace Reader

/-! ## Data one after another -/

/-- Data that are got from tokens one after another, each made by tokens of its own. -/
inductive Picked (modes : Modes) :
    List (Token × Pos) → List Datum → List (Token × Pos) → Prop
  | none {ts rest : List (Token × Pos)} (left : rest <:+ ts) : Picked modes ts [] rest
  | datum {us vs ts rest : List (Token × Pos)} {d : Datum} {ds : List Datum}
      (makes : Spans modes maxDepth (.datum d) vs) (more : Picked modes ts ds rest) :
      Picked modes (us ++ (vs ++ ts)) (d :: ds) rest

variable {modes : Modes} {ts mid rest : List (Token × Pos)} {ds es : List Datum} {d : Datum}
  {r start : Reader}

theorem Picked.skip (h : Picked modes mid ds rest) (left : mid <:+ ts) :
    Picked modes ts ds rest := by
  obtain ⟨us, rfl⟩ := left
  cases h with
  | none later => exact .none (later.trans (List.suffix_append us mid))
  | datum makes more =>
    rw [← List.append_assoc]
    exact .datum makes more

theorem Picked.append (h : Picked modes ts ds mid) (h' : Picked modes mid es rest) :
    Picked modes ts (ds ++ es) rest := by
  induction h with
  | none left => exact h'.skip left
  | datum makes _ ih => exact .datum makes (ih h')

/-- The tokens of each datum stand among the tokens. -/
theorem Picked.stands (h : Picked modes ts ds rest) :
    ∀ d ∈ ds, ∃ vs, vs <:+: ts ∧ Spans modes maxDepth (.datum d) vs := by
  induction h with
  | none => simp
  | @datum us vs ts rest d ds makes more ih =>
    intro e he
    rcases List.mem_cons.1 he with rfl | later
    · exact ⟨vs, ⟨us, ts, by simp⟩, makes⟩
    · obtain ⟨ws, inside, makes⟩ := ih e later
      refine ⟨ws, inside.trans ?_, makes⟩
      rw [← List.append_assoc]
      exact (List.suffix_append _ ts).isInfix

theorem Picked.positions (h : Picked modes ts ds rest) :
    ∃ ps, ds.map Datum.pos = ps.map some ∧ List.Sublist ps (ts.map Prod.snd) := by
  induction h with
  | none => exact ⟨[], rfl, List.nil_sublist _⟩
  | @datum us vs ts rest d ds makes more ih =>
    obtain ⟨ps, places, sub⟩ := ih
    obtain ⟨t, p, vs, rfl, place⟩ := makes.begins
    refine ⟨p :: ps, by simp [place, places], ?_⟩
    simp only [List.map_append, List.map_cons, List.cons_append]
    have first : List.Sublist (p :: ps) (p :: (vs.map Prod.snd ++ ts.map Prod.snd)) :=
      (sub.trans (List.sublist_append_right _ _)).cons_cons p
    exact first.trans (List.sublist_append_right _ _)

/-- A datum that is read takes the tokens that make it, after a gap. -/
theorem readWith_datum {outside : StructuralFault} (h : (r.readWith outside).1 = .ok (some d)) :
    ∃ us vs, r.pending = us ++ (vs ++ (r.readWith outside).2.pending) ∧
      Spans r.modes maxDepth .gap us ∧ Spans r.modes maxDepth (.datum d) vs := by
  apply readFrom_eq_datum.1
  rw [← h, ← ended_of_datum h]
  rfl

theorem picked_readWith (outside : StructuralFault) (r : Reader) :
    Picked r.modes r.pending (Answer.ofDatum (r.readWith outside).1).delivered
      (r.readWith outside).2.pending := by
  cases result : (r.readWith outside).1 with
  | error e => exact .none (pending_readWith outside r)
  | ok found =>
    cases found with
    | none => exact .none (pending_readWith outside r)
    | some d =>
      obtain ⟨us, vs, split, -, makes⟩ := readWith_datum result
      rw [split]
      exact .datum makes (.none (List.suffix_refl _))

theorem picked_collect (found : List Datum) (r : Reader) :
    ∃ ds, (collect found r).1 = found.reverse ++ ds ∧
      Picked r.modes r.pending ds (collect found r).2.2.pending := by
  have first := picked_readWith .dotOutsideList r
  fun_induction collect found r with
  | case1 found r d _ _ read ih =>
    obtain ⟨ds, all, later⟩ := ih (picked_readWith .dotOutsideList _)
    have result : (r.readWith .dotOutsideList).1 = .ok (some d) := by rw [readWith, read]
    rw [result] at first
    exact ⟨d :: ds, by simpa using all, first.append later⟩
  | case2 found r _ _ read =>
    exact ⟨[], by simp, .none (pending_readWith .dotOutsideList r)⟩
  | case3 found r e _ _ read =>
    exact ⟨[], by simp, .none (pending_readWith .dotOutsideList r)⟩

theorem picked_perform (r : Reader) (q : Request) :
    Picked r.modes r.pending (r.perform q).1.delivered (r.perform q).2.pending := by
  cases q with
  | read => exact picked_readWith .misplacedDot r
  | readAll =>
    obtain ⟨ds, all, picked⟩ := picked_collect [] r
    simp only [perform, snd_readAll, fst_readAll]
    cases (collect [] r).2.1 with
    | some e => exact .none (pending_collect [] r)
    | none =>
      rw [all]
      exact picked
  | iterate => exact .none (List.suffix_refl _)
  | next =>
    simp only [perform]
    cases live : r.iterating with
    | false =>
      rw [next_dead live]
      exact .none (List.suffix_refl _)
    | true =>
      rw [next_live live]
      exact picked_readWith .dotOutsideList r

theorem picked_performAll (follows : Follows start r) (qs : List Request) :
    Picked start.modes r.pending ((r.performAll qs).1.flatMap Answer.delivered)
      (r.performAll qs).2.pending := by
  induction qs generalizing r with
  | nil => exact .none (List.suffix_refl _)
  | cons q qs ih =>
    have first := picked_perform r q
    rw [follows.modes] at first
    exact first.append (ih (follows_perform follows q))

/-! ## Places of data -/

variable {settings : Settings} {cs : List Char} {p : Pos} {n : Nat} {v : Datum}
  {vs : List (Token × Pos)}

/-- Tokens of a text that make a datum make it again where the first of them stands. -/
theorem read_here (makes : Spans settings.modes n (.datum v) vs) (le : n ≤ maxDepth)
    (inside : vs <:+: (Tokens.ofSource settings (.ofChars cs p)).pairs) :
    ∃ used c later q t rest, cs = used ++ c :: later ∧ q = p.advanceAll used ∧
      v.pos = some q ∧ vs = (t, q) :: rest ∧
      (Scan.token settings c q (.ofChars later (q.advance c))).result = .ok (some t) ∧
      (ofSource settings (.ofChars (c :: later) q)).read.1 = .ok (some v) := by
  obtain ⟨t, q, rest, rfl, place⟩ := makes.begins
  obtain ⟨before, after, split⟩ := inside
  rw [List.append_assoc, List.cons_append] at split
  obtain ⟨used, c, later, chars, here, tokens, scanned⟩ := Tokens.token_at split.symm
  refine ⟨used, c, later, q, t, rest, chars, here, place, rfl, scanned, ?_⟩
  show (readFrom settings.modes .misplacedDot
    (Tokens.ofSource settings (.ofChars (c :: later) q)).stop []
    (Tokens.ofSource settings (.ofChars (c :: later) q)).pairs).result = _
  rw [tokens, ← List.cons_append, spans_does makes [] after le rfl]
  rfl

/-- The items of a list and its dot stand after the list in order. Only the head of a list that a
mark makes stands where the list does. -/
theorem list_here {k : Bracket} {items : List Datum} {dot pos : Option Pos}
    (makes : Spans settings.modes n (.datum (.list k items dot pos)) vs)
    (inside : vs <:+: (Tokens.ofSource settings (.ofChars cs p)).pairs) :
    ∃ t q rest ps, vs = (t, q) :: rest ∧ items.map Datum.pos = ps.map some ∧
      ps.Pairwise (· < ·) ∧
      ((t = .opening k ∧ ∀ first ∈ ps.head?, q < first) ∨
        ((∃ m, t = .mark m) ∧ ∀ first ∈ ps.head?, q = first)) ∧
      ∀ r ∈ dot, ∃ init a b, ps = init ++ [a, b] ∧ a < r ∧ r < b := by
  have plain : Plain vs := (Tokens.plain_ofSource settings (.ofChars cs p)).of_inside inside
  have increase : (vs.map Prod.snd).Pairwise (· < ·) :=
    (Tokens.positions_increase settings cs p).sublist (inside.sublist.map Prod.snd)
  obtain ⟨q, trail, t, rest, rfl, rfl, places, sub, two, own⟩ := makes.ordered plain
  obtain ⟨ps, positions, inOrder, head, dots⟩ :=
    Datum.items_of_trail two places (increase.sublist sub)
  refine ⟨t, q, rest, ps, rfl, positions, inOrder, ?_, dots⟩
  rw [head]
  rcases own with ⟨rfl, later⟩ | ⟨mark, same⟩
  · refine .inl ⟨rfl, ?_⟩
    intro first hfirst
    have member : first ∈ rest.map Prod.snd := later.subset (List.mem_of_mem_head? hfirst)
    exact (List.pairwise_cons.1 increase).1 first member
  · refine .inr ⟨mark, ?_⟩
    intro first hfirst
    rw [same] at hfirst
    exact Option.some.inj hfirst

/-- Where a bracket is scanned no mark stands. -/
theorem no_mark_here {c : Char} {later : List Char} {k : Bracket}
    (scanned : (Scan.token settings c p (.ofChars later (p.advance c))).result =
      .ok (some (.opening k))) (m : Mark) : ¬m.text.toList <+: c :: later := by
  have noAtom : (Token.opening k).className ≠ "AtomToken" := by simp [Token.className]
  have bracket := Scan.text_here scanned noAtom rfl
  rw [Input.map_fst_ofChars, String.toList_singleton, List.cons_prefix_cons] at bracket
  rw [← bracket.1]
  cases m <;> cases k <;> simp [Mark.text, Bracket.opening]

/-- A mark stands where it is scanned. -/
theorem mark_here {c : Char} {later : List Char} {m : Mark}
    (scanned : (Scan.token settings c p (.ofChars later (p.advance c))).result =
      .ok (some (.mark m))) : m.text.toList <+: c :: later := by
  have text := Scan.text_here scanned (Scan.className_mark m) rfl
  rwa [Input.map_fst_ofChars] at text

/-- The characters up to a place of a text are its first ones, so many as the offset of the place. -/
theorem exists_offset {text used later : List Char} {c : Char} {q : Pos}
    (chars : text = used ++ c :: later) (place : q = p.advanceAll used) :
    ∃ offset, offset < text.length ∧ q = p.advanceAll (text.take offset) ∧
      text.drop offset = c :: later := by
  subst chars
  refine ⟨used.length, ?_, ?_, List.drop_left⟩
  · rw [List.length_append, List.length_cons]
    omega
  · rw [List.take_left]
    exact place

/-- Whatever is asked of a reader of a text, the data that it delivers stand in the text one after
another, and every datum inside them begins at its position, where reading gives it again with all
positions in it. Only the name that a mark stands for has no text of its own. The items of a list
stand in order, after the beginning of the list unless it is a mark, and the dot of an improper list
stands between the last two. -/
theorem data_stand (settings : Settings) (text : String) (requests : List Request) :
    let answers := ((ofSource settings (.ofString text)).performAll requests).1
    let data := answers.flatMap Answer.delivered
    (∃ ps : List Pos, data.map Datum.pos = ps.map some ∧ ps.Pairwise (· < ·)) ∧
    ∀ d ∈ data, ∀ v ∈ d.nodes, ∃ offset pos, offset < text.toList.length ∧
      pos = Pos.start.advanceAll (text.toList.take offset) ∧ v.pos = some pos ∧
      let left := text.toList.drop offset
      ((ofSource settings (.ofChars left pos)).read.1 = .ok (some v) ∨
        ∃ m : Mark, m.text.toList <+: left ∧ v = .symbol m.name (some pos)) ∧
      ∀ k items dot, v = .list k items dot (some pos) →
        ∃ ps : List Pos, items.map Datum.pos = ps.map some ∧ ps.Pairwise (· < ·) ∧
          (∀ first ∈ ps.head?,
            ((∃ m : Mark, m.text.toList <+: left) ∧ pos = first) ∨
              ((∀ m : Mark, ¬m.text.toList <+: left) ∧ pos < first)) ∧
          ∀ r ∈ dot, ∃ init a b, ps = init ++ [a, b] ∧ a < r ∧ r < b := by
  intro answers data
  have begin : Follows (ofSource settings (.ofString text)) (ofSource settings (.ofString text)) :=
    ⟨rfl, List.suffix_refl _, rfl, by rintro ⟨⟩⟩
  have picked := picked_performAll begin requests
  constructor
  · obtain ⟨ps, places, sub⟩ := picked.positions
    exact ⟨ps, places, (Tokens.positions_increase settings text.toList .start).sublist sub⟩
  · intro d hd v hv
    obtain ⟨us, inside, makes⟩ := picked.stands d hd
    have plain : Plain us := (Tokens.plain_ofSource settings _).of_inside inside
    rcases makes.grounded plain v hv with ⟨n, le, vs, inner, makes⟩ | ⟨m, q, mark, rfl⟩
    · obtain ⟨used, c, later, q, t, rest, chars, place, pos, rfl, scanned, again⟩ :=
        read_here makes le (inner.trans inside)
      obtain ⟨offset, within, there, left⟩ := exists_offset chars place
      refine ⟨offset, q, within, there, pos, ?_, ?_⟩
      · rw [left]
        exact .inl again
      · rintro k items dot rfl
        obtain ⟨t', q', _, ps, same, places, increase, own, dots⟩ :=
          list_here makes (inner.trans inside)
        cases same
        refine ⟨ps, places, increase, ?_, dots⟩
        intro first hfirst
        rw [left]
        rcases own with ⟨rfl, after⟩ | ⟨⟨m, rfl⟩, same⟩
        · exact .inr ⟨no_mark_here scanned, after first hfirst⟩
        · exact .inl ⟨⟨m, mark_here scanned⟩, same first hfirst⟩
    · obtain ⟨before, after, split⟩ := List.append_of_mem (inside.subset mark)
      obtain ⟨used, c, later, chars, place, -, scanned⟩ := Tokens.token_at split
      obtain ⟨offset, within, there, left⟩ := exists_offset chars place
      refine ⟨offset, q, within, there, rfl, ?_, ?_⟩
      · rw [left]
        exact .inr ⟨m, mark_here scanned, rfl⟩
      · rintro k items dot ⟨⟩

end Reader

end Sexpr
