import Sexpr.Proofs.Command.Balance
import Sexpr.Proofs.Places
import Sexpr.Proofs.Scan.Blame
import Sexpr.Proofs.Scan.Formats

/-!
Where the errors of reading all data point.

- `Makes.stop_scanned`: a fault of the characters is found in the token that comes next.
- `FailsAt.pointsAt`: a fault of the order of tokens points at one of them.
- `error_points`: each of them stands at the characters that it talks about.
-/

namespace Sexpr

namespace Scan

/-- Scanning one token after another leads from an input to what is left of it. -/
inductive LeadsTo (settings : Settings) : Input → Input → Prop
  | here {input : Input} : LeadsTo settings input input
  | next {c : Char} {p : Pos} {input later : Input} {t? : Option Token}
      (scanned : (token settings c p input).result = .ok t?)
      (more : LeadsTo settings (token settings c p input).rest later) :
      LeadsTo settings ((c, p) :: input) later

variable {settings : Settings} {c : Char} {p : Pos} {input : Input}

/-- A character that is a token by itself. -/
theorem char_here {t : Token} {x : Char} (h : (token settings c p input).result = .ok (some t))
    (noAtom : t.className ≠ "AtomToken") (shown : t.text .unlimited = .ok (String.singleton x)) :
    c = x := by
  have text := text_here h noAtom shown
  rw [String.toList_singleton, List.cons_prefix_cons] at text
  exact text.1.symm

/-- A dot is a point with no symbol going on after it. -/
theorem loneDot_here (h : (token settings c p input).result = .ok (some .dot)) :
    LoneDotAt c input := by
  have point : c = '.' := char_here h (by decide) rfl
  refine ⟨point, run_eq_nil ?_⟩
  rw [point, token_bare settings p input (by decide) (by decide) (by decide)] at h
  by_cases lone : '.' :: (run Text.isSymbolChar input).1 = ['.']
  · exact (List.cons.inj lone).2
  · rw [bareToken_of_noDot lone] at h
    cases h

end Scan

namespace Tokens

variable {settings : Settings} {input : Input} {ts : Tokens} {e : ReadError}

/-- A token stands in the input where it is scanned. -/
theorem token_stands {s : Source} {t : Token} {p : Pos}
    (member : (t, p) ∈ (ofSource settings s).pairs) :
    ∃ c later, (c, p) :: later <:+ s.input ∧
      (Scan.token settings c p later).result = .ok (some t) := by
  have makes : Makes settings s.failure? s.input (ofSource settings s) := makes_iff.2 rfl
  obtain ⟨l, inside, same⟩ := List.mem_map.1 member
  cases same
  obtain ⟨before, after, split⟩ := List.append_of_mem inside
  obtain ⟨c, later, suffix, scanned, -⟩ := makes.lexeme split
  exact ⟨c, later, suffix, by rw [scanned]⟩

/-- The fault that ends the tokens is that of the token after the last one. -/
theorem Makes.stop_scanned (h : Makes settings none input ts) (stop : ts.stop = some e) :
    ∃ c p later, Scan.LeadsTo settings input ((c, p) :: later) ∧
      (Scan.token settings c p later).result = .error e := by
  have goesOn {c : Char} {p : Pos} {input : Input} {s : Scan (Option Token)} {t? : Option Token}
      (scanned : Scan.token settings c p input = s) (result : s.result = .ok t?) {later : Input}
      (more : Scan.LeadsTo settings s.rest later) :
      Scan.LeadsTo settings ((c, p) :: input) later := by
    subst scanned
    exact .next result more
  induction h with
  | ended => cases stop
  | failed _ _ failure => cases failure
  | @fault c p input _ s scanned _ result =>
    cases stop
    exact ⟨c, p, input, .here, by rw [scanned, result]⟩
  | skipped scanned _ result _ ih | token scanned _ result _ ih =>
    obtain ⟨c, p, later, leads, failed⟩ := ih stop
    exact ⟨c, p, later, goesOn scanned result leads, failed⟩

end Tokens

namespace Reader

variable {modes : Modes} {us : List (Token × Pos)} {m : Made}

/-- The lists that are open are the brackets that are not closed. -/
theorem unclosed_of_feedAll (fed : feedAll modes .dotOutsideList .empty us = .ok m) :
    Command.Unclosed (openLists m.stack) us := by
  obtain ⟨s, counted, same⟩ := Command.count_of_feedAll (s := .start) rfl fed
  exact Command.count_iff_unclosed.1 ⟨s, counted, same⟩

end Reader

/-! ## What stands where a fault does -/

/-- A point stands there, and no symbol goes on after it. -/
def LoneDot (input : Input) (p : Pos) : Prop :=
  ∃ later, ('.', p) :: later <:+ input ∧ Scan.LoneDotAt '.' later

/-- The text of a mark stands there. -/
def MarkStands (input : Input) (m : Mark) (p : Pos) : Prop :=
  ∃ c later, (c, p) :: later <:+ input ∧ m.text.toList <+: c :: later.map Prod.fst

/-- What the input has at the position of a fault that was found at `cause`, or at the end of the
tokens, after the tokens in `before`. -/
def StructuralFault.PointsAt (input : Input) (before : List (Token × Pos))
    (cause : Option (Token × Pos)) (p : Pos) : StructuralFault → Prop
  | .unexpectedClosing k =>
      cause = some (.closing k, p) ∧ (k.closing, p) ∈ input ∧ Command.Balanced before
  | .mismatch opened openPos closed =>
      cause = some (.closing closed, p) ∧ (closed.closing, p) ∈ input ∧
        (opened.opening, openPos) ∈ input ∧ opened ≠ closed ∧
        ∃ outer, Command.Unclosed ((opened, openPos) :: outer) before
  | .unclosed k =>
      cause = none ∧ (k.opening, p) ∈ input ∧ ∃ outer, Command.Unclosed ((k, p) :: outer) before
  | .missingDatumAfter name => ∃ m, m.name = name ∧ (.mark m, p) ∈ before ∧ MarkStands input m p
  | .improperListForbidden => (.dot, p) ∈ before ∧ LoneDot input p
  | .missingItemAfterDot =>
      (cause = none ∧ (.dot, p) ∈ before ∧ LoneDot input p) ∨
        ∃ k, cause = some (.closing k, p) ∧ (k.closing, p) ∈ input
  | .dotOutsideList | .misplacedDot | .dotInWrongList _ | .dotWithoutPrecedingItem =>
      cause = some (.dot, p) ∧ LoneDot input p
  | .moreThanOneItemAfterDot | .nestingTooDeep =>
      ∃ t, cause = some (t, p) ∧ (t = .dot → LoneDot input p)
  | .unknownToken => False

section Stands

variable {settings : Settings} {s : Source} {p : Pos} {k : Bracket}

/-- A character that is a token by itself stands where the token does. -/
theorem char_stands {t : Token} {c : Char} (member : (t, p) ∈ (Tokens.ofSource settings s).pairs)
    (noAtom : t.className ≠ "AtomToken") (shown : t.text .unlimited = .ok (String.singleton c)) :
    (c, p) ∈ s.input := by
  obtain ⟨c', later, suffix, scanned⟩ := Tokens.token_stands member
  obtain rfl := Scan.char_here scanned noAtom shown
  exact suffix.subset List.mem_cons_self

theorem opening_stands (member : (.opening k, p) ∈ (Tokens.ofSource settings s).pairs) :
    (k.opening, p) ∈ s.input :=
  char_stands member (by simp [Token.className]) rfl

theorem closing_stands (member : (.closing k, p) ∈ (Tokens.ofSource settings s).pairs) :
    (k.closing, p) ∈ s.input :=
  char_stands member (by simp [Token.className]) rfl

theorem mark_stands {m : Mark} (member : (.mark m, p) ∈ (Tokens.ofSource settings s).pairs) :
    MarkStands s.input m p := by
  obtain ⟨c, later, suffix, scanned⟩ := Tokens.token_stands member
  exact ⟨c, later, suffix, Scan.text_here scanned (Scan.className_mark m) rfl⟩

theorem dot_stands (member : (.dot, p) ∈ (Tokens.ofSource settings s).pairs) :
    LoneDot s.input p := by
  obtain ⟨c, later, suffix, scanned⟩ := Tokens.token_stands member
  have lone := Scan.loneDot_here scanned
  obtain rfl := lone.1
  exact ⟨later, suffix, lone⟩

end Stands

section Points

open Reader

variable {settings : Settings} {s : Source} {before : List (Token × Pos)} {p : Pos}
  {f : StructuralFault}

/-- What is open after some of the tokens stands among them, and is not closed by them. -/
theorem open_stands {m : Made} (inside : before <:+: (Tokens.ofSource settings s).pairs)
    (fed : feedAll settings.modes .dotOutsideList .empty before = .ok m) :
    Placed before (dropDiscards m.stack) ∧
      Command.Unclosed (openLists (dropDiscards m.stack)) before := by
  have plain : Plain before := (Tokens.plain_ofSource settings s).of_inside inside
  have nothing : Placed [] Made.empty.stack := by simp [Placed, Made.empty]
  constructor
  · exact (feedAll_placed nothing plain fed).dropDiscards
  · rw [openLists_dropDiscards]
    exact unclosed_of_feedAll fed

/-- What a token is rejected for points at what is open before it, or at the token. -/
theorem pointsAt_of_rejects {t : Token} {q : Pos} {m : Made} {after : List (Token × Pos)}
    (split : (Tokens.ofSource settings s).pairs = before ++ (t, q) :: after)
    (fed : feedAll settings.modes .dotOutsideList .empty before = .ok m)
    (rejects : Rejects m.stack q t ⟨.structural f, p⟩) :
    f.PointsAt s.input before (some (t, q)) p := by
  have here : (t, q) ∈ (Tokens.ofSource settings s).pairs := by simp [split]
  have inside : before <:+: (Tokens.ofSource settings s).pairs := by
    rw [split]
    exact (List.prefix_append _ _).isInfix
  obtain ⟨placed, unclosed⟩ := open_stands inside fed
  have lone (is : t = .dot) : LoneDot s.input q := by
    subst is
    exact dot_stands here
  cases rejects with
  | dot placement =>
    cases f with
    | dotOutsideList | misplacedDot | dotInWrongList | dotWithoutPrecedingItem =>
      exact ⟨rfl, lone rfl⟩
    | _ => cases placement
  | crowded | deep => exact ⟨t, rfl, lone⟩
  | unknown => exact Tokens.ofSource_legible settings s _ here
  | unexpected none =>
    rw [none] at unclosed
    exact ⟨rfl, closing_stands here, Command.unclosed_nil.1 unclosed⟩
  | unmarked top =>
    rw [top] at placed
    have mark := (placed_cons.1 placed).1
    exact ⟨_, rfl, mark, mark_stands (inside.subset mark)⟩
  | dangling => exact .inr ⟨_, rfl, closing_stands here⟩
  | mismatch top other =>
    rw [top] at placed unclosed
    have opening := (placed_cons.1 placed).1.1
    exact ⟨rfl, closing_stands here, opening_stands (inside.subset opening), other, _, unclosed⟩
  | improper top dotted =>
    rw [top] at placed
    have dot := (placed_cons.1 placed).1.2 _ dotted
    exact ⟨dot, dot_stands (inside.subset dot)⟩

/-- What the end of the tokens is rejected for points at what is open there. -/
theorem pointsAt_of_endsOpen {m : Made}
    (fed : feedAll settings.modes .dotOutsideList .empty (Tokens.ofSource settings s).pairs =
      .ok m) (ends : EndsOpen m.stack ⟨.structural f, p⟩) :
    f.PointsAt s.input (Tokens.ofSource settings s).pairs none p := by
  obtain ⟨placed, unclosed⟩ := open_stands List.infix_rfl fed
  cases ends with
  | unmarked top =>
    rw [top] at placed
    have mark := (placed_cons.1 placed).1
    exact ⟨_, rfl, mark, mark_stands mark⟩
  | dangling top =>
    rw [top] at placed
    have dot := (placed_cons.1 placed).1.2 _ rfl
    exact .inl ⟨rfl, dot, dot_stands dot⟩
  | unclosed top =>
    rw [top] at placed unclosed
    have opening := (placed_cons.1 placed).1.1
    exact ⟨rfl, opening_stands opening, _, unclosed⟩

theorem Reader.FailsAt.pointsAt {cause : Option (Token × Pos)}
    (h : FailsAt settings.modes (Tokens.ofSource settings s) ⟨.structural f, p⟩ before cause) :
    f.PointsAt s.input before cause p := by
  cases h with
  | token split fed fails => exact pointsAt_of_rejects split fed (rejects_of_feed fails)
  | ended _ fed fails => exact pointsAt_of_endsOpen fed (endsOpen_of_finish fails)

end Points

/-- Where reading all data of a text fails, the error points at the characters that it talks about.
A fault of the characters stands among those that were taken for the token that was being scanned,
and where it names one, there is that one. A fault of the order of tokens stands at the token at
which it was found or at one before that: at the bracket that closes wrongly and, with a mismatch,
the innermost one that is open; at the innermost bracket that is never closed; at the mark that has
no datum; at the dot. -/
theorem error_points (settings : Settings) (text : List Char) (start : Pos) (e : ReadError)
    (failed : (Source.ofChars text start).readAll settings = .error e) :
    let input := Input.ofChars text start
    let ts := Tokens.ofSource settings (.ofChars text start)
    match e.fault with
    | .lexical f =>
        ts.stop = some e ∧ ∃ c p later used,
          Scan.LeadsTo settings input ((c, p) :: later) ∧
          (Scan.token settings c p later).result = .error e ∧
          later = used ++ (Scan.token settings c p later).rest ∧
          ∃ x, (x, e.pos) ∈ (c, p) :: used ∧ ∀ y ∈ f.char?, y = x
    | .structural f =>
        ∃ before cause, Reader.FailsAt settings.modes ts e before cause ∧
          f.PointsAt input before cause e.pos := by
  intro input ts
  obtain ⟨fault, pos⟩ := e
  rcases Reader.failsAt_of_readAll failed with stop | ⟨before, cause, fails⟩
  · obtain ⟨f, q, same⟩ := Tokens.stop_lexical stop
    cases same
    have makes : Tokens.Makes settings none input ts := Tokens.makes_iff.2 rfl
    obtain ⟨c, p, later, leads, scanned⟩ := makes.stop_scanned stop
    obtain ⟨used, split, x, f', member, ⟨⟩, named⟩ := Scan.token_blames settings c p later _ scanned
    exact ⟨stop, c, p, later, used, leads, scanned, split, x, member, named⟩
  · obtain ⟨f, q, same⟩ := fails.structural
    cases same
    exact ⟨before, cause, fails, fails.pointsAt⟩

/-- A bracket of another kind is told with the one that it should close. -/
theorem error_points_mismatch :
    let source := Source.ofChars ['(', ']'] .start
    let e : ReadError := ⟨.structural (.mismatch .round .start .square), ⟨0, 1⟩⟩
    source.readAll .standard = .error e ∧
      ∃ before cause, Reader.FailsAt .standard (Tokens.ofSource .standard source) e before cause ∧
        StructuralFault.PointsAt source.input before cause ⟨0, 1⟩
          (.mismatch .round .start .square) := by
  intro source e
  have first : Scan.token .standard '(' .start [(']', ⟨0, 1⟩)] =
      .done (some (.opening .round)) [(']', ⟨0, 1⟩)] := by rfl
  have second : Scan.token .standard ']' ⟨0, 1⟩ [] = .done (some (.closing .square)) [] := by rfl
  have tokens : Tokens.ofSource .standard source =
      ⟨[⟨.opening .round, .start, [(']', ⟨0, 1⟩)], false⟩,
        ⟨.closing .square, ⟨0, 1⟩, [], false⟩], none, []⟩ :=
    Tokens.makes_iff.1
      (.token first (fun _ => rfl) rfl (.token second (fun _ => rfl) rfl .ended))
  have failed : source.readAll .standard = .error e := by
    rw [Source.readAll, Reader.ofSource, tokens, Reader.readAll_feedAll]
    rfl
  exact ⟨failed, error_points .standard ['(', ']'] .start e failed⟩

end Sexpr
