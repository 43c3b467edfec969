import Sexpr.Proofs.Reader.Feeding
import Sexpr.Proofs.Scan.Seam
import Sexpr.Proofs.Scan.Verbatim
import Sexpr.Proofs.Tokens.Steps
import Sexpr.Reader.Source

/-!
Block comments, which nest.

- `Scan.blockComment_eq_ok`: the body ends before the delimiter that closes as many comments as were
  opened, where pairs of characters are taken for delimiters from left to right.
- `comment_ends`: so every text that is balanced in this way may stand in a comment.
-/

namespace Sexpr

namespace Scan

/-! ## Delimiters -/

/-- What a comment is read as: delimiters, each made of a pair of characters, and the characters
between them. -/
inductive Element
  | opens
  | closes
  | plain (c : Char)
  deriving DecidableEq, Repr

namespace Element

def chars : Element → List Char
  | .opens => ['#', '|']
  | .closes => ['|', '#']
  | .plain c => [c]

/-- What an element adds to the number of comments that are open. -/
def change : Element → Int
  | .opens => 1
  | .closes => -1
  | .plain _ => 0

end Element

/-- From left to right, each pair that is a delimiter is taken for one. -/
def elements : List Char → List Element
  | [] => []
  | '#' :: '|' :: cs => .opens :: elements cs
  | '|' :: '#' :: cs => .closes :: elements cs
  | c :: cs => .plain c :: elements cs

/-- The first of two bars is alone. -/
example : elements "||#".toList = [.plain '|', .closes] := by rfl

def spell (es : List Element) : List Char := es.flatMap Element.chars

/-- How many comments are open after some elements, where `n` were open before. -/
def depthFrom (n : Int) (es : List Element) : Int := es.foldl (fun n e => n + e.change) n

/-- The same inside of one comment. -/
def depth (es : List Element) : Int := depthFrom 1 es

/-- No comment has been closed that was open before all of them. -/
def StaysOpen (n : Int) (es : List Element) : Prop := ∀ before, before <+: es → depthFrom n before ≠ 0

/-- The delimiter after the elements is the first one to close what was open before. -/
def ClosesAfter (n : Int) (es : List Element) : Prop :=
  StaysOpen n es ∧ depthFrom n (es ++ [.closes]) = 0

variable {start : Pos} {found cs : List Char} {inner : Nat} {n : Int} {input : Input} {c : Char}
  {e : Element} {es before after : List Element}

theorem depthFrom_append (n : Int) (es fs : List Element) :
    depthFrom n (es ++ fs) = depthFrom (depthFrom n es) fs :=
  List.foldl_append

theorem staysOpen_cons : StaysOpen n (e :: es) ↔ n ≠ 0 ∧ StaysOpen (n + e.change) es := by
  constructor
  · intro h
    refine ⟨h [] (List.nil_prefix), ?_⟩
    intro before front
    exact h (e :: before) (List.cons_prefix_cons.2 ⟨rfl, front⟩)
  · rintro ⟨nonzero, h⟩ before front
    cases before with
    | nil => exact nonzero
    | cons f before =>
      obtain ⟨rfl, front'⟩ := List.cons_prefix_cons.1 front
      exact h before front'

theorem closesAfter_nil : ClosesAfter n [] ↔ n = 1 := by
  constructor
  · rintro ⟨-, ends⟩
    simp only [depthFrom, Element.change, List.nil_append, List.foldl_cons, List.foldl_nil] at ends
    omega
  · rintro rfl
    refine ⟨?_, rfl⟩
    intro before front
    obtain rfl := List.prefix_nil.1 front
    decide

theorem closesAfter_cons : ClosesAfter n (e :: es) ↔ n ≠ 0 ∧ ClosesAfter (n + e.change) es := by
  rw [ClosesAfter, staysOpen_cons, and_assoc]
  rfl

/-- Either some delimiter closes what was open, or everything stays so. -/
theorem closes_or_staysOpen (positive : 0 < n) (es : List Element) :
    (∃ before after, es = before ++ .closes :: after ∧ ClosesAfter n before) ∨ StaysOpen n es := by
  induction es generalizing n with
  | nil =>
    right
    intro before front
    obtain rfl := List.prefix_nil.1 front
    exact (Int.ne_of_gt positive)
  | cons e es ih =>
    by_cases last : e = .closes ∧ n = 1
    · obtain ⟨rfl, rfl⟩ := last
      exact .inl ⟨[], es, rfl, closesAfter_nil.2 rfl⟩
    · have still : 0 < n + e.change := by
        cases e with
        | closes =>
          have more : n ≠ 1 := fun one => last ⟨rfl, one⟩
          simp only [Element.change]
          omega
        | opens | plain =>
          simp only [Element.change]
          omega
      rcases ih still with ⟨before, after, rfl, closes⟩ | stays
      · exact .inl ⟨e :: before, after, rfl, closesAfter_cons.2 ⟨(Int.ne_of_gt positive), closes⟩⟩
      · exact .inr (staysOpen_cons.2 ⟨(Int.ne_of_gt positive), stays⟩)

/-! ## The elements of a text -/

/-- The character is no part of a delimiter with what follows it. -/
def Alone (c : Char) (cs : List Char) : Prop :=
  (c = '#' → cs.head? ≠ some '|') ∧ (c = '|' → cs.head? ≠ some '#')

/-- The element may be the first one of a text that goes on so. -/
def Element.Fits (e : Element) (cs : List Char) : Prop := ∀ c, e = .plain c → Alone c cs

theorem elements_chars (fits : e.Fits cs) : elements (e.chars ++ cs) = e :: elements cs := by
  cases e with
  | opens | closes => rfl
  | plain c =>
    obtain ⟨hash, bar⟩ := fits c rfl
    rw [Element.chars, List.singleton_append, elements]
    · rintro ds rfl rfl
      exact hash rfl rfl
    · rintro ds rfl rfl
      exact bar rfl rfl

theorem first_element (c : Char) (cs : List Char) :
    ∃ e : Element, ∃ rest, c :: cs = e.chars ++ rest ∧ e.Fits rest := by
  by_cases opens : c = '#' ∧ cs.head? = some '|'
  · obtain ⟨rfl, bar⟩ := opens
    obtain ⟨rest, rfl⟩ := List.head?_eq_some_iff.1 bar
    exact ⟨.opens, rest, rfl, by rintro d ⟨⟩⟩
  · by_cases closes : c = '|' ∧ cs.head? = some '#'
    · obtain ⟨rfl, hash⟩ := closes
      obtain ⟨rest, rfl⟩ := List.head?_eq_some_iff.1 hash
      exact ⟨.closes, rest, rfl, by rintro d ⟨⟩⟩
    · refine ⟨.plain c, cs, rfl, ?_⟩
      rintro d ⟨⟩
      exact ⟨fun hash bar => opens ⟨hash, bar⟩, fun bar hash => closes ⟨bar, hash⟩⟩

theorem elements_eq_cons (split : elements cs = e :: es) :
    ∃ rest, cs = e.chars ++ rest ∧ e.Fits rest ∧ elements rest = es := by
  cases cs with
  | nil => cases split
  | cons c cs =>
    obtain ⟨f, rest, chars, fits⟩ := first_element c cs
    rw [chars, elements_chars fits, List.cons.injEq] at split
    obtain ⟨rfl, later⟩ := split
    exact ⟨rest, chars, fits, later⟩

theorem spell_cons (e : Element) (es : List Element) : spell (e :: es) = e.chars ++ spell es := rfl

theorem spell_append (es fs : List Element) : spell (es ++ fs) = spell es ++ spell fs :=
  List.flatMap_append

/-- Nothing is lost. -/
theorem spell_elements (cs : List Char) : spell (elements cs) = cs := by
  generalize all : elements cs = es
  induction es generalizing cs with
  | nil =>
    cases cs with
    | nil => rfl
    | cons c cs =>
      obtain ⟨e, rest, chars, fits⟩ := first_element c cs
      rw [chars, elements_chars fits] at all
      cases all
  | cons e es ih =>
    obtain ⟨rest, rfl, -, later⟩ := elements_eq_cons all
    rw [spell_cons, ih rest later]

/-- An element fits before a part of what follows it. -/
theorem Element.Fits.take {ds : List Char} (fits : e.Fits (cs ++ ds)) : e.Fits cs := by
  intro c same
  obtain ⟨hash, bar⟩ := fits c same
  cases cs with
  | nil => exact ⟨fun _ => by simp, fun _ => by simp⟩
  | cons d cs => exact ⟨hash, bar⟩

/-- A text that ends between two elements has those before the end. -/
theorem elements_take (split : elements cs = before ++ after) : elements (spell before) = before := by
  induction before generalizing cs with
  | nil => rfl
  | cons e before ih =>
    rw [List.cons_append] at split
    obtain ⟨rest, rfl, fits, later⟩ := elements_eq_cons split
    rw [← spell_elements rest, later, spell_append] at fits
    rw [spell_cons, elements_chars fits.take, ih later]

/-- A hash before a bar is no element. -/
theorem getLast?_before_closes (split : elements cs = before ++ .closes :: after) :
    before.getLast? ≠ some (.plain '#') := by
  induction before generalizing cs with
  | nil => simp
  | cons e before ih =>
    obtain ⟨rest, rfl, fits, later⟩ := elements_eq_cons split
    cases before with
    | nil =>
      rintro ⟨⟩
      obtain ⟨rest', rfl, -, -⟩ := elements_eq_cons later
      exact (fits '#' rfl).1 rfl rfl
    | cons f before =>
      rw [List.getLast?_cons_cons]
      exact ih later

/-- The delimiter that closes is taken for one after a text unless a hash stands before it. -/
theorem elements_append_closes (noHash : (elements cs).getLast? ≠ some (.plain '#'))
    (ds : List Char) :
    elements (cs ++ '|' :: '#' :: ds) = elements cs ++ .closes :: elements ds := by
  generalize all : elements cs = es at noHash
  induction es generalizing cs with
  | nil =>
    have nothing := spell_elements cs
    rw [all] at nothing
    subst nothing
    rfl
  | cons e es ih =>
    obtain ⟨rest, rfl, fits, later⟩ := elements_eq_cons all
    have fits' : e.Fits (rest ++ '|' :: '#' :: ds) := by
      cases rest with
      | cons d rest => exact fits
      | nil =>
        cases later
        rintro c rfl
        refine ⟨?_, by simp⟩
        rintro rfl
        exact absurd rfl noHash
    have noHash' : es.getLast? ≠ some (.plain '#') := by
      cases es with
      | nil => simp
      | cons f es => rwa [List.getLast?_cons_cons] at noHash
    rw [List.append_assoc, elements_chars fits', ih later noHash']
    rfl

/-! ## The scan -/

theorem exists_pair {front : Input} {a b : Char} (chars : front.map Prod.fst = [a, b]) :
    ∃ p q, front = [(a, p), (b, q)] := by
  match front, chars with
  | [(a, p), (b, q)], rfl => exact ⟨p, q, rfl⟩

/-- The scan takes one element after another, as long as a comment stays open. -/
theorem blockCommentFrom_element {front rest : Input} {inner' : Nat}
    (chars : front.map Prod.fst = e.chars) (fits : e.Fits (rest.map Prod.fst))
    (still : (inner : Int) + 1 + e.change = inner' + 1) :
    blockCommentFrom start found inner (front ++ rest) =
      blockCommentFrom start (e.chars.reverse ++ found) inner' rest := by
  cases e with
  | opens =>
    obtain ⟨p, q, rfl⟩ := exists_pair chars
    obtain rfl : inner' = inner + 1 := by
      simp only [Element.change] at still
      omega
    simp [blockCommentFrom, Element.chars]
  | closes =>
    obtain ⟨p, q, rfl⟩ := exists_pair chars
    obtain rfl : inner = inner' + 1 := by
      simp only [Element.change] at still
      omega
    simp [blockCommentFrom, Element.chars]
  | plain c =>
    obtain ⟨⟨a, p⟩, none, rfl, rfl, nothing⟩ := List.map_eq_cons_iff.1 chars
    obtain rfl := List.map_eq_nil_iff.1 nothing
    obtain rfl : inner' = inner := by
      simp only [Element.change] at still
      omega
    obtain ⟨hash, bar⟩ := fits _ rfl
    rw [List.singleton_append, blockCommentFrom]
    · rfl
    · rintro q later rfl same
      exact bar same rfl
    · rintro q later rfl same
      exact hash same rfl

/-- An element at the beginning of an input, and how many comments are open inside after it. -/
theorem exists_element (split : elements (input.map Prod.fst) = e :: es)
    (still : (inner : Int) + 1 + e.change ≠ 0) :
    ∃ front rest inner', input = front ++ rest ∧ front.map Prod.fst = e.chars ∧
      elements (rest.map Prod.fst) = es ∧ (inner : Int) + 1 + e.change = (inner' : Nat) + 1 ∧
      ∀ start found, blockCommentFrom start found inner input =
        blockCommentFrom start (e.chars.reverse ++ found) inner' rest := by
  obtain ⟨cs, chars, fits, later⟩ := elements_eq_cons split
  obtain ⟨front, rest, rfl, same, rfl⟩ := List.map_eq_append_iff.1 chars
  obtain ⟨inner', depth⟩ : ∃ inner' : Nat, (inner : Int) + 1 + e.change = inner' + 1 := by
    refine ⟨((inner : Int) + e.change).toNat, ?_⟩
    cases e <;> simp only [Element.change] at still ⊢ <;> omega
  exact ⟨front, rest, inner', rfl, same, later, depth, fun start found =>
    blockCommentFrom_element same fits depth⟩

theorem blockCommentFrom_closes (found : List Char)
    (split : elements (input.map Prod.fst) = before ++ .closes :: after)
    (closes : ClosesAfter (inner + 1) before) :
    ∃ front rest, input = front ++ rest ∧ front.map Prod.fst = spell before ++ ['|', '#'] ∧
      elements (rest.map Prod.fst) = after ∧
      blockCommentFrom start found inner input =
        .done (String.ofList (found.reverse ++ spell before)) rest := by
  induction before generalizing input found inner with
  | nil =>
    obtain rfl : inner = 0 := by
      have one := closesAfter_nil.1 closes
      omega
    obtain ⟨cs, chars, -, later⟩ := elements_eq_cons split
    obtain ⟨front, rest, rfl, same, rfl⟩ := List.map_eq_append_iff.1 chars
    refine ⟨front, rest, rfl, same, later, ?_⟩
    obtain ⟨p, q, rfl⟩ := exists_pair same
    rw [spell, List.flatMap_nil, List.append_nil]
    rfl
  | cons e before ih =>
    obtain ⟨-, closes⟩ := closesAfter_cons.1 closes
    obtain ⟨front, rest, inner', rfl, chars, later, depth, scans⟩ :=
      exists_element split (closes.1 [] List.nil_prefix)
    rw [depth] at closes
    obtain ⟨front', rest', rfl, chars', later', result⟩ :=
      ih (e.chars.reverse ++ found) later closes
    refine ⟨front ++ front', rest', (List.append_assoc ..).symm, ?_, later', ?_⟩
    · rw [List.map_append, chars, chars', spell_cons, List.append_assoc]
    · rw [scans, result, spell_cons, List.reverse_append, List.reverse_reverse, List.append_assoc]

theorem blockCommentFrom_staysOpen
    (stays : StaysOpen (inner + 1) (elements (input.map Prod.fst))) :
    blockCommentFrom start found inner input =
      .faultUpTo (.unexpectedEnd .comment) start [] := by
  generalize split : elements (input.map Prod.fst) = es at stays
  induction es generalizing input found inner with
  | nil =>
    have nothing := spell_elements (input.map Prod.fst)
    rw [split] at nothing
    obtain rfl := List.map_eq_nil_iff.1 nothing.symm
    rfl
  | cons e es ih =>
    obtain ⟨-, stays⟩ := staysOpen_cons.1 stays
    obtain ⟨front, rest, inner', rfl, -, later, depth, scans⟩ :=
      exists_element split (stays [] List.nil_prefix)
    rw [depth] at stays
    rw [scans, ih later stays]

/-- The body of a comment ends before the first delimiter that closes it, and what follows this
delimiter is left over. -/
theorem blockComment_eq_ok {b : String} {left : List Char} :
    (blockComment start input).result = .ok b ∧
        (blockComment start input).rest.map Prod.fst = left ↔
      ∃ before after, elements (input.map Prod.fst) = before ++ .closes :: after ∧
        ClosesAfter 1 before ∧ b.toList = spell before ∧ left = spell after := by
  constructor
  · rintro ⟨ok, rfl⟩
    rcases closes_or_staysOpen Int.one_pos (elements (input.map Prod.fst)) with
      ⟨before, after, split, closes⟩ | stays
    · obtain ⟨front, rest, -, -, later, result⟩ :=
        @blockCommentFrom_closes start 0 input before after [] split closes
      rw [blockComment, result] at ok ⊢
      cases ok
      exact ⟨before, after, split, closes, by simp, by rw [← later, spell_elements]; rfl⟩
    · rw [blockComment, blockCommentFrom_staysOpen (by exact stays)] at ok
      cases ok
  · rintro ⟨before, after, split, closes, body, rfl⟩
    obtain ⟨front, rest, -, -, later, result⟩ :=
      @blockCommentFrom_closes start 0 input before after [] split closes
    rw [blockComment, result]
    refine ⟨?_, by rw [← later, spell_elements]; rfl⟩
    rw [List.reverse_nil, List.nil_append, ← body, String.ofList_toList]
    rfl

/-- A comment is unfinished if no delimiter closes it. -/
theorem blockComment_eq_error :
    (blockComment start input).result = .error ⟨.lexical (.unexpectedEnd .comment), start⟩ ↔
      StaysOpen 1 (elements (input.map Prod.fst)) := by
  constructor
  · intro failed
    rcases closes_or_staysOpen Int.one_pos (elements (input.map Prod.fst)) with
      ⟨before, after, split, closes⟩ | stays
    · obtain ⟨front, rest, -, -, -, result⟩ :=
        @blockCommentFrom_closes start 0 input before after [] split closes
      rw [blockComment, result] at failed
      cases failed
    · exact stays
  · intro stays
    rw [blockComment, blockCommentFrom_staysOpen (by exact stays)]
    rfl

/-! ## What may stand in a comment -/

/-- As many comments are closed as were opened, and never more; and no hash stands at the end, where
it would open one with the bar that follows. -/
structure Nested (cs : List Char) : Prop where
  stays : StaysOpen 1 (elements cs)
  one : depth (elements cs) = 1
  noHash : (elements cs).getLast? ≠ some (.plain '#')

theorem closesAfter_iff : ClosesAfter 1 es ↔ StaysOpen 1 es ∧ depth es = 1 := by
  rw [ClosesAfter, depthFrom_append, depth]
  refine and_congr_right fun _ => ?_
  simp only [depthFrom, List.foldl_cons, List.foldl_nil, Element.change]
  omega

theorem Nested.elements_eq (h : Nested cs) (ds : List Char) :
    elements (cs ++ '|' :: '#' :: ds) = elements cs ++ .closes :: elements ds :=
  elements_append_closes h.noHash ds

theorem Nested.closesAfter (h : Nested cs) : ClosesAfter 1 (elements cs) :=
  closesAfter_iff.2 ⟨h.stays, h.one⟩

theorem nested_of_closesAfter (split : elements cs = before ++ .closes :: after)
    (closes : ClosesAfter 1 before) : Nested (spell before) := by
  have same := elements_take split
  obtain ⟨stays, one⟩ := closesAfter_iff.1 closes
  rw [← same] at stays one
  refine ⟨stays, one, ?_⟩
  rw [same]
  exact getLast?_before_closes split

/-- The bodies of comments are the texts that may stand in one. -/
theorem blockComment_iff_nested {b : String} {left : List Char} :
    (blockComment start input).result = .ok b ∧
        (blockComment start input).rest.map Prod.fst = left ↔
      Nested b.toList ∧ input.map Prod.fst = b.toList ++ '|' :: '#' :: left := by
  rw [blockComment_eq_ok]
  constructor
  · rintro ⟨before, after, split, closes, body, rfl⟩
    rw [body]
    refine ⟨nested_of_closesAfter split closes, ?_⟩
    rw [← spell_elements (input.map Prod.fst), split, spell_append, spell_cons]
    rfl
  · rintro ⟨nested, chars⟩
    rw [chars, nested.elements_eq]
    exact ⟨_, _, rfl, nested.closesAfter, (spell_elements _).symm, (spell_elements _).symm⟩

/-- A comment is one token, or none where comments are not kept. -/
theorem token_nested (settings : Settings) (h : Nested cs) (p q : Pos) (ds : List Char) :
    token settings '#' p (.ofChars ('|' :: (cs ++ '|' :: '#' :: ds)) q) =
      .done (if settings.modes.retainComments then some (.blockComment (String.ofList cs)) else none)
        (.ofChars ds (q.advanceAll ('|' :: (cs ++ ['|', '#'])))) := by
  have split : elements ((Input.ofChars (cs ++ '|' :: '#' :: ds) (q.advance '|')).map Prod.fst) =
      elements cs ++ .closes :: elements ds := by
    rw [Input.map_fst_ofChars, h.elements_eq]
  obtain ⟨front, rest, parts, chars, -, result⟩ :=
    @blockCommentFrom_closes p 0 _ _ _ [] split h.closesAfter
  have left : rest = Input.ofChars ds (q.advanceAll ('|' :: (cs ++ ['|', '#']))) := by
    rw [spell_elements] at chars
    have whole : cs ++ '|' :: '#' :: ds = cs ++ ['|', '#'] ++ ds := by simp
    rw [whole, Input.ofChars_append] at parts
    have length : (Input.ofChars (cs ++ ['|', '#']) (q.advance '|')).length = front.length := by
      rw [← List.length_map Prod.fst, Input.map_fst_ofChars, ← chars, List.length_map]
    rw [Pos.advanceAll_cons]
    exact (List.append_inj parts length).2.symm
  rw [token_hash, Input.ofChars_cons, hash, blockComment, result, left]
  simp [map, done, Except.map, spell_elements]

end Scan

open Scan

/-- A comment is one token or none, and what follows it is taken apart as it is alone. -/
theorem Tokens.ofSource_nested (settings : Settings) {b : List Char} (h : Nested b) (p : Pos)
    (later : List Char) :
    let comment := '#' :: '|' :: (b ++ ['|', '#'])
    let ts := ofSource settings (.ofChars (comment ++ later) p)
    let us := ofSource settings (.ofChars later (p.advanceAll comment))
    ts.pairs = (if settings.modes.retainComments then
      [(.blockComment (String.ofList b), p)] else []) ++ us.pairs ∧ ts.stop = us.stop := by
  intro comment ts us
  have input : Input.ofChars (comment ++ later) p =
      ('#', p) :: Input.ofChars ('|' :: (b ++ '|' :: '#' :: later)) (p.advance '#') := by
    rw [← Input.ofChars_cons]
    simp [comment]
  have scanned := token_nested settings h p (p.advance '#') later
  have rest : Makes settings none (Input.ofChars later (p.advanceAll comment)) us :=
    makes_iff.2 rfl
  have whole : ts = if settings.modes.retainComments then
      ⟨⟨.blockComment (String.ofList b), p, Input.ofChars later (p.advanceAll comment), false⟩ ::
        us.lexemes, us.stop, us.untaken⟩ else us := by
    apply makes_iff.1
    show Makes settings none (Input.ofChars (comment ++ later) p) _
    rw [input]
    cases kept : settings.modes.retainComments with
    | true =>
      rw [kept] at scanned
      exact .token scanned (fun _ => rfl) rfl rest
    | false =>
      rw [kept] at scanned
      exact .skipped scanned (fun _ => rfl) rfl rest
  rw [whole]
  cases settings.modes.retainComments <;> exact ⟨rfl, rfl⟩

theorem readAll_nested (settings : Settings) {b : List Char} (h : Nested b) (p : Pos)
    (later : List Char) :
    let comment := '#' :: '|' :: (b ++ ['|', '#'])
    (Source.ofChars (comment ++ later) p).readAll settings =
      (Source.ofChars later (p.advanceAll comment)).readAll settings := by
  intro comment
  obtain ⟨pairs, stop⟩ := Tokens.ofSource_nested settings h p later
  rw [Source.readAll, Reader.ofSource, pairs, stop, Source.readAll, Reader.ofSource,
    Reader.readAll_feedAll_append, Reader.feedAll_skipped, Reader.readAll_feedAll]
  · rfl
  · intro x member
    split at member
    · obtain rfl := List.mem_singleton.1 member
      rfl
    · cases member

/-- After the beginning of a comment its body ends before the first delimiter that brings the number
of open comments to zero, where pairs of characters are taken for delimiters from left to right, and
what follows the delimiter is left; if there is none, the comment is unfinished where it begins. The
text of the token is what it was made from. So the bodies are the texts that are balanced in this
way, with no hash at their end that would join the bar of the last delimiter; each of them is one
comment between delimiters, and reading does not see it. -/
theorem comment_ends (settings : Settings) (start : Pos) (input : Input) :
    let cs := input.map Prod.fst
    let s := blockComment start input
    (∀ b left, s.result = .ok b ∧ s.rest.map Prod.fst = left ↔
      ∃ before after, elements cs = before ++ .closes :: after ∧
        (∀ front, front <+: before → depth front ≠ 0) ∧ depth (before ++ [.closes]) = 0 ∧
        b.toList = spell before ∧ left = spell after) ∧
    (∀ b left, s.result = .ok b ∧ s.rest.map Prod.fst = left ↔
      Nested b.toList ∧ cs = b.toList ++ '|' :: '#' :: left) ∧
    (∀ b, s.result = .ok b → s.peeked = false ∧ s.rest <:+ input ∧
      ∃ text, (∀ limit, (Token.blockComment b).text limit = .ok text) ∧
        '#' :: '|' :: cs = text.toList ++ s.rest.map Prod.fst) ∧
    (s.result = .error ⟨.lexical (.unexpectedEnd .comment), start⟩ ↔
      ∀ front, front <+: elements cs → depth front ≠ 0) ∧
    ((∃ b, s.result = .ok b) ∨
      s.result = .error ⟨.lexical (.unexpectedEnd .comment), start⟩) ∧
    ∀ b later, Nested b →
      let comment := '#' :: '|' :: (b ++ ['|', '#'])
      let ts := Tokens.ofSource settings (.ofChars (comment ++ later) start)
      let us := Tokens.ofSource settings (.ofChars later (start.advanceAll comment))
      ts.pairs = (if settings.modes.retainComments then
        [(.blockComment (String.ofList b), start)] else []) ++ us.pairs ∧
      ts.stop = us.stop ∧
      (Source.ofChars (comment ++ later) start).readAll settings =
        (Source.ofChars later (start.advanceAll comment)).readAll settings := by
  intro cs s
  refine ⟨?_, fun b left => blockComment_iff_nested, ?_, blockComment_eq_error, ?_, ?_⟩
  · intro b left
    rw [blockComment_eq_ok]
    simp only [ClosesAfter, and_assoc]
    rfl
  · intro b ok
    have chars : cs = b.toList ++ ['|', '#'] ++ s.rest.map Prod.fst := blockCommentFrom_chars ok
    refine ⟨blockCommentFrom_closed ok, blockCommentFrom_rest_suffix .., "#|" ++ b ++ "|#",
      fun _ => rfl, ?_⟩
    simpa using chars
  · rcases closes_or_staysOpen Int.one_pos (elements cs) with
      ⟨before, after, split, closes⟩ | stays
    · refine .inl ⟨String.ofList (spell before), ?_⟩
      exact (blockComment_eq_ok.2 ⟨before, after, split, closes, String.toList_ofList, rfl⟩).1
    · exact .inr (blockComment_eq_error.2 stays)
  · intro b later nested
    obtain ⟨pairs, stop⟩ := Tokens.ofSource_nested settings nested start later
    exact ⟨pairs, stop, readAll_nested settings nested start later⟩

end Sexpr
