import Mathlib.Data.List.Basic
import Sexpr.Proofs.Places
import Sexpr.Proofs.Reader.Relabel
import Sexpr.Proofs.Tokens.Relabel

/-!
Positions are only labels of characters, whatever they are.

- `Outcome.ofInput_relabel`: other positions change nothing in what comes of an input but positions.
- `Outcome.mem_positions`: no position comes out that no character stands at.
- `Outcome.positions_are_labels`: so what comes out names certain characters, the same ones under
  every assignment of positions.
-/

namespace Sexpr

/-! ## All positions of a result -/

/-- The positions in a datum: of the datum itself, of its dot, and of what is inside. -/
def Datum.positions : Datum → List Pos
  | .atom _ pos => pos.toList
  | .list _ items dot pos => pos.toList ++ dot.toList ++ positionsAll items
where
  positionsAll : List Datum → List Pos
    | [] => []
    | d :: ds => positions d ++ positionsAll ds

theorem Datum.positions_list (k : Bracket) (items : List Datum) (dot pos : Option Pos) :
    (Datum.list k items dot pos).positions =
      pos.toList ++ dot.toList ++ items.flatMap Datum.positions := by
  have all (ds : List Datum) : positions.positionsAll ds = ds.flatMap positions := by
    induction ds with
    | nil => rfl
    | cons d ds ih => simp [positions.positionsAll, ih]
  rw [positions, all]

def StructuralFault.positions : StructuralFault → List Pos
  | .mismatch _ openPos _ => [openPos]
  | _ => []

def Fault.positions : Fault → List Pos
  | .lexical _ => []
  | .structural g => g.positions

def ReadError.positions (e : ReadError) : List Pos := e.pos :: e.fault.positions

variable {f g : Pos → Pos}

theorem Datum.flatMap_positions {ds : List Datum}
    (h : ∀ d ∈ ds, (d.relabel f).positions = d.positions.map f) :
    (ds.map (Datum.relabel f)).flatMap Datum.positions =
      (ds.flatMap Datum.positions).map f := by
  rw [List.flatMap_map, List.map_flatMap]
  exact List.flatMap_congr h

theorem Datum.positions_relabel (d : Datum) : (d.relabel f).positions = d.positions.map f := by
  induction d using Datum.induction with
  | atom a pos => cases pos <;> rfl
  | list k items dot pos ih =>
    rw [Datum.relabel_list, Datum.positions_list, Datum.positions_list, Datum.flatMap_positions ih]
    cases dot <;> cases pos <;> simp

theorem ReadError.positions_relabel (e : ReadError) :
    (e.relabel f).positions = e.positions.map f := by
  obtain ⟨fault, pos⟩ := e
  cases fault with
  | lexical => rfl
  | structural g => cases g <;> rfl

theorem Datum.relabel_relabel (d : Datum) : (d.relabel f).relabel g = d.relabel (g ∘ f) := by
  induction d using Datum.induction with
  | atom a pos => cases pos <;> rfl
  | list k items dot pos ih =>
    have inside : (items.map (Datum.relabel f)).map (Datum.relabel g) =
        items.map (Datum.relabel (g ∘ f)) := by
      rw [List.map_map]
      exact List.map_congr_left ih
    simp only [Datum.relabel_list, inside, Option.map_map]

theorem ReadError.relabel_relabel (e : ReadError) :
    (e.relabel f).relabel g = e.relabel (g ∘ f) := by
  obtain ⟨fault, pos⟩ := e
  cases fault with
  | lexical => rfl
  | structural h => cases h <;> rfl

/-! ## What comes of an input -/

/-- The tokens of an input, the fault that ends them, and its data or the fault of reading them. -/
structure Outcome where
  tokens : List (Token × Pos)
  stop : Option ReadError
  data : Except ReadError (List Datum)

namespace Outcome

def ofInput (settings : Settings) (input : Input) : Outcome :=
  let s : Source := ⟨input, .complete⟩
  ⟨(Tokens.ofSource settings s).pairs, (Tokens.ofSource settings s).stop, s.readAll settings⟩

def relabel (f : Pos → Pos) (o : Outcome) : Outcome where
  tokens := o.tokens.map fun x => (x.1, f x.2)
  stop := o.stop.map (ReadError.relabel f)
  data := Reader.relabelResult f (List.map (Datum.relabel f)) o.data

/-- The same without its positions. -/
def unlabelled (o : Outcome) : Outcome := o.relabel fun _ => .start

/-- The positions of the tokens, of the fault after them, and of the data or the fault of reading
them, in the order in which they stand there. -/
def positions (o : Outcome) : List Pos :=
  o.tokens.map Prod.snd ++ o.stop.toList.flatMap ReadError.positions ++
    match o.data with
    | .ok ds => ds.flatMap Datum.positions
    | .error e => e.positions

theorem positions_relabel (o : Outcome) : (o.relabel f).positions = o.positions.map f := by
  obtain ⟨tokens, stop, data⟩ := o
  have fault : (stop.map (ReadError.relabel f)).toList.flatMap ReadError.positions =
      (stop.toList.flatMap ReadError.positions).map f := by
    cases stop with
    | none => rfl
    | some e => simp [ReadError.positions_relabel]
  simp only [positions, relabel, fault, List.map_append, List.map_map]
  cases data with
  | error e => exact congrArg _ (ReadError.positions_relabel e)
  | ok ds => exact congrArg _ (Datum.flatMap_positions fun d _ => d.positions_relabel)

theorem relabel_relabel (o : Outcome) : (o.relabel f).relabel g = o.relabel (g ∘ f) := by
  obtain ⟨tokens, stop, data⟩ := o
  have fault (e : ReadError) : (e.relabel f).relabel g = e.relabel (g ∘ f) := e.relabel_relabel
  have datum (d : Datum) : (d.relabel f).relabel g = d.relabel (g ∘ f) := d.relabel_relabel
  simp only [relabel, mk.injEq, List.map_map, Option.map_map, Function.comp_def, fault, true_and]
  cases data with
  | error e => exact congrArg Except.error e.relabel_relabel
  | ok ds => simp [Function.comp_def, datum]

theorem ofInput_relabel (settings : Settings) (input : Input) :
    ofInput settings (input.relabel f) = (ofInput settings input).relabel f := by
  have tokens : Tokens.ofSource settings ⟨input.relabel f, .complete⟩ =
      (Tokens.ofSource settings ⟨input, .complete⟩).relabel f :=
    Tokens.ofInput_relabel settings none input
  have plain := Tokens.plain_ofSource settings ⟨input, .complete⟩
  simp only [ofInput, relabel, Source.readAll, Reader.ofSource, tokens, mk.injEq]
  refine ⟨Tokens.pairs_relabel _, rfl, ?_⟩
  rw [Tokens.pairs_relabel, ← Reader.relabelTokens_plain plain, Tokens.relabel,
    Reader.readAll_relabel]

/-- No position comes out that no character stands at: if all other positions are moved, the input
is the same, so what comes of it is the same, and yet it has all its positions moved. -/
theorem mem_positions {settings : Settings} {input : Input} {p : Pos}
    (h : p ∈ (ofInput settings input).positions) : p ∈ input.map Prod.snd := by
  let move (q : Pos) : Pos := if q ∈ input.map Prod.snd then q else q.advance ' '
  have still : input.relabel move = input := by
    refine (List.map_congr_left ?_).trans (List.map_id input)
    rintro ⟨c, q⟩ inside
    have stands : q ∈ input.map Prod.snd := List.mem_map_of_mem inside
    simp only [move, if_pos stands, id]
  have same : (ofInput settings input).positions.map move =
      (ofInput settings input).positions.map id := by
    rw [← positions_relabel, ← ofInput_relabel, still, List.map_id]
  have fixed : move p = p := List.map_inj_left.1 same p h
  by_contra elsewhere
  simp only [move, if_neg elsewhere] at fixed
  have before := p.lt_advance ' '
  rw [fixed, Pos.lt_def] at before
  omega

end Outcome

/-! ## Assignments of positions -/

/-- The characters of a text, each at the position that its number is given. -/
def Input.labelled (labels : Nat → Pos) (cs : List Char) : Input :=
  cs.zipIdx.map fun x => (x.1, labels x.2)

namespace Pos

/-- The position of a character in a text of one line, by its number. -/
def numbered (n : Nat) : Pos := ⟨0, n⟩

/-- The number of the character that stands at a position of such a text. -/
def number (p : Pos) : Nat := p.col.toNat

theorem number_numbered (n : Nat) : (numbered n).number = n := Int.toNat_natCast n

/-- Where a position of a text that begins at the start is, if the text begins at another line and
column. Only the first line begins at that column. -/
def startingAt (line col : Int) (p : Pos) : Pos :=
  if p.line = 0 then ⟨line, col + p.col⟩ else ⟨line + p.line, p.col⟩

theorem advance_startingAt (line col : Int) {p : Pos} (h : 0 ≤ p.line) (c : Char) :
    (p.startingAt line col).advance c = (p.advance c).startingAt line col := by
  have next : p.line + 1 ≠ 0 := by omega
  by_cases newline : c = '\n' <;> by_cases first : p.line = 0 <;>
    simp [startingAt, advance, newline, first, next, Int.add_assoc]

theorem line_advance (p : Pos) (c : Char) : p.line ≤ (p.advance c).line := by
  unfold advance
  split
  · exact Int.le_of_lt (Int.lt_succ p.line)
  · exact Int.le_refl _

end Pos

namespace Input

theorem labelled_relabel (labels : Nat → Pos) (cs : List Char) :
    (labelled Pos.numbered cs).relabel (fun p => labels p.number) = labelled labels cs := by
  simp only [labelled, relabel, List.map_map, Function.comp_def, Pos.number_numbered]

theorem mem_numbered {cs : List Char} {p : Pos}
    (h : p ∈ (labelled Pos.numbered cs).map Prod.snd) : p.number < cs.length := by
  rw [labelled, List.map_map, List.mem_map] at h
  obtain ⟨⟨c, n⟩, inside, rfl⟩ := h
  obtain ⟨-, below, -⟩ := List.mem_zipIdx inside
  rw [Function.comp_apply, Pos.number_numbered]
  omega

theorem ofChars_startingAt (line col : Int) (cs : List Char) {p : Pos} (h : 0 ≤ p.line) :
    ofChars cs (p.startingAt line col) = (ofChars cs p).relabel (Pos.startingAt line col) := by
  induction cs generalizing p with
  | nil => rfl
  | cons c cs ih =>
    have below : 0 ≤ (p.advance c).line := Int.le_trans h (p.line_advance c)
    rw [ofChars_cons, ofChars_cons, Pos.advance_startingAt line col h, ih below, Scan.relabel_cons]

end Input

/-- Under any two assignments of positions to the characters of a text the same comes of it but for
positions, and each position is that of the same character under both. So a text that begins
elsewhere than at the start only has its positions moved accordingly. -/
theorem Outcome.positions_are_labels (settings : Settings) (cs : List Char) :
    (∃ places : List Nat, (∀ n ∈ places, n < cs.length) ∧
      ∀ A B : Nat → Pos,
        let a := ofInput settings (Input.labelled A cs)
        let b := ofInput settings (Input.labelled B cs)
        a.unlabelled = b.unlabelled ∧ a.positions = places.map A ∧ b.positions = places.map B) ∧
    ∀ line col : Int,
      ofInput settings (Input.ofChars cs ⟨line, col⟩) =
        (ofInput settings (Input.ofChars cs .start)).relabel (Pos.startingAt line col) := by
  constructor
  · -- The places are told by the assignment under which each position is a number.
    let numbered := ofInput settings (Input.labelled Pos.numbered cs)
    have labelled (labels : Nat → Pos) : ofInput settings (Input.labelled labels cs) =
        numbered.relabel fun p => labels p.number := by
      rw [← ofInput_relabel, Input.labelled_relabel]
    have positions (labels : Nat → Pos) :
        (ofInput settings (Input.labelled labels cs)).positions =
          (numbered.positions.map Pos.number).map labels := by
      rw [labelled, positions_relabel, List.map_map]
      rfl
    have unlabelled (labels : Nat → Pos) :
        (ofInput settings (Input.labelled labels cs)).unlabelled = numbered.unlabelled := by
      rw [labelled, Outcome.unlabelled, relabel_relabel]
      rfl
    refine ⟨numbered.positions.map Pos.number, ?_, ?_⟩
    · intro n hn
      obtain ⟨p, inside, rfl⟩ := List.mem_map.1 hn
      exact Input.mem_numbered (mem_positions inside)
    · intro A B
      exact ⟨(unlabelled A).trans (unlabelled B).symm, positions A, positions B⟩
  · intro line col
    have moved := Input.ofChars_startingAt line col cs (p := .start) (Int.le_refl 0)
    have start : Pos.start.startingAt line col = ⟨line, col⟩ := by
      simp [Pos.startingAt, Pos.start]
    rw [← ofInput_relabel, ← moved, start]

end Sexpr
