/-!
Positions in a text: a line and a column. A text begins at line zero and column zero, but a part of
one may begin anywhere, even before that.
-/

namespace Sexpr

structure Pos where
  line : Int
  col : Int
  deriving DecidableEq, Repr, Inhabited

namespace Pos

def start : Pos := ⟨0, 0⟩

/-- The order of the lines, and in a line that of the columns. -/
instance : LT Pos := ⟨fun p q => p.line < q.line ∨ p.line = q.line ∧ p.col < q.col⟩

/-- Only a line feed begins a line. -/
def advance (p : Pos) (c : Char) : Pos :=
  if c = '\n' then ⟨p.line + 1, 0⟩ else ⟨p.line, p.col + 1⟩

def advanceAll (p : Pos) (cs : List Char) : Pos :=
  cs.foldl advance p

/-- Lines are shown counted from one, columns from zero. -/
def label (p : Pos) : String := s!"@{p.line + 1}.{p.col}"

theorem advanceAll_nil (p : Pos) : p.advanceAll [] = p := rfl

theorem advanceAll_cons (p : Pos) (c : Char) (cs : List Char) :
    p.advanceAll (c :: cs) = (p.advance c).advanceAll cs := rfl

theorem advanceAll_append (p : Pos) (cs ds : List Char) :
    p.advanceAll (cs ++ ds) = (p.advanceAll cs).advanceAll ds :=
  List.foldl_append

theorem lt_def {p q : Pos} : p < q ↔ p.line < q.line ∨ p.line = q.line ∧ p.col < q.col := Iff.rfl

instance (p q : Pos) : Decidable (p < q) := decidable_of_iff _ lt_def.symm

theorem lt_trans {p q r : Pos} (h : p < q) (h' : q < r) : p < r := by
  rw [lt_def] at h h' ⊢
  omega

theorem lt_advance (p : Pos) (c : Char) : p < p.advance c := by
  rw [lt_def, advance]
  split
  · exact .inl (Int.lt_succ p.line)
  · exact .inr ⟨rfl, Int.lt_succ p.col⟩

end Pos

/-- Characters, each with the position it stands at. -/
abbrev Input := List (Char × Pos)

namespace Input

def ofChars (cs : List Char) (p : Pos) : Input :=
  go p [] cs
where
  go (p : Pos) (acc : Input) : List Char → Input
    | [] => acc.reverse
    | c :: cs => go (p.advance c) ((c, p) :: acc) cs

theorem go_eq (p : Pos) (acc : Input) (cs : List Char) :
    ofChars.go p acc cs = acc.reverse ++ ofChars cs p := by
  induction cs generalizing p acc with
  | nil => simp [ofChars, ofChars.go]
  | cons c cs ih =>
    simp only [ofChars, ofChars.go]
    rw [ih, ih (p.advance c) [(c, p)]]
    simp

theorem ofChars_nil (p : Pos) : ofChars [] p = [] := rfl

theorem ofChars_cons (c : Char) (cs : List Char) (p : Pos) :
    ofChars (c :: cs) p = (c, p) :: ofChars cs (p.advance c) := by
  simp only [ofChars, ofChars.go]
  rw [go_eq]
  rfl

theorem ofChars_append (cs ds : List Char) (p : Pos) :
    ofChars (cs ++ ds) p = ofChars cs p ++ ofChars ds (p.advanceAll cs) := by
  induction cs generalizing p with
  | nil => rfl
  | cons c cs ih => simp [ofChars_cons, ih, Pos.advanceAll_cons]

theorem map_fst_ofChars (cs : List Char) (p : Pos) : (ofChars cs p).map Prod.fst = cs := by
  induction cs generalizing p with
  | nil => rfl
  | cons c cs ih => simp [ofChars_cons, ih]

end Input

end Sexpr
