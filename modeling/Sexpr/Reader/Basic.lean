import Sexpr.Reader.Stack

/-!
Reading data from tokens, one datum at a time, and a reader that keeps what is left between reads.
Main statement: a datum costs at least one token, so reading all comes to an end.
-/

namespace Sexpr.Reader

/-- A result, `none` being the end, with the tokens left over and whether their end was seen. -/
structure Reading where
  result : Except ReadError (Option Datum)
  rest : List (Token × Pos)
  ended : Bool

/-- Reads on with a stack. `stop` is what the end of the tokens means, if it is a fault. -/
def readFrom (modes : Modes) (outside : StructuralFault) (stop : Option ReadError)
    (stack : Stack) : List (Token × Pos) → Reading
  | [] =>
      match stop with
      | some e => ⟨.error e, [], true⟩
      | none => ⟨(finish stack).map fun _ => none, [], true⟩
  | (t, pos) :: rest =>
      match feed modes outside stack t pos with
      | .error e => ⟨.error e, rest, false⟩
      | .ok (.datum d) => ⟨.ok (some d), rest, false⟩
      | .ok (.stack s) => readFrom modes outside stop s rest

theorem readFrom_rest_suffix (modes : Modes) (outside : StructuralFault)
    (stop : Option ReadError) (stack : Stack) (ts : List (Token × Pos)) :
    (readFrom modes outside stop stack ts).rest <:+ ts := by
  fun_induction readFrom modes outside stop stack ts with
  | case1 | case2 => exact List.suffix_refl _
  | case3 | case4 => exact List.suffix_cons _ _
  | case5 stack t pos rest s h ih => exact ih.trans (List.suffix_cons _ _)

theorem readFrom_rest_lt {modes : Modes} {outside : StructuralFault}
    {stop : Option ReadError} {stack : Stack} {ts : List (Token × Pos)} {d : Datum}
    (h : (readFrom modes outside stop stack ts).result = .ok (some d)) :
    (readFrom modes outside stop stack ts).rest.length < ts.length := by
  fun_induction readFrom modes outside stop stack ts with
  | case1 => simp at h
  | case2 stack => cases hs : finish stack <;> simp [hs, Except.map] at h
  | case3 | case4 => simp
  | case5 stack t pos rest s _ ih => exact Nat.lt_succ_of_lt (ih h)

end Reader

/-- A reader over tokens: those not yet read, the fault that ends them, whether their end has been
seen, and whether the latest iteration goes on. -/
structure Reader where
  modes : Modes
  pending : List (Token × Pos)
  stop : Option ReadError
  ended : Bool
  iterating : Bool

namespace Reader

def ofTokens (modes : Modes) (ts : List (Token × Pos)) (stop : Option ReadError) : Reader where
  modes := modes
  pending := ts
  stop := stop
  ended := false
  iterating := false

/-- Reads one datum. A fault of the source is told once; after it the tokens are at their end. -/
def readWith (outside : StructuralFault) (r : Reader) :
    Except ReadError (Option Datum) × Reader :=
  let reading := readFrom r.modes outside r.stop [] r.pending
  (reading.result,
    { r with
      pending := reading.rest
      stop := if reading.ended then none else r.stop
      ended := r.ended || reading.ended })

def read (r : Reader) : Except ReadError (Option Datum) × Reader :=
  r.readWith .misplacedDot

/-- The data up to the end or the first fault. -/
def collect (found : List Datum) (r : Reader) : List Datum × Option ReadError × Reader :=
  match _h : readFrom r.modes .dotOutsideList r.stop [] r.pending with
  | ⟨.ok (some d), _, _⟩ => collect (d :: found) (r.readWith .dotOutsideList).2
  | ⟨.ok none, _, _⟩ => (found.reverse, none, (r.readWith .dotOutsideList).2)
  | ⟨.error e, _, _⟩ => (found.reverse, some e, (r.readWith .dotOutsideList).2)
termination_by r.pending.length
decreasing_by
  exact readFrom_rest_lt (by rw [_h])

/-- All data that are left; a fault loses those before it. -/
def readAll (r : Reader) : Except ReadError (List Datum) × Reader :=
  match r.collect [] with
  | (ds, none, r) => (.ok ds, r)
  | (_, some e, r) => (.error e, r)

def iterate (r : Reader) : Reader := { r with iterating := true }

/-- One step of the latest iteration, which ends with the tokens or at its first fault. -/
def next (r : Reader) : Except ReadError (Option Datum) × Reader :=
  if r.iterating then
    match r.readWith .dotOutsideList with
    | (.ok (some d), r) => (.ok (some d), r)
    | (result, r) => (result, { r with iterating := false })
  else (.ok none, r)

end Sexpr.Reader
