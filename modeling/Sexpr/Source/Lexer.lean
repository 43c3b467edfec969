import Sexpr.Reader.Session
import Sexpr.Source.Scanner

/-!
Tokens made as they are asked for, and a reader that asks for them. Main statement: each token takes
a character, so reading all data comes to an end.
-/

namespace Sexpr

/-- Where the tokens of a source are being made, and whether they are over: their end has been
told, or a fault. -/
structure Lexer where
  cursor : Cursor
  finished : Bool

namespace Lexer

variable {settings : Settings} {l l' : Lexer}

def ofSource (s : Source) : Lexer := ⟨.ofSource s, false⟩

/-- The next token, or none at the end. A fault is told once. -/
def next (settings : Settings) (l : Lexer) : Except ReadError (Option (Token × Pos)) × Lexer :=
  if l.finished then (.ok none, l)
  else match l.cursor.nextToken settings with
    | (.ok (some x), c) => (.ok (some x), ⟨c, false⟩)
    | (result, c) => (result, ⟨c, true⟩)

theorem next_lt {x : Token × Pos} (h : l.next settings = (.ok (some x), l')) :
    l'.cursor.size < l.cursor.size := by
  unfold next at h
  split at h
  · cases h
  · rcases made : l.cursor.nextToken settings with ⟨e | _ | y, c⟩
    · rw [made] at h
      cases h
    · rw [made] at h
      cases h
    · rw [made] at h
      cases h
      exact Cursor.nextToken_lt made

/-- All tokens up to the end or the first fault, after those that have been found, in reverse. -/
def all (settings : Settings) (found : List (Token × Pos)) (l : Lexer) :
    List (Token × Pos) × Option ReadError :=
  match _h : l.next settings with
  | (.error e, _) => (found.reverse, some e)
  | (.ok none, _) => (found.reverse, none)
  | (.ok (some x), l') => all settings (x :: found) l'
termination_by l.cursor.size
decreasing_by exact next_lt _h

/-- Reads on with a stack, and asks for tokens as long as the datum is not complete. -/
def readFrom (settings : Settings) (outside : StructuralFault) (stack : Reader.Stack)
    (l : Lexer) : Except ReadError (Option Datum) × Lexer :=
  match _h : l.next settings with
  | (.error e, l') => (.error e, l')
  | (.ok none, l') => ((Reader.finish stack).map fun _ => none, l')
  | (.ok (some (t, pos)), l') =>
      match Reader.feed settings.modes outside stack t pos with
      | .error e => (.error e, l')
      | .ok (.datum d) => (.ok (some d), l')
      | .ok (.stack stack) => readFrom settings outside stack l'
termination_by l.cursor.size
decreasing_by exact next_lt _h

theorem readFrom_lt {outside : StructuralFault} {stack : Reader.Stack} {d : Datum}
    (h : l.readFrom settings outside stack = (.ok (some d), l')) :
    l'.cursor.size < l.cursor.size := by
  fun_induction readFrom settings outside stack l with
  | case1 | case3 => cases h
  | case2 stack =>
    cases finished : Reader.finish stack <;> simp [finished, Except.map] at h
  | case4 _ _ _ _ _ told _ _ =>
    cases h
    exact next_lt told
  | case5 _ _ _ _ _ told _ _ ih => exact Nat.lt_trans (ih h) (next_lt told)

end Lexer

/-- A reader that makes tokens as it needs them, and whether its latest iteration goes on. -/
structure LazyReader where
  lexer : Lexer
  iterating : Bool

namespace LazyReader

def ofSource (s : Source) : LazyReader := ⟨.ofSource s, false⟩

def readWith (settings : Settings) (outside : StructuralFault) (r : LazyReader) :
    Except ReadError (Option Datum) × LazyReader :=
  let (result, l) := r.lexer.readFrom settings outside []
  (result, { r with lexer := l })

/-- The data up to the end or the first fault, after those that have been found, in reverse. -/
def collect (settings : Settings) (found : List Datum) (l : Lexer) :
    List Datum × Option ReadError × Lexer :=
  match _h : l.readFrom settings .dotOutsideList [] with
  | (.ok (some d), l') => collect settings (d :: found) l'
  | (.ok none, l') => (found.reverse, none, l')
  | (.error e, l') => (found.reverse, some e, l')
termination_by l.cursor.size
decreasing_by exact Lexer.readFrom_lt _h

/-- All data that are left; a fault loses those before it. -/
def readAll (settings : Settings) (r : LazyReader) : Except ReadError (List Datum) × LazyReader :=
  match collect settings [] r.lexer with
  | (ds, none, l) => (.ok ds, { r with lexer := l })
  | (_, some e, l) => (.error e, { r with lexer := l })

/-- One step of the latest iteration, which ends with the tokens or at its first fault. -/
def next (settings : Settings) (r : LazyReader) : Except ReadError (Option Datum) × LazyReader :=
  if r.iterating then
    match r.readWith settings .dotOutsideList with
    | (.ok (some d), r) => (.ok (some d), r)
    | (result, r) => (result, { r with iterating := false })
  else (.ok none, r)

def perform (settings : Settings) (r : LazyReader) : Reader.Request → Reader.Answer × LazyReader
  | .read =>
      let (result, r) := r.readWith settings .misplacedDot
      (.ofDatum result, r)
  | .readAll =>
      let (result, r) := r.readAll settings
      (.ofData result, r)
  | .iterate => (.begun, { r with iterating := true })
  | .next =>
      let (result, r) := r.next settings
      (.ofDatum result, r)

def performAll (settings : Settings) (r : LazyReader) :
    List Reader.Request → List Reader.Answer × LazyReader
  | [] => ([], r)
  | q :: qs =>
      let (a, r) := r.perform settings q
      let (answers, r) := r.performAll settings qs
      (a :: answers, r)

end LazyReader

end Sexpr
