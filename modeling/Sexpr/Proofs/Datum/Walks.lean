import Mathlib.Logic.Relation
import Sexpr.Proofs.Datum.Dumped
import Sexpr.Proofs.Datum.Spelled

/-!
Writing and dumping as loops with a stack, against recursion on the datum.

- `RenderRound.kept`, `DumpRound.kept`: no round changes what the loop comes to.
- `renderRound_terminating`, `dumpRound_terminating`: every loop ends.
- `walks_recurse`: each loop comes to what recursion gives, and fails as it does at the first atom
  that has no form.
-/

namespace Sexpr.Datum

/-! ## Recursion -/

/-- A function that is given by recursion on the datum. The items are taken in order, and the first
one that fails decides the error. -/
structure Recursion {β : Type} (atom : Atom → Option Pos → Except WriteError β)
    (list : Bracket → Option Pos → Option Pos → List β → β) (f : Datum → Except WriteError β) :
    Prop where
  atom : ∀ a pos, f (.atom a pos) = atom a pos
  list : ∀ k items dot pos, f (.list k items dot pos) = (items.mapM f).map (list k dot pos)

/-- The error of a result. -/
def failure? {α : Type} : Except WriteError α → Option WriteError
  | .ok _ => none
  | .error e => some e

theorem failure?_mapM {α β : Type} (f : α → Except WriteError β) (as : List α) :
    failure? (as.mapM f) = as.findSome? fun a => failure? (f a) := by
  induction as with
  | nil => rfl
  | cons a as ih =>
    rw [List.mapM_cons, List.findSome?_cons, ← ih]
    cases f a with
    | error e => rfl
    | ok b => cases as.mapM f <;> rfl

theorem failure?_map {α β : Type} (g : α → β) (x : Except WriteError α) :
    failure? (x.map g) = failure? x := by
  cases x <;> rfl

section
variable {β : Type} {atom : Atom → Option Pos → Except WriteError β}
  {list : Bracket → Option Pos → Option Pos → List β → β} {f g : Datum → Except WriteError β}

/-- There is only one function by the same recursion. -/
theorem Recursion.unique (hf : Recursion atom list f) (hg : Recursion atom list g) : f = g := by
  funext d
  induction d using Datum.induction with
  | atom a pos => rw [hf.atom, hg.atom]
  | list k items dot pos ih => rw [hf.list, hg.list, mapM_of_map (List.map_congr_left ih)]

/-- Recursion fails where the first atom does. -/
theorem Recursion.failure?_eq (h : Recursion atom list f) {fails : Atom → Option WriteError}
    (atoms : ∀ a pos, failure? (atom a pos) = fails a) (d : Datum) :
    failure? (f d) = d.leaves.findSome? fails := by
  induction d using Datum.induction with
  | atom a pos =>
    rw [h.atom, atoms, leaves_atom, List.findSome?_singleton]
  | list k items dot pos ih =>
    rw [h.list, failure?_map, failure?_mapM, leaves_list]
    -- The atoms of an item come before those of the items after it, as the items do.
    induction items with
    | nil => rfl
    | cons d ds later =>
      rw [List.findSome?_cons, List.flatMap_cons, List.findSome?_append, ih d List.mem_cons_self,
        later fun e he => ih e (List.mem_cons_of_mem d he)]
      cases d.leaves.findSome? fails <;> rfl

end

/-! ## Written by recursion -/

/-- Items are separated by spaces, but if the list is improper the last of two or more is by a
dot. -/
def separated (improper : Bool) (ss : List String) : String :=
  if improper = true ∧ 2 ≤ ss.length then
    " ".intercalate ss.dropLast ++ " . " ++ ss.getLastD ""
  else " ".intercalate ss

theorem separated_cons {improper : Bool} {s : String} {ss : List String} (h : 2 ≤ ss.length) :
    separated improper (s :: ss) = s ++ " " ++ separated improper ss := by
  rcases ss with _ | ⟨t, _ | ⟨u, us⟩⟩
  · simp at h
  · simp at h
  · cases improper with
    | false => simp [separated, String.intercalate_cons_cons, String.append_assoc]
    | true =>
      have two : 2 ≤ (s :: t :: u :: us).length := by simp
      have last : (s :: t :: u :: us).getLastD "" = (t :: u :: us).getLastD "" := by simp
      rw [separated, separated, if_pos ⟨rfl, two⟩, if_pos ⟨rfl, h⟩, last]
      simp [String.intercalate_cons_cons, String.append_assoc]

theorem joinItems_eq_separated (improper : Bool) (ss : List String) :
    joinItems improper ss = separated improper ss := by
  induction ss with
  | nil => simp [joinItems, separated]
  | cons s ss ih =>
    by_cases two : 2 ≤ ss.length
    · rw [joinItems_cons two, separated_cons two, ih]
    · obtain rfl | ⟨t, rfl⟩ : ss = [] ∨ ∃ t, ss = [t] := by
        rw [← List.length_eq_zero_iff, ← List.length_eq_one_iff]
        omega
      · simp [joinItems, separated]
      · cases improper <;> simp [joinItems, separated, String.intercalate_cons_cons]

/-- The written form of a list with items that are written so. -/
def writtenList (k : Bracket) (dot _pos : Option Pos) (ss : List String) : String :=
  String.singleton k.opening ++ separated dot.isSome ss ++ String.singleton k.closing

theorem render_recursion (limit : DigitLimit) (fmt : Format) :
    Recursion (fun a _ => a.render limit fmt) writtenList (render limit fmt) := by
  have same : render limit fmt = written limit fmt := funext (render_eq_written limit fmt)
  rw [same]
  constructor
  · intro a pos
    rfl
  · intro k items dot pos
    rw [written, writtenItems_eq_mapM]
    congr 1
    funext ss
    rw [joinItems_eq_separated]
    rfl

/-! ## Dumped by recursion -/

/-- The dump of a list with items that are dumped so. -/
def dumpedList (k : Bracket) (dot pos : Option Pos) (xs : List Datum) : Datum :=
  .list k (.symbol (if dot.isSome then "improper-list" else "list") none :: xs) none pos

theorem dump_recursion : Recursion (fun a pos => a.dump pos) dumpedList dump := by
  have same : dump = dumped := funext dump_eq_dumped
  rw [same]
  constructor
  · intro a pos
    rfl
  · intro k items dot pos
    rw [dumped, dumpedItems_eq_mapM]
    rfl

theorem failure?_dump_atom (a : Atom) (pos : Option Pos) :
    failure? (a.dump pos) = failure? (a.dump none) := by
  cases a <;> rfl

/-- A dump stands where the datum does. -/
theorem pos_of_dump {d x : Datum} (h : d.dump = .ok x) : x.pos = d.pos := by
  cases d with
  | atom a pos =>
    rw [dump_recursion.atom] at h
    cases a <;> cases h <;> rfl
  | list k items dot pos =>
    rw [dump_recursion.list] at h
    cases made : items.mapM dump with
    | error e => simp [made, Except.map] at h
    | ok xs =>
      rw [made] at h
      cases h
      rfl

/-! ## Loops -/

/-- Some rounds lead to an end with a result. -/
def Finishes {σ ρ : Type} (Round : σ → σ → Prop) (Ends : σ → ρ → Prop) (s : σ) (r : ρ) : Prop :=
  ∃ t, Relation.ReflTransGen Round s t ∧ Ends t r

section
variable {σ ρ : Type} {Round : σ → σ → Prop} {Ends : σ → ρ → Prop} {s t : σ} {r : ρ}

/-- What no round changes and every end gives is what a loop finishes with. -/
theorem Finishes.eq (value : σ → ρ) (kept : ∀ s t, Round s t → value t = value s)
    (given : ∀ s r, Ends s r → value s = r) (h : Finishes Round Ends s r) : value s = r := by
  obtain ⟨t, rounds, ends⟩ := h
  have same : value t = value s := by
    clear ends
    induction rounds with
    | refl => rfl
    | tail _ round ih => rw [kept _ _ round, ih]
  rw [← same, given t r ends]

theorem Finishes.head (round : Round s t) (h : Finishes Round Ends t r) :
    Finishes Round Ends s r := by
  obtain ⟨u, rounds, ends⟩ := h
  exact ⟨u, .head round rounds, ends⟩

theorem Finishes.here (ends : Ends s r) : Finishes Round Ends s r := ⟨s, .refl, ends⟩

end

/-! ## The loop of writing -/

/-- One round of writing on a text and a stack: it takes what is on top of the stack. -/
inductive RenderRound (limit : DigitLimit) (fmt : Format) :
    String × List Piece → String × List Piece → Prop
  | text (out s : String) (todo : List Piece) :
      RenderRound limit fmt (out, .text s :: todo) (out ++ s, todo)
  | atom {a : Atom} {s : String} (written : a.render limit fmt = .ok s) (pos : Option Pos)
      (out : String) (todo : List Piece) :
      RenderRound limit fmt (out, .datum (.atom a pos) :: todo) (out ++ s, todo)
  | list (k : Bracket) (items : List Datum) (dot pos : Option Pos) (out : String)
      (todo : List Piece) :
      RenderRound limit fmt (out, .datum (.list k items dot pos) :: todo)
        (out, listPieces k items dot.isSome ++ todo)

/-- Writing ends with an empty stack, or at an atom that has no written form. -/
inductive RenderEnds (limit : DigitLimit) (fmt : Format) :
    String × List Piece → Except WriteError String → Prop
  | done (out : String) : RenderEnds limit fmt (out, []) (.ok out)
  | failed {a : Atom} {e : WriteError} (fails : a.render limit fmt = .error e) (pos : Option Pos)
      (out : String) (todo : List Piece) :
      RenderEnds limit fmt (out, .datum (.atom a pos) :: todo) (.error e)

section
variable {limit : DigitLimit} {fmt : Format}

theorem renderRound_terminating (limit : DigitLimit) (fmt : Format) :
    WellFounded fun t s => RenderRound limit fmt s t := by
  apply Subrelation.wf (r := fun t s => piecesWeight t.2 < piecesWeight s.2)
  · intro t s round
    cases round with
    | text | atom =>
      simp only [piecesWeight, Piece.weight, weight]
      omega
    | list k items dot pos out todo =>
      have := listPieces_weight k items dot.isSome
      simp only [piecesWeight_append, piecesWeight, Piece.weight, weight_list]
      omega
  · exact (measure fun s : String × List Piece => piecesWeight s.2).wf

theorem RenderRound.kept {s t : String × List Piece} (round : RenderRound limit fmt s t) :
    renderPieces limit fmt t.1 t.2 = renderPieces limit fmt s.1 s.2 := by
  cases round with
  | text | list => rw [renderPieces]
  | atom written => rw [renderPieces, written]

theorem RenderEnds.given {s : String × List Piece} {r : Except WriteError String}
    (ends : RenderEnds limit fmt s r) : renderPieces limit fmt s.1 s.2 = r := by
  cases ends with
  | done => rw [renderPieces]
  | failed fails => rw [renderPieces, fails]

/-- The loop comes to what is written, and to nothing else. -/
theorem finishes_renderPieces (out : String) (ps : List Piece) {r : Except WriteError String} :
    Finishes (RenderRound limit fmt) (RenderEnds limit fmt) (out, ps) r ↔
      renderPieces limit fmt out ps = r := by
  constructor
  · exact Finishes.eq (fun s : String × List Piece => renderPieces limit fmt s.1 s.2)
      (fun _ _ => RenderRound.kept) fun _ _ => RenderEnds.given
  · rintro rfl
    fun_induction renderPieces limit fmt out ps with
    | case1 out => exact .here (.done out)
    | case2 out s todo ih => exact .head (.text out s todo) ih
    | case3 out a pos todo s written ih => exact .head (.atom written pos out todo) ih
    | case4 out a pos todo e fails => exact .here (.failed fails pos out todo)
    | case5 out k items dot pos todo ih => exact .head (.list k items dot pos out todo) ih

end

/-! ## The loop of dumping -/

/-- One round of dumping: what is on top of the stack goes to the end of the list that its way leads
to, and what is in it on the stack. -/
inductive DumpRound :
    List Datum × List (Datum × List Nat) → List Datum × List (Datum × List Nat) → Prop
  | atom {a : Atom} {pos : Option Pos} {x : Datum} (dumped : a.dump pos = .ok x)
      (root : List Datum) (way : List Nat) (todo : List (Datum × List Nat)) :
      DumpRound (root, (.atom a pos, way) :: todo) (grow x way root, todo)
  | list (k : Bracket) (items : List Datum) (dot pos : Option Pos) (root : List Datum)
      (way : List Nat) (todo : List (Datum × List Nat)) :
      DumpRound (root, (.list k items dot pos, way) :: todo)
        (grow (dumpHead k dot pos) way root, allTo (way ++ [sizeAt way root]) items ++ todo)

/-- Dumping ends with an empty stack, or at an atom that has no dump. -/
inductive DumpEnds :
    List Datum × List (Datum × List Nat) → Except WriteError (List Datum) → Prop
  | done (root : List Datum) : DumpEnds (root, []) (.ok root)
  | failed {a : Atom} {pos : Option Pos} {e : WriteError} (fails : a.dump pos = .error e)
      (root : List Datum) (way : List Nat) (todo : List (Datum × List Nat)) :
      DumpEnds (root, (.atom a pos, way) :: todo) (.error e)

theorem dumpRound_terminating : WellFounded fun t s => DumpRound s t := by
  apply Subrelation.wf (r := fun t s => todoWeight t.2 < todoWeight s.2)
  · intro t s round
    cases round with
    | atom =>
      simp only [todoWeight, List.map_cons, forestWeight, weight]
      omega
    | list k items dot pos root way todo =>
      rw [todoWeight_allTo]
      simp only [todoWeight, List.map_cons, forestWeight, weight_list]
      omega
  · exact (measure fun s : List Datum × List (Datum × List Nat) => todoWeight s.2).wf

theorem DumpRound.kept {s t : List Datum × List (Datum × List Nat)} (round : DumpRound s t) :
    dumpTodo t.1 t.2 = dumpTodo s.1 s.2 := by
  cases round with
  | atom dumped => rw [dumpTodo, dumped]
  | list => rw [dumpTodo]

theorem DumpEnds.given {s : List Datum × List (Datum × List Nat)}
    {r : Except WriteError (List Datum)} (ends : DumpEnds s r) : dumpTodo s.1 s.2 = r := by
  cases ends with
  | done => rw [dumpTodo]
  | failed fails => rw [dumpTodo, fails]

/-- The loop comes to what is dumped, and to nothing else. -/
theorem finishes_dumpTodo (root : List Datum) (todo : List (Datum × List Nat))
    {r : Except WriteError (List Datum)} :
    Finishes DumpRound DumpEnds (root, todo) r ↔ dumpTodo root todo = r := by
  constructor
  · exact Finishes.eq (fun s : List Datum × List (Datum × List Nat) => dumpTodo s.1 s.2)
      (fun _ _ => DumpRound.kept) fun _ _ => DumpEnds.given
  · rintro rfl
    fun_induction dumpTodo root todo with
    | case1 root => exact .here (.done root)
    | case2 root a pos way todo x dumped ih => exact .head (.atom dumped root way todo) ih
    | case3 root a pos way todo e fails => exact .here (.failed fails root way todo)
    | case4 root k items dot pos way todo ih =>
      exact .head (.list k items dot pos root way todo) ih

theorem dumpTodo_one (d : Datum) : dumpTodo [] [(d, [])] = d.dump.map fun x => [x] := by
  rw [dump_eq_dumped, dumpTodo_cons]
  cases d.dumped with
  | error e => rfl
  | ok x => simp [dumpTodo, grow, Except.map, Except.bind]

/-! ## Loops against recursion -/

/-- Writing and dumping are what recursion on the datum gives, and their loops, each with one stack
for all lists, end on every datum with this result and no other. A list is written as its items in
its brackets with spaces between them, and a dot before the last of two or more if it is improper.
It is dumped as a proper list with its bracket, a head and the dumps of its items, and every dump
stands where the datum does. Both fail as the first atom does that has no form. -/
theorem walks_recurse (limit : DigitLimit) (fmt : Format) :
    let renders (d : Datum) :=
      Finishes (RenderRound limit fmt) (RenderEnds limit fmt) ("", [.datum d])
    let dumps (d : Datum) := Finishes DumpRound DumpEnds ([], [(d, [])])
    ((∀ f, Recursion (fun a _ => a.render limit fmt) writtenList f ↔ f = render limit fmt) ∧
      (∀ d, failure? (render limit fmt d) =
        d.leaves.findSome? fun a => failure? (a.render limit fmt)) ∧
      WellFounded (fun t s => RenderRound limit fmt s t) ∧
      ∀ d r, renders d r ↔ render limit fmt d = r) ∧
    (∀ f, Recursion (fun a pos => a.dump pos) dumpedList f ↔ f = dump) ∧
      (∀ d, failure? (dump d) = d.leaves.findSome? fun a => failure? (a.dump none)) ∧
      (∀ d x, dump d = .ok x → x.pos = d.pos) ∧
      WellFounded (fun t s => DumpRound s t) ∧
      ∀ d r, dumps d r ↔ ((dump d).map fun x => [x]) = r := by
  intro renders dumps
  have rendered := render_recursion limit fmt
  refine ⟨⟨?_, ?_, renderRound_terminating limit fmt, ?_⟩, ?_, ?_, ?_, dumpRound_terminating, ?_⟩
  · intro f
    constructor
    · intro h
      exact h.unique rendered
    · rintro rfl
      exact rendered
  · exact rendered.failure?_eq fun _ _ => rfl
  · intro d r
    exact finishes_renderPieces "" [.datum d]
  · intro f
    constructor
    · intro h
      exact h.unique dump_recursion
    · rintro rfl
      exact dump_recursion
  · exact dump_recursion.failure?_eq failure?_dump_atom
  · intro d x
    exact pos_of_dump
  · intro d r
    rw [← dumpTodo_one]
    exact finishes_dumpTodo [] [(d, [])]

end Sexpr.Datum
