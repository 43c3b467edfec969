import Sexpr.Proofs.Reader.Feeding
import Sexpr.Proofs.Reader.Places
import Sexpr.Proofs.Scan.Relabel

/-!
Positions are labels of data. The reader compares none and keeps each with what stands there, so
with other positions it makes the same data at these positions, or finds the same fault.

- `feed_relabel`: so it is for one token.
- `readAll_relabel`: so it is for all data.
-/

namespace Sexpr

def Datum.relabel (f : Pos → Pos) : Datum → Datum
  | .atom a pos => .atom a (pos.map f)
  | .list k items dot pos => .list k (relabelAll f items) (dot.map f) (pos.map f)
where
  relabelAll (f : Pos → Pos) : List Datum → List Datum
    | [] => []
    | d :: ds => relabel f d :: relabelAll f ds

def Token.relabel (f : Pos → Pos) : Token → Token
  | .list k items dot? => .list k (items.map (Datum.relabel f)) (dot?.map f)
  | t => t

variable {f : Pos → Pos}

theorem Datum.relabel_list (k : Bracket) (items : List Datum) (dot pos : Option Pos) :
    (Datum.list k items dot pos).relabel f =
      .list k (items.map (Datum.relabel f)) (dot.map f) (pos.map f) := by
  have all (ds : List Datum) : relabel.relabelAll f ds = ds.map (relabel f) := by
    induction ds with
    | nil => rfl
    | cons d ds ih => simp [relabel.relabelAll, ih]
  rw [relabel, all]

theorem Datum.isRoundList_relabel (d : Datum) : (d.relabel f).isRoundList = d.isRoundList := by
  cases d with
  | atom => rfl
  | list k => cases k <;> rfl

namespace Reader

def Phase.relabel (f : Pos → Pos) : Phase → Phase
  | .items => .items
  | .tail dot => .tail (f dot)
  | .close dot => .close (dot.map f)

def Frame.relabel (f : Pos → Pos) : Frame → Frame
  | .list fuel pos k items phase =>
      .list fuel (f pos) k (items.map (Datum.relabel f)) (phase.relabel f)
  | .mark fuel pos m => .mark fuel (f pos) m
  | .discard fuel pos => .discard fuel (f pos)

def Step.relabel (f : Pos → Pos) : Step → Step
  | .stack s => .stack (s.map (Frame.relabel f))
  | .datum d => .datum (d.relabel f)

/-- A result and its fault with other positions. -/
def relabelResult {α β : Type} (f : Pos → Pos) (g : α → β) (r : Except ReadError α) :
    Except ReadError β := (r.mapError (ReadError.relabel f)).map g

variable {modes : Modes} {outside : StructuralFault} {stack : Stack} {pos : Pos}

@[simp] theorem relabelResult_ok {α β : Type} (g : α → β) (a : α) :
    relabelResult f g (.ok a) = .ok (g a) := rfl

@[simp] theorem inner_relabel (x : Frame) : (x.relabel f).inner = x.inner := by
  cases x with
  | list fuel pos k items phase => cases phase <;> rfl
  | mark | discard => rfl

@[simp] theorem innerDepth_relabel (stack : Stack) :
    innerDepth (stack.map (Frame.relabel f)) = innerDepth stack := by
  cases stack with
  | nil => rfl
  | cons x stack => exact inner_relabel x

@[simp] theorem expectsClose_relabel (stack : Stack) :
    expectsClose (stack.map (Frame.relabel f)) = expectsClose stack := by
  cases stack with
  | nil => rfl
  | cons x stack =>
    cases x with
    | list fuel pos k items phase => cases phase <;> rfl
    | mark | discard => rfl

@[simp] theorem dropDiscards_relabel (stack : Stack) :
    dropDiscards (stack.map (Frame.relabel f)) = (dropDiscards stack).map (Frame.relabel f) := by
  induction stack with
  | nil => rfl
  | cons x stack ih =>
    cases x with
    | list | mark => rfl
    | discard => exact ih

theorem deliver_relabel (stack : Stack) (d : Datum) :
    deliver (stack.map (Frame.relabel f)) (d.relabel f) = (deliver stack d).relabel f := by
  induction stack generalizing d with
  | nil => rfl
  | cons x stack ih =>
    cases x with
    | discard => rfl
    | mark fuel pos m =>
      have marked := ih (.list .round [.symbol m.name (some pos), d] none (some pos))
      rw [Datum.relabel_list] at marked
      exact marked
    | list fuel pos k items phase =>
      cases phase with
      | items | close => rfl
      | tail dot =>
        -- Only a round list is spliced in.
        cases flat : d.isRoundList with
        | false =>
          have flat' : (d.relabel f).isRoundList = false := by rwa [Datum.isRoundList_relabel]
          rw [deliver_last flat, List.map_cons, Frame.relabel, Phase.relabel, deliver_last flat']
          rfl
        | true =>
          cases d with
          | atom => cases flat
          | list l more dot' pos' =>
            cases l with
            | round =>
              rw [Datum.relabel_list]
              simp only [List.map_cons, Frame.relabel, Phase.relabel, deliver, Step.relabel,
                List.reverseAux_eq, List.map_append, List.map_reverse]
            | square | curly => cases flat

theorem fault_relabel {α β : Type} (g : α → β) (x : StructuralFault) (pos : Pos) :
    relabelResult f g (fault x pos) = fault (x.relabel f) (f pos) := rfl

theorem push_relabel {frame frame' : Nat → Frame}
    (same : ∀ fuel, frame' fuel = (frame fuel).relabel f) :
    push (stack.map (Frame.relabel f)) (f pos) frame' =
      relabelResult f (Step.relabel f) (push stack pos frame) := by
  unfold push
  rw [innerDepth_relabel]
  cases innerDepth stack with
  | zero => rfl
  | succ fuel =>
    dsimp only
    rw [same]
    rfl

theorem dot_relabel (stack : Stack) :
    dot (outside.relabel f) (f pos) (stack.map (Frame.relabel f)) =
      relabelResult f (Step.relabel f) (dot outside pos stack) := by
  cases stack with
  | nil => rfl
  | cons x stack =>
    cases x with
    | mark | discard => rfl
    | list fuel start kind items phase =>
      by_cases round : kind = .round
      · subst round
        cases phase with
        | tail | close => rfl
        | items =>
          by_cases first : items = []
          · subst first
            rfl
          · by_cases spent : fuel = 0
            · simp [dot, Frame.relabel, Phase.relabel, first, spent, fault_relabel,
                StructuralFault.relabel]
            · simp [dot, Frame.relabel, Phase.relabel, first, spent, Step.relabel]
      · simp [dot, Frame.relabel, round, fault_relabel, StructuralFault.relabel]

theorem complete_relabel (k closed : Bracket) (start : Pos) (items : List Datum)
    (dot : Option Pos) :
    complete modes k (f start) (items.map (Datum.relabel f)) (dot.map f) closed (f pos) =
      relabelResult f (Datum.relabel f) (complete modes k start items dot closed pos) := by
  unfold complete
  split
  · rfl
  · cases dot with
    | none => simp [Datum.relabel_list]
    | some dot =>
      cases modes.allowImproperLists with
      | false => rfl
      | true => simp [Datum.relabel_list]

theorem close_relabel (k : Bracket) (stack : Stack) :
    close modes k (f pos) (stack.map (Frame.relabel f)) =
      relabelResult f (Step.relabel f) (close modes k pos stack) := by
  cases stack with
  | nil => rfl
  | cons x stack =>
    cases x with
    | mark | discard => rfl
    | list fuel start kind items phase =>
      by_cases tail : ∃ dot, phase = .tail dot
      · obtain ⟨dot, rfl⟩ := tail
        rfl
      · have noTail : ∀ dot, phase ≠ .tail dot := by
          rintro dot rfl
          exact tail ⟨dot, rfl⟩
        have noTail' : ∀ dot, phase.relabel f ≠ .tail dot := by
          cases phase with
          | tail dot => exact absurd rfl (noTail dot)
          | items | close => rintro dot ⟨⟩
        have dot : (phase.relabel f).dot? = phase.dot?.map f := by cases phase <;> rfl
        rw [close_list fuel start kind items noTail, List.map_cons, Frame.relabel,
          close_list fuel _ kind _ noTail', dot, ← List.map_reverse, complete_relabel]
        cases complete modes kind start items.reverse phase.dot? k pos with
        | error e => rfl
        | ok d => exact congrArg Except.ok (deliver_relabel stack d)

theorem feed_relabel (stack : Stack) (t : Token) (pos : Pos) :
    feed modes (outside.relabel f) (stack.map (Frame.relabel f)) (t.relabel f) (f pos) =
      relabelResult f (Step.relabel f) (feed modes outside stack t pos) := by
  cases t with
  | blank | comment | blockComment => rfl
  | closing k =>
    have same := @close_relabel f modes pos k (dropDiscards stack)
    rwa [← dropDiscards_relabel] at same
  | dot =>
    have same := @dot_relabel f outside pos (dropDiscards stack)
    rwa [← dropDiscards_relabel] at same
  | datumComment => exact push_relabel fun _ => rfl
  | atom a =>
    simp only [feed, Token.relabel, expectsClose_relabel]
    split
    · rfl
    · exact congrArg Except.ok (deliver_relabel stack (.atom a (some pos)))
  | list k items dot? =>
    simp only [feed, Token.relabel, expectsClose_relabel]
    split
    · rfl
    · rw [relabelResult_ok, ← deliver_relabel, Datum.relabel_list]
      rfl
  | opening k =>
    simp only [feed, Token.relabel, expectsClose_relabel]
    split
    · rfl
    · exact push_relabel fun _ => rfl
  | mark m =>
    simp only [feed, Token.relabel, expectsClose_relabel]
    split
    · rfl
    · exact push_relabel fun _ => rfl
  | unknown =>
    simp only [feed, Token.relabel, expectsClose_relabel]
    split <;> rfl

/-! ## All data -/

def Made.relabel (f : Pos → Pos) (m : Made) : Made where
  data := m.data.map (Datum.relabel f)
  stack := m.stack.map (Frame.relabel f)

/-- Tokens at other positions. -/
def relabelTokens (f : Pos → Pos) (ts : List (Token × Pos)) : List (Token × Pos) :=
  ts.map fun x => (x.1.relabel f, f x.2)

theorem relabelTokens_plain {us : List (Token × Pos)} (h : Plain us) :
    relabelTokens f us = us.map fun x => (x.1, f x.2) := by
  apply List.map_congr_left
  rintro ⟨t, pos⟩ mem
  cases t with
  | list k items dot => exact absurd mem (h k items dot pos)
  | _ => rfl

theorem made_relabel (step : Step) (m : Made) :
    (step.relabel f).made (m.relabel f).data = (step.made m.data).relabel f := by
  cases step <;> rfl

theorem feedAll_relabel (m : Made) (ts : List (Token × Pos)) :
    feedAll modes (outside.relabel f) (m.relabel f) (relabelTokens f ts) =
      relabelResult f (Made.relabel f) (feedAll modes outside m ts) := by
  induction ts generalizing m with
  | nil => rfl
  | cons x ts ih =>
    obtain ⟨t, pos⟩ := x
    have same := @feed_relabel f modes outside m.stack t pos
    rw [relabelTokens, List.map_cons, ← relabelTokens]
    cases fed : feed modes outside m.stack t pos with
    | error e =>
      rw [fed] at same
      rw [feedAll_error fed, feedAll_error same]
      rfl
    | ok step =>
      rw [fed] at same
      rw [feedAll_ok fed, feedAll_ok same, made_relabel, ih]

theorem finish_relabel (stack : Stack) :
    finish (stack.map (Frame.relabel f)) = relabelResult f id (finish stack) := by
  induction stack with
  | nil => rfl
  | cons x stack ih =>
    cases x with
    | discard => exact ih
    | mark => rfl
    | list fuel pos k items phase => cases phase <;> rfl

theorem whole_relabel (stop : Option ReadError) (m : Made) :
    (m.relabel f).whole (stop.map (ReadError.relabel f)) =
      relabelResult f (List.map (Datum.relabel f)) (m.whole stop) := by
  cases stop with
  | some e => rfl
  | none =>
    simp only [Made.whole, Made.relabel, Option.map_none, finish_relabel]
    cases finish m.stack with
    | error e => rfl
    | ok =>
      have listed : (m.data.map (Datum.relabel f)).reverse = m.data.reverse.map (Datum.relabel f) :=
        List.map_reverse.symm
      exact congrArg Except.ok listed

/-- From the same tokens at other positions the same data are read, at these positions. -/
theorem readAll_relabel (modes : Modes) (ts : List (Token × Pos)) (stop : Option ReadError) :
    (ofTokens modes (relabelTokens f ts) (stop.map (ReadError.relabel f))).readAll.1 =
      relabelResult f (List.map (Datum.relabel f)) (ofTokens modes ts stop).readAll.1 := by
  have fed := @feedAll_relabel f modes .dotOutsideList .empty ts
  rw [readAll_feedAll, readAll_feedAll]
  cases made : feedAll modes .dotOutsideList .empty ts with
  | error e =>
    have failed : feedAll modes .dotOutsideList .empty (relabelTokens f ts) =
        .error (e.relabel f) := by
      rw [made] at fed
      exact fed
    rw [failed]
    rfl
  | ok m =>
    have made' : feedAll modes .dotOutsideList .empty (relabelTokens f ts) =
        .ok (m.relabel f) := by
      rw [made] at fed
      exact fed
    rw [made']
    exact whole_relabel stop m

end Reader

end Sexpr
