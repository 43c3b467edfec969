import Sexpr.Proofs.Reader.Descent
import Sexpr.Proofs.Reader.Feeding
import Sexpr.Proofs.Reader.Fuel

/-!
Whatever is open can be completed.

- `completes_stack`: some atoms and closing brackets complete every stack.
- `no_dead_end`: so a fault is found at the first token that nothing can follow any more.
-/

namespace Sexpr.Reader

/-- No bracket can close before a datum is handed to the stack, or there is none to close. -/
def wantsDatum : Stack → Bool
  | .mark .. :: _ | .discard .. :: _ | .list _ _ _ _ (.tail _) :: _ => true
  | _ => false

/-- A datum where one is wanted. -/
def filler (stack : Stack) : List Token :=
  if wantsDatum stack then [.atom (.symbol "x")] else []

/-- What completes a stack after a datum is handed to it. -/
def closings : Stack → List Token
  | [] => []
  | .mark .. :: below => closings below
  | .discard .. :: below => filler below ++ closings below
  | .list _ _ kind _ _ :: below => .closing kind :: closings below

/-- What completes a stack. -/
def completion (stack : Stack) : List Token := filler stack ++ closings stack

/-- Atoms and closing brackets, none of which takes depth from any stack. -/
def Depthless (more : List Token) : Prop :=
  ∀ t ∈ more, ((∃ a, t = .atom a) ∨ ∃ k, t = .closing k) ∧ ∀ stack top, ¬ Spends stack t top

/-- Tokens at any positions complete everything. -/
def Completes (modes : Modes) (outside : StructuralFault) (m : Made) (more : List Token) : Prop :=
  ∀ us, us.map Prod.fst = more → ∃ ds, feedAll modes outside m us = .ok ⟨ds ++ m.data, []⟩

variable {modes : Modes} {outside : StructuralFault} {m : Made} {stack below : Stack}
  {more : List Token}

/-! ## Tokens that take no depth -/

theorem Depthless.append {more' : List Token} (h : Depthless more) (h' : Depthless more') :
    Depthless (more ++ more') := by
  intro t ht
  rcases List.mem_append.1 ht with first | later
  · exact h t first
  · exact h' t later

theorem depthless_filler (stack : Stack) : Depthless (filler stack) := by
  intro t ht
  unfold filler at ht
  split at ht
  · obtain rfl := List.mem_singleton.1 ht
    exact ⟨.inl ⟨_, rfl⟩, by rintro stack top ⟨⟩⟩
  · cases ht

theorem depthless_closings (stack : Stack) : Depthless (closings stack) := by
  fun_induction closings stack with
  | case1 => rintro t ⟨⟩
  | case2 _ _ _ below ih => exact ih
  | case3 _ _ below ih => exact (depthless_filler below).append ih
  | case4 _ _ kind _ _ below ih =>
    have bracket : Depthless [.closing kind] := by
      intro t ht
      obtain rfl := List.mem_singleton.1 ht
      exact ⟨.inr ⟨_, rfl⟩, by rintro stack top ⟨⟩⟩
    exact bracket.append ih

theorem depthless_completion (stack : Stack) : Depthless (completion stack) :=
  (depthless_filler stack).append (depthless_closings stack)

/-! ## Completing a stack -/

theorem exists_data_made (data : List Datum) (step : Step) :
    ∃ ds, (step.made data).data = ds ++ data := by
  cases step with
  | datum d => exact ⟨[d], rfl⟩
  | stack s => exact ⟨[], rfl⟩

theorem completes_nil (data : List Datum) : Completes modes outside ⟨data, []⟩ [] := by
  intro us tokens
  obtain rfl := List.map_eq_nil_iff.1 tokens
  exact ⟨[], rfl⟩

theorem Completes.cons {t : Token}
    (fed : ∀ pos, ∃ step, feed modes outside m.stack t pos = .ok step ∧
      Completes modes outside (step.made m.data) more) :
    Completes modes outside m (t :: more) := by
  intro us tokens
  obtain ⟨⟨t', pos⟩, us, rfl, rfl, rest⟩ := List.map_eq_cons_iff.1 tokens
  obtain ⟨step, ok, completes⟩ := fed pos
  obtain ⟨ds, last⟩ := completes us rest
  obtain ⟨es, made⟩ := exists_data_made m.data step
  refine ⟨ds ++ es, ?_⟩
  rw [feedAll_ok ok, last, made, List.append_assoc]

theorem feed_atom (waits : expectsClose stack = false) (a : Atom) (pos : Pos) :
    feed modes outside stack (.atom a) pos = .ok (deliver stack (.atom a (some pos))) := by
  simp [feed, waits]

/-- A list that nothing is missing from is closed. -/
theorem completes_list (lenient : modes.allowImproperLists = true) {fuel : Nat} {start : Pos}
    {k : Bracket} {items : List Datum} {phase : Phase} (noTail : ∀ dot, phase ≠ .tail dot)
    (more : ∀ data d, Completes modes outside ((deliver below d).made data) (closings below))
    (data : List Datum) :
    Completes modes outside ⟨data, .list fuel start k items phase :: below⟩
      (.closing k :: closings below) := by
  apply Completes.cons
  intro pos
  exact ⟨_, feed_closing rfl noTail (fun _ => lenient) pos, more _ _⟩

/-- Where a datum is wanted an atom will do. -/
theorem completes_filler
    (more : ∀ data d, Completes modes outside ((deliver stack d).made data) (closings stack))
    (full : wantsDatum stack = false →
      ∀ data, Completes modes outside ⟨data, stack⟩ (closings stack))
    (data : List Datum) : Completes modes outside ⟨data, stack⟩ (completion stack) := by
  unfold completion filler
  cases wants : wantsDatum stack with
  | false => exact full wants data
  | true =>
    have waits : expectsClose stack = false := by
      unfold wantsDatum at wants
      split at wants
      · rfl
      · rfl
      · rfl
      · cases wants
    apply Completes.cons
    intro pos
    exact ⟨_, feed_atom waits _ pos, more _ _⟩

/-- By induction on the stack, after a datum and before one. -/
theorem completes_stack (lenient : modes.allowImproperLists = true) (stack : Stack) :
    (∀ data d, Completes modes outside ((deliver stack d).made data) (closings stack)) ∧
      ∀ data, Completes modes outside ⟨data, stack⟩ (completion stack) := by
  induction stack with
  | nil =>
    constructor
    · intro data d
      exact completes_nil (d :: data)
    · exact completes_nil
  | cons f below ih =>
    obtain ⟨after, before⟩ := ih
    cases f with
    | mark fuel pos a =>
      have handed : ∀ data d, Completes modes outside
          ((deliver (.mark fuel pos a :: below) d).made data) (closings below) := by
        intro data d
        exact after data _
      exact ⟨handed, completes_filler handed (by rintro ⟨⟩)⟩
    | discard fuel pos =>
      have handed : ∀ data d, Completes modes outside
          ((deliver (.discard fuel pos :: below) d).made data) (completion below) := by
        intro data d
        exact before data
      exact ⟨handed, completes_filler handed (by rintro ⟨⟩)⟩
    | list fuel start k items phase =>
      have handed : ∀ data d, Completes modes outside
          ((deliver (.list fuel start k items phase :: below) d).made data)
          (.closing k :: closings below) := by
        intro data d
        cases phase with
        | items | close => exact completes_list lenient (by simp) after data
        | tail dot =>
          rw [Descent.deliver_tail]
          exact completes_list lenient (by simp) after data
      refine ⟨handed, completes_filler handed ?_⟩
      intro full data
      have noTail : ∀ dot, phase ≠ .tail dot := by
        rintro dot rfl
        cases full
      exact completes_list lenient noTail after data

/-- Some atoms and closing brackets, at any positions, complete everything that is open, however
little depth is left. So tokens that are no fault so far can always go on to be read, and no fault
could have been found at an earlier token. -/
theorem no_dead_end (lenient : modes.allowImproperLists = true) :
    (∀ ts, (∃ m, feedAll modes .dotOutsideList .empty ts = .ok m) ↔
      ∃ more, Depthless more ∧ ∀ us, us.map Prod.fst = more →
        ∃ ds, (ofTokens modes (ts ++ us) none).readAll.1 = .ok ds) ∧
    ∀ outside m, ∃ more, Depthless more ∧ Completes modes outside m more := by
  constructor
  · intro ts
    constructor
    · rintro ⟨m, made⟩
      refine ⟨completion m.stack, depthless_completion m.stack, ?_⟩
      intro us tokens
      obtain ⟨ds, completed⟩ := (completes_stack lenient m.stack).2 m.data us tokens
      refine ⟨(ds ++ m.data).reverse, ?_⟩
      rw [readAll_ok_iff_feedAll, feedAll_append, made]
      exact ⟨rfl, _, completed, rfl, rfl⟩
    · rintro ⟨more, -, completes⟩
      obtain ⟨ds, read⟩ := completes (more.map fun t => (t, .start)) (by simp [Function.comp_def])
      obtain ⟨-, m, made, -⟩ := readAll_ok_iff_feedAll.1 read
      rw [feedAll_append] at made
      cases first : feedAll modes .dotOutsideList .empty ts with
      | error e =>
        rw [first] at made
        cases made
      | ok m => exact ⟨m, rfl⟩
  · intro outside m
    exact ⟨_, depthless_completion m.stack, (completes_stack lenient m.stack).2 m.data⟩

/-- The tokens of `(a . '#;`, and what they leave if there were no depth at all. -/
theorem no_dead_end_tail :
    let ts : List (Token × Pos) := [(.opening .round, ⟨0, 0⟩), (.atom (.symbol "a"), ⟨0, 1⟩),
      (.dot, ⟨0, 3⟩), (.mark .quote, ⟨0, 5⟩), (.datumComment, ⟨0, 6⟩)]
    let m : Made := ⟨[], [.discard 0 ⟨0, 6⟩, .mark 0 ⟨0, 5⟩ .quote,
      .list 0 ⟨0, 0⟩ .round [.symbol "a" (some ⟨0, 1⟩)] (.tail ⟨0, 3⟩)]⟩
    Modes.standard.allowImproperLists = true ∧
      (∃ more, Depthless more ∧ ∀ us, us.map Prod.fst = more →
        ∃ ds, (ofTokens .standard (ts ++ us) none).readAll.1 = .ok ds) ∧
      ∃ more, Depthless more ∧ Completes .standard .misplacedDot m more := by
  intro ts m
  have every := @no_dead_end .standard rfl
  exact ⟨rfl, (every.1 ts).1 ⟨_, rfl⟩, every.2 .misplacedDot m⟩

end Sexpr.Reader
