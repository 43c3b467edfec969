import Sexpr.Proofs.Reader.Strict

/-!
What the reader blames for a fault.

- `rejects_of_feed`: all that can be wrong with one token.
- `failsAt_of_readAll`: reading fails at one of the tokens, at their end, or with the fault that ends
  them.
- `feedAll_placed`: what is open stands where its token does, and so does a dot.
-/

namespace Sexpr

/-- The fault says of a dot that it stands in a wrong place. -/
def StructuralFault.isOfDot : StructuralFault → Bool
  | .dotOutsideList | .misplacedDot | .dotInWrongList _ | .dotWithoutPrecedingItem => true
  | _ => false

namespace Reader

variable {modes : Modes} {stack : Stack} {t : Token} {pos : Pos} {e : ReadError} {d : Datum}
  {ts : Tokens} {us vs : List (Token × Pos)}

/-! ## What can be wrong -/

/-- What is wrong with one token, or at it. -/
inductive Rejects (stack : Stack) (pos : Pos) : Token → ReadError → Prop
  | dot {f : StructuralFault} (placement : f.isOfDot = true) :
      Rejects stack pos .dot ⟨.structural f, pos⟩
  | crowded {t : Token} : Rejects stack pos t ⟨.structural .moreThanOneItemAfterDot, pos⟩
  | deep {t : Token} : Rejects stack pos t ⟨.structural .nestingTooDeep, pos⟩
  | unknown : Rejects stack pos .unknown ⟨.structural .unknownToken, pos⟩
  | unexpected {k : Bracket} (none : dropDiscards stack = []) :
      Rejects stack pos (.closing k) ⟨.structural (.unexpectedClosing k), pos⟩
  | unmarked {k : Bracket} {fuel : Nat} {start : Pos} {m : Mark} {below : Stack}
      (top : dropDiscards stack = .mark fuel start m :: below) :
      Rejects stack pos (.closing k) ⟨.structural (.missingDatumAfter m.name), start⟩
  | dangling {k : Bracket} : Rejects stack pos (.closing k) ⟨.structural .missingItemAfterDot, pos⟩
  | mismatch {k kind : Bracket} {fuel : Nat} {start : Pos} {items : List Datum} {phase : Phase}
      {below : Stack} (top : dropDiscards stack = .list fuel start kind items phase :: below)
      (other : kind ≠ k) :
      Rejects stack pos (.closing k) ⟨.structural (.mismatch kind start k), pos⟩
  | improper {k : Bracket} {fuel : Nat} {start dot : Pos} {items : List Datum} {phase : Phase}
      {below : Stack} (top : dropDiscards stack = .list fuel start k items phase :: below)
      (dotted : phase.dot? = some dot) :
      Rejects stack pos (.closing k) ⟨.structural .improperListForbidden, dot⟩

theorem rejects_of_push {frame : Nat → Frame} (failed : push stack pos frame = .error e) :
    Rejects stack pos t e := by
  unfold push at failed
  split at failed
  · cases failed
    exact .deep
  · cases failed

theorem rejects_of_dot {top : Stack} (failed : dot .dotOutsideList pos top = .error e) :
    Rejects stack pos .dot e := by
  revert failed
  fun_cases dot .dotOutsideList pos top with
  | case1 | case2 | case3 | case4 | case5 | case7 =>
    rintro ⟨⟩
    exact .dot rfl
  | case6 =>
    rintro ⟨⟩
    exact .crowded
  | case8 =>
    rintro ⟨⟩
    exact .deep
  | case9 => rintro ⟨⟩

theorem rejects_of_close {k : Bracket}
    (failed : close modes k pos (dropDiscards stack) = .error e) :
    Rejects stack pos (.closing k) e := by
  generalize top : dropDiscards stack = s at failed
  revert failed
  fun_cases close modes k pos s with
  | case1 =>
    rintro ⟨⟩
    exact .unexpected top
  | case2 => exact absurd top top_dropDiscards
  | case3 =>
    rintro ⟨⟩
    exact .unmarked top
  | case4 =>
    rintro ⟨⟩
    exact .dangling
  | case5 fuel start kind items below phase _ other =>
    rintro ⟨⟩
    exact .mismatch top (Ne.symm other)
  | case6 fuel start kind items below phase _ same dot _ dotted =>
    rintro ⟨⟩
    obtain rfl : k = kind := Decidable.not_not.1 same
    exact .improper top dotted
  | case7 => rintro ⟨⟩

theorem rejects_of_feed (failed : feed modes .dotOutsideList stack t pos = .error e) :
    Rejects stack pos t e := by
  have enters {other : Except ReadError Step}
      (failed : (if expectsClose stack then fault .moreThanOneItemAfterDot pos else other) =
        .error e) (rejects : other = .error e → Rejects stack pos t e) :
      Rejects stack pos t e := by
    split at failed
    · cases failed
      exact .crowded
    · exact rejects failed
  cases t with
  | blank | comment | blockComment => cases failed
  | closing k => exact rejects_of_close failed
  | dot => exact rejects_of_dot failed
  | datumComment => exact rejects_of_push failed
  | atom | list => exact enters failed (by rintro ⟨⟩)
  | opening | mark => exact enters failed rejects_of_push
  | unknown =>
    refine enters failed ?_
    rintro ⟨⟩
    exact .unknown

/-- What is wrong with a stack at the end of the tokens. -/
inductive EndsOpen (stack : Stack) : ReadError → Prop
  | unmarked {fuel : Nat} {start : Pos} {m : Mark} {below : Stack}
      (top : dropDiscards stack = .mark fuel start m :: below) :
      EndsOpen stack ⟨.structural (.missingDatumAfter m.name), start⟩
  | dangling {k : Bracket} {fuel : Nat} {start dot : Pos} {items : List Datum} {below : Stack}
      (top : dropDiscards stack = .list fuel start k items (.tail dot) :: below) :
      EndsOpen stack ⟨.structural .missingItemAfterDot, dot⟩
  | unclosed {k : Bracket} {fuel : Nat} {start : Pos} {items : List Datum} {phase : Phase}
      {below : Stack} (top : dropDiscards stack = .list fuel start k items phase :: below) :
      EndsOpen stack ⟨.structural (.unclosed k), start⟩

theorem endsOpen_of_finish (failed : finish stack = .error e) : EndsOpen stack e := by
  revert failed
  fun_induction finish stack with
  | case1 => rintro ⟨⟩
  | case2 fuel pos stack ih =>
    intro failed
    cases ih failed with
    | unmarked top => exact .unmarked top
    | dangling top => exact .dangling top
    | unclosed top => exact .unclosed top
  | case3 =>
    rintro ⟨⟩
    exact .unmarked rfl
  | case4 =>
    rintro ⟨⟩
    exact .dangling rfl
  | case5 =>
    rintro ⟨⟩
    exact .unclosed rfl

/-! ## Where reading fails -/

/-- Where a fault of the order of tokens is found: at a token, after those before it, or after all
of them. -/
inductive FailsAt (modes : Modes) (ts : Tokens) (e : ReadError) :
    List (Token × Pos) → Option (Token × Pos) → Prop
  | token {before after : List (Token × Pos)} {t : Token} {p : Pos} {m : Made}
      (split : ts.pairs = before ++ (t, p) :: after)
      (fed : feedAll modes .dotOutsideList .empty before = .ok m)
      (fails : feed modes .dotOutsideList m.stack t p = .error e) :
      FailsAt modes ts e before (some (t, p))
  | ended {m : Made} (noStop : ts.stop = none)
      (fed : feedAll modes .dotOutsideList .empty ts.pairs = .ok m)
      (fails : finish m.stack = .error e) : FailsAt modes ts e ts.pairs none

theorem failsAt_of_readAll (failed : (ofTokens modes ts.pairs ts.stop).readAll.1 = .error e) :
    ts.stop = some e ∨ ∃ before cause, FailsAt modes ts e before cause := by
  rw [readAll_feedAll] at failed
  cases fed : feedAll modes .dotOutsideList .empty ts.pairs with
  | error e' =>
    rw [fed] at failed
    cases failed
    obtain ⟨before, t, p, after, m, split, upTo, fails⟩ := exists_of_feedAll_error fed
    exact .inr ⟨before, some (t, p), .token split upTo fails⟩
  | ok m =>
    rw [fed] at failed
    cases stop : ts.stop with
    | some e' =>
      rw [stop] at failed
      cases failed
      exact .inl rfl
    | none =>
      rw [stop] at failed
      cases fails : finish m.stack with
      | ok u => simp [Except.bind, Made.whole, fails, Except.map] at failed
      | error e' =>
        simp only [Except.bind, Made.whole, fails, Except.map, Except.error.injEq] at failed
        subst failed
        exact .inr ⟨ts.pairs, none, .ended stop fed fails⟩

theorem FailsAt.structural {before : List (Token × Pos)} {cause : Option (Token × Pos)}
    (h : FailsAt modes ts e before cause) : ∃ f p, e = ⟨.structural f, p⟩ := by
  cases h with
  | token _ _ fails => exact feed_structural e fails
  | ended _ _ fails => cases endsOpen_of_finish fails <;> exact ⟨_, _, rfl⟩

/-! ## Where it stands -/

/-- A frame stands where its token does, and its dot where that does. -/
def Frame.Placed (us : List (Token × Pos)) : Frame → Prop
  | .list _ pos k _ phase => (.opening k, pos) ∈ us ∧ ∀ dot ∈ phase.dot?, (.dot, dot) ∈ us
  | .mark _ pos m => (.mark m, pos) ∈ us
  | .discard _ pos => (.datumComment, pos) ∈ us

def Placed (us : List (Token × Pos)) (stack : Stack) : Prop := ∀ f ∈ stack, f.Placed us

theorem Placed.more (h : Placed us stack) (vs : List (Token × Pos)) : Placed (us ++ vs) stack := by
  intro f hf
  have placed := h f hf
  cases f with
  | list => exact ⟨List.mem_append_left vs placed.1,
      fun dot found => List.mem_append_left vs (placed.2 dot found)⟩
  | mark | discard => exact List.mem_append_left vs placed

theorem placed_cons {f : Frame} : Placed us (f :: stack) ↔ f.Placed us ∧ Placed us stack :=
  List.forall_mem_cons

theorem Placed.dropDiscards (h : Placed us stack) : Placed us (dropDiscards stack) := by
  fun_induction Reader.dropDiscards stack with
  | case1 _ _ stack ih => exact ih (placed_cons.1 h).2
  | case2 => exact h

/-- A list that is spliced in hands its dot over, so that must stand among the tokens too. -/
theorem deliver_placed (h : Placed us stack) (dotted : ∀ dot ∈ d.dot?, (.dot, dot) ∈ us)
    (data : List Datum) : Placed us ((deliver stack d).made data).stack := by
  fun_induction deliver stack d with
  | case1 => exact h
  | case2 => exact (placed_cons.1 h).2
  | case3 _ pos m stack d ih =>
    exact ih (placed_cons.1 h).2 (by rintro dot ⟨⟩)
  | case4 fuel pos kind items dot stack more dot' _ =>
    obtain ⟨first, below⟩ := placed_cons.1 h
    exact placed_cons.2 ⟨⟨first.1, dotted⟩, below⟩
  | case5 | case6 =>
    obtain ⟨first, below⟩ := placed_cons.1 h
    exact placed_cons.2 ⟨first, below⟩

theorem feed_placed {step : Step} (h : Placed us stack) (plain : Plain [(t, pos)])
    (fed : feed modes .dotOutsideList stack t pos = .ok step) (data : List Datum) :
    Placed (us ++ [(t, pos)]) (step.made data).stack := by
  have more := h.more [(t, pos)]
  have top := more.dropDiscards
  have last : (t, pos) ∈ us ++ [(t, pos)] := by simp
  cases feeds_of_feed fed with
  | skipped => exact more
  | @closing fuel start k items phase below closed =>
    rw [closed] at top
    obtain ⟨first, below⟩ := placed_cons.1 top
    exact deliver_placed (d := .list k items.reverse phase.dot? (some start)) below first.2 data
  | dot dotted =>
    rw [dotted] at top
    obtain ⟨first, below⟩ := placed_cons.1 top
    refine placed_cons.2 ⟨⟨first.1, ?_⟩, below⟩
    rintro dot ⟨⟩
    exact last
  | datumComment | mark => exact placed_cons.2 ⟨last, more⟩
  | opening => exact placed_cons.2 ⟨⟨last, by rintro dot ⟨⟩⟩, more⟩
  | atom => exact deliver_placed more (by rintro dot ⟨⟩) data
  | list => exact absurd List.mem_cons_self (plain _ _ _ _)

theorem feedAll_placed {m m' : Made} (h : Placed us m.stack) (plain : Plain vs)
    (fed : feedAll modes .dotOutsideList m vs = .ok m') : Placed (us ++ vs) m'.stack := by
  induction vs generalizing m us with
  | nil =>
    cases fed
    rwa [List.append_nil]
  | cons x vs ih =>
    obtain ⟨t, pos⟩ := x
    cases first : feed modes .dotOutsideList m.stack t pos with
    | error e =>
      rw [feedAll_error first] at fed
      cases fed
    | ok step =>
      rw [feedAll_ok first] at fed
      have one : Plain [(t, pos)] := plain.of_inside (List.prefix_append [(t, pos)] vs).isInfix
      rw [List.append_cons]
      exact ih (feed_placed h one first m.data) (plain.of_inside (List.suffix_cons _ _).isInfix) fed

end Reader

end Sexpr
