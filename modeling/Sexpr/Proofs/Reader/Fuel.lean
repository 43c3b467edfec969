import Sexpr.Proofs.Reader.Steps

/-!
The depth that a stack has left, told from its shape.

- `feed_measured`: one token keeps the account of every frame.
- `fuel_exact`: so does every reading, and nesting is too deep exactly where the account is used up.
-/

namespace Sexpr.Reader

/-- A list after its dot and before the datum that follows. -/
def Frame.awaitsTail : Frame → Bool
  | .list _ _ _ _ (.tail _) => true
  | _ => false

/-- What a stack takes of the depth: a unit for each frame, and one more for each list after its
dot. -/
def spent (stack : Stack) : Nat := stack.length + stack.countP Frame.awaitsTail

/-- Each frame has what the frames below it have not spent, less one unit for itself. A dot is
paid for in advance. -/
inductive Measured : Stack → Prop
  | empty : Measured []
  | frame {f : Frame} {below : Stack} (measured : Measured below)
      (exact : f.fuel + 1 + spent below = maxDepth)
      (paid : f.awaitsTail = true → 0 < f.fuel) : Measured (f :: below)

variable {modes : Modes} {outside : StructuralFault} {stop : Option ReadError}
  {stack below s : Stack} {t : Token} {pos p : Pos} {ts : List (Token × Pos)}

theorem spent_cons (f : Frame) (below : Stack) :
    spent (f :: below) = spent below + 1 + (if f.awaitsTail then 1 else 0) := by
  simp only [spent, List.length_cons, List.countP_cons]
  omega

theorem inner_add (f : Frame) (paid : f.awaitsTail = true → 0 < f.fuel) :
    f.inner + (if f.awaitsTail then 1 else 0) = f.fuel := by
  cases f with
  | mark | discard => rfl
  | list fuel start kind items phase =>
    cases phase with
    | items | close => rfl
    | tail dot =>
      have positive : 0 < fuel := paid rfl
      simp only [Frame.inner, Frame.awaitsTail, Frame.fuel, if_true]
      omega

/-- What is left for a datum is what the stack has not spent. -/
theorem innerDepth_add_spent (h : Measured stack) : innerDepth stack + spent stack = maxDepth := by
  cases h with
  | empty => rfl
  | @frame f below measured exact paid =>
    have inner := inner_add f paid
    rw [spent_cons]
    simp only [innerDepth]
    omega

theorem dropDiscards_measured (h : Measured stack) : Measured (dropDiscards stack) := by
  induction h with
  | empty => exact .empty
  | @frame f below measured exact paid ih =>
    cases f with
    | discard => exact ih
    | list | mark => exact .frame measured exact paid

/-- A datum changes what a frame holds, and not the depth it has. -/
theorem deliver_measured (h : Measured stack) (d : Datum) (delivered : deliver stack d = .stack s) :
    Measured s := by
  induction h generalizing d with
  | empty => cases delivered
  | @frame f below measured exact paid ih =>
    cases f with
    | discard =>
      cases delivered
      exact measured
    | mark fuel start m => exact ih _ delivered
    | list fuel start kind items phase =>
      have closed (items' : List Datum) (dot : Option Pos) :
          Measured (.list fuel start kind items' (.close dot) :: below) :=
        .frame measured exact (by rintro ⟨⟩)
      cases phase with
      | items =>
        cases delivered
        exact .frame measured exact (by rintro ⟨⟩)
      | close dot =>
        cases delivered
        exact closed _ _
      | tail dot =>
        cases d with
        | atom =>
          cases delivered
          exact closed _ _
        | list k more dot' pos' =>
          cases k with
          | round | square | curly =>
            cases delivered
            exact closed _ _

/-- One token keeps the account of every frame. -/
theorem feed_measured (h : Measured stack) (ok : feed modes outside stack t pos = .ok (.stack s)) :
    Measured s := by
  have pushed {f : Frame} {fuel : Nat} (room : innerDepth stack = fuel + 1) (same : f.fuel = fuel)
      (plain : f.awaitsTail = false) : Measured (f :: stack) := by
    have account := innerDepth_add_spent h
    refine .frame h (by omega) ?_
    intro tail
    rw [plain] at tail
    cases tail
  have inside := dropDiscards_measured h
  generalize made : Step.stack s = step at ok
  cases feeds_of_feed ok with
  | skipped =>
    cases made
    exact h
  | closing top =>
    rw [top] at inside
    cases inside with
    | frame measured => exact deliver_measured measured _ made.symm
  | dot top nonempty deep =>
    cases made
    rw [top] at inside
    cases inside with
    | frame measured exact => exact .frame measured exact fun _ => deep
  | datumComment room =>
    cases made
    exact pushed room rfl rfl
  | atom => exact deliver_measured h _ made.symm
  | list => exact deliver_measured h _ made.symm
  | opening waits room =>
    cases made
    exact pushed room rfl rfl
  | mark waits room =>
    cases made
    exact pushed room rfl rfl

theorem leads_measured (h : Measured stack) (leads : Leads modes outside stack ts s) :
    Measured s := by
  induction leads with
  | none => exact h
  | token fed _ ih => exact ih (feed_measured h fed)

/-! ## What the account says of each frame -/

theorem fuel_of_measured (h : Measured stack) {above : Stack} {f : Frame}
    (split : stack = above ++ f :: below) :
    f.fuel + (below.length + 1) + below.countP Frame.awaitsTail = maxDepth := by
  induction h generalizing above with
  | empty =>
    have length := congrArg List.length split
    simp at length
  | @frame g rest measured exact paid ih =>
    cases above with
    | nil =>
      obtain ⟨rfl, rfl⟩ := List.cons.inj split
      simp only [spent] at exact
      omega
    | cons g' above => exact ih (List.cons.inj split).2

theorem length_of_measured (h : Measured stack) : stack.length ≤ maxDepth := by
  have account := innerDepth_add_spent h
  simp only [spent] at account
  omega

/-! ## Nesting too deep -/

/-- The token needs a unit of depth and no other rule is against it. What it needs is taken from
the account of the last stack, since a dot ends the datum comments above its list. -/
inductive Spends (stack : Stack) : Token → Stack → Prop
  | opening {k : Bracket} (waits : expectsClose stack = false) : Spends stack (.opening k) stack
  | mark {m : Mark} (waits : expectsClose stack = false) : Spends stack (.mark m) stack
  | datumComment : Spends stack .datumComment stack
  | dot {fuel : Nat} {start : Pos} {items : List Datum} {below : Stack}
      (top : dropDiscards stack = .list fuel start .round items .items :: below)
      (nonempty : items ≠ []) : Spends stack .dot (dropDiscards stack)

theorem push_eq_tooDeep {frame : Nat → Frame} :
    push stack pos frame = fault .nestingTooDeep p ↔ p = pos ∧ innerDepth stack = 0 := by
  unfold push
  cases innerDepth stack with
  | zero => simp [fault, eq_comm]
  | succ fuel => simp [fault]

theorem dot_eq_tooDeep (inList : outside ≠ .nestingTooDeep) :
    dot outside pos stack = fault .nestingTooDeep p ↔
      p = pos ∧ ∃ start items below,
        stack = .list 0 start .round items .items :: below ∧ items ≠ [] := by
  cases stack with
  | nil => simp [dot, fault, inList]
  | cons f below =>
    cases f with
    | mark | discard => simp [dot, fault]
    | list fuel start kind items phase =>
      by_cases round : kind = .round
      · subst round
        cases phase with
        | tail | close => simp [dot, fault]
        | items =>
          by_cases first : items = []
          · simp [dot, fault, first]
          · by_cases spent : fuel = 0
            · subst spent
              have tooDeep : dot outside pos (.list 0 start .round items .items :: below) =
                  fault .nestingTooDeep pos := by
                simp [dot, first]
              rw [tooDeep]
              constructor
              · rintro ⟨⟩
                exact ⟨rfl, start, items, below, rfl, first⟩
              · rintro ⟨rfl, -⟩
                rfl
            · simp [dot, fault, first, spent]
      · simp [dot, fault, round]

theorem close_ne_tooDeep (k : Bracket) :
    close modes k pos stack ≠ fault .nestingTooDeep p := by
  cases stack with
  | nil => simp [close, fault]
  | cons f below =>
    cases f with
    | mark | discard => simp [close, fault]
    | list fuel start kind items phase =>
      cases phase with
      | tail dot => simp [close, fault]
      | items | close =>
        rw [close_list _ _ _ _ (by simp)]
        unfold complete
        by_cases kinds : k = kind
        · simp only [kinds, ne_eq, not_true_eq_false, if_false]
          split <;> simp [Except.map, fault]
        · simp [kinds, Except.map, fault]

theorem spends_opening {k : Bracket} {top : Stack} :
    Spends stack (.opening k) top ↔ expectsClose stack = false ∧ top = stack := by
  constructor
  · intro h
    cases h with
    | opening waits => exact ⟨waits, rfl⟩
  · rintro ⟨waits, rfl⟩
    exact .opening waits

theorem spends_mark {m : Mark} {top : Stack} :
    Spends stack (.mark m) top ↔ expectsClose stack = false ∧ top = stack := by
  constructor
  · intro h
    cases h with
    | mark waits => exact ⟨waits, rfl⟩
  · rintro ⟨waits, rfl⟩
    exact .mark waits

theorem spends_datumComment {top : Stack} : Spends stack .datumComment top ↔ top = stack := by
  constructor
  · intro h
    cases h with
    | datumComment => rfl
  · rintro rfl
    exact .datumComment

/-- A token finds nesting too deep exactly if all depth is spent when it needs some. -/
theorem feed_eq_tooDeep (h : Measured stack) (inList : outside ≠ .nestingTooDeep) :
    feed modes outside stack t pos = fault .nestingTooDeep p ↔
      p = pos ∧ ∃ top, Spends stack t top ∧ spent top = maxDepth := by
  have empty : innerDepth stack = 0 ↔ spent stack = maxDepth := by
    have account := innerDepth_add_spent h
    omega
  have never (fine : feed modes outside stack t pos ≠ fault .nestingTooDeep p)
      (none : ∀ top, ¬ Spends stack t top) :
      feed modes outside stack t pos = fault .nestingTooDeep p ↔
        p = pos ∧ ∃ top, Spends stack t top ∧ spent top = maxDepth := by
    simp [fine, none]
  cases t with
  | blank | comment | blockComment => exact never (by simp [feed, fault]) (by rintro top ⟨⟩)
  | closing k => exact never (close_ne_tooDeep k) (by rintro top ⟨⟩)
  | atom | list | unknown =>
    refine never ?_ (by rintro top ⟨⟩)
    cases waits : expectsClose stack <;> simp [feed, fault, waits]
  | datumComment => simp [feed, push_eq_tooDeep, empty, spends_datumComment]
  | opening k =>
    cases waits : expectsClose stack with
    | true => simp [feed, fault, waits, spends_opening]
    | false => simp [feed, waits, push_eq_tooDeep, empty, spends_opening]
  | mark m =>
    cases waits : expectsClose stack with
    | true => simp [feed, fault, waits, spends_mark]
    | false => simp [feed, waits, push_eq_tooDeep, empty, spends_mark]
  | dot =>
    have inside := innerDepth_add_spent (dropDiscards_measured h)
    simp only [feed, dot_eq_tooDeep inList]
    constructor
    · rintro ⟨rfl, start, items, below, top, nonempty⟩
      refine ⟨rfl, _, .dot top nonempty, ?_⟩
      rw [top] at inside ⊢
      simpa [innerDepth, Frame.inner, Frame.fuel] using inside
    · rintro ⟨rfl, top, spends, used⟩
      cases spends with
      | @dot fuel start items below found nonempty =>
        rw [found] at inside used
        have none : fuel = 0 := by
          simp only [innerDepth, Frame.inner, Frame.fuel] at inside
          omega
        subst none
        exact ⟨rfl, start, items, below, found, nonempty⟩

theorem finish_ne_tooDeep (stack : Stack) : finish stack ≠ fault .nestingTooDeep p := by
  induction stack with
  | nil => simp [finish, fault]
  | cons f below ih =>
    cases f with
    | discard => exact ih
    | mark => simp [finish, fault]
    | list _ _ _ _ phase => cases phase <;> simp [finish, fault]

/-- A reading fails for its depth at a token that finds nesting too deep. -/
theorem readFrom_eq_tooDeep (h : Measured stack) (inList : outside ≠ .nestingTooDeep)
    (other : stop ≠ some ⟨.structural .nestingTooDeep, p⟩) :
    (readFrom modes outside stop stack ts).result = fault .nestingTooDeep p ↔
      ∃ before t after s top, ts = before ++ (t, p) :: after ∧
        Leads modes outside stack before s ∧ Spends s t top ∧ spent top = maxDepth := by
  induction ts generalizing stack with
  | nil =>
    have fine := finish_ne_tooDeep (p := p) stack
    constructor
    · intro failed
      exfalso
      cases stop with
      | some e => exact other (congrArg some (Except.error.inj failed))
      | none =>
        cases ends : finish stack with
        | ok => simp [readFrom, ends, fault, Except.map] at failed
        | error e =>
          rw [ends] at fine
          simp only [readFrom, ends, Except.map] at failed
          exact fine (congrArg Except.error (Except.error.inj failed))
    · rintro ⟨before, t, after, s, top, split, -⟩
      simp at split
  | cons x rest ih =>
    obtain ⟨t, pos⟩ := x
    have deep := @feed_eq_tooDeep modes outside stack t pos p h inList
    rw [readFrom_cons]
    constructor
    · intro failed
      cases fed : feed modes outside stack t pos with
      | error e =>
        rw [fed] at failed deep
        have same : e = ⟨.structural .nestingTooDeep, p⟩ := Except.error.inj failed
        obtain ⟨rfl, top, spends, used⟩ := deep.1 (by rw [same]; rfl)
        exact ⟨[], t, rest, stack, top, rfl, .none stack, spends, used⟩
      | ok step =>
        rw [fed] at failed
        cases step with
        | datum d => cases failed
        | stack next =>
          obtain ⟨before, t', after, s, top, rfl, leads, more⟩ :=
            (ih (feed_measured h fed)).1 failed
          exact ⟨(t, pos) :: before, t', after, s, top, rfl, .token fed leads, more⟩
    · rintro ⟨before, t', after, s, top, split, leads, spends, used⟩
      cases leads with
      | none =>
        obtain ⟨⟨⟩, rfl⟩ := List.cons.inj split
        rw [deep.2 ⟨rfl, top, spends, used⟩]
        rfl
      | token fed more =>
        obtain ⟨⟨⟩, rfl⟩ := List.cons.inj split
        rw [fed]
        exact (ih (feed_measured h fed)).2 ⟨_, t', after, s, top, rfl, more, spends, used⟩

/-- On the way through any tokens each frame has the whole depth less its own height and less one
unit for each list below it that is after its dot, and there are never more frames than depth.
So a token finds nesting too deep exactly if it needs a unit and the frames, together with the lists
after their dot, have used up all; and only at such a token does a reading fail for its depth. -/
theorem fuel_exact (modes : Modes) {outside : StructuralFault}
    (dotOutside : outside = .misplacedDot ∨ outside = .dotOutsideList) :
    (∀ ts stack, Leads modes outside [] ts stack →
      (∀ above f below, stack = above ++ f :: below →
        f.fuel + (below.length + 1) + below.countP Frame.awaitsTail = maxDepth) ∧
      stack.length ≤ maxDepth ∧
      ∀ t pos p, feed modes outside stack t pos = fault .nestingTooDeep p ↔
        p = pos ∧ ∃ top, Spends stack t top ∧
          top.length + top.countP Frame.awaitsTail = maxDepth) ∧
    ∀ ts stop p, stop ≠ some ⟨.structural .nestingTooDeep, p⟩ →
      ((readFrom modes outside stop [] ts).result = fault .nestingTooDeep p ↔
        ∃ before t after stack top, ts = before ++ (t, p) :: after ∧
          Leads modes outside [] before stack ∧ Spends stack t top ∧
          top.length + top.countP Frame.awaitsTail = maxDepth) := by
  have inList : outside ≠ .nestingTooDeep := by
    rcases dotOutside with rfl | rfl <;> simp
  constructor
  · intro ts stack leads
    have measured := leads_measured .empty leads
    refine ⟨?_, length_of_measured measured, ?_⟩
    · intro above f below split
      exact fuel_of_measured measured split
    · intro t pos p
      exact feed_eq_tooDeep measured inList
  · intro ts stop p other
    exact readFrom_eq_tooDeep .empty inList other

theorem fuel_exact_tail :
    let below : Stack := [.list 499 ⟨0, 0⟩ .round [.symbol "a" (some ⟨0, 1⟩)] (.tail ⟨0, 3⟩)]
    Leads .standard .misplacedDot []
      [(.opening .round, ⟨0, 0⟩), (.atom (.symbol "a"), ⟨0, 1⟩), (.dot, ⟨0, 3⟩),
        (.opening .square, ⟨0, 5⟩)] (.list 497 ⟨0, 5⟩ .square [] .items :: below) ∧
      497 + (below.length + 1) + below.countP Frame.awaitsTail = maxDepth := by
  intro below
  have leads : Leads .standard .misplacedDot []
      [(.opening .round, ⟨0, 0⟩), (.atom (.symbol "a"), ⟨0, 1⟩), (.dot, ⟨0, 3⟩),
        (.opening .square, ⟨0, 5⟩)] (.list 497 ⟨0, 5⟩ .square [] .items :: below) :=
    .token rfl (.token rfl (.token rfl (.token rfl (.none _))))
  have exact := ((fuel_exact .standard (.inl rfl)).1 _ _ leads).1 [] _ below rfl
  exact ⟨leads, exact⟩

end Sexpr.Reader
