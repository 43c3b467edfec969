import Sexpr.Proofs.Reader.Steps

/-!
Reading by recursive descent. A datum is an atom, a mark with the datum after it, or a bracketed
list of data, and each of them is read by a function of its own, without a stack.

- `readFrom_descent`: reading with a stack gives the same datum, end or fault, and leaves the same
  tokens.
-/

namespace Sexpr.Reader

namespace Descent

/-- A datum or a part of one with the tokens after it, which are fewer than `n`; or a fault. -/
inductive Parsed (α : Type) (n : Nat)
  | found (a : α) (rest : List (Token × Pos)) (shorter : rest.length < n)
  | failed (e : ReadError) (rest : List (Token × Pos)) (atEnd : Bool)

/-- What stands after blanks, comments and data that are commented out: the first token of a
datum, a closing bracket, a dot, or the end of the tokens. -/
inductive Ahead (n : Nat)
  | datum (t : Token) (pos : Pos) (rest : List (Token × Pos)) (shorter : rest.length < n)
  | closing (kind : Bracket) (pos : Pos) (rest : List (Token × Pos)) (shorter : rest.length < n)
  | dot (pos : Pos) (rest : List (Token × Pos)) (shorter : rest.length < n)
  | ended
  | failed (e : ReadError) (rest : List (Token × Pos)) (atEnd : Bool)

variable {α : Type} {m n : Nat}

/-- What is left after a datum that begins later is still fewer. -/
theorem lt_of_later {later : Nat} (h : later < m + 1) (h' : m < n) : later < n :=
  Nat.lt_of_le_of_lt (Nat.le_of_lt_succ h) h'

def Parsed.widen (h : m ≤ n) : Parsed α m → Parsed α n
  | .found a rest shorter => .found a rest (Nat.lt_of_lt_of_le shorter h)
  | .failed e rest atEnd => .failed e rest atEnd

def Ahead.widen (h : m ≤ n) : Ahead m → Ahead n
  | .datum t pos rest shorter => .datum t pos rest (Nat.lt_of_lt_of_le shorter h)
  | .closing k pos rest shorter => .closing k pos rest (Nat.lt_of_lt_of_le shorter h)
  | .dot pos rest shorter => .dot pos rest (Nat.lt_of_lt_of_le shorter h)
  | .ended => .ended
  | .failed e rest atEnd => .failed e rest atEnd

def wrong (f : StructuralFault) (pos : Pos) (rest : List (Token × Pos)) : Parsed α n :=
  .failed ⟨.structural f, pos⟩ rest false

/-- The end of the tokens where more was needed; a fault of the source goes before. -/
def cutOff (stop : Option ReadError) (f : StructuralFault) (pos : Pos) : Parsed α n :=
  .failed (stop.getD ⟨.structural f, pos⟩) [] true

def Parsed.ofResult (rest : List (Token × Pos)) (shorter : rest.length < n) :
    Except ReadError α → Parsed α n
  | .ok a => .found a rest shorter
  | .error e => .failed e rest false

/-- Items in reverse and the datum after the dot: the items of a round list are spliced in, and
the list is improper only if that list is. -/
def splice (items : List Datum) (dot : Pos) : Datum → List Datum × Option Pos
  | .list .round more dot' _ => (more.reverseAux items, dot')
  | d => (d :: items, some dot)

section
variable (modes : Modes) (stop : Option ReadError)

mutual

/-- `depth` is what is left of the depth of nesting. -/
def ahead (depth : Nat) (ts : List (Token × Pos)) : Ahead ts.length :=
  match ts with
  | [] => .ended
  | (.blank _, _) :: rest | (.comment .., _) :: rest | (.blockComment _, _) :: rest =>
      (ahead depth rest).widen (Nat.le_succ _)
  | (.closing k, pos) :: rest => .closing k pos rest (Nat.lt_succ_self _)
  | (.dot, pos) :: rest => .dot pos rest (Nat.lt_succ_self _)
  | (.datumComment, pos) :: rest =>
      match depth with
      | 0 => .failed ⟨.structural .nestingTooDeep, pos⟩ rest false
      | inner + 1 =>
          match ahead inner rest with
          | .datum t p rest' shorter =>
              match datumFrom inner t p rest' with
              | .found _ rest'' shorter' =>
                  (ahead (inner + 1) rest'').widen
                    (Nat.le_succ_of_le (Nat.le_of_lt (lt_of_later shorter' shorter)))
              | .failed e left atEnd => .failed e left atEnd
          | other => other.widen (Nat.le_succ _)
  | (t, pos) :: rest => .datum t pos rest (Nat.lt_succ_self _)
termination_by (ts.length, 0)

/-- The datum that begins with `t`. -/
def datumFrom (depth : Nat) (t : Token) (pos : Pos) (ts : List (Token × Pos)) :
    Parsed Datum (ts.length + 1) :=
  match t with
  | .atom a => .found (.atom a (some pos)) ts (Nat.lt_succ_self _)
  | .list k items dot => .found (.list k items dot (some pos)) ts (Nat.lt_succ_self _)
  | .mark m =>
      match depth with
      | 0 => wrong .nestingTooDeep pos ts
      | inner + 1 =>
          match ahead inner ts with
          | .datum t p rest shorter =>
              match datumFrom inner t p rest with
              | .found d rest' shorter' =>
                  .found (.list .round [.symbol m.name (some pos), d] none (some pos)) rest'
                    (Nat.lt_succ_of_lt (lt_of_later shorter' shorter))
              | .failed e left atEnd => .failed e left atEnd
          | .closing _ _ rest _ => wrong (.missingDatumAfter m.name) pos rest
          | .dot p rest _ => wrong .misplacedDot p rest
          | .ended => cutOff stop (.missingDatumAfter m.name) pos
          | .failed e left atEnd => .failed e left atEnd
  | .opening k =>
      match depth with
      | 0 => wrong .nestingTooDeep pos ts
      | inner + 1 => (items inner k pos [] ts).widen (Nat.le_succ _)
  | _ => wrong .unknownToken pos ts
termination_by (ts.length, 2)

/-- A list after some of its items, in reverse. -/
def items (depth : Nat) (kind : Bracket) (start : Pos) (found : List Datum)
    (ts : List (Token × Pos)) : Parsed Datum ts.length :=
  match ahead depth ts with
  | .datum t pos rest shorter =>
      match datumFrom depth t pos rest with
      | .found d rest' shorter' =>
          (items depth kind start (d :: found) rest').widen
            (Nat.le_of_lt (lt_of_later shorter' shorter))
      | .failed e left atEnd => .failed e left atEnd
  | .closing k pos rest shorter =>
      .ofResult rest shorter (complete modes kind start found.reverse none k pos)
  | .dot pos rest shorter =>
      if kind ≠ .round then wrong (.dotInWrongList kind) pos rest
      else if found = [] then wrong .dotWithoutPrecedingItem pos rest
      else match depth with
        | 0 => wrong .nestingTooDeep pos rest
        | inner + 1 => (tail inner kind start found pos rest).widen (Nat.le_of_lt shorter)
  | .ended => cutOff stop (.unclosed kind) start
  | .failed e left atEnd => .failed e left atEnd
termination_by (ts.length, 1)

/-- A list after its dot; the datum that follows has one unit of depth less. -/
def tail (inner : Nat) (kind : Bracket) (start : Pos) (found : List Datum) (dot : Pos)
    (ts : List (Token × Pos)) : Parsed Datum ts.length :=
  match ahead inner ts with
  | .datum t pos rest shorter =>
      match datumFrom inner t pos rest with
      | .found d rest' shorter' =>
          let (found, dot) := splice found dot d
          (ending (inner + 1) kind start found dot rest').widen
            (Nat.le_of_lt (lt_of_later shorter' shorter))
      | .failed e left atEnd => .failed e left atEnd
  | .closing _ pos rest _ => wrong .missingItemAfterDot pos rest
  | .dot pos rest _ => wrong .misplacedDot pos rest
  | .ended => cutOff stop .missingItemAfterDot dot
  | .failed e left atEnd => .failed e left atEnd
termination_by (ts.length, 1)

/-- A list after the datum that follows its dot. -/
def ending (depth : Nat) (kind : Bracket) (start : Pos) (found : List Datum) (dot : Option Pos)
    (ts : List (Token × Pos)) : Parsed Datum ts.length :=
  match ahead depth ts with
  | .datum _ pos rest _ | .dot pos rest _ => wrong .moreThanOneItemAfterDot pos rest
  | .closing k pos rest shorter =>
      .ofResult rest shorter (complete modes kind start found.reverse dot k pos)
  | .ended => cutOff stop (.unclosed kind) start
  | .failed e left atEnd => .failed e left atEnd
termination_by (ts.length, 1)

end

end

/-- The first datum of the tokens. `outside` is the fault of a dot that stands in no list. -/
def read (modes : Modes) (outside : StructuralFault) (stop : Option ReadError)
    (ts : List (Token × Pos)) : Reading :=
  match ahead modes stop maxDepth ts with
  | .datum t pos rest _ =>
      match datumFrom modes stop maxDepth t pos rest with
      | .found d rest' _ => ⟨.ok (some d), rest', false⟩
      | .failed e left atEnd => ⟨.error e, left, atEnd⟩
  | .closing k pos rest _ => ⟨fault (.unexpectedClosing k) pos, rest, false⟩
  | .dot pos rest _ => ⟨fault outside pos, rest, false⟩
  | .ended => ⟨match stop with | some e => .error e | none => .ok none, [], true⟩
  | .failed e left atEnd => ⟨.error e, left, atEnd⟩

/-! ## The stack as what is left to do -/

section
variable (modes : Modes) (outside : StructuralFault) (stop : Option ReadError)

/-- What a token that is no closing bracket, dot or comment does to a list before its end. -/
def enter (stack : Stack) (t : Token) (pos : Pos) : Except ReadError Step :=
  match t with
  | .atom a => .ok (deliver stack (.atom a (some pos)))
  | .list k items dot => .ok (deliver stack (.list k items dot (some pos)))
  | .opening k => push stack pos fun fuel => .list fuel pos k [] .items
  | .mark m => push stack pos fun fuel => .mark fuel pos m
  | _ => fault .unknownToken pos

/-- Hands what was parsed to the stack and reads on. -/
def Parsed.handOver (stack : Stack) : Parsed Datum n → Reading
  | .found d rest _ => resume modes outside stop rest (.ok (deliver stack d))
  | .failed e rest atEnd => ⟨.error e, rest, atEnd⟩

/-- Reads on with a stack from what stands ahead. -/
def Ahead.handOver (stack : Stack) : Ahead n → Reading
  | .datum t pos rest _ =>
      resume modes outside stop rest
        (if expectsClose stack then fault .moreThanOneItemAfterDot pos else enter stack t pos)
  | .closing k pos rest _ =>
      resume modes outside stop rest (Reader.close modes k pos (dropDiscards stack))
  | .dot pos rest _ => resume modes outside stop rest (Reader.dot outside pos (dropDiscards stack))
  | .ended => readFrom modes outside stop stack []
  | .failed e rest atEnd => ⟨.error e, rest, atEnd⟩

variable {modes outside stop}

theorem handOver_widen_parsed (stack : Stack) (h : m ≤ n) (p : Parsed Datum m) :
    (p.widen h).handOver modes outside stop stack = p.handOver modes outside stop stack := by
  cases p <;> rfl

theorem handOver_widen_ahead (stack : Stack) (h : m ≤ n) (a : Ahead m) :
    (a.widen h).handOver modes outside stop stack = a.handOver modes outside stop stack := by
  cases a <;> rfl

/-- A frame that is no finished list takes the datum that stands ahead. -/
theorem handOver_datum {stack : Stack} (h : expectsClose stack = false) (t : Token) (pos : Pos)
    (rest : List (Token × Pos)) (shorter : rest.length < n) :
    (Ahead.datum t pos rest shorter).handOver modes outside stop stack =
      resume modes outside stop rest (enter stack t pos) := by
  simp only [Ahead.handOver, h, Bool.false_eq_true, if_false]

theorem handOver_closing {stack : Stack} (h : dropDiscards stack = stack) (k : Bracket) (pos : Pos)
    (rest : List (Token × Pos)) (shorter : rest.length < n) :
    (Ahead.closing k pos rest shorter).handOver modes outside stop stack =
      resume modes outside stop rest (Reader.close modes k pos stack) := by
  simp only [Ahead.handOver, h]

theorem readFrom_nil (stack : Stack) (f : StructuralFault) (pos : Pos)
    (h : finish stack = fault f pos) (below : Stack) :
    readFrom modes outside stop stack [] =
      (cutOff stop f pos : Parsed Datum n).handOver modes outside stop below := by
  cases stop <;> simp [readFrom, h, fault, cutOff, Parsed.handOver, Except.map]

theorem resume_result (stack : Stack) (rest : List (Token × Pos)) (h : rest.length < n)
    (r : Except ReadError Datum) :
    resume modes outside stop rest (r.map (deliver stack)) =
      (Parsed.ofResult rest h r).handOver modes outside stop stack := by
  cases r <;> rfl

/-- After a dot a datum ends its list, and the items of a round list are spliced in. -/
theorem deliver_tail (fuel : Nat) (start : Pos) (kind : Bracket) (found : List Datum) (dot : Pos)
    (stack : Stack) (d : Datum) :
    deliver (.list fuel start kind found (.tail dot) :: stack) d =
      .stack (.list fuel start kind (splice found dot d).1 (.close (splice found dot d).2) ::
        stack) := by
  cases d with
  | atom => rfl
  | list k => cases k <;> rfl

mutual

theorem readFrom_ahead (stack : Stack) (ts : List (Token × Pos)) :
    readFrom modes outside stop stack ts =
      (ahead modes stop (innerDepth stack) ts).handOver modes outside stop stack := by
  match ts with
  | [] => rw [ahead]; rfl
  | (t, pos) :: rest =>
    rw [readFrom_cons]
    cases t with
    | blank | comment | blockComment =>
      simp only [ahead, handOver_widen_ahead]
      exact readFrom_ahead stack rest
    | datumComment =>
      simp only [feed, push]
      cases depth : innerDepth stack with
      | zero => simp only [ahead]; rfl
      | succ inner =>
        have inside : resume modes outside stop rest (.ok (.stack (.discard inner pos :: stack))) =
            (ahead modes stop inner rest).handOver modes outside stop
              (.discard inner pos :: stack) :=
          readFrom_ahead (.discard inner pos :: stack) rest
        simp only [ahead, inside]
        cases ahead modes stop inner rest with
        | datum t p rest' shorter =>
          have discarded : resume modes outside stop rest'
                (enter (.discard inner pos :: stack) t p) =
              (datumFrom modes stop inner t p rest').handOver modes outside stop
                (.discard inner pos :: stack) :=
            enter_datum (.discard inner pos :: stack) t p rest'
          rw [handOver_datum rfl, discarded]
          dsimp only
          cases datumFrom modes stop inner t p rest' with
          | found d rest'' shorter' =>
            rw [handOver_widen_ahead, ← depth, ← readFrom_ahead stack rest'']
            rfl
          | failed => rfl
        | closing | dot | failed => rfl
        | ended => rfl
    | closing | dot | atom | list | mark | opening | unknown => simp only [ahead]; rfl
termination_by (ts.length, 0)

theorem enter_datum (stack : Stack) (t : Token) (pos : Pos) (ts : List (Token × Pos)) :
    resume modes outside stop ts (enter stack t pos) =
      (datumFrom modes stop (innerDepth stack) t pos ts).handOver modes outside stop stack := by
  cases t with
  | atom | list | unknown | blank | comment | blockComment | closing | dot | datumComment =>
    simp only [datumFrom]; rfl
  | mark m =>
    simp only [enter, push]
    cases depth : innerDepth stack with
    | zero => simp only [datumFrom]; rfl
    | succ inner =>
      have inside : resume modes outside stop ts (.ok (.stack (.mark inner pos m :: stack))) =
          (ahead modes stop inner ts).handOver modes outside stop (.mark inner pos m :: stack) :=
        readFrom_ahead (.mark inner pos m :: stack) ts
      simp only [datumFrom, inside]
      cases ahead modes stop inner ts with
      | datum t p rest shorter =>
        have marked : resume modes outside stop rest (enter (.mark inner pos m :: stack) t p) =
            (datumFrom modes stop inner t p rest).handOver modes outside stop
              (.mark inner pos m :: stack) :=
          enter_datum (.mark inner pos m :: stack) t p rest
        rw [handOver_datum rfl, marked]
        dsimp only
        cases datumFrom modes stop inner t p rest <;> rfl
      | closing | dot | failed => rfl
      | ended => exact readFrom_nil _ _ _ rfl _
  | opening k =>
    simp only [enter, push]
    cases innerDepth stack with
    | zero => simp only [datumFrom]; rfl
    | succ inner =>
      simp only [datumFrom, handOver_widen_parsed]
      exact readFrom_items inner k pos [] stack ts
termination_by (ts.length, 2)

theorem readFrom_items (fuel : Nat) (kind : Bracket) (start : Pos) (found : List Datum)
    (stack : Stack) (ts : List (Token × Pos)) :
    readFrom modes outside stop (.list fuel start kind found .items :: stack) ts =
      (items modes stop fuel kind start found ts).handOver modes outside stop stack := by
  rw [readFrom_ahead, items]
  simp only [innerDepth, Frame.inner, Frame.fuel]
  cases ahead modes stop fuel ts with
  | datum t pos rest shorter =>
    have item : resume modes outside stop rest
          (enter (.list fuel start kind found .items :: stack) t pos) =
        (datumFrom modes stop fuel t pos rest).handOver modes outside stop
          (.list fuel start kind found .items :: stack) :=
      enter_datum (.list fuel start kind found .items :: stack) t pos rest
    rw [handOver_datum rfl, item]
    dsimp only
    cases datumFrom modes stop fuel t pos rest with
    | found d rest' shorter' =>
      dsimp only
      rw [handOver_widen_parsed, ← readFrom_items]
      rfl
    | failed => rfl
  | closing k pos rest shorter =>
    rw [handOver_closing rfl, close_list _ _ _ _ (by simp)]
    exact resume_result stack rest shorter _
  | dot pos rest shorter =>
    dsimp only [Ahead.handOver, dropDiscards, Reader.dot]
    by_cases round : kind = .round
    · subst round
      by_cases first : found = []
      · simp only [first, ne_eq, not_true_eq_false, if_false, if_true]; rfl
      · cases fuel with
        | zero => simp only [first, ne_eq, not_true_eq_false, if_false, if_true]; rfl
        | succ inner =>
          simp only [first, ne_eq, not_true_eq_false, if_false, Nat.succ_ne_zero,
            handOver_widen_parsed]
          exact readFrom_tail inner start found pos stack rest
    · simp only [round, ne_eq, not_false_eq_true, if_true]; rfl
  | ended => exact readFrom_nil _ _ _ rfl _
  | failed => rfl
termination_by (ts.length, 1)

theorem readFrom_tail (inner : Nat) (start : Pos) (found : List Datum) (dot : Pos)
    (stack : Stack) (ts : List (Token × Pos)) :
    readFrom modes outside stop (.list (inner + 1) start .round found (.tail dot) :: stack) ts =
      (tail modes stop inner .round start found dot ts).handOver modes outside stop stack := by
  rw [readFrom_ahead, tail]
  simp only [innerDepth, Frame.inner, Nat.add_sub_cancel]
  cases ahead modes stop inner ts with
  | datum t pos rest shorter =>
    have item : resume modes outside stop rest
          (enter (.list (inner + 1) start .round found (.tail dot) :: stack) t pos) =
        (datumFrom modes stop inner t pos rest).handOver modes outside stop
          (.list (inner + 1) start .round found (.tail dot) :: stack) :=
      enter_datum (.list (inner + 1) start .round found (.tail dot) :: stack) t pos rest
    rw [handOver_datum rfl, item]
    dsimp only
    cases datumFrom modes stop inner t pos rest with
    | found d rest' shorter' =>
      dsimp only
      rw [handOver_widen_parsed, ← readFrom_ending, Parsed.handOver, deliver_tail]
      rfl
    | failed => rfl
  | closing | dot | failed => rfl
  | ended => exact readFrom_nil _ _ _ rfl _
termination_by (ts.length, 1)

theorem readFrom_ending (fuel : Nat) (start : Pos) (found : List Datum) (dot : Option Pos)
    (stack : Stack) (ts : List (Token × Pos)) :
    readFrom modes outside stop (.list fuel start .round found (.close dot) :: stack) ts =
      (ending modes stop fuel .round start found dot ts).handOver modes outside stop stack := by
  rw [readFrom_ahead, ending]
  simp only [innerDepth, Frame.inner, Frame.fuel]
  cases ahead modes stop fuel ts with
  | datum | dot | failed => rfl
  | closing k pos rest shorter =>
    rw [handOver_closing rfl, close_list _ _ _ _ (by simp)]
    exact resume_result stack rest shorter _
  | ended => exact readFrom_nil _ _ _ rfl _
termination_by (ts.length, 1)

end

end

/-- The stack is only a way to remember where the descent is: it costs no datum, no position, no
fault and no token. -/
theorem readFrom_descent (modes : Modes) (outside : StructuralFault) (stop : Option ReadError)
    (ts : List (Token × Pos)) :
    readFrom modes outside stop [] ts = read modes outside stop ts := by
  unfold Descent.read
  rw [readFrom_ahead]
  simp only [innerDepth]
  cases ahead modes stop maxDepth ts with
  | datum t pos rest shorter =>
    have first : resume modes outside stop rest (enter [] t pos) =
        (datumFrom modes stop maxDepth t pos rest).handOver modes outside stop [] :=
      enter_datum [] t pos rest
    rw [handOver_datum rfl, first]
    dsimp only
    cases datumFrom modes stop maxDepth t pos rest <;> rfl
  | closing | dot | failed => rfl
  | ended => cases stop <;> rfl

end Descent

end Sexpr.Reader
