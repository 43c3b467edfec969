import Sexpr.Proofs.Places
import Sexpr.Proofs.Tokens.Lookahead

/-!
How far into a source its data are looked for, and what sources that begin alike have in common.

- `Reader.performAll_alongside`: readers with tokens in common answer alike as long as these last.
- `Reader.lookahead`: nothing beyond one character after a token is taken before the token is
  delivered, so what is delivered does not depend on it.
-/

namespace Sexpr

namespace Tokens

/-- The last token that has been taken when so many are left. -/
def latest (ts : Tokens) (left : Nat) : Option Lexeme :=
  (ts.lexemes.take (ts.lexemes.length - left)).getLast?

theorem taken_latest (ts : Tokens) (total left : Nat) :
    ts.taken total left false =
      match ts.latest left with
      | none => 0
      | some l => total - l.untaken.length := by
  unfold taken latest
  rw [if_neg Bool.false_ne_true]
  cases count : ts.lexemes.length - left with
  | zero => rfl
  | succ n =>
    have inside : n < ts.lexemes.length := by omega
    have last : (ts.lexemes.take (n + 1)).getLast? = some ts.lexemes[n] := by
      rw [List.take_succ_eq_append_getElem inside, List.getLast?_concat]
    rw [last]
    simp [inside]

theorem latest_append {ts : Tokens} {as bs : List Lexeme} (h : ts.lexemes = as ++ bs) (n : Nat) :
    ts.latest (n + bs.length) = (as.take (as.length - n)).getLast? := by
  have count : (as ++ bs).length - (n + bs.length) = as.length - n := by
    rw [List.length_append]
    omega
  rw [latest, h, count, List.take_append_of_le_length (Nat.sub_le _ _)]

end Tokens

namespace Reader

/-- The characters that have been taken from the source of the reader. -/
def taken (settings : Settings) (s : Source) (r : Reader) : Nat :=
  (Tokens.ofSource settings s).taken s.input.length r.pending.length r.ended

/-- The end of the source of the reader has been seen. -/
def sawEnd (settings : Settings) (s : Source) (r : Reader) : Bool :=
  if r.ended then Tokens.seesEnd settings s.input
  else match (Tokens.ofSource settings s).latest r.pending.length with
    | none => false
    | some l => l.sawEnd

variable {modes : Modes} {outside : StructuralFault} {stop : Option ReadError} {stack : Stack}
  {ts us vs : List (Token × Pos)} {r r' : Reader}

/-! ## Tokens in common -/

/-- Reading that takes only tokens before the last ones goes the same way whatever those are. -/
theorem readFrom_common (ended : (readFrom modes outside stop stack (ts ++ us)).ended = false)
    (le : us.length ≤ (readFrom modes outside stop stack (ts ++ us)).rest.length) :
    ∃ left, (readFrom modes outside stop stack (ts ++ us)).rest = left ++ us ∧
      ∀ stop' vs, readFrom modes outside stop' stack (ts ++ vs) =
        ⟨(readFrom modes outside stop stack (ts ++ us)).result, left ++ vs, false⟩ := by
  obtain ⟨used, last, t, pos, split, leads, stops⟩ := stops_of_readFrom ended
  generalize readFrom modes outside stop stack (ts ++ us) = reading at *
  obtain ⟨left, rest, all⟩ : ∃ left, reading.rest = left ++ us ∧
      ts = used ++ (t, pos) :: left := by
    rcases List.append_eq_append_iff.1 split with ⟨more, -, after⟩ | ⟨more, before, after⟩
    · have length := congrArg List.length after
      simp only [List.length_append, List.length_cons] at length
      omega
    · cases more with
      | nil =>
        have length := congrArg List.length after
        simp only [List.nil_append, List.length_cons] at length
        omega
      | cons x left =>
        obtain ⟨rfl, rest⟩ := List.cons.inj after
        exact ⟨left, rest, before⟩
  refine ⟨left, rest, ?_⟩
  intro stop' vs
  rw [all, List.append_assoc, readFrom_leads leads, List.cons_append, stops.readFrom]

/-- Two readers have tokens in common, before what is left to each alone. -/
structure Alongside (us vs : List (Token × Pos)) (r r' : Reader) : Prop where
  modes : r.modes = r'.modes
  pending : ∃ left, r.pending = left ++ us ∧ r'.pending = left ++ vs
  going : r.ended = false ∧ r'.ended = false
  iterating : r.iterating = r'.iterating

theorem readWith_alongside (h : Alongside us vs r r')
    (going : (r.readWith outside).2.ended = false)
    (le : us.length ≤ (r.readWith outside).2.pending.length) :
    (r.readWith outside).1 = (r'.readWith outside).1 ∧
      Alongside us vs (r.readWith outside).2 (r'.readWith outside).2 := by
  obtain ⟨modes, ⟨left, pending, pending'⟩, ⟨notEnded, notEnded'⟩, iterating⟩ := h
  simp only [readWith, notEnded, Bool.false_or] at going le ⊢
  rw [pending] at going le ⊢
  obtain ⟨left', rest, same⟩ := readFrom_common going le
  rw [← modes, pending', same r'.stop vs]
  exact ⟨rfl, rfl, ⟨left', rest, rfl⟩, ⟨going, by simp [notEnded']⟩, iterating⟩

/-- What has ended stays so. -/
theorem going_readWith (going : (r.readWith outside).2.ended = false) : r.ended = false := by
  simp only [readWith, Bool.or_eq_false_iff] at going
  exact going.1

theorem going_collect {found : List Datum} (going : (collect found r).2.2.ended = false) :
    r.ended = false := by
  fun_induction collect found r with
  | case1 _ _ _ _ _ _ ih => exact going_readWith (ih going)
  | case2 | case3 => exact going_readWith going

theorem going_perform {q : Request} (going : (r.perform q).2.ended = false) :
    r.ended = false := by
  cases q with
  | read => exact going_readWith going
  | readAll =>
    simp only [perform, snd_readAll] at going
    exact going_collect going
  | iterate => exact going
  | next =>
    simp only [perform] at going
    cases live : r.iterating with
    | false => rwa [next_dead live] at going
    | true =>
      rw [next_live live] at going
      exact going_readWith going

theorem going_performAll {qs : List Request} (going : (r.performAll qs).2.ended = false) :
    r.ended = false := by
  induction qs generalizing r with
  | nil => exact going
  | cons q qs ih => exact going_perform (ih going)

theorem pending_performAll (r : Reader) (qs : List Request) :
    (r.performAll qs).2.pending <:+ r.pending := by
  induction qs generalizing r with
  | nil => exact List.suffix_refl _
  | cons q qs ih => exact (ih (r.perform q).2).trans (pending_perform r q)

theorem collect_alongside {found : List Datum} (h : Alongside us vs r r')
    (going : (collect found r).2.2.ended = false)
    (le : us.length ≤ (collect found r).2.2.pending.length) :
    (collect found r).1 = (collect found r').1 ∧
      (collect found r).2.1 = (collect found r').2.1 ∧
      Alongside us vs (collect found r).2.2 (collect found r').2.2 := by
  fun_induction collect found r generalizing r' with
  | case1 found r d _ _ read ih =>
    have le' := Nat.le_trans le (pending_collect _ _).length_le
    obtain ⟨same, alongside⟩ := readWith_alongside h (going_collect going) le'
    have read' : (r'.readWith .dotOutsideList).1 = .ok (some d) := by
      rw [← same, readWith, read]
    rw [collect_datum read']
    exact ih alongside going le
  | case2 found r _ _ read =>
    have ended : (r.readWith .dotOutsideList).2.ended = true := by
      simp only [readWith, Bool.or_eq_true]
      exact .inr (ended_of_none (by rw [read]))
    rw [ended] at going
    cases going
  | case3 found r e _ _ read =>
    obtain ⟨same, alongside⟩ := readWith_alongside h going le
    have read' : (r'.readWith .dotOutsideList).1 = .error e := by
      rw [← same, readWith, read]
    rw [collect_error read']
    exact ⟨rfl, rfl, alongside⟩

theorem perform_alongside {q : Request} (h : Alongside us vs r r')
    (going : (r.perform q).2.ended = false) (le : us.length ≤ (r.perform q).2.pending.length) :
    (r.perform q).1 = (r'.perform q).1 ∧ Alongside us vs (r.perform q).2 (r'.perform q).2 := by
  cases q with
  | read =>
    obtain ⟨same, alongside⟩ := readWith_alongside h going le
    exact ⟨congrArg Answer.ofDatum same, alongside⟩
  | readAll =>
    simp only [perform, snd_readAll] at going le ⊢
    obtain ⟨found, failure, alongside⟩ := collect_alongside h going le
    rw [fst_readAll, fst_readAll, found, failure]
    exact ⟨rfl, alongside⟩
  | iterate => exact ⟨rfl, h.modes, h.pending, h.going, rfl⟩
  | next =>
    simp only [perform] at going le ⊢
    cases live : r.iterating with
    | false =>
      rw [next_dead live, next_dead (h.iterating.symm.trans live)]
      exact ⟨rfl, h⟩
    | true =>
      rw [next_live live] at going le ⊢
      rw [next_live (h.iterating.symm.trans live)]
      obtain ⟨same, alongside⟩ := readWith_alongside h going le
      refine ⟨congrArg Answer.ofDatum same, alongside.modes, alongside.pending, alongside.going, ?_⟩
      simp only [same]

theorem performAll_alongside {qs : List Request} (h : Alongside us vs r r')
    (going : (r.performAll qs).2.ended = false)
    (le : us.length ≤ (r.performAll qs).2.pending.length) :
    (r.performAll qs).1 = (r'.performAll qs).1 ∧
      Alongside us vs (r.performAll qs).2 (r'.performAll qs).2 := by
  induction qs generalizing r r' with
  | nil => exact ⟨rfl, h⟩
  | cons q qs ih =>
    have le' := Nat.le_trans le (pending_performAll (r.perform q).2 qs).length_le
    obtain ⟨answer, next⟩ := perform_alongside h (going_performAll going) le'
    obtain ⟨answers, last⟩ := ih next going le
    simp only [performAll]
    rw [answer, answers]
    exact ⟨rfl, last⟩

/-! ## Sources that begin alike -/

variable {settings : Settings} {s s' : Source} {k : Nat}

theorem tokens_of_makes {input : Input} {ts : Tokens} (whole : s.input = input)
    (makes : Tokens.Makes settings s.failure? input ts) : Tokens.ofSource settings s = ts := by
  rw [Tokens.ofSource, whole]
  exact Tokens.makes_iff.1 makes

/-- A token that looks at nothing of what follows is complete at the same place whatever that is. -/
theorem before_taken {l : Lexeme} {common : Input} (kept : l.peeked = true → l.rest ≠ [])
    (u : Input) :
    (common ++ u).length - (l.before u).untaken.length = common.length - l.untaken.length ∧
      (l.before u).sawEnd = false := by
  have untaken : (l.before u).untaken = l.untaken ++ u := Input.untaken_append kept u
  refine ⟨?_, Tokens.sawEnd_append (.ok ()) kept⟩
  rw [untaken, List.length_append, List.length_append]
  omega

theorem input_split (s : Source) (k : Nat) : s.input = s.input.take k ++ s.input.drop k :=
  (List.take_append_drop k s.input).symm

/-- What is taken of the first characters is not what is taken of those after them. -/
theorem not_beyond {input left : Input} {ended : Prop} (le : input.length - left.length ≤ k)
    (unseen : ¬ended) : ¬(left.length < (input.drop k).length ∨ ended) := by
  rintro (less | ends)
  · rw [List.length_drop] at less
    omega
  · exact unseen ends

/-- The tokens that are complete before two sources differ. -/
theorem lexemes_alike (settings : Settings) (agree : s'.input.take k = s.input.take k) :
    ∃ pieces more more' : List Lexeme, (∀ l ∈ pieces, l.peeked = true → l.rest ≠ []) ∧
      (Tokens.ofSource settings s).lexemes = pieces.map (·.before (s.input.drop k)) ++ more ∧
      (∀ l ∈ more, l.untaken.length < (s.input.drop k).length ∨ l.sawEnd = true) ∧
      (Tokens.ofSource settings s').lexemes = pieces.map (·.before (s'.input.drop k)) ++ more' := by
  obtain ⟨pieces, kept, common⟩ := Tokens.exists_common settings (s.input.take k)
  have whole := input_split s k
  have whole' := input_split s' k
  rw [agree] at whole'
  cases common with
  | all e mid makes =>
    refine ⟨pieces, [], [], kept, ?_, by simp, ?_⟩
    · rw [tokens_of_makes whole (makes _ _), List.append_nil]
    · rw [tokens_of_makes whole' (makes _ _), List.append_nil]
  | first makes =>
    obtain ⟨more, stop, untaken, makes', reaches, -⟩ := makes s.failure? (s.input.drop k)
    obtain ⟨more', stop', untaken', makes'', -⟩ := makes s'.failure? (s'.input.drop k)
    refine ⟨pieces, more, more', kept, ?_, reaches, ?_⟩
    · rw [tokens_of_makes whole makes']
    · rw [tokens_of_makes whole' makes'']

/-- A token that is complete before two sources differ is complete at the same place in both. -/
theorem taken_alike (agree : s'.input.take k = s.input.take k) {l : Lexeme}
    (kept : l.peeked = true → l.rest ≠ []) :
    s'.input.length - (l.before (s'.input.drop k)).untaken.length =
        s.input.length - (l.before (s.input.drop k)).untaken.length ∧
      (l.before (s.input.drop k)).sawEnd = false ∧
      (l.before (s'.input.drop k)).sawEnd = false := by
  obtain ⟨count, unseen⟩ := @before_taken l (s.input.take k) kept (s.input.drop k)
  obtain ⟨count', unseen'⟩ := @before_taken l (s'.input.take k) kept (s'.input.drop k)
  rw [← input_split] at count count'
  rw [count, count', agree]
  exact ⟨rfl, unseen, unseen'⟩

/-- Sources that begin alike have the same tokens as long as nothing beyond is taken. -/
theorem tokens_alike (agree : s'.input.take k = s.input.take k) {i : Nat} {l : Lexeme}
    (here : (Tokens.ofSource settings s).lexemes[i]? = some l)
    (le : s.input.length - l.untaken.length ≤ k) (unseen : l.sawEnd = false) :
    ∃ l', (Tokens.ofSource settings s').lexemes[i]? = some l' ∧ l'.token = l.token ∧
      l'.pos = l.pos ∧
      s'.input.length - l'.untaken.length = s.input.length - l.untaken.length ∧
      l'.sawEnd = false := by
  obtain ⟨pieces, more, more', kept, lexemes, reaches, lexemes'⟩ :=
    lexemes_alike settings agree
  rw [lexemes] at here
  by_cases first : i < pieces.length
  · rw [List.getElem?_append_left (by simpa using first), List.getElem?_map,
      List.getElem?_eq_getElem first] at here
    cases here
    obtain ⟨count, -, unseen'⟩ := taken_alike agree (kept _ (List.getElem_mem first))
    refine ⟨pieces[i].before (s'.input.drop k), ?_, rfl, rfl, count, unseen'⟩
    rw [lexemes', List.getElem?_append_left (by simpa using first), List.getElem?_map,
      List.getElem?_eq_getElem first]
    rfl
  · rw [List.getElem?_append_right (by simpa using Nat.le_of_not_lt first)] at here
    have beyond := reaches l (List.mem_of_getElem? here)
    exact absurd beyond (not_beyond le (by simp [unseen]))

/-- So is the fault, with all tokens before it. -/
theorem stop_alike (agree : s'.input.take k = s.input.take k)
    (unseen : Tokens.seesEnd settings s.input = false)
    (le : s.input.length - (Tokens.ofSource settings s).untaken.length ≤ k) :
    (Tokens.ofSource settings s').pairs = (Tokens.ofSource settings s).pairs ∧
      (Tokens.ofSource settings s').stop = (Tokens.ofSource settings s).stop ∧
      s'.input.length - (Tokens.ofSource settings s').untaken.length =
        s.input.length - (Tokens.ofSource settings s).untaken.length ∧
      Tokens.seesEnd settings s'.input = false := by
  obtain ⟨pieces, kept, common⟩ := Tokens.exists_common settings (s.input.take k)
  have whole := input_split s k
  have whole' := input_split s' k
  rw [agree] at whole'
  cases common with
  | all e mid makes inside =>
    have lengths := congrArg List.length whole
    have lengths' := congrArg List.length whole'
    rw [List.length_append] at lengths lengths'
    rw [tokens_of_makes whole (makes _ _), tokens_of_makes whole' (makes _ _)]
    refine ⟨?_, rfl, ?_, ?_⟩
    · simp [Tokens.pairs, Lexeme.before]
    · simp only [List.length_append]
      omega
    · rw [whole']
      exact inside _
  | first makes =>
    obtain ⟨more, stop, untaken, makes, -, stops⟩ := makes s.failure? (s.input.drop k)
    rw [tokens_of_makes whole makes] at le
    rw [← whole] at stops
    exact absurd stops (not_beyond le (by simp [unseen]))

/-- Where fewer tokens are left than the last ones, one of these was taken last. -/
theorem latest_more {ts : Tokens} {as bs : List Lexeme} {n : Nat} (h : ts.lexemes = as ++ bs)
    (less : n < bs.length) : ∃ l ∈ bs, ts.latest n = some l := by
  have count : (bs.drop (bs.length - n)).length = n := by
    rw [List.length_drop]
    omega
  have split : ts.lexemes = (as ++ bs.take (bs.length - n)) ++ bs.drop (bs.length - n) := by
    rw [h, List.append_assoc, List.take_append_drop]
  have last := Tokens.latest_append split 0
  rw [Nat.zero_add, count, Nat.sub_zero, List.take_length] at last
  have nonempty : bs.take (bs.length - n) ≠ [] := by
    apply List.ne_nil_of_length_pos
    rw [List.length_take]
    omega
  rw [List.getLast?_append, List.getLast?_eq_some_getLast nonempty, Option.some_or] at last
  exact ⟨_, List.mem_of_mem_take (List.getLast_mem nonempty), last⟩

/-- Tokens that are complete only beyond what has been taken are left. -/
theorem beyond_pending {pieces more : List Lexeme}
    (lexemes : (Tokens.ofSource settings s).lexemes = pieces ++ more)
    (reaches : ∀ l ∈ more, l.untaken.length < (s.input.drop k).length ∨ l.sawEnd = true)
    (going : r.ended = false) (le : r.taken settings s ≤ k) (unseen : r.sawEnd settings s = false) :
    more.length ≤ r.pending.length := by
  simp only [taken, sawEnd, going, Bool.false_eq_true, if_false, Tokens.taken_latest] at le unseen
  apply Nat.le_of_not_lt
  intro less
  obtain ⟨l, member, last⟩ := latest_more lexemes less
  rw [last] at le unseen
  exact not_beyond le (by simp [unseen]) (reaches l member)

/-- Readers that have tokens in common left have taken the same. -/
theorem taken_left (agree : s'.input.take k = s.input.take k) {pieces more more' : List Lexeme}
    (kept : ∀ l ∈ pieces, l.peeked = true → l.rest ≠ [])
    (lexemes : (Tokens.ofSource settings s).lexemes =
      pieces.map (·.before (s.input.drop k)) ++ more)
    (lexemes' : (Tokens.ofSource settings s').lexemes =
      pieces.map (·.before (s'.input.drop k)) ++ more')
    (h : Alongside (more.map fun l => (l.token, l.pos)) (more'.map fun l => (l.token, l.pos)) r r') :
    r'.taken settings s' = r.taken settings s ∧
      r'.sawEnd settings s' = r.sawEnd settings s := by
  obtain ⟨-, ⟨left, pending, pending'⟩, ⟨going, going'⟩, -⟩ := h
  have last := Tokens.latest_append lexemes left.length
  have last' := Tokens.latest_append lexemes' left.length
  simp only [taken, sawEnd, going, going', Bool.false_eq_true, if_false, Tokens.taken_latest,
    pending, pending', List.length_append, List.length_map] at last last' ⊢
  rw [← List.map_take, List.getLast?_map] at last last'
  rw [last, last']
  cases latest : (pieces.take (pieces.length - left.length)).getLast? with
  | none => exact ⟨rfl, rfl⟩
  | some l =>
    have member : l ∈ pieces := List.mem_of_mem_take (List.mem_of_getLast? latest)
    obtain ⟨count, unseen, unseen'⟩ := taken_alike agree (kept l member)
    exact ⟨count, unseen'.trans unseen.symm⟩

/-- So are the answers of their readers. -/
theorem session_alike (agree : s'.input.take k = s.input.take k) (requests : List Request)
    (le : ((ofSource settings s).performAll requests).2.taken settings s ≤ k)
    (unseen : ((ofSource settings s).performAll requests).2.sawEnd settings s = false) :
    ((ofSource settings s').performAll requests).1 =
        ((ofSource settings s).performAll requests).1 ∧
      ((ofSource settings s').performAll requests).2.taken settings s' =
        ((ofSource settings s).performAll requests).2.taken settings s ∧
      ((ofSource settings s').performAll requests).2.sawEnd settings s' = false := by
  cases going : ((ofSource settings s).performAll requests).2.ended with
  | true =>
    simp only [taken, sawEnd, going, if_true, Tokens.taken] at le unseen ⊢
    obtain ⟨pairs, stop, count, unseen'⟩ := stop_alike agree unseen le
    have same : ofSource settings s' = ofSource settings s := by
      simp only [ofSource, pairs, stop]
    rw [same, going]
    exact ⟨rfl, count, unseen'⟩
  | false =>
    obtain ⟨pieces, more, more', kept, lexemes, reaches, lexemes'⟩ :=
      lexemes_alike settings agree
    have pairs (l : Lexeme) (u : Input) : ((l.before u).token, (l.before u).pos) = (l.token, l.pos) :=
      rfl
    have begin : Alongside (more.map fun l => (l.token, l.pos))
        (more'.map fun l => (l.token, l.pos)) (ofSource settings s) (ofSource settings s') := by
      refine ⟨rfl, ⟨pieces.map fun l => (l.token, l.pos), ?_, ?_⟩, ⟨rfl, rfl⟩, rfl⟩
      · show (Tokens.ofSource settings s).pairs = _
        simp [Tokens.pairs, lexemes, Function.comp_def, pairs]
      · show (Tokens.ofSource settings s').pairs = _
        simp [Tokens.pairs, lexemes', Function.comp_def, pairs]
    have count := beyond_pending lexemes reaches going le unseen
    obtain ⟨answers, alongside⟩ :=
      performAll_alongside begin going (by rwa [List.length_map])
    obtain ⟨taken, sawEnd⟩ := taken_left agree kept lexemes lexemes' alongside
    exact ⟨answers.symm, taken, sawEnd.trans unseen⟩

/-! ## One character of lookahead -/

variable {d : Datum}

/-- After a token that ends at an offset the character there may have been taken, and none behind
it. -/
theorem taken_or {l : Lexeme} {input : Input} {last : Nat} (le : last ≤ input.length)
    (rest : l.rest = input.drop last) :
    input.length - l.untaken.length = last ∨ input.length - l.untaken.length = last + 1 := by
  have length : l.rest.length = input.length - last := by rw [rest, List.length_drop]
  unfold Lexeme.untaken Input.untaken
  split
  · rw [List.length_tail]
    omega
  · omega

theorem ofDatum_datum {result : Except ReadError (Option Datum)}
    (h : Answer.ofDatum result = .datum d) : result = .ok (some d) := by
  cases result with
  | error e => cases h
  | ok found =>
    cases found with
    | none => cases h
    | some d' =>
      cases h
      rfl

/-- A datum is delivered as soon as its last token is complete. -/
theorem readWith_latest (follows : Follows (ofSource settings s) r)
    (h : (r.readWith outside).1 = .ok (some d)) :
    ∃ us vs l, r.pending = us ++ (vs ++ (r.readWith outside).2.pending) ∧
      Spans settings.modes maxDepth .gap us ∧ Spans settings.modes maxDepth (.datum d) vs ∧
      vs.getLast? = some (l.token, l.pos) ∧
      (Tokens.ofSource settings s).latest (r.readWith outside).2.pending.length = some l ∧
      (r.readWith outside).2.ended = false := by
  obtain ⟨us, vs, split, gap, makes⟩ := readWith_datum h
  rw [follows.modes] at gap makes
  obtain ⟨t, p, later, rfl, -⟩ := makes.begins
  obtain ⟨consumed, all⟩ := follows.pending
  have pairs : (Tokens.ofSource settings s).lexemes.map (fun l => (l.token, l.pos)) =
      (consumed ++ us ++ (t, p) :: later) ++ (r.readWith outside).2.pending := by
    show (ofSource settings s).pending = _
    rw [← all, split]
    simp
  obtain ⟨as, bs, lexemes, before, after⟩ := List.map_eq_append_iff.1 pairs
  have last := congrArg List.getLast? before
  rw [List.getLast?_map, List.getLast?_append, List.getLast?_cons, Option.some_or] at last
  obtain ⟨l, found, token⟩ := Option.map_eq_some_iff.1 last
  have going : r.ended = false := by
    apply Bool.eq_false_iff.2
    intro ended
    rw [follows.ended ended] at split
    simp at split
  refine ⟨us, (t, p) :: later, l, split, gap, makes, ?_, ?_, ?_⟩
  · rw [List.getLast?_cons, token]
  · have taken := Tokens.latest_append lexemes 0
    rw [Nat.zero_add, Nat.sub_zero, List.take_length, found] at taken
    rw [← taken, ← after, List.length_map]
  · simp only [readWith, going, Bool.false_or]
    exact ended_of_datum h

theorem perform_datum {q : Request} (follows : Follows (ofSource settings s) r)
    (h : (r.perform q).1 = .datum d) :
    ∃ us vs l, r.pending = us ++ (vs ++ (r.perform q).2.pending) ∧
      Spans settings.modes maxDepth .gap us ∧ Spans settings.modes maxDepth (.datum d) vs ∧
      vs.getLast? = some (l.token, l.pos) ∧
      (Tokens.ofSource settings s).latest (r.perform q).2.pending.length = some l ∧
      (r.perform q).2.ended = false := by
  cases q with
  | read => exact readWith_latest follows (ofDatum_datum h)
  | readAll =>
    simp only [perform] at h
    cases all : r.readAll.1 with
    | error e =>
      rw [all] at h
      cases h
    | ok ds =>
      rw [all] at h
      cases h
  | iterate => cases h
  | next =>
    simp only [perform] at h ⊢
    cases live : r.iterating with
    | false =>
      rw [next_dead live] at h
      cases h
    | true =>
      rw [next_live live] at h ⊢
      exact readWith_latest follows (ofDatum_datum h)

/-- A token is delivered when at most one character after it has been taken, and what it took is
this token alone. A datum is delivered with its last token. So two sources that begin with the same
characters have the same tokens, the same fault and the same answers to all requests, at the same
places, as long as the first of them has taken nothing else and has not come to its end. -/
theorem lookahead (settings : Settings) (s : Source) :
    let ts := Tokens.ofSource settings s
    let start := ofSource settings s
    (∀ before l after, ts.lexemes = before ++ l :: after →
      ∃ first last, first < last ∧ last ≤ s.input.length ∧ l.rest = s.input.drop last ∧
        (Tokens.ofSource settings ⟨s.input.extract first last, .complete⟩).pairs =
          [(l.token, l.pos)] ∧
        (Tokens.ofSource settings ⟨s.input.extract first last, .complete⟩).stop = none ∧
        Tokens.ofInput settings s.failure? [] l.rest = ⟨after, ts.stop, ts.untaken⟩ ∧
        (s.input.length - l.untaken.length = last ∨
          s.input.length - l.untaken.length = last + 1)) ∧
    (∀ earlier q d,
      let r := (start.performAll earlier).2
      let r' := (r.perform q).2
      (r.perform q).1 = .datum d →
        ∃ us vs l last, r.pending = us ++ (vs ++ r'.pending) ∧
          Spans settings.modes maxDepth .gap us ∧ Spans settings.modes maxDepth (.datum d) vs ∧
          vs.getLast? = some (l.token, l.pos) ∧ ts.latest r'.pending.length = some l ∧
          l.rest = s.input.drop last ∧
          (r'.taken settings s = last ∨ r'.taken settings s = last + 1)) ∧
    ∀ (s' : Source) (k : Nat), s'.input.take k = s.input.take k →
      let ts' := Tokens.ofSource settings s'
      let start' := ofSource settings s'
      (∀ (i : Nat) (l : Lexeme), ts.lexemes[i]? = some l → s.input.length - l.untaken.length ≤ k →
        l.sawEnd = false →
        ∃ l' : Lexeme, ts'.lexemes[i]? = some l' ∧ l'.token = l.token ∧ l'.pos = l.pos ∧
          s'.input.length - l'.untaken.length = s.input.length - l.untaken.length ∧
          l'.sawEnd = false) ∧
      (∀ e, ts.stop = some e → s.input.length - ts.untaken.length ≤ k →
        Tokens.seesEnd settings s.input = false →
        ts'.pairs = ts.pairs ∧ ts'.stop = some e ∧
          s'.input.length - ts'.untaken.length = s.input.length - ts.untaken.length ∧
          Tokens.seesEnd settings s'.input = false) ∧
      ∀ requests, (start.performAll requests).2.taken settings s ≤ k →
        (start.performAll requests).2.sawEnd settings s = false →
        (start'.performAll requests).1 = (start.performAll requests).1 ∧
          (start'.performAll requests).2.taken settings s' =
            (start.performAll requests).2.taken settings s ∧
          (start'.performAll requests).2.sawEnd settings s' = false := by
  intro ts start
  have makes : Tokens.Makes settings s.failure? s.input ts := Tokens.makes_iff.2 rfl
  refine ⟨?_, ?_, ?_⟩
  · intro before l after split
    obtain ⟨first, last, less, le, rest, pairs, stop, more⟩ := Tokens.lexeme_span makes split
    exact ⟨first, last, less, le, rest, pairs, stop, Tokens.makes_iff.1 more, taken_or le rest⟩
  · intro earlier q d r r' delivered
    have begin : Follows start start := ⟨rfl, List.suffix_refl _, rfl, by rintro ⟨⟩⟩
    obtain ⟨us, vs, l, split, gap, datum, token, latest, going⟩ :=
      perform_datum (follows_performAll begin earlier) delivered
    have member : l ∈ ts.lexemes := List.mem_of_mem_take (List.mem_of_getLast? latest)
    obtain ⟨before, after, lexemes⟩ := List.append_of_mem member
    obtain ⟨-, last, -, le, rest, -⟩ := Tokens.lexeme_span makes lexemes
    have count : r'.taken settings s = s.input.length - l.untaken.length := by
      rw [taken, going, Tokens.taken_latest, latest]
    refine ⟨us, vs, l, last, split, gap, datum, token, latest, rest, ?_⟩
    rw [count]
    exact taken_or le rest
  · intro s' k agree ts' start'
    refine ⟨?_, ?_, ?_⟩
    · intro i l here le unseen
      exact tokens_alike agree here le unseen
    · intro e stop le unseen
      obtain ⟨pairs, stop', count, unseen'⟩ := stop_alike agree unseen le
      exact ⟨pairs, stop'.trans stop, count, unseen'⟩
    · intro requests le unseen
      exact session_alike agree requests le unseen

end Reader

end Sexpr
