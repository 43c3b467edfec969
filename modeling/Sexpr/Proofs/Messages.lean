import Sexpr.Proofs.Datum.Lines
import Sexpr.Proofs.Reader.Blame
import Sexpr.Proofs.Tokens.Failing
import Sexpr.Folder

/-!
Errors are told on one line. What a message quotes is escaped, and what it hands on as it is was
made by a source, by a mark or by the system.

- `FileError.oneLine_unopened`, `FileError.oneLine_unread`: so it is for a file.
- `oneLine_of_readAll`, `oneLine_of_stop`: reading and scanning hand on nothing but what the source
  says where it fails.
-/

namespace Sexpr

namespace Text

theorem isSeen_of_mem_lineEnds {c : Char} (h : c ∈ lineEnds) : isSeen c = false := by
  have all : (lineEnds.all fun c => !isSeen c) = true := by decide
  simpa using List.all_eq_true.1 all c h

theorem oneLine_quotedChar {quote : Char} (h : quote ∉ lineEnds) (c : Char) :
    OneLine (quotedChar quote c) := by
  unfold quotedChar
  split
  · rename_i escaped
    exact oneLine_escaped h escaped
  · split_ifs with feed cr tab seen short middle
    · exact .ofList (by decide)
    · exact .ofList (by decide)
    · exact .ofList (by decide)
    · apply oneLine_singleton.2
      intro ends
      rw [isSeen_of_mem_lineEnds ends] at seen
      cases seen
    · exact .append (.ofList (by decide)) (oneLine_hex 2 c.toNat)
    · exact .append (.ofList (by decide)) (oneLine_hex 4 c.toNat)
    · exact .append (.ofList (by decide)) (oneLine_hex 8 c.toNat)

theorem oneLine_quoted (s : String) : OneLine (quoted s) := by
  have around (quote : Char) (h : quote ∉ lineEnds) :
      OneLine ((String.singleton quote ++
        s.toList.foldl (fun out c => out ++ quotedChar quote c) "").push quote) := by
    have empty : OneLine "" := .ofList (by decide)
    have body := OneLine.foldl (oneLine_quotedChar h) empty s.toList
    exact ((oneLine_singleton.2 h).append body).push h
  unfold quoted
  dsimp only
  split
  · exact around _ (by decide)
  · exact around _ (by decide)

theorem oneLine_int (n : Int) : OneLine (toString n) := Atom.oneLine_numeral (.integer n)

theorem oneLine_nat (n : Nat) : OneLine (toString n) := oneLine_int n

theorem Utf8.DecodeError.oneLine_message (e : DecodeError) : OneLine e.message := by
  have reason : OneLine e.reason.text := by cases e.reason <;> exact .ofList (by decide)
  unfold message
  dsimp only
  refine .append (.between (by decide) ?_ (by decide)) reason
  split
  · exact .append (.between (by decide) (oneLine_hex 2 _) (by decide)) (oneLine_nat _)
  · exact .append (.between (by decide) (oneLine_nat _) (by decide)) (oneLine_nat _)

end Text

open Text (OneLine)

theorem Pos.oneLine_label (p : Pos) : OneLine p.label :=
  .append (.between (by decide) (Text.oneLine_int _) (by decide)) (Text.oneLine_int _)

/-! ## Faults -/

/-- The texts that the description of a fault holds as they are. -/
def Fault.handedOn : Fault → List String
  | .lexical (.sourceFailed message) => [message]
  | .structural (.missingDatumAfter mark) => [mark]
  | _ => []

section
variable {limit : DigitLimit} {said : String}

theorem LexicalFault.oneLine_describe {f : LexicalFault}
    (h : ∀ s ∈ (Fault.lexical f).handedOn, OneLine s) (told : f.describe limit = .ok said) :
    OneLine said := by
  cases f with
  | invalidCodePoint code =>
    rcases Integer.text_cases limit code with ⟨-, shown⟩ | ⟨most, -, -, shown⟩
    · rw [describe, shown] at told
      cases told
      exact .append (.ofList (by decide)) (Text.oneLine_nat code)
    · rw [describe, shown] at told
      cases told
  | sourceFailed message =>
    cases told
    exact .between (by decide) (h message List.mem_cons_self) (by decide)
  | unexpectedEnd inside =>
    cases told
    have name : OneLine inside.name := by cases inside <;> exact .ofList (by decide)
    exact .between (by decide) name (by decide)
  | tooManySemicolons | tooManyDigits | invalidHash =>
    cases told
    exact .ofList (by decide)
  | invalidEscape c | nonHexDigit c =>
    cases told
    exact .append (.ofList (by decide)) (Text.oneLine_quoted _)
  | missingDelimiter c =>
    cases told
    exact .between (by decide) (Text.oneLine_quoted _) (by decide)
  | invalidSpecial name =>
    cases told
    exact .append (.ofList (by decide)) (Text.oneLine_quoted name)

theorem oneLine_inQuotes {c : Char} (h : c ∉ Text.lineEnds) : OneLine (inQuotes c) := by
  apply Text.oneLine_ofList.2
  simp only [List.forall_mem_cons]
  exact ⟨by decide, h, by decide, nofun⟩

theorem StructuralFault.oneLine_describe (f : StructuralFault)
    (h : ∀ s ∈ (Fault.structural f).handedOn, OneLine s) : OneLine f.describe := by
  have opens (k : Bracket) : k.opening ∉ Text.lineEnds := by cases k <;> decide
  have closes (k : Bracket) : k.closing ∉ Text.lineEnds := by cases k <;> decide
  have quotedOpening (k : Bracket) : OneLine (inQuotes k.opening) := oneLine_inQuotes (opens k)
  have quotedClosing (k : Bracket) : OneLine (inQuotes k.closing) := oneLine_inQuotes (closes k)
  cases f with
  | dotInWrongList kind =>
    exact .append (.between (by decide) (Text.oneLine_singleton.2 (opens kind)) (by decide))
      (Text.oneLine_singleton.2 (closes kind))
  | mismatch opened openPos closed =>
    have opening : OneLine (inQuotes opened.opening ++ " " ++ openPos.label) :=
      .append (.append (quotedOpening opened) (.ofList (by decide))) openPos.oneLine_label
    have expected : OneLine (inQuotes opened.opening ++ " " ++ openPos.label ++ " expects " ++
        inQuotes opened.closing) :=
      .append (.append opening (.ofList (by decide))) (quotedClosing opened)
    exact .append (.append expected (.ofList (by decide))) (quotedClosing closed)
  | unexpectedClosing kind => exact .append (.ofList (by decide)) (quotedClosing kind)
  | unclosed kind =>
    exact .append (.between (by decide) (quotedClosing kind) (by decide)) (quotedOpening kind)
  | missingDatumAfter mark => exact .append (.ofList (by decide)) (h mark List.mem_cons_self)
  | _ => exact .ofList (by decide)

theorem Fault.oneLine_describe {f : Fault} (h : ∀ s ∈ f.handedOn, OneLine s)
    (told : f.describe limit = .ok said) : OneLine said := by
  cases f with
  | lexical f => exact LexicalFault.oneLine_describe h told
  | structural f =>
    cases told
    exact f.oneLine_describe h

theorem FileError.oneLine_unread {path : String} {e : ReadError}
    (h : ∀ s ∈ e.fault.handedOn, OneLine s)
    (told : (unread (.file path) e).message limit = .ok said) : OneLine said := by
  have place : OneLine ("in " ++ Text.quoted path ++ e.pos.label) :=
    .append (.append (.ofList (by decide)) (Text.oneLine_quoted path)) e.pos.oneLine_label
  cases fault : e.fault.describe limit with
  | error e' =>
    rw [message, Context.describe, fault] at told
    cases told
  | ok text =>
    rw [message, Context.describe, fault] at told
    cases told
    exact .append (.append (Fault.oneLine_describe h fault) (.ofList (by decide))) place

theorem FileError.oneLine_unopened {path : String} {e : PathError} (h : OneLine e.fault.describe)
    (told : (unopened (.file path) e).message limit = .ok said) : OneLine said := by
  have refusal : OneLine e.message :=
    .append (.append h (.ofList (by decide))) (Text.oneLine_quoted e.path)
  rw [message, Except.ok.injEq] at told
  rw [← told]
  exact .append (.append (Text.oneLine_quoted path) (.ofList (by decide))) refusal

end

/-! ## What sources say -/

namespace TextStream

theorem oneLine_ofBlocks {broken : List UInt8} {held : Bool} {found : List Char}
    {blocks : List (List UInt8)} {message : String}
    (failed : (ofBlocks broken held found blocks).ending = .failed message) : OneLine message := by
  revert failed
  fun_induction ofBlocks broken held found blocks with
  | case1 => rintro ⟨⟩
  | case2 | case3 =>
    rintro ⟨⟩
    exact Text.Utf8.DecodeError.oneLine_message _
  | case4 _ _ _ _ _ _ _ _ _ _ _ ih => exact ih

theorem oneLine_ofBytes {blocking : Blocking} {n : Int} {bytes : List UInt8} {message : String}
    (failed : (ofBytes blocking n bytes).ending = .failed message) : OneLine message := by
  unfold ofBytes at failed
  split at failed
  · revert failed
    fun_cases ofBytesWhole bytes with
    | case2 => rintro ⟨⟩
    | _ =>
      rintro ⟨⟩
      exact Text.Utf8.DecodeError.oneLine_message _
  · exact oneLine_ofBlocks failed

/-- A stream that is read in chunks fails with its own message. -/
theorem ending_of_chunks {n : Int} {s : TextStream} {message : String}
    (failed : (s.chunks n).2 = .failed message) : s.ending = .failed message := by
  fun_induction chunks n s with
  | case1 s message' broken =>
    cases failed
    unfold TextStream.read at broken
    grind
  | case2 => cases failed
  | case3 s c cs t answer more ending rest ih =>
    rw [rest] at ih
    have same := ih failed
    unfold TextStream.read at answer
    grind

end TextStream

/-- A source says on one line why it fails. -/
def Source.OneLine (source : Source) : Prop :=
  ∀ message, source.ending = .failed message → Text.OneLine message

theorem Source.oneLine_ofBytes (blocking : Blocking) (n : Int) (bytes : List UInt8) :
    (Source.ofBytes blocking n bytes).OneLine := by
  intro message failed
  exact TextStream.oneLine_ofBytes (TextStream.ending_of_chunks failed)

/-! ## What is handed on -/

section
variable {settings : Settings} {source : Source} {e : ReadError}

theorem oneLine_of_stop (told : source.OneLine)
    (stop : (Tokens.ofSource settings source).stop = some e) :
    ∀ s ∈ e.fault.handedOn, OneLine s := by
  have makes : Tokens.Makes settings source.failure? source.input
      (Tokens.ofSource settings source) := Tokens.makes_iff.2 rfl
  rcases makes.stop_fault stop with failure | ⟨f, p, rfl, own⟩
  · unfold Source.failure? at failure
    split at failure
    · cases failure
    · rename_i message ending
      cases failure
      intro s hs
      obtain rfl := List.mem_singleton.1 hs
      exact told _ ending
  · cases f with
    | sourceFailed message => exact absurd rfl (own message)
    | _ => simp [Fault.handedOn]

theorem Mark.oneLine_name (m : Mark) : OneLine m.name := by
  cases m <;> exact .ofList (by decide)

/-- Only marks are named when the order of the tokens is wrong. -/
theorem oneLine_of_readAll (told : source.OneLine) (read : source.readAll settings = .error e) :
    ∀ s ∈ e.fault.handedOn, OneLine s := by
  rcases Reader.failsAt_of_readAll read with stop | ⟨before, cause, fails⟩
  · exact oneLine_of_stop told stop
  · cases fails with
    | token _ _ fails =>
      cases Reader.rejects_of_feed fails with
      | @dot f placement => cases f with
        | missingDatumAfter => cases placement
        | _ => simp [Fault.handedOn]
      | @unmarked k fuel start m => simpa [Fault.handedOn] using m.oneLine_name
      | _ => simp [Fault.handedOn]
    | ended _ _ fails =>
      cases Reader.endsOpen_of_finish fails with
      | @unmarked fuel start m => simpa [Fault.handedOn] using m.oneLine_name
      | _ => simp [Fault.handedOn]

end

end Sexpr
