import Sexpr.Folder
import Sexpr.Proofs.Chunks
import Sexpr.Proofs.Text.Utf8

/-!
What is read from a file that was written. A carriage return would be read as a line feed, and every
other character is read as it is.

- `ofBytes_encode`: encoded text is decoded, read at once or in blocks.
- `source_put`: a path that a text was written to leads to this text.
-/

namespace Sexpr

theorem Text.unifyNewlines_of_not_mem {cs : List Char} (h : '\r' ∉ cs) :
    unifyNewlines false cs = (cs, false) := by
  induction cs with
  | nil => rfl
  | cons c cs ih =>
    obtain ⟨other, later⟩ := not_or.1 (mt List.mem_cons.2 h)
    simp [unifyNewlines, Ne.symm other, ih later]

namespace TextStream

/-- What is kept from the blocks before is the beginning of a character. -/
theorem ofBlocks_encode {blocks : List (List UInt8)} {broken : List UInt8} {found cs : List Char}
    (kept : Text.Utf8.decode broken = .ok ([], broken))
    (encoded : broken ++ blocks.flatten = Text.Utf8.encode cs) (h : '\r' ∉ cs) :
    ofBlocks broken false found blocks = ⟨found ++ cs, .complete⟩ := by
  induction blocks generalizing broken found cs with
  | nil =>
    rw [List.flatten_nil, List.append_nil] at encoded
    rw [encoded, Text.Utf8.decode_encode] at kept
    obtain ⟨rfl, none⟩ := Prod.mk.inj (Except.ok.inj kept)
    rw [encoded, ← none]
    rfl
  | cons block blocks ih =>
    rw [List.flatten_cons, ← List.append_assoc] at encoded
    obtain ⟨ds, es, part, rfl, others, decoded, kept⟩ :=
      @Text.Utf8.decodeFrom_prefix [] 0 (broken ++ block) cs blocks.flatten encoded
    obtain ⟨first, later⟩ := not_or.1 (mt List.mem_append.2 h)
    rw [ofBlocks, Text.Utf8.decode, decoded]
    simp only [List.reverse_nil, List.nil_append, Text.unifyNewlines_of_not_mem first]
    rw [ih kept others later, List.append_assoc]

theorem ofBytes_encode (blocking : Blocking) (n : Int) {cs : List Char} (h : '\r' ∉ cs) :
    ofBytes blocking n (Text.Utf8.encode cs) = ⟨cs, .complete⟩ := by
  unfold ofBytes
  split
  · simp [ofBytesWhole, Text.Utf8.decode_encode, Text.unifyNewlines_of_not_mem h, Text.heldNewline]
  · have none : Text.Utf8.decode [] = .ok ([], []) := Text.Utf8.decode_encode []
    rw [ofBlocks_encode none (by rw [blocking.flatten_split, List.nil_append]) h, List.nil_append]

end TextStream

namespace Folder

variable {f : Folder} {path name : String} {bytes : List UInt8}

theorem get?_put : (f.put name bytes).get? name = some bytes := by
  simp [put, get?]

theorem follow_cons (f : Folder) (place : Place) (name : String) (names : List String) :
    f.follow place (name :: names) = (f.enter place name).bind fun next => f.follow next names :=
  rfl

theorem enter_eq_here {place : Place} :
    f.enter place name = .ok .here ↔ place = .here ∧ (name = "" ∨ name = ".") := by
  cases place with
  | file => simp [enter]
  | around =>
    unfold enter
    grind
  | here =>
    unfold enter
    grind

/-- A path that leads to the folder itself never leaves it. -/
theorem follow_eq_here {place : Place} {names : List String} :
    f.follow place names = .ok .here ↔
      place = .here ∧ ∀ name ∈ names, name = "" ∨ name = "." := by
  induction names generalizing place with
  | nil => simp [follow, pure, Except.pure]
  | cons name names ih =>
    rw [follow_cons, List.forall_mem_cons]
    constructor
    · intro h
      cases entered : f.enter place name with
      | error fault => simp [entered, Except.bind] at h
      | ok next =>
        rw [entered] at h
        obtain ⟨rfl, others⟩ := ih.1 h
        obtain ⟨start, first⟩ := enter_eq_here.1 entered
        exact ⟨start, first, others⟩
    · rintro ⟨rfl, first, others⟩
      rw [enter_eq_here.2 ⟨rfl, first⟩]
      exact ih.2 ⟨rfl, others⟩

theorem follow_append {names more : List String} {place next : Place}
    (h : f.follow place names = .ok next) :
    f.follow place (names ++ more) = f.follow next more := by
  rw [follow, List.foldlM_append]
  rw [follow] at h
  rw [h]
  rfl

theorem names_eq {parents : List String} (h : parentsAndName path = (parents, name))
    (some : name ≠ "") : names path = parents ++ [name] := by
  unfold parentsAndName at h
  split at h
  · cases h
    exact absurd rfl some
  · rename_i reversed
    cases h
    rw [← List.reverse_reverse (names path), reversed, List.reverse_cons]
  · cases h
    exact absurd rfl some

/-- A path that may be written to is a way to the folder and the name of a file in it. -/
theorem names_of_writableName (h : f.writableName path = .ok name) :
    (path ≠ "" ∧ path.utf8ByteSize ≤ maxPath) ∧
    ∃ parents, names path = parents ++ [name] ∧ f.follow (origin path) parents = .ok .here ∧
      (name ≠ "" ∧ name ≠ "." ∧ name ≠ "..") ∧ name.utf8ByteSize ≤ maxName := by
  rcases way : parentsAndName path with ⟨parents, last⟩
  simp only [writableName, way, refuse] at h
  split at h
  · cases h
  rename_i nonempty
  split at h
  · cases h
  rename_i short
  refine ⟨⟨nonempty, Nat.le_of_not_gt short⟩, ?_⟩
  cases led : f.follow (origin path) parents with
  | error fault => simp [led] at h
  | ok place =>
    cases place with
    | file => simp [led] at h
    | around =>
      simp only [led] at h
      split at h
      · cases h
      · split at h <;> cases h
    | here =>
      simp only [led] at h
      split at h
      · cases h
      rename_i plain
      split at h
      · cases h
      rename_i fits
      cases h
      obtain ⟨some, noDot, noDots⟩ : name ≠ "" ∧ name ≠ "." ∧ name ≠ ".." := by simpa using plain
      exact ⟨parents, names_eq way some, led, ⟨some, noDot, noDots⟩, Nat.le_of_not_gt fits⟩

/-- What was put under the name that a path may write to is found on this path. -/
theorem openBytes_put (h : f.writableName path = .ok name) :
    (f.put name bytes).openBytes path = .ok bytes := by
  obtain ⟨⟨nonempty, short⟩, parents, parts, led, ⟨some, noDot, noDots⟩, fits⟩ :=
    names_of_writableName h
  have again : (f.put name bytes).follow (origin path) parents = .ok .here :=
    follow_eq_here.2 (follow_eq_here.1 led)
  have found : (f.put name bytes).enter .here name = .ok (.file bytes) := by
    simp [enter, some, noDot, noDots, get?_put, Nat.not_lt.2 fits]
  have leads : (f.put name bytes).follow (origin path) (names path) = .ok (.file bytes) := by
    rw [parts, follow_append again, follow_cons, found]
    rfl
  simp [openBytes, nonempty, Nat.not_lt.2 short, leads]

theorem writeData_eq_ok {limit : DigitLimit} {fmt : Format} {ds : List Datum} {f' : Folder}
    {w : Written} (h : f.writeData limit fmt path ds = .ok (f', w)) :
    w = .writeAll limit fmt "" ds ∧
      ∃ name, f.writableName path = .ok name ∧ f' = f.put name w.text.toUTF8.toList := by
  unfold writeData at h
  cases writable : f.writableName path with
  | error e => simp [writable, Except.map] at h
  | ok name =>
    simp only [writable, Except.map, Except.ok.injEq, Prod.mk.injEq] at h
    obtain ⟨rfl, rfl⟩ := h
    exact ⟨rfl, name, rfl, rfl⟩

/-- The text of a file that was written is read on the same path, in chunks and blocks of any
size. -/
theorem source_put (h : f.writableName path = .ok name) {text : String}
    (kept : '\r' ∉ text.toList) (blocking : Blocking) {n : Int} (nonzero : n ≠ 0) :
    (f.put name text.toUTF8.toList).source blocking path n = .ofString text := by
  rw [source, openBytes_put h, Text.Utf8.toUTF8_toList]
  simp only [Source.ofBytes, TextStream.ofBytes_encode blocking n kept,
    TextStream.toSource_complete nonzero, Source.ofString]

end Folder

end Sexpr
