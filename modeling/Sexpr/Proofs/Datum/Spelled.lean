import Sexpr.Datum.Written
import Sexpr.Proofs.Datum.Shape
import Sexpr.Token

/-!
The tokens in the written form of a datum. One kind of atom is written as two: bars around the name
of a keyword keep the colon after them out.
-/

namespace Sexpr

namespace Atom

/-- A keyword whose name begins with a backslash can be read, but its written form is a symbol
between bars and a colon. -/
def splits : Atom → Bool
  | .trailingKeyword s => s.toList.head? == some '\\'
  | _ => false

/-- An atom that text in a format can give. -/
def Legible (fmt : Format) (a : Atom) : Prop := a.Printable fmt ∨ a.splits = true

def spelled : Atom → List Token
  | .trailingKeyword s =>
      if s.toList.head? == some '\\' then [.atom (.symbol s), .atom (.leadingKeyword "")]
      else [.atom (.trailingKeyword s)]
  | a => [.atom a]

theorem spelled_whole {a : Atom} (h : a.splits = false) : a.spelled = [.atom a] := by
  cases a with
  | trailingKeyword s => exact if_neg (by simpa [splits] using h)
  | _ => rfl

theorem splits_of_printable {fmt : Format} {a : Atom} (h : a.Printable fmt) :
    a.splits = false := by
  cases a with
  | trailingKeyword s =>
    obtain ⟨-, symbol, -⟩ := h
    apply Bool.eq_false_iff.2
    intro slash
    have first : s.toList.head? = some '\\' := by simpa [splits] using slash
    have plain := symbol '\\' (List.mem_of_mem_head? first)
    cases plain
  | _ => rfl

/-- What an atom is spelled with is not split again. -/
theorem of_mem_spelled {t : Token} {a : Atom} (h : t ∈ a.spelled) :
    ∃ b : Atom, t = .atom b ∧ b.splits = false := by
  by_cases splits : a.splits = true
  · cases a with
    | trailingKeyword s =>
      have two : (trailingKeyword s).spelled = [.atom (.symbol s), .atom (.leadingKeyword "")] :=
        if_pos splits
      rw [two] at h
      simp only [List.mem_cons, List.not_mem_nil, or_false] at h
      rcases h with rfl | rfl
      · exact ⟨_, rfl, rfl⟩
      · exact ⟨_, rfl, rfl⟩
    | _ => cases splits
  · have whole : a.splits = false := Bool.eq_false_iff.2 splits
    rw [spelled_whole whole] at h
    exact ⟨a, List.mem_singleton.1 h, whole⟩

end Atom

/-- The atoms that a token stands for. -/
def Token.atoms : Token → List Atom
  | .atom a => [a]
  | .list _ items _ => items.flatMap Datum.leaves
  | .mark m => [.symbol m.name]
  | _ => []

namespace Datum

/-- A dot stands before the last item of an improper list. -/
def spelled : Datum → List Token
  | .atom a _ => a.spelled
  | .list k items dot _ => .opening k :: (spelledItems dot.isSome items ++ [.closing k])
where
  spelledItems (improper : Bool) : List Datum → List Token
    | [] => []
    | d :: ds =>
        (if improper && ds.isEmpty then [.dot] else []) ++ spelled d ++ spelledItems improper ds

theorem spelledItems_proper (items : List Datum) :
    spelled.spelledItems false items = items.flatMap spelled := by
  induction items with
  | nil => rfl
  | cons d ds ih => simp [spelled.spelledItems, ih]

theorem spelledItems_improper (items : List Datum) (last : Datum) :
    spelled.spelledItems true (items ++ [last]) =
      items.flatMap spelled ++ .dot :: last.spelled := by
  induction items with
  | nil => simp [spelled.spelledItems]
  | cons d ds ih => simp [spelled.spelledItems, ih]

theorem spelled_proper (k : Bracket) (items : List Datum) (pos : Option Pos) :
    (Datum.list k items none pos).spelled =
      .opening k :: (items.flatMap spelled ++ [.closing k]) := by
  simp [spelled, spelledItems_proper]

theorem spelled_improper (items : List Datum) (last : Datum) (dot : Pos) (pos : Option Pos) :
    (Datum.list .round (items ++ [last]) (some dot) pos).spelled =
      .opening .round :: (items.flatMap spelled ++ .dot :: last.spelled ++ [.closing .round]) := by
  simp [spelled, spelledItems_improper]

theorem joinItems_words {ss : List String} (nonempty : ss ≠ []) (s : String) :
    joinItems false (s :: ss) = s ++ " " ++ joinItems false ss := by
  cases ss with
  | nil => exact absurd rfl nonempty
  | cons t ts =>
    cases ts with
    | nil => rfl
    | cons u us => exact joinItems_cons (by simp)

theorem joinItems_dot {ss : List String} (nonempty : ss ≠ []) (s : String) :
    joinItems true (ss ++ [s]) = joinItems false ss ++ " . " ++ s := by
  induction ss with
  | nil => exact absurd rfl nonempty
  | cons t ts ih =>
    cases ts with
    | nil => rfl
    | cons u us =>
      have two : 2 ≤ (u :: us ++ [s]).length := by simp
      have some : u :: us ≠ [] := List.cons_ne_nil u us
      rw [List.cons_append, joinItems_cons two, ih some, joinItems_words some]
      simp only [String.append_assoc]

theorem writtenItems_eq_mapM (limit : DigitLimit) (fmt : Format) (ds : List Datum) :
    written.writtenItems limit fmt ds = ds.mapM (written limit fmt) := by
  induction ds with
  | nil => rfl
  | cons d ds ih =>
    rw [written.writtenItems, List.mapM_cons, ih]
    cases d.written limit fmt <;> rfl

theorem writtenItems_eq_ok {limit : DigitLimit} {fmt : Format} {ds : List Datum}
    {ss : List String} :
    written.writtenItems limit fmt ds = .ok ss ↔
      List.Forall₂ (fun d s => d.written limit fmt = .ok s) ds ss := by
  rw [writtenItems_eq_mapM, mapM_eq_ok]

theorem writtenItems_append {limit : DigitLimit} {fmt : Format} {ds es : List Datum}
    {ss ts : List String}
    (hd : written.writtenItems limit fmt ds = .ok ss)
    (he : written.writtenItems limit fmt es = .ok ts) :
    written.writtenItems limit fmt (ds ++ es) = .ok (ss ++ ts) :=
  writtenItems_eq_ok.2 (List.rel_append (writtenItems_eq_ok.1 hd) (writtenItems_eq_ok.1 he))

theorem writtenItems_of_map {limit : DigitLimit} {fmt : Format} {ds es : List Datum}
    (h : ds.map (written limit fmt) = es.map (written limit fmt)) :
    written.writtenItems limit fmt ds = written.writtenItems limit fmt es := by
  rw [writtenItems_eq_mapM, writtenItems_eq_mapM, mapM_of_map h]

/-- Positions are not written. -/
theorem written_of_tree {limit : DigitLimit} {fmt : Format} {d e : Datum} (h : d.tree = e.tree) :
    d.written limit fmt = e.written limit fmt := by
  induction d using Datum.induction generalizing e with
  | atom a pos =>
    cases e with
    | atom b pos' =>
      cases h
      rfl
    | list => cases h
  | list k items dot pos ih =>
    cases e with
    | atom => cases h
    | list k' items' dot' pos' =>
      rw [tree_list, tree_list] at h
      injection h with kind improper trees
      subst kind
      have items : items.map (written limit fmt) = items'.map (written limit fmt) := by
        apply map_of_trees _ trees
        intro d hd e same
        exact ih d hd same
      rw [written, written, improper, writtenItems_of_map items]

theorem of_mem_spelledItems {improper : Bool} {t : Token} {items : List Datum}
    (h : t ∈ spelled.spelledItems improper items) : t = .dot ∨ ∃ d ∈ items, t ∈ d.spelled := by
  induction items with
  | nil => cases h
  | cons d ds ih =>
    rw [spelled.spelledItems, List.mem_append, List.mem_append] at h
    rcases h with (dot | here) | later
    · split at dot
      · exact .inl (List.mem_singleton.1 dot)
      · cases dot
    · exact .inr ⟨d, List.mem_cons_self, here⟩
    · rcases ih later with dot | ⟨e, he, inside⟩
      · exact .inl dot
      · exact .inr ⟨e, List.mem_cons_of_mem d he, inside⟩

/-- Nothing that a datum is spelled with is commented out, and none of its atoms would be split
again. -/
theorem of_mem_spelled {t : Token} {d : Datum} (h : t ∈ d.spelled) :
    t ≠ .datumComment ∧ ∀ a ∈ t.atoms, a.splits = false := by
  induction d using Datum.induction with
  | atom a pos =>
    obtain ⟨b, rfl, whole⟩ := Atom.of_mem_spelled h
    exact ⟨by simp, by simpa [Token.atoms] using whole⟩
  | list k items dot pos ih =>
    rw [spelled, List.mem_cons, List.mem_append, List.mem_singleton] at h
    rcases h with rfl | inside | rfl
    · simp [Token.atoms]
    · rcases of_mem_spelledItems inside with rfl | ⟨d, hd, inside⟩
      · simp [Token.atoms]
      · exact ih d hd inside
    · simp [Token.atoms]

end Datum

end Sexpr
