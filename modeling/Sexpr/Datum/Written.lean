import Sexpr.Datum.Render

/-!
The written form of a datum by recursion on the datum.

- `render_eq_written`: writing piece by piece gives the same text, or the same error.
-/

namespace Sexpr.Datum

/-- Items are separated by a space, the last item of an improper list by a dot. -/
def joinItems (improper : Bool) : List String → String
  | [] => ""
  | [s] => s
  | [s, t] => s ++ (if improper then " . " else " ") ++ t
  | s :: ss => s ++ " " ++ joinItems improper ss

def enclose (k : Bracket) (body : String) : String :=
  String.singleton k.opening ++ body ++ String.singleton k.closing

/-- The first item that has no written form decides the error. -/
def written (limit : DigitLimit) (fmt : Format) : Datum → Except WriteError String
  | .atom a _ => a.render limit fmt
  | .list k items dot _ =>
      (writtenItems limit fmt items).map fun ss => enclose k (joinItems dot.isSome ss)
where
  writtenItems (limit : DigitLimit) (fmt : Format) : List Datum → Except WriteError (List String)
    | [] => .ok []
    | d :: ds =>
        match written limit fmt d with
        | .ok s => (writtenItems limit fmt ds).map (s :: ·)
        | .error e => .error e

/-- The text of some pieces, one after another. -/
def writtenPieces (limit : DigitLimit) (fmt : Format) : List Piece → Except WriteError String
  | [] => .ok ""
  | .text s :: todo => (writtenPieces limit fmt todo).map (s ++ ·)
  | .datum d :: todo =>
      match d.written limit fmt with
      | .ok s => (writtenPieces limit fmt todo).map (s ++ ·)
      | .error e => .error e

theorem writtenPieces_append (limit : DigitLimit) (fmt : Format) (ps qs : List Piece) :
    writtenPieces limit fmt (ps ++ qs) =
      match writtenPieces limit fmt ps with
      | .ok s => (writtenPieces limit fmt qs).map (s ++ ·)
      | .error e => .error e := by
  fun_induction writtenPieces limit fmt ps with
  | case1 => cases h : writtenPieces limit fmt qs <;> simp [h, Except.map]
  | case2 s todo ih =>
    simp only [List.cons_append, writtenPieces, ih]
    cases writtenPieces limit fmt todo <;> cases writtenPieces limit fmt qs <;>
      simp [Except.map, String.append_assoc]
  | case3 d todo s h ih =>
    simp only [List.cons_append, writtenPieces, h, ih]
    cases writtenPieces limit fmt todo <;> cases writtenPieces limit fmt qs <;>
      simp [Except.map, String.append_assoc]
  | case4 d todo e h => simp [writtenPieces, h]

theorem length_writtenItems {limit : DigitLimit} {fmt : Format} {ds : List Datum} {ss : List String}
    (h : written.writtenItems limit fmt ds = .ok ss) : ss.length = ds.length := by
  induction ds generalizing ss with
  | nil => cases h; rfl
  | cons d ds ih =>
    cases hd : d.written limit fmt with
    | error e => simp [written.writtenItems, hd] at h
    | ok s =>
      cases hs : written.writtenItems limit fmt ds with
      | error e => simp [written.writtenItems, hd, hs, Except.map] at h
      | ok ss' =>
        simp only [written.writtenItems, hd, hs, Except.map, Except.ok.injEq] at h
        simp [← h, ih hs]

/-- Three items or more begin with one, a space, and the others. -/
theorem joinItems_cons {improper : Bool} {s : String} {ss : List String} (h : 2 ≤ ss.length) :
    joinItems improper (s :: ss) = s ++ " " ++ joinItems improper ss := by
  match ss, h with
  | _ :: _ :: _, _ => rfl

theorem writtenPieces_itemPieces (limit : DigitLimit) (fmt : Format) (improper : Bool)
    (ds : List Datum) :
    writtenPieces limit fmt (itemPieces improper ds) =
      (written.writtenItems limit fmt ds).map (joinItems improper) := by
  cases ds with
  | nil => rfl
  | cons d ds =>
    induction ds generalizing d with
    | nil =>
      cases h : d.written limit fmt <;>
        simp [itemPieces, laterPieces, writtenPieces, written.writtenItems, h, Except.map, joinItems]
    | cons e ds ih =>
      cases ds with
      | nil =>
        cases hd : d.written limit fmt <;> cases he : e.written limit fmt <;>
          simp [itemPieces, laterPieces, writtenPieces, written.writtenItems, hd, he, Except.map,
            joinItems, String.append_assoc]
      | cons f ds =>
        have pieces : itemPieces improper (d :: e :: f :: ds) =
            .datum d :: .text " " :: itemPieces improper (e :: f :: ds) := rfl
        rw [pieces, writtenPieces, writtenPieces, ih e, written.writtenItems.eq_2 limit fmt d]
        cases d.written limit fmt with
        | error x => rfl
        | ok s =>
          cases hs : written.writtenItems limit fmt (e :: f :: ds) with
          | error x => rfl
          | ok ss =>
            have two : 2 ≤ ss.length := by simp [length_writtenItems hs]
            simp [Except.map, joinItems_cons two, String.append_assoc]

theorem writtenPieces_listPieces (limit : DigitLimit) (fmt : Format) (k : Bracket)
    (items : List Datum) (dot pos : Option Pos) :
    writtenPieces limit fmt (listPieces k items dot.isSome) =
      (Datum.list k items dot pos).written limit fmt := by
  simp only [listPieces, List.cons_append, writtenPieces, writtenPieces_append,
    writtenPieces_itemPieces, written]
  cases written.writtenItems limit fmt items <;>
    simp only [Except.map, enclose, String.append_assoc, String.append_empty]

theorem renderPieces_eq (limit : DigitLimit) (fmt : Format) (out : String) (ps : List Piece) :
    renderPieces limit fmt out ps = (writtenPieces limit fmt ps).map (out ++ ·) := by
  fun_induction renderPieces limit fmt out ps with
  | case1 out => simp [writtenPieces, Except.map]
  | case2 out s todo ih =>
    rw [ih, writtenPieces]
    cases writtenPieces limit fmt todo <;> simp [Except.map, String.append_assoc]
  | case3 out a pos todo s h ih =>
    rw [ih, writtenPieces, written, h]
    cases writtenPieces limit fmt todo <;> simp [Except.map, String.append_assoc]
  | case4 out a pos todo e h => simp [writtenPieces, written, h, Except.map]
  | case5 out k items dot pos todo ih =>
    rw [ih, writtenPieces_append, writtenPieces_listPieces limit fmt k items dot pos, writtenPieces]

theorem render_eq_written (limit : DigitLimit) (fmt : Format) (d : Datum) :
    d.render limit fmt = d.written limit fmt := by
  rw [render, renderPieces_eq, writtenPieces]
  cases d.written limit fmt <;> simp [writtenPieces, Except.map]

end Sexpr.Datum
