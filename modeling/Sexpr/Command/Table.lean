import Sexpr.Command.Options

/-!
A table of the options of a run: those that are set come first.
-/

namespace Sexpr.Command

/-- The name of an option, and its value if it is set. -/
structure Row where
  name : String
  value : Option String

def Row.cell (r : Row) : String := r.value.getD ""

def flagRow (name : String) (b : Bool) : Row := ⟨name, if b then some "x" else none⟩

/-- The options with dashes in alphabetical order. -/
def optionRows (o : Options) : List Row :=
  [flagRow "--comments" o.comments, flagRow "--debug" o.debug, ⟨"--format", some o.formatName⟩,
   flagRow "--fuzz" o.fuzz, flagRow "--no-improper" o.noImproper, flagRow "--pos" o.pos,
   flagRow "--print" o.print, flagRow "--whitespace" o.whitespace]

/-- No row stands for the paths when there are none. -/
def rows (o : Options) : List Row :=
  let paths : List Row := if o.paths = [] then [] else [⟨"<path>", some "_"⟩]
  flagRow o.task.name true :: paths ++
    (optionRows o).filter (fun r => r.value.isSome) ++
    (optionRows o).filter (fun r => r.value.isNone)

def dashes (n : Nat) : String := String.ofList (List.replicate n '-')

/-- A text filled up with a character to a width. -/
def padded (c : Char) (width : Nat) (s : String) : String :=
  s ++ String.ofList (List.replicate (width - s.length) c)

def widest (cells : List String) : Nat := cells.foldl (fun n s => max n s.length) 0

def table (o : Options) : String :=
  let rs := rows o
  let left := widest ("arg" :: rs.map Row.name)
  let right := widest (rs.map Row.cell)
  let border (title : String) :=
    "+" ++ padded '-' (left + 2) title ++ "+" ++ dashes (right + 2) ++ "+\n"
  let line (name value : String) :=
    "| " ++ padded ' ' left name ++ " | " ++ padded ' ' right value ++ " |\n"
  border "-docopt args" ++ line "arg" "" ++ border "" ++
    String.join (rs.map fun r => line r.name r.cell) ++ border ""

end Sexpr.Command
