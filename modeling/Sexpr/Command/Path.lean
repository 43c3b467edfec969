import Sexpr.Folder

/-!
Paths as they are named on a command line: shortened, and with a home directory in place of a tilde.
-/

namespace Sexpr.Command

/-- The slashes that a path begins with, and its parts. -/
structure Path where
  root : String
  parts : List String
  deriving DecidableEq, Repr

/-- The home directory of the user of a name, or of the user who runs the program if the name is
empty, as far as the system knows it. -/
abbrev Home := String → Option String

namespace Path

/-- Empty parts and single points are left out. -/
def parse (text : String) : Path where
  root :=
    if text.startsWith "///" then "/"
    else if text.startsWith "//" then "//"
    else if text.startsWith "/" then "/"
    else ""
  parts := (Folder.names text).filter fun s => s ≠ "" && s ≠ "."

/-- No parts at all are the folder itself. -/
def text (p : Path) : String :=
  let whole := p.root ++ "/".intercalate p.parts
  if whole = "" then "." else whole

/-- The user whose home directory a path begins with, and the parts after it. -/
def tilde? (p : Path) : Option (String × List String) :=
  if p.root = "" then
    match p.parts with
    | [] => none
    | first :: more =>
        match first.toList with
        | '~' :: user => some (String.ofList user, more)
        | _ => none
  else none

/-- A directory without the slashes at its end. -/
def trimmed (dir : String) : String :=
  match dir.toList.reverse.dropWhile (· == '/') with
  | [] => "/"
  | cs => String.ofList cs.reverse

/-- A path with the home directory in it, if it begins with one. One that is not known, or that is
itself said by a tilde, leaves no path. -/
def expand? (home : Home) (p : Path) : Option Path :=
  match p.tilde? with
  | none => some p
  | some (user, more) =>
      (home user).bind fun dir =>
        if (trimmed dir).startsWith "~" then none
        else some { parse (trimmed dir) with parts := (parse (trimmed dir)).parts ++ more }

end Path

end Sexpr.Command
