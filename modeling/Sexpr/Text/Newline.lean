/-!
Line ends: a carriage return and a line feed, or either of them alone, become one line feed.
-/

namespace Sexpr.Text

/-- `held` says that a carriage return before these characters waits for what follows it, and the
answer says whether one waits after them. -/
def unifyNewlines (held : Bool) : List Char → List Char × Bool
  | [] => ([], held)
  | c :: cs =>
      let before := if held && c ≠ '\n' then ['\n'] else []
      let here := if c = '\r' then [] else [c]
      let (after, held) := unifyNewlines (c = '\r') cs
      (before ++ here ++ after, held)

/-- A carriage return that waited until the end was a line end. -/
def heldNewline (held : Bool) : List Char := if held then ['\n'] else []

end Sexpr.Text
