import Sexpr.Number.Digits
import Sexpr.Text.Quoted

/-!
Payloads of unknown type: what an atom or a number may be asked to hold before anything is known
about it.
-/

namespace Sexpr

inductive Payload
  | absent
  | flag (b : Bool)
  | integer (n : Int)
  | text (s : String)
  | items (ps : List Payload)
  | table (entries : List (String × Payload))
  deriving Inhabited, Repr

namespace Payload

/-- Absence, zero, and what is empty count as false. -/
def isTrue : Payload → Bool
  | .absent => false
  | .flag b => b
  | .integer n => n ≠ 0
  | .text s => s ≠ ""
  | .items ps => !ps.isEmpty
  | .table entries => !entries.isEmpty

def inspect (limit : DigitLimit) : Payload → Except DigitsError String
  | .absent => .ok "None"
  | .flag b => .ok (if b then "True" else "False")
  | .integer n => Integer.text limit n
  | .text s => .ok (Text.quoted s)
  | .items ps => do return "[" ++ ", ".intercalate (← inspectAll limit ps) ++ "]"
  | .table entries => do
      return "\x7b" ++ ", ".intercalate (← inspectEntries limit entries) ++ "\x7d"
where
  inspectAll (limit : DigitLimit) : List Payload → Except DigitsError (List String)
    | [] => return []
    | p :: ps => return (← inspect limit p) :: (← inspectAll limit ps)
  inspectEntries (limit : DigitLimit) :
      List (String × Payload) → Except DigitsError (List String)
    | [] => return []
    | (name, p) :: entries => do
        let shown := Text.quoted name ++ ": " ++ (← inspect limit p)
        return shown :: (← inspectEntries limit entries)

end Payload

end Sexpr
