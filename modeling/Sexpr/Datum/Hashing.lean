import Sexpr.Datum.Inspect
import Sexpr.Number.Hashing

/-!
Hashes of data. An atom is hashed by its class and its payload, wherever it stands; a list has no
hash.
-/

namespace Sexpr

/-- How payloads that are no numbers are hashed. A plain atom may have none. -/
structure PayloadHashing extends Hashing where
  truth : Bool → Int
  text : String → Int
  absent : Int

namespace Atom

def payloadHash (h : PayloadHashing) : Atom → Int
  | .bool b => h.truth b
  | .char c => h.text (String.singleton c)
  | .string s | .symbol s | .uninterned s | .leadingKeyword s | .trailingKeyword s => h.text s
  | .special x => h.text x.name
  | .number (.integer n) => Integer.hash h.toHashing n
  | .number (.rational q) => Rational.hash h.toHashing q
  | .plain (some s) => h.text s
  | .plain none => h.absent

def hash (h : PayloadHashing) (a : Atom) : Int := h.object a.className [a.payloadHash h]

end Atom

def Datum.hash (h : PayloadHashing) (d : Datum) : Except AccessError Int := d.key.map (Atom.hash h)

end Sexpr
