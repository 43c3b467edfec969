import Sexpr.Number.Rational

/-!
Hashes of numbers. They are made from the fields of a number, each with the hash of its own.
-/

namespace Sexpr

/-- How bare integers are hashed, and an object by its class and the hashes of its fields. -/
structure Hashing where
  bare : Int → Int
  object : String → List Int → Int

def Integer.hash (h : Hashing) (n : Int) : Int := h.object "Integer" [h.bare n]

def Rational.hash (h : Hashing) (q : Rational) : Int :=
  h.object "Rational" [Integer.hash h q.numerator, Integer.hash h q.denominator]

end Sexpr
