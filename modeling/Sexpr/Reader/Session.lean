import Sexpr.Reader.Basic

/-!
A session with one reader: requests made of it one after another, in any order, and its answers.
-/

namespace Sexpr.Reader

/-- `iterate` begins an iteration, and `next` is one step of the latest. -/
inductive Request
  | read
  | readAll
  | iterate
  | next
  deriving DecidableEq, Repr

inductive Answer
  | begun
  | datum (d : Datum)
  | data (ds : List Datum)
  | ended
  | failed (e : ReadError)
  deriving Repr

namespace Answer

def ofDatum : Except ReadError (Option Datum) → Answer
  | .ok (some d) => .datum d
  | .ok none => .ended
  | .error e => .failed e

def ofData : Except ReadError (List Datum) → Answer
  | .ok ds => .data ds
  | .error e => .failed e

def delivered : Answer → List Datum
  | .datum d => [d]
  | .data ds => ds
  | _ => []

end Answer

def perform (r : Reader) : Request → Answer × Reader
  | .read => (.ofDatum r.read.1, r.read.2)
  | .readAll => (.ofData r.readAll.1, r.readAll.2)
  | .iterate => (.begun, r.iterate)
  | .next => (.ofDatum r.next.1, r.next.2)

def performAll (r : Reader) : List Request → List Answer × Reader
  | [] => ([], r)
  | q :: qs =>
      let (a, r) := r.perform q
      let (answers, r) := r.performAll qs
      (a :: answers, r)

end Sexpr.Reader
