import Sexpr.Command.Run

/-!
The command line program: it looks up the home directories and opens the files that the arguments
name, runs the task on them and prints the report.
-/

namespace Sexpr.Main

def pathFault (e : IO.Error) : PathFault :=
  match e with
  | .noFileOrDirectory .. | .noSuchThing .. => .notFound
  | .inappropriateType _ code _ => if code = 20 then .notDirectory else .isDirectory
  | .permissionDenied .. => .refused 13 "Permission denied"
  | e => .refused 5 (toString e)

def look (path : String) : IO (Except PathError (List UInt8)) := do
  try
    return .ok (← IO.FS.readBinFile path).toList
  catch e => return .error ⟨pathFault e, path⟩

/-- A terminal holds nothing to be read. -/
def standardInput : IO (Option (List UInt8)) := do
  let stdin ← IO.getStdin
  if ← stdin.isTty then return none
  else return some (← stdin.readBinToEnd).toList

/-- The lines of a file that the system keeps, cut at their colons. -/
def records (path : String) : IO (List (List String)) := do
  try
    let text ← IO.FS.readFile path
    return (text.splitOn "\n").map fun line => line.splitOn ":"
  catch _ => return []

/-- The number of the user who runs the program, as the system writes it. -/
def userNumber : IO (Option String) := do
  let status ← records "/proc/self/status"
  return status.findSome? fun
    | ["Uid", numbers] => (numbers.splitOn "\t").find? fun s => s ≠ ""
    | _ => none

def home (user : String) : IO (Option String) := do
  let users ← records "/etc/passwd"
  if user ≠ "" then
    return users.findSome? fun
      | [name, _, _, _, _, dir, _] => if name = user then some dir else none
      | _ => none
  else match ← IO.getEnv "HOME" with
    | some dir => return some dir
    | none =>
        let own ← userNumber
        return users.findSome? fun
          | [_, _, number, _, _, dir, _] => if some number = own then some dir else none
          | _ => none

end Sexpr.Main

open Sexpr in
def main (argv : List String) : IO UInt32 := do
  let users := argv.filterMap fun path => ((Command.Path.parse path).tilde?).map Prod.fst
  let homes ← users.mapM fun user => do return (user, ← Main.home user)
  let home : Command.Home := fun user => (homes.lookup user).join
  let paths := Command.pathsOf home argv
  let opened ← paths.mapM fun path => do return (path, ← Main.look path)
  let stdin ← if Command.readsInput argv then Main.standardInput else pure none
  let look : Command.Lookup := fun path =>
    (opened.lookup path).getD (.error ⟨.notFound, path⟩)
  let sys : Command.System :=
    ⟨look, home, .standard, .ofSize Source.standardBlock (by decide)⟩
  let report := Command.run sys stdin argv
  IO.print report.out
  IO.eprint report.err
  if let some crash := report.crash then IO.eprintln crash.message
  return report.exit.toUInt32
