import Sexpr.Command.Listing
import Sexpr.Command.Path
import Sexpr.Command.Table
import Sexpr.Datum.Dump

/-!
Running a task on its sources. A failure of one source is told after all of them and stops none of
the others. A crash stops all that is left.
-/

namespace Sexpr.Command

/-- What ends a run at once: a home directory that is not known, or something that is to be printed
and cannot be written. -/
inductive Crash
  | homeless
  | unwritable (e : WriteError)
  deriving DecidableEq, Repr

def Crash.message : Crash → String
  | .homeless => "Could not determine home directory."
  | .unwritable e => e.message

/-- A run that crashed tells nothing but the crash. -/
structure Report where
  exit : Nat
  out : String
  err : String
  crash : Option Crash
  deriving DecidableEq, Repr

/-! ## Printing data -/

/-- The data of a source as the task prints them. -/
def prepared (task : Task) (ds : List Datum) : Except WriteError (List Datum) :=
  match task with
  | .dump => ds.mapM Datum.dump
  | _ => .ok ds

/-- What the data of a source are printed as. -/
def dataLines (limit : DigitLimit) (o : Options) (fmt : Format) (ds : List Datum) :
    List (Except WriteError String) :=
  match prepared o.task ds with
  | .error e => [.error e]
  | .ok ds => if o.print then (Written.writeAll limit fmt "" ds).lines else []

def printData (limit : DigitLimit) (o : Options) (settings : Settings) (ts : Tokens) : Output :=
  let before :=
    if o.debug then (Reader.trace limit settings.modes [] ts.pairs).map traced else []
  match (Reader.ofTokens settings.modes ts.pairs ts.stop).readAll.1 with
  | .error e => ⟨before, some e⟩
  | .ok ds => ⟨before ++ dataLines limit o settings.format ds, none⟩

/-- What a task prints for one source. -/
def perform (limit : DigitLimit) (o : Options) (settings : Settings) (source : Source) : Output :=
  let ts := Tokens.ofSource settings source
  match o.task with
  | .tokens => listTokens limit o ts.stop .start ts.pairs
  | _ => printData limit o settings ts

/-! ## Sources -/

/-- What opening a path gives. -/
abbrev Lookup := String → Except PathError (List UInt8)

/-- What a run depends on besides its arguments. -/
structure System where
  look : Lookup
  home : Home
  limit : DigitLimit
  blocking : Blocking

/-- Where a source comes from: the standard input, which holds these bytes, or a path. -/
inductive Origin
  | stdin (bytes : List UInt8)
  | path (name : String)

namespace Origin

def context : Origin → Context
  | .stdin _ => .named "stdin"
  | .path name => .file name

def openBytes (look : Lookup) : Origin → Except PathError (List UInt8)
  | .stdin bytes => .ok bytes
  | .path name => look name

end Origin

/-- The paths, all of them with the home directories that they begin with. -/
def expanded (home : Home) (paths : List String) : Except Crash (List String) :=
  match paths.mapM fun path => (Path.parse path).expand? home with
  | some expanded => .ok (expanded.map Path.text)
  | none => .error .homeless

/-- Without paths the standard input is the only source, if it holds anything to be read. -/
def origins (sys : System) (stdin : Option (List UInt8)) (o : Options) :
    Except Crash (List Origin) :=
  if o.paths = [] then .ok (stdin.toList.map .stdin)
  else (expanded sys.home o.paths).map fun paths => paths.map .path

/-- What has been printed so far, what is to be told of the failures so far after all sources, and
what has ended the run. -/
structure Progress where
  out : String
  told : List String
  crash : Option Crash

namespace Progress

def start : Progress := ⟨"", [], none⟩

/-- A failure that cannot be told in words ends the run. -/
def tell (limit : DigitLimit) (s : Progress) (e : FileError) : Progress :=
  match e.message limit with
  | .ok line => { s with told := s.told ++ [line] }
  | .error e => { s with crash := some (.unwritable (.digits e)) }

/-- Prints what a task gives for a source. -/
def print (limit : DigitLimit) (s : Progress) (context : Context) (output : Output) : Progress :=
  let written := output.written
  let s := { s with out := s.out ++ written.text }
  match written.failure, output.failure with
  | some e, _ => { s with crash := some (.unwritable e) }
  | none, some e => s.tell limit (.unread context e)
  | none, none => s

/-- Runs a task on the next source, unless the run has ended. -/
def visit (sys : System) (o : Options) (settings : Settings) (s : Progress) (x : Origin) :
    Progress :=
  match s.crash with
  | some _ => s
  | none =>
      match x.openBytes sys.look with
      | .error e => s.tell sys.limit (.unopened x.context e)
      | .ok bytes =>
          s.print sys.limit x.context
            (perform sys.limit o settings (.ofBytes sys.blocking Source.standardChunk bytes))

def report (s : Progress) : Report :=
  match s.crash with
  | some _ => ⟨1, s.out, "", s.crash⟩
  | none => ⟨0, s.out, String.join (s.told.map (· ++ "\n")), none⟩

end Progress

def runTask (sys : System) (stdin : Option (List UInt8)) (o : Options) (fmt : Format) : Report :=
  let start : Progress := if o.debug then { Progress.start with out := table o } else .start
  match origins sys stdin o with
  | .error crash => { start with crash := some crash }.report
  | .ok xs => (xs.foldl (Progress.visit sys o (o.settings fmt)) start).report

/-- The paths that a run on these arguments opens. -/
def pathsOf (home : Home) (argv : List String) : List String :=
  match request argv with
  | .ok (.run o) => ((expanded home o.paths).toOption).getD []
  | _ => []

/-- Whether a run on these arguments reads the standard input. -/
def readsInput (argv : List String) : Bool :=
  match request argv with
  | .ok (.run o) => o.paths.isEmpty && o.format?.isSome
  | _ => false

def unknownFormat (name : String) : String :=
  "unknown format " ++ Text.quoted name ++ ", not one of " ++
    Text.quotedList (Format.presets.map Format.name) ++ "\n"

def run (sys : System) (stdin : Option (List UInt8)) (argv : List String) : Report :=
  match request argv with
  | .error e => ⟨1, "", e.describe ++ usage, none⟩
  | .ok .help => ⟨0, help, "", none⟩
  | .ok .version => ⟨0, version, "", none⟩
  | .ok (.run o) =>
      match o.format? with
      | none => ⟨2, "", unknownFormat o.formatName, none⟩
      | some fmt => runTask sys stdin o fmt

end Sexpr.Command
