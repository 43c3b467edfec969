import Sexpr.Command.Arguments
import Sexpr.Dialect

/-!
What a command line asks for: a task on some paths with its options, or only to be told how to ask.
-/

namespace Sexpr.Command

def usage : String :=
  "Usage:\n" ++
  "    anysxpyr tokens [options] [<path>...]\n" ++
  "    anysxpyr tree   [options] [<path>...]\n" ++
  "    anysxpyr dump   [options] [<path>...]\n"

def help : String :=
  " anysxpyr read s-expressions\n" ++
  "\n" ++ usage ++ "\n" ++
  "Examples:\n" ++
  "    python -m anysxpyr.cli tokens --print --pos -c some-file.scm\n" ++
  "    python -m anysxpyr.cli tree --print --format=r7rs some-file.scm\n" ++
  "\n" ++
  "Options:\n" ++
  "    -f --format=NAME    dialect, one of gambit r7rs guile [default: gambit]\n" ++
  "    -w --whitespace     keep whitespace tokens (tokens only)\n" ++
  "    -c --comments       keep comment tokens (tokens only)\n" ++
  "    -n --no-improper    improper lists are an error\n" ++
  "    -p --pos            show token positions (tokens only)\n" ++
  "    --print             print what was read\n" ++
  "    --fuzz              run under afl\n" ++
  "    -d --debug          debug output\n"

def version : String := "anysxpyr 0.1.0\n"

inductive Task
  | tokens
  | tree
  | dump
  deriving DecidableEq, Repr

namespace Task

def name : Task → String
  | .tokens => "tokens"
  | .tree => "tree"
  | .dump => "dump"

def named? (s : String) : Option Task :=
  [tokens, tree, dump].find? fun t => t.name == s

end Task

structure Options where
  task : Task
  formatName : String
  whitespace : Bool
  comments : Bool
  noImproper : Bool
  pos : Bool
  print : Bool
  fuzz : Bool
  debug : Bool
  paths : List String
  deriving DecidableEq, Repr

/-- The options in the order in which the help lists them. -/
def forms : List OptionForm :=
  [⟨some "-f", some "--format", true⟩, ⟨some "-w", some "--whitespace", false⟩,
   ⟨some "-c", some "--comments", false⟩, ⟨some "-n", some "--no-improper", false⟩,
   ⟨some "-p", some "--pos", false⟩, ⟨none, some "--print", false⟩, ⟨none, some "--fuzz", false⟩,
   ⟨some "-d", some "--debug", false⟩]

inductive Request
  | help
  | version
  | run (o : Options)

/-- An option counts as given unless its value is empty. -/
def asks (args : List Argument) (name : String) : Bool :=
  args.any fun
    | .option n value => n = name && value ≠ some ""
    | .positional _ => false

def optionNames (args : List Argument) : List String :=
  args.filterMap fun
    | .option name _ => some name
    | .positional _ => none

def positionals (args : List Argument) : List String :=
  args.filterMap fun
    | .positional text => some text
    | .option .. => none

def valueOf (args : List Argument) (name : String) : Option String :=
  (args.filterMap fun
    | .option n value => if n = name then value else none
    | .positional _ => none).head?

/-- The task comes first among the positional arguments, and each known option at most once. -/
def options? (args : List Argument) : Option Options :=
  let names := optionNames args
  if names.all (fun n => (forms.map OptionForm.name).contains n) && decide names.Nodup then
    match positionals args with
    | [] => none
    | first :: paths => (Task.named? first).map fun task =>
        { task := task
          formatName := (valueOf args "--format").getD "gambit"
          whitespace := names.contains "--whitespace"
          comments := names.contains "--comments"
          noImproper := names.contains "--no-improper"
          pos := names.contains "--pos"
          print := names.contains "--print"
          fuzz := names.contains "--fuzz"
          debug := names.contains "--debug"
          paths := paths }
  else none

/-- Asking for help or for the version comes before all else that is asked. -/
def request (argv : List String) : Except UsageFault Request :=
  match arguments forms argv with
  | .error e => .error e
  | .ok args =>
      if asks args "-h" || asks args "--help" then .ok .help
      else if asks args "--version" then .ok .version
      else match options? args with
        | some o => .ok (.run o)
        | none => .error .noMatch

namespace Options

def format? (o : Options) : Option Format := Format.preset? o.formatName

def settings (o : Options) (fmt : Format) : Settings where
  format := fmt
  modes := ⟨o.whitespace, o.comments, !o.noImproper⟩

end Options

end Sexpr.Command
