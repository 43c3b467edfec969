/-!
The arguments of a command line: options, long or short, with or without a value, and the
arguments between them.
-/

namespace Sexpr.Command

/-- Names are kept with their dashes. -/
structure OptionForm where
  short : Option String
  long : Option String
  takesValue : Bool
  deriving DecidableEq, Repr

/-- The long name if there is one. -/
def OptionForm.name (o : OptionForm) : String :=
  match o.long, o.short with
  | some name, _ | none, some name => name
  | none, none => ""

inductive Argument
  | positional (text : String)
  | option (name : String) (value : Option String)
  deriving DecidableEq, Repr

inductive UsageFault
  | ambiguous (given : String) (candidates : List String)
  | unwantedValue (name : String)
  | missingValue (name : String)
  | noMatch
  deriving DecidableEq, Repr

def UsageFault.describe : UsageFault → String
  | .ambiguous given candidates =>
      given ++ " is not a unique prefix: " ++ ", ".intercalate candidates ++ "?\n"
  | .unwantedValue name => name ++ " must not have an argument\n"
  | .missingValue name => name ++ " requires argument\n"
  | .noMatch => ""

/-- Options found in one argument, the forms known after it, and whether the argument after it was
used up as a value. -/
structure Found where
  arguments : List Argument
  forms : List OptionForm
  usedNext : Bool

/-- Whatever argument follows is the value, two dashes as well. -/
def nextValue (name : String) (next : Option String) : Except UsageFault String :=
  match next with
  | some s => .ok s
  | none => .error (.missingValue name)

/-- The name before the first equals sign, and the value after it. -/
def splitValue (arg : String) : String × Option String :=
  let cs := arg.toList
  let name := String.ofList (cs.takeWhile (· ≠ '='))
  match cs.dropWhile (· ≠ '=') with
  | [] => (name, none)
  | _ :: value => (name, some (String.ofList value))

/-- The forms a long name can mean: one by that name, else those whose name begins with it. -/
def matchingForms (forms : List OptionForm) (name : String) : List OptionForm :=
  match forms.filter fun o => o.long == some name with
  | [] => forms.filter fun o => match o.long with
      | some long => long.startsWith name
      | none => false
  | exact => exact

/-- A name that is not known is taken as an option too, and known from then on. -/
def longOption (forms : List OptionForm) (arg : String) (next : Option String) :
    Except UsageFault Found :=
  let (name, value) := splitValue arg
  match matchingForms forms name with
  | [] =>
      let form : OptionForm := ⟨none, some name, value.isSome⟩
      .ok ⟨[.option name value], forms ++ [form], false⟩
  | [o] =>
      match o.takesValue, value with
      | false, none => .ok ⟨[.option o.name none], forms, false⟩
      | false, some _ => .error (.unwantedValue o.name)
      | true, some v => .ok ⟨[.option o.name (some v)], forms, false⟩
      | true, none => (nextValue o.name next).map fun v =>
          ⟨[.option o.name (some v)], forms, true⟩
  | many => .error (.ambiguous name (many.map OptionForm.name))

/-- Short options stand together, and the rest of the letters is the value of one that takes a
value. -/
def shortOptions (forms : List OptionForm) (next : Option String) : List Char →
    Except UsageFault Found
  | [] => .ok ⟨[], forms, false⟩
  | c :: cs =>
      let name := String.ofList ['-', c]
      match forms.find? fun o => o.short == some name with
      | none =>
          (shortOptions (forms ++ [⟨some name, none, false⟩]) next cs).map fun found =>
            { found with arguments := .option name none :: found.arguments }
      | some o =>
          if o.takesValue then
            if cs = [] then (nextValue name next).map fun v =>
              ⟨[.option o.name (some v)], forms, true⟩
            else .ok ⟨[.option o.name (some (String.ofList cs))], forms, false⟩
          else (shortOptions forms next cs).map fun found =>
            { found with arguments := .option o.name none :: found.arguments }

/-- The arguments in order. After two dashes, which stay, all are positional. -/
def arguments (forms : List OptionForm) : List String → Except UsageFault (List Argument)
  | [] => .ok []
  | arg :: rest =>
      if arg = "--" then .ok ((arg :: rest).map .positional)
      else
        let found :=
          if arg.startsWith "--" then longOption forms arg rest.head?
          else if arg.startsWith "-" ∧ arg ≠ "-" then
            shortOptions forms rest.head? (arg.toList.drop 1)
          else .ok ⟨[.positional arg], forms, false⟩
        match found with
        | .error e => .error e
        | .ok found =>
            (arguments found.forms (if found.usedNext then rest.drop 1 else rest)).map
              (found.arguments ++ ·)
termination_by args => args.length
decreasing_by
  split
  · simp only [List.length_drop, List.length_cons]; omega
  · simp

end Sexpr.Command
