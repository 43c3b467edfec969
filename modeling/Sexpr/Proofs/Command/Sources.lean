import Sexpr.Proofs.Command.Printing
import Sexpr.Proofs.Folder

/-!
The sources of a run. No source changes what is printed for another one, whichever of them fail, as
long as the run goes on: a home directory that is not known ends it before the first source, and a
number with too many digits ends it where it is to be printed.

- `Progress.foldl_visit`: running on one source after another adds what each of them adds alone.
- `runTask_of_quiet`, `runTask_of_crash`: so it is for paths, up to one that ends the run.
- `sources_independent`: what a command prints for its paths.
-/

namespace Sexpr

open Text (OneLine)

namespace Command

variable {sys : System} {stdin : Option (List UInt8)} {limit : DigitLimit} {o : Options}
  {settings : Settings} {fmt : Format} {source : Source}

/-! ## One source after another -/

namespace Progress

/-- What was printed before and what was printed after it, unless the run had ended. -/
def append (s t : Progress) : Progress :=
  match s.crash with
  | some _ => s
  | none => ⟨s.out ++ t.out, s.told ++ t.told, t.crash⟩

def join (ss : List Progress) : Progress := ss.foldr append start

theorem append_of_quiet {s : Progress} (quiet : s.crash = none) (t : Progress) :
    s.append t = ⟨s.out ++ t.out, s.told ++ t.told, t.crash⟩ := by
  simp only [append, quiet]

theorem append_of_crash {s : Progress} {c : Crash} (crashed : s.crash = some c) (t : Progress) :
    s.append t = s := by
  simp only [append, crashed]

theorem append_start (s : Progress) : s.append start = s := by
  rcases s with ⟨out, told, none | c⟩ <;> simp [append, start]

theorem start_append (s : Progress) : start.append s = s := by
  simp [append, start]

theorem append_assoc (s t u : Progress) : (s.append t).append u = s.append (t.append u) := by
  rcases s with ⟨out, told, none | c⟩
  · rcases t with ⟨out', told', none | c'⟩ <;> simp [append, String.append_assoc]
  · rfl

theorem join_nil : join [] = start := rfl

theorem join_cons (s : Progress) (ss : List Progress) : join (s :: ss) = s.append (join ss) := rfl

/-- What a source adds whose text was read up to an error, if there was one. -/
def outcome (limit : DigitLimit) (context : Context) (w : Written) (failure : Option ReadError) :
    Progress :=
  match w.failure, failure with
  | some e, _ => ⟨w.text, [], some (.unwritable e)⟩
  | none, none => ⟨w.text, [], none⟩
  | none, some e =>
      match (FileError.unread context e).message limit with
      | .ok line => ⟨w.text, [line], none⟩
      | .error e => ⟨w.text, [], some (.unwritable (.digits e))⟩

theorem out_outcome (context : Context) (w : Written) (failure : Option ReadError) :
    (outcome limit context w failure).out = w.text := by
  unfold outcome
  rcases w with ⟨text, none | e⟩
  · cases failure with
    | none => rfl
    | some e => cases told : (FileError.unread context e).message limit <;> simp [told]
  · rfl

theorem print_eq {s : Progress} (quiet : s.crash = none) (context : Context) (output : Output) :
    s.print limit context output =
      s.append (outcome limit context output.written output.failure) := by
  rw [append_of_quiet quiet]
  unfold print outcome
  dsimp only
  rcases output.written with ⟨text, none | e⟩
  · cases output.failure with
    | none => simp [quiet]
    | some e =>
      unfold tell
      cases told : (FileError.unread context e).message limit <;> simp [told, quiet]
  · simp

/-- What a source adds does not depend on what was printed before it. -/
theorem visit_eq (s : Progress) (x : Origin) :
    s.visit sys o settings x = s.append (start.visit sys o settings x) := by
  cases crash : s.crash with
  | some c => rw [append_of_crash crash, visit, crash]
  | none =>
    rw [append_of_quiet crash]
    unfold visit
    rw [crash]
    cases x.openBytes sys.look with
    | error e =>
      simp only [tell, FileError.message]
      simp [start, crash]
    | ok bytes =>
      dsimp only [start]
      rw [print_eq crash, print_eq rfl, append_of_quiet crash]
      simp [append]

theorem foldl_visit (xs : List Origin) (s : Progress) :
    xs.foldl (visit sys o settings) s =
      s.append (join (xs.map (start.visit sys o settings))) := by
  -- What has been printed so far is left general, since every source adds to it.
  induction xs generalizing s with
  | nil => exact (append_start s).symm
  | cons x xs ih =>
    rw [List.foldl_cons, ih, visit_eq, append_assoc, List.map_cons, join_cons]

theorem crash_report (s : Progress) : s.report.crash = s.crash := by
  rcases s with ⟨out, told, none | c⟩ <;> rfl

theorem out_report (s : Progress) : s.report.out = s.out := by
  rcases s with ⟨out, told, none | c⟩ <;> rfl

theorem report_of_crash {s : Progress} {c : Crash} (crashed : s.crash = some c) :
    s.report = ⟨1, s.out, "", some c⟩ := by
  simp only [report, crashed]

theorem report_append {s t : Progress} (quiet : s.crash = none) (quiet' : t.crash = none) :
    (s.append t).report =
      ⟨0, s.report.out ++ t.report.out, s.report.err ++ t.report.err, none⟩ := by
  simp [append, report, quiet, quiet', String.join_append]

theorem report_append_crash {s t : Progress} {c : Crash} (quiet : s.crash = none)
    (crashed : t.crash = some c) :
    (s.append t).report = ⟨1, s.report.out ++ t.report.out, "", some c⟩ := by
  simp only [append, report, quiet, crashed]

/-- Where nothing ends the run, all that the sources add is reported. -/
theorem report_join {ss : List Progress} (quiet : ∀ s ∈ ss, s.crash = none) :
    (join ss).report = ⟨0, String.join (ss.map fun s => s.report.out),
      String.join (ss.map fun s => s.report.err), none⟩ := by
  induction ss with
  | nil => rfl
  | cons s ss ih =>
    obtain ⟨first, others⟩ := List.forall_mem_cons.1 quiet
    have later := ih others
    have crash : (join ss).crash = none := by rw [← crash_report, later]
    rw [join_cons, report_append first crash, later, List.map_cons, List.map_cons,
      String.join_cons, String.join_cons]

/-- A source that ends the run is the last one that adds anything. -/
theorem report_join_crash {before after : List Progress} {s : Progress} {c : Crash}
    (quiet : ∀ s ∈ before, s.crash = none) (crashed : s.crash = some c) :
    (join (before ++ s :: after)).report =
      ⟨1, String.join (before.map fun s => s.report.out) ++ s.report.out, "", some c⟩ := by
  induction before with
  | nil =>
    rw [List.nil_append, join_cons, append_of_crash crashed, report_of_crash crashed]
    simp
  | cons t before ih =>
    obtain ⟨first, others⟩ := List.forall_mem_cons.1 quiet
    have later := ih others
    have crash : (join (before ++ s :: after)).crash = some c := by rw [← crash_report, later]
    rw [List.cons_append, join_cons, report_append_crash first crash, later, List.map_cons,
      String.join_cons, String.append_assoc]

end Progress

/-! ## The paths of a command -/

namespace Options

/-- Nothing is traced, and the run is no fuzzing. -/
structure Quiet (o : Options) : Prop where
  noDebug : o.debug = false
  noFuzz : o.fuzz = false

/-- The same options on these paths. -/
def on (o : Options) (paths : List String) : Options := { o with paths := paths }

end Options

theorem listTokens_on (paths : List String) (stop : Option ReadError) (s : Tally)
    (ts : List (Token × Pos)) :
    listTokens limit (o.on paths) stop s ts = listTokens limit o stop s ts := by
  induction ts generalizing s with
  | nil => rfl
  | cons x ts ih =>
    obtain ⟨t, pos⟩ := x
    unfold listTokens
    cases s.step t pos with
    | error e => rfl
    | ok next =>
      dsimp only
      rw [ih]
      rfl

/-- What is done with a source does not depend on the paths. -/
theorem perform_on (paths : List String) : perform limit (o.on paths) = perform limit o := by
  funext settings source
  by_cases task : o.task = .tokens
  · rw [perform_tokens limit task, ← listTokens_on paths]
    exact perform_tokens limit task
  · rw [perform_data limit task]
    exact perform_data limit task

theorem visit_on (paths : List String) (s : Progress) (x : Origin) :
    s.visit sys (o.on paths) settings x = s.visit sys o settings x := by
  unfold Progress.visit
  rw [perform_on]

/-- The path that is opened for one that is named, if the home directory in it is known. -/
def opened? (home : Home) (path : String) : Option String :=
  ((Path.parse path).expand? home).map Path.text

theorem expanded_cons (home : Home) (path : String) (paths : List String) :
    expanded home (path :: paths) =
      match opened? home path with
      | none => .error .homeless
      | some name => (expanded home paths).map (name :: ·) := by
  unfold expanded opened?
  rw [List.mapM_cons]
  cases (Path.parse path).expand? home with
  | none => rfl
  | some p => cases paths.mapM fun path => (Path.parse path).expand? home <;> rfl

theorem expanded_of_known {home : Home} {paths : List String}
    (known : ∀ path ∈ paths, opened? home path ≠ none) :
    expanded home paths = .ok (paths.map fun path => (opened? home path).getD "") := by
  induction paths with
  | nil => rfl
  | cons path paths ih =>
    obtain ⟨first, others⟩ := List.forall_mem_cons.1 known
    rw [expanded_cons, ih others, List.map_cons]
    cases opened : opened? home path with
    | none => exact absurd opened first
    | some name => rfl

theorem expanded_of_unknown {home : Home} {path : String} {paths : List String}
    (member : path ∈ paths) (unknown : opened? home path = none) :
    expanded home paths = .error .homeless := by
  induction paths with
  | nil => cases member
  | cons first paths ih =>
    rw [expanded_cons]
    cases opened : opened? home first with
    | none => rfl
    | some name =>
      rcases List.mem_cons.1 member with rfl | later
      · rw [unknown] at opened
        cases opened
      · rw [ih later]
        rfl

theorem runTask_of_unknown {paths : List String} {path : String} (noDebug : o.debug = false)
    (member : path ∈ paths) (unknown : opened? sys.home path = none) :
    runTask sys stdin (o.on paths) fmt = ⟨1, "", "", some .homeless⟩ := by
  have named : paths ≠ [] := List.ne_nil_of_mem member
  have none : origins sys stdin (o.on paths) = .error .homeless := by
    rw [origins, Options.on, if_neg named, expanded_of_unknown member unknown]
    rfl
  have quiet : (o.on paths).debug = false := noDebug
  rw [runTask, quiet, none]
  rfl

/-- What a path adds to a run, if the home directory in it is known. -/
def Progress.added (sys : System) (o : Options) (fmt : Format) (path : String) : Progress :=
  start.visit sys o (o.settings fmt) (.path ((opened? sys.home path).getD ""))

/-- A run adds what each path adds to nothing. -/
theorem runTask_of_known {paths : List String} (noDebug : o.debug = false) (named : paths ≠ [])
    (known : ∀ path ∈ paths, opened? sys.home path ≠ none) :
    runTask sys stdin (o.on paths) fmt =
      (Progress.join (paths.map (Progress.added sys o fmt))).report := by
  have all : origins sys stdin (o.on paths) =
      .ok (paths.map fun path => .path ((opened? sys.home path).getD "")) := by
    rw [origins, Options.on, if_neg named, expanded_of_known known]
    simp [Except.map]
  have quiet : (o.on paths).debug = false := noDebug
  have same : (o.on paths).settings fmt = o.settings fmt := rfl
  rw [runTask, quiet, all, same]
  simp only [Bool.false_eq_true, if_false, Progress.foldl_visit, Progress.start_append,
    List.map_map, Function.comp_def, visit_on]
  rfl

theorem runTask_alone {path : String} (noDebug : o.debug = false)
    (known : opened? sys.home path ≠ none) :
    runTask sys stdin (o.on [path]) fmt = (Progress.added sys o fmt path).report := by
  have one : ∀ path' ∈ [path], opened? sys.home path' ≠ none := by simpa using known
  rw [runTask_of_known noDebug (List.cons_ne_nil path []) one, List.map_singleton,
    Progress.join_cons, Progress.join_nil, Progress.append_start]

theorem run_eq_runTask {argv : List String} (asked : request argv = .ok (.run o))
    (known : o.format? = some fmt) : run sys stdin argv = runTask sys stdin o fmt := by
  simp only [run, asked, known]

theorem runTask_unopened {path name : String} {e : PathError} (noDebug : o.debug = false)
    (known : opened? sys.home path = some name) (refused : sys.look name = .error e) :
    ∃ line, (FileError.unopened (.file name) e).message sys.limit = .ok line ∧
      runTask sys stdin (o.on [path]) fmt = ⟨0, "", line ++ "\n", none⟩ := by
  refine ⟨_, rfl, ?_⟩
  rw [runTask_alone noDebug (by simp [known]), Progress.added, known, Option.getD_some]
  simp [Progress.visit, Origin.openBytes, Origin.context, refused, Progress.tell,
    FileError.message, Progress.report, Progress.start, String.join_cons]

theorem runTask_opened {path name : String} {bytes : List UInt8} (noDebug : o.debug = false)
    (known : opened? sys.home path = some name) (opened : sys.look name = .ok bytes) :
    ∃ w failure,
      Prints sys.limit o (o.settings fmt) (.ofBytes sys.blocking Source.standardChunk bytes) w
        failure ∧
      runTask sys stdin (o.on [path]) fmt =
        (Progress.outcome sys.limit (.file name) w failure).report := by
  have prints := prints_perform sys.limit noDebug (o.settings fmt)
    (.ofBytes sys.blocking Source.standardChunk bytes)
  refine ⟨_, _, prints, ?_⟩
  rw [runTask_alone noDebug (by simp [known]), Progress.added, known, Option.getD_some]
  simp only [Progress.visit, Progress.start, Origin.openBytes, opened]
  rw [Progress.print_eq rfl, Origin.context]
  exact congrArg Progress.report (Progress.start_append _)

theorem reports_alone {α : Type} (f : Report → α) {paths : List String} (noDebug : o.debug = false)
    (known : ∀ path ∈ paths, opened? sys.home path ≠ none) :
    (paths.map (Progress.added sys o fmt)).map (fun s => f s.report) =
      paths.map fun path => f (runTask sys stdin (o.on [path]) fmt) := by
  rw [List.map_map]
  apply List.map_congr_left
  intro path member
  rw [runTask_alone noDebug (known path member)]
  rfl

theorem quiet_alone {paths : List String} (noDebug : o.debug = false)
    (known : ∀ path ∈ paths, opened? sys.home path ≠ none)
    (alone : ∀ path ∈ paths, (runTask sys stdin (o.on [path]) fmt).crash = none) :
    ∀ s ∈ paths.map (Progress.added sys o fmt), s.crash = none := by
  intro s member
  obtain ⟨path, inside, rfl⟩ := List.mem_map.1 member
  rw [← Progress.crash_report, ← runTask_alone noDebug (known path inside), alone path inside]

/-- Where no path ends the run, it prints what each of them prints alone. -/
theorem runTask_of_quiet {paths : List String} (noDebug : o.debug = false) (named : paths ≠ [])
    (alone : ∀ path ∈ paths, (runTask sys stdin (o.on [path]) fmt).crash = none) :
    runTask sys stdin (o.on paths) fmt =
      ⟨0, String.join (paths.map fun path => (runTask sys stdin (o.on [path]) fmt).out),
        String.join (paths.map fun path => (runTask sys stdin (o.on [path]) fmt).err), none⟩ := by
  have known : ∀ path ∈ paths, opened? sys.home path ≠ none := by
    intro path member unknown
    have ended := alone path member
    rw [runTask_of_unknown noDebug List.mem_cons_self unknown] at ended
    cases ended
  rw [runTask_of_known noDebug named known,
    Progress.report_join (quiet_alone noDebug known alone), reports_alone Report.out noDebug known,
    reports_alone Report.err noDebug known]

/-- Where the home directories are known, a path that ends the run is the last one for which
anything is printed. -/
theorem runTask_of_crash {before after : List String} {path : String} {c : Crash}
    (noDebug : o.debug = false)
    (known : ∀ path' ∈ before ++ path :: after, opened? sys.home path' ≠ none)
    (alone : ∀ path' ∈ before, (runTask sys stdin (o.on [path']) fmt).crash = none)
    (crashed : (runTask sys stdin (o.on [path]) fmt).crash = some c) :
    runTask sys stdin (o.on (before ++ path :: after)) fmt =
      ⟨1, String.join (before.map fun path => (runTask sys stdin (o.on [path]) fmt).out) ++
        (runTask sys stdin (o.on [path]) fmt).out, "", some c⟩ := by
  obtain ⟨front, rest⟩ := List.forall_mem_append.1 known
  obtain ⟨here, -⟩ := List.forall_mem_cons.1 rest
  have ended : (Progress.added sys o fmt path).crash = some c := by
    rw [← Progress.crash_report, ← runTask_alone noDebug here, crashed]
  rw [runTask_of_known noDebug (by simp) known, List.map_append, List.map_cons,
    Progress.report_join_crash (quiet_alone noDebug front alone) ended,
    reports_alone Report.out noDebug front, runTask_alone noDebug here]

theorem Progress.faults_outcome {context : Context} {w : Written} {failure : Option ReadError}
    {c : Crash} (unwritten : ∀ e, w.failure = some e → limit.Faults e)
    (crashed : (Progress.outcome limit context w failure).crash = some c) :
    ∃ e, c = .unwritable e ∧ limit.Faults e := by
  unfold outcome at crashed
  cases shown : w.failure with
  | some e =>
    rw [shown] at crashed
    cases crashed
    exact ⟨e, rfl, unwritten e shown⟩
  | none =>
    cases failure with
    | none => simp [shown] at crashed
    | some e =>
      cases told : (FileError.unread context e).message limit with
      | ok line => simp [shown, told] at crashed
      | error e' =>
        have most := Fault.bounds_describe limit e.fault
        simp only [shown, told, Option.some.injEq] at crashed
        have bounded : limit.Bounds ((FileError.unread context e).message limit) := most.map
        exact ⟨_, crashed.symm, e'.most, bounded e' told, rfl⟩

/-- What is told of a path is one error on one line, if anything is. -/
theorem Progress.oneLine_outcome {path : String} {w : Written} {failure : Option ReadError}
    (h : Prints limit o settings source w failure) (told : source.OneLine) :
    (outcome limit (.file path) w failure).report.err = "" ∨
      ∃ line, OneLine line ∧ (outcome limit (.file path) w failure).report.err = line ++ "\n" := by
  unfold outcome
  cases shown : w.failure with
  | some e => exact .inl rfl
  | none =>
    cases failure with
    | none => exact .inl rfl
    | some e =>
      cases said : (FileError.unread (.file path) e).message limit with
      | ok line => exact .inr ⟨line, h.oneLine told said, by simp [said, report, String.join_cons]⟩
      | error e' => exact .inl (by simp [said, report])

/-- The name of a file is opened as it is, unless it begins with a tilde. -/
theorem parse_name {name : String} (inside : '/' ∉ name.toList) (nonempty : name ≠ "")
    (other : name ≠ ".") : Path.parse name = ⟨"", [name]⟩ := by
  have parts : Folder.names name = [name] := by
    have whole : name.toList.splitOn '/' = [name.toList] := by
      apply List.splitOnP_eq_singleton
      intro c hc
      apply beq_eq_false_iff_ne.2
      rintro rfl
      exact inside hc
    rw [Folder.names, whole, List.map_singleton, String.ofList_toList]
  have relative {root : String} (slash : '/' ∈ root.toList) : ¬ name.startsWith root := by
    intro starts
    exact inside ((String.startsWith_string_iff.1 starts).subset slash)
  rw [Path.parse, parts, if_neg (relative (by decide)), if_neg (relative (by decide)),
    if_neg (relative (by decide))]
  simp [nonempty, other]

theorem opened?_name {home : Home} {name : String} (inside : '/' ∉ name.toList)
    (nonempty : name ≠ "") (other : name ≠ ".") (plain : name.toList.head? ≠ some '~') :
    opened? home name = some name := by
  have noTilde : (Path.mk "" [name]).tilde? = none := by
    unfold Path.tilde?
    grind
  rw [opened?, parse_name inside nonempty other, Path.expand?, noTilde]
  simp [Path.text, nonempty]

/-- A user who is not known has no home directory. -/
theorem opened?_tilde {home : Home} {name : String} {user : List Char}
    (inside : '/' ∉ name.toList) (tilde : name.toList = '~' :: user)
    (unknown : home (String.ofList user) = none) : opened? home name = none := by
  have nonempty : name ≠ "" := by
    rintro rfl
    cases tilde
  have other : name ≠ "." := by
    rintro rfl
    cases tilde
  have first : (Path.mk "" [name]).tilde? = some (String.ofList user, []) := by
    simp [Path.tilde?, tilde]
  rw [opened?, parse_name inside nonempty other, Path.expand?, first]
  simp [unknown]

/-- A run on some paths prints what runs on each of the paths alone print, one after another, and
tells their errors in the same order, whichever of them fail, unless one of them ends the run. A path
with a home directory that is not known ends it before anything is printed; and a number with too
many digits ends it where it is to be printed or told of, after what was printed before. For a path
that cannot be opened no more is told than that. A path that can is read by itself: for it data are
printed if all of them could be read, or else nothing; tokens are listed up to the first fault, and
counted only if there is none. No path has more than one error, which is told on one line if the
reason that the system gives is. -/
theorem sources_independent (sys : System) (stdin : Option (List UInt8)) (fmt : Format)
    (quiet : o.Quiet) {paths : List String} (named : paths ≠ []) :
    let ran (paths : List String) := runTask sys stdin (o.on paths) fmt
    (∀ argv paths, request argv = .ok (.run (o.on paths)) → o.format? = some fmt →
      run sys stdin argv = ran paths) ∧
    ((∀ path ∈ paths, (ran [path]).crash = none) →
      ran paths = ⟨0, String.join (paths.map fun path => (ran [path]).out),
        String.join (paths.map fun path => (ran [path]).err), none⟩) ∧
    ((∃ path ∈ paths, opened? sys.home path = none) → ran paths = ⟨1, "", "", some .homeless⟩) ∧
    ((∀ path ∈ paths, opened? sys.home path ≠ none) →
      ∀ before path after c, paths = before ++ path :: after →
        (∀ path' ∈ before, (ran [path']).crash = none) → (ran [path]).crash = some c →
        ran paths = ⟨1, String.join (before.map fun path => (ran [path]).out) ++ (ran [path]).out,
          "", some c⟩) ∧
    ∀ path name, opened? sys.home path = some name →
      let alone := ran [path]
      (∀ e, sys.look name = .error e →
        ∃ line, (FileError.unopened (.file name) e).message sys.limit = .ok line ∧
          alone = ⟨0, "", line ++ "\n", none⟩) ∧
      (∀ bytes, sys.look name = .ok bytes → ∃ w failure,
        Prints sys.limit o (o.settings fmt) (.ofBytes sys.blocking Source.standardChunk bytes) w
          failure ∧
        alone = (Progress.outcome sys.limit (.file name) w failure).report ∧
        (o.task ≠ .tokens → failure ≠ none → alone.out = "")) ∧
      ((∀ e, sys.look name = .error e → OneLine e.fault.describe) →
        alone.err = "" ∨ ∃ line, OneLine line ∧ alone.err = line ++ "\n") ∧
      ∀ c, alone.crash = some c → ∃ e, c = .unwritable e ∧ sys.limit.Faults e := by
  intro ran
  refine ⟨?_, runTask_of_quiet quiet.noDebug named, ?_, ?_, ?_⟩
  · intro argv paths asked known
    exact run_eq_runTask asked known
  · rintro ⟨path, member, unknown⟩
    exact runTask_of_unknown quiet.noDebug member unknown
  · rintro known before path after c rfl front crashed
    exact runTask_of_crash quiet.noDebug known front crashed
  · intro path name known alone
    refine ⟨fun e refused => runTask_unopened quiet.noDebug known refused, ?_, ?_, ?_⟩
    · intro bytes opened
      obtain ⟨w, failure, prints, printed⟩ := runTask_opened quiet.noDebug known opened
      refine ⟨w, failure, prints, printed, ?_⟩
      intro task failed
      obtain ⟨e, rfl⟩ := Option.ne_none_iff_exists'.1 failed
      obtain rfl := prints.all_or_nothing task
      have out : alone.out = _ := congrArg Report.out printed
      rw [out, Progress.out_report, Progress.out_outcome]
    · intro system
      cases found : sys.look name with
      | error e =>
        obtain ⟨line, told, printed⟩ := runTask_unopened quiet.noDebug known found
        have err : alone.err = _ := congrArg Report.err printed
        exact .inr ⟨line, FileError.oneLine_unopened (system e found) told, err⟩
      | ok bytes =>
        obtain ⟨w, failure, prints, printed⟩ := runTask_opened quiet.noDebug known found
        have err : alone.err = _ := congrArg Report.err printed
        rw [err]
        exact Progress.oneLine_outcome prints (Source.oneLine_ofBytes _ _ bytes)
    · intro c crashed
      cases found : sys.look name with
      | error e =>
        obtain ⟨line, told, printed⟩ := runTask_unopened quiet.noDebug known found
        have none : alone.crash = _ := congrArg Report.crash printed
        rw [crashed] at none
        cases none
      | ok bytes =>
        obtain ⟨w, failure, prints, printed⟩ := runTask_opened quiet.noDebug known found
        have same : alone.crash = _ := congrArg Report.crash printed
        rw [Progress.crash_report, crashed] at same
        exact Progress.faults_outcome (fun e => prints.faults) same.symm

/-- Two paths that fail, one that cannot be opened and one with a token before a bracket that closes
nothing, are told of one after the other. With a path of a user who is not known after them, nothing
is printed at all. -/
theorem sources_independent_failing :
    let o : Options := ⟨.tokens, "gambit", false, false, false, false, true, false, false, []⟩
    let look : Lookup := fun path =>
      if path = "bad.scm" then .ok (Text.Utf8.encode ['a', ')']) else .error ⟨.notFound, path⟩
    let sys : System := ⟨look, fun _ => none, .standard, .ofSize Source.standardBlock (by decide)⟩
    let paths := ["missing.scm", "bad.scm"]
    o.Quiet ∧ paths ≠ [] ∧
      runTask sys none (o.on paths) .gambit =
        ⟨0, "a\n", "'missing.scm': [Errno 2] No such file or directory: 'missing.scm'\n" ++
          "unexpected closing character ')' in 'bad.scm'@1.1\n", none⟩ ∧
      runTask sys none (o.on (paths ++ ["~nobody"])) .gambit = ⟨1, "", "", some .homeless⟩ := by
  intro o look sys paths
  have quiet : o.Quiet := ⟨rfl, rfl⟩
  have named : paths ≠ [] := List.cons_ne_nil _ _
  obtain ⟨-, whole, -, -, each⟩ := sources_independent sys none .gambit quiet named
  obtain ⟨-, -, homeless, -⟩ :=
    @sources_independent o sys none .gambit quiet (paths ++ ["~nobody"]) (by simp)
  have missingOpened : opened? sys.home "missing.scm" = some "missing.scm" :=
    opened?_name (by decide) (by decide) (by decide) (by decide)
  have badOpened : opened? sys.home "bad.scm" = some "bad.scm" :=
    opened?_name (by decide) (by decide) (by decide) (by decide)
  have noHome : opened? sys.home "~nobody" = none :=
    @opened?_tilde sys.home "~nobody" ['n', 'o', 'b', 'o', 'd', 'y'] (by decide) (by decide) rfl
  have source : Source.ofBytes sys.blocking Source.standardChunk (Text.Utf8.encode ['a', ')']) =
      .ofChars ['a', ')'] .start := by
    rw [Source.ofBytes, TextStream.ofBytes_encode _ _ (by decide),
      TextStream.toSource_complete (by decide)]
  have first : Scan.token (o.settings .gambit) 'a' .start (Input.ofChars [')'] ⟨0, 1⟩) =
      .upTo (some (.atom (.symbol "a"))) [(')', ⟨0, 1⟩)] := by rfl
  have second : Scan.token (o.settings .gambit) ')' ⟨0, 1⟩ [] =
      .done (some (.closing .round)) [] := by rfl
  have tokens : Tokens.ofSource (o.settings .gambit) (.ofChars ['a', ')'] .start) =
      ⟨[⟨.atom (.symbol "a"), .start, [(')', ⟨0, 1⟩)], true⟩, ⟨.closing .round, ⟨0, 1⟩, [], false⟩],
        none, []⟩ :=
    Tokens.makes_iff.1 (.token first (fun _ => rfl) rfl (.token second (fun _ => rfl) rfl .ended))
  have listed : perform .standard o (o.settings .gambit) (.ofChars ['a', ')'] .start) =
      ⟨[.ok "a\n"], some ⟨.structural (.unexpectedClosing .round), ⟨0, 1⟩⟩⟩ := by
    rw [perform_tokens _ rfl, tokens]
    rfl
  obtain ⟨line, told, missing⟩ := (each "missing.scm" "missing.scm" missingOpened).1
    ⟨.notFound, "missing.scm"⟩ rfl
  cases told
  obtain ⟨w, failure, prints, bad, -⟩ := (each "bad.scm" "bad.scm" badOpened).2.1
    (Text.Utf8.encode ['a', ')']) rfl
  rw [source] at prints
  obtain ⟨written, failed⟩ := perform_of_prints rfl prints
  rw [listed] at written failed
  subst written failed
  dsimp only at missing bad
  have alone : ∀ path ∈ paths, (runTask sys none (o.on [path]) .gambit).crash = none := by
    intro path member
    simp only [paths, List.mem_cons, List.not_mem_nil, or_false] at member
    rcases member with rfl | rfl
    · rw [missing]
    · rw [bad]
      rfl
  refine ⟨quiet, named, (whole alone).trans ?_, homeless ⟨"~nobody", by simp, noHome⟩⟩
  simp only [paths, List.map_cons, List.map_nil]
  rw [missing, bad]
  decide

end Command

end Sexpr
