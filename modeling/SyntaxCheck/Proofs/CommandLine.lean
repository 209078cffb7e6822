import SyntaxCheck.Cli.Session
import SyntaxCheck.Proofs.Programs

/-!
# Each file is checked on its own

A run of the command line checks its files one after the other and keeps nothing from one file to
the next: what it prints is what the runs on each file alone print, in order, and it fails exactly
when one of them fails (`run_checks_files_apart`). A run on one file prints the diagnostic of
the first thing that went wrong, reading the file, scanning its text or recognising its tokens,
or else its tree (its trace with `--trace`, nothing with `--quiet`) and the success line.

The command line is read by the argument library, a parameter of every run. What the library is
documented to do with the command line written out for a request, its options by their long names,
then `--` and its files, is `ReadsCommandLines`: it reads the line back as the request, and it
refuses an empty file name, since its parser of paths takes no empty value. So files are checked
apart whenever every one of them is named; one empty name turns the whole run into a refusal,
with nothing on standard output (`empty_file_name_refuses_the_run`).

The other fact the result rests on: the report of a request is the report of each file, which
reads only the options of the request, never its other files (`Request.fileReport_alone`).
-/

namespace SyntaxCheck.Cli

namespace Request

/-- The long names of the options a request asks for, in the order the program declares them. -/
def optionNames (r : Request) : List String :=
  [("--trace", r.trace), ("--nested", r.nested), ("--lenient", r.lenient),
    ("--quiet", r.quiet)].filterMap fun (name, given) => if given then some name else none

/-- The command line that asks for `r`: its options by their long names, then `--` and its files,
so that no file is taken for an option. -/
def commandLine (r : Request) : List String := r.optionNames ++ "--" :: r.files

/-- The request for the file `f` alone, with the options of `r`. -/
def alone (r : Request) (f : String) : Request := { r with files := [f] }

theorem mem_optionNames (r : Request) (x : String) :
    x ∈ r.optionNames ↔ (r.trace ∧ x = "--trace") ∨ (r.nested ∧ x = "--nested") ∨
      (r.lenient ∧ x = "--lenient") ∨ (r.quiet ∧ x = "--quiet") := by
  simp [optionNames, @eq_comm String _ x]

theorem ne_dashes_of_mem_optionNames (r : Request) : ∀ x ∈ r.optionNames, x ≠ "--" := by
  intro x hx
  rcases (r.mem_optionNames x).1 hx with ⟨-, rfl⟩ | ⟨-, rfl⟩ | ⟨-, rfl⟩ | ⟨-, rfl⟩ <;> decide

/-- Each option is named on the command line exactly when the request asks for it. -/
theorem contains_optionNames (r : Request) :
    r.optionNames.contains "--trace" = r.trace ∧ r.optionNames.contains "--nested" = r.nested ∧
      r.optionNames.contains "--lenient" = r.lenient ∧
      r.optionNames.contains "--quiet" = r.quiet := by
  refine ⟨?_, ?_, ?_, ?_⟩ <;>
    rw [Bool.eq_iff_iff, List.contains_iff_mem, mem_optionNames] <;> simp

end Request

/-- What the argument library is documented to do with the command line of a request. Each option
is a flag set by its long name; `--` ends the options, and every argument after it is a value of
`<FILES>...`, taken in order; at least one file is required. A file is a path, whose parser
refuses an empty value, and a refusal ends the run. -/
structure ReadsCommandLines (parse : List String → Command) : Prop where
  /-- The command line of a request naming files, none of them empty, reads as the request. -/
  reads : ∀ r : Request, r.files ≠ [] → (∀ f ∈ r.files, f ≠ "") →
    parse r.commandLine = .check r
  /-- The command line of a request with an empty file name is refused. -/
  refusesEmpty : ∀ r : Request, "" ∈ r.files → ∃ message, parse r.commandLine = .refuse message

/-! ## A reader of such command lines -/

/-- The options before `--` and the files after it, refusing a command line with no file or with
an empty one: the argument library on the command lines of requests. -/
def readOptionsThenFiles (args : List String) : Command :=
  let given := args.takeWhile (· ≠ "--")
  match args.dropWhile (· ≠ "--") with
  | _ :: files =>
    if files.isEmpty || files.contains "" then
      .refuse "error: a value is required for '<FILES>...' but none was supplied\n"
    else
      .check ⟨given.contains "--trace", given.contains "--nested", given.contains "--lenient",
        given.contains "--quiet", files⟩
  | [] => .refuse "error: the following required arguments were not provided\n"

theorem readOptionsThenFiles_commandLine (r : Request) :
    readOptionsThenFiles r.commandLine =
      if r.files.isEmpty || r.files.contains "" then
        .refuse "error: a value is required for '<FILES>...' but none was supplied\n"
      else .check r := by
  have hopt : ∀ x ∈ r.optionNames, decide (x ≠ "--") = true := fun x hx => by
    simpa using r.ne_dashes_of_mem_optionNames x hx
  have htake : r.commandLine.takeWhile (· ≠ "--") = r.optionNames := by
    rw [Request.commandLine, List.takeWhile_append_of_pos hopt,
      List.takeWhile_cons_of_neg (by simp), List.append_nil]
  have hdrop : r.commandLine.dropWhile (· ≠ "--") = "--" :: r.files := by
    rw [Request.commandLine, List.dropWhile_append_of_pos hopt,
      List.dropWhile_cons_of_neg (by simp)]
  obtain ⟨ht, hn, hl, hq⟩ := r.contains_optionNames
  simp only [readOptionsThenFiles, htake, hdrop, ht, hn, hl, hq]

/-- The reader has the documented behaviour of the argument library. -/
theorem readsCommandLines_readOptionsThenFiles : ReadsCommandLines readOptionsThenFiles := by
  constructor
  · intro r hne hnames
    have hnone : (r.files.isEmpty || r.files.contains "") = false := by
      simpa [List.isEmpty_iff] using ⟨hne, fun h => hnames "" h rfl⟩
    rw [readOptionsThenFiles_commandLine, hnone, if_neg Bool.false_ne_true]
  · intro r hempty
    have hsome : (r.files.isEmpty || r.files.contains "") = true := by simp [hempty]
    exact ⟨_, by rw [readOptionsThenFiles_commandLine, hsome, if_pos rfl]⟩

/-! ## The report of each file -/

namespace Request

/-- Checking a file reads the options of a request, not its files. -/
theorem fileReport_alone (r : Request) (f : String) : (r.alone f).fileReport = r.fileReport := rfl

theorem run_commandLine {parse : List String → Command} (hparse : ReadsCommandLines parse)
    (read : String → Except String String) (r : Request) (hne : r.files ≠ [])
    (hnames : ∀ f ∈ r.files, f ≠ "") :
    run parse read r.commandLine = r.report (r.files.map fun f => (f, read f)) := by
  rw [run, hparse.reads r hne hnames]

/-- A file checked alone prints its report, and the run fails exactly when the file does. -/
theorem run_alone {parse : List String → Command} (hparse : ReadsCommandLines parse)
    (read : String → Except String String) (r : Request) {f : String} (hf : f ≠ "") :
    run parse read (r.alone f).commandLine =
      ⟨if (r.fileReport f (read f)).1 then 0 else 1, (r.fileReport f (read f)).2, ""⟩ := by
  rw [run_commandLine hparse read (r.alone f) (List.cons_ne_nil _ _) (by simpa [alone] using hf)]
  simp only [report, fileReport_alone]
  simp [alone]

/-- A command line with an empty file name is refused: it ends with status 2 and writes nothing to
standard output. -/
theorem run_refused {parse : List String → Command} (hparse : ReadsCommandLines parse)
    (read : String → Except String String) (r : Request) (hempty : "" ∈ r.files) :
    (run parse read r.commandLine).status = 2 ∧ (run parse read r.commandLine).stdout = "" := by
  obtain ⟨message, hm⟩ := hparse.refusesEmpty r hempty
  rw [run, hm]
  exact ⟨rfl, rfl⟩

theorem fileReport_unscannable (r : Request) {f s : String} {d : Diagnostic}
    (h : tokenize s (some f) = .error d) : r.fileReport f (.ok s) = (false, d.render f s) := by
  simp [fileReport, check, TokenSource.ofText, h, Except.map, bind, Except.bind]

theorem fileReport_rejected (r : Request) {f s : String} {ts : List Token} {rec : Recognition}
    {d : Diagnostic} (h : tokenize s (some f) = .ok ts)
    (hp : Recognition.program r.options (.ofTokens ts) = .ok rec) (hd : rec.diagnostic? = some d) :
    r.fileReport f (.ok s) = (false, d.render f s) := by
  simp [fileReport, check, TokenSource.ofText, h, hp, hd, Except.map, bind, Except.bind]

theorem fileReport_accepted (r : Request) {f s : String} {ts : List Token} {rec : Recognition}
    (h : tokenize s (some f) = .ok ts)
    (hp : Recognition.program r.options (.ofTokens ts) = .ok rec) (hd : rec.diagnostic? = none) :
    r.fileReport f (.ok s) = (true, (if r.quiet then "" else if r.trace then rec.trace.render
      else (rec.builder.finish.map Tree.render).getD "") ++ f ++ ": compiled successfully\n") := by
  by_cases ht : r.trace <;>
    simp [fileReport, check, TokenSource.ofText, h, hp, hd, ht, Except.map, bind, Except.bind]

/-- The tokens of a text are always recognised: a source over a token list never fails. -/
theorem program_ofTokens (o : Options) (ts : List Token) :
    ∃ rec, Recognition.program o (.ofTokens ts) = .ok rec := by
  obtain ⟨t, s', hp, -⟩ := (TokenSource.ends_ofTokens ts).pull
  exact Recognition.program_ok hp

/-- **Files are checked independently.** For every argument library with its documented
behaviour, every way of reading files and every request naming files: when every file is named,
the run prints what the runs on each file alone print, one after the other, and fails exactly when
one of them fails; when a file name is empty, the run is refused and prints nothing. A run on a
named file alone fails, printing the diagnostic with its excerpt, when the file cannot be read
(with no source to show), when its text does not scan, or when its tokens are not a program;
otherwise it succeeds, printing its trace with `--trace`, else its tree, or nothing with
`--quiet`, then the success line. -/
theorem run_checks_files_apart (parse : List String → Command) (hparse : ReadsCommandLines parse)
    (read : String → Except String String) (r : Request) (hne : r.files ≠ []) :
    ((∀ f ∈ r.files, f ≠ "") → run parse read r.commandLine =
        ⟨if ∀ f ∈ r.files, (run parse read (r.alone f).commandLine).status = 0 then 0 else 1,
          String.join (r.files.map fun f => (run parse read (r.alone f).commandLine).stdout),
          ""⟩) ∧
    ("" ∈ r.files → (run parse read r.commandLine).status = 2 ∧
        (run parse read r.commandLine).stdout = "") ∧
    ∀ f ∈ r.files, f ≠ "" →
      (∀ reason, read f = .error reason → run parse read (r.alone f).commandLine =
        ⟨1, (Diagnostic.unreadable reason ⟨0, f⟩).render f "", ""⟩) ∧
      (∀ s d, read f = .ok s → tokenize s (some f) = .error d →
        run parse read (r.alone f).commandLine = ⟨1, d.render f s, ""⟩) ∧
      (∀ s ts, read f = .ok s → tokenize s (some f) = .ok ts →
        ∃ rec, Recognition.program r.options (.ofTokens ts) = .ok rec ∧
          run parse read (r.alone f).commandLine = match rec.diagnostic? with
            | some d => ⟨1, d.render f s, ""⟩
            | none => ⟨0, (if r.quiet then "" else if r.trace then rec.trace.render
                else (rec.builder.finish.map Tree.render).getD "") ++ f ++
                ": compiled successfully\n", ""⟩) := by
  refine ⟨fun hnames => ?_, run_refused hparse read r,
    fun f _ hf => ⟨fun e he => ?_, fun s d hs hd => ?_, fun s ts hs hts => ?_⟩⟩
  · -- the whole run is the report of each file, and so is each run alone
    have hout : r.files.map (fun f => (run parse read (r.alone f).commandLine).stdout) =
        r.files.map (fun f => (r.fileReport f (read f)).2) :=
      List.map_congr_left fun f hf => by rw [run_alone hparse read r (hnames f hf)]
    have hall : (∀ f ∈ r.files, (run parse read (r.alone f).commandLine).status = 0) ↔
        (r.files.all fun f => (r.fileReport f (read f)).1) = true := by
      rw [List.all_eq_true]
      refine forall₂_congr fun f hf => ?_
      rw [run_alone hparse read r (hnames f hf)]
      cases (r.fileReport f (read f)).1 <;> simp
    rw [run_commandLine hparse read r hne hnames, hout]
    simp only [report, List.map_map, List.all_map, hall]
    rfl
  · rw [run_alone hparse read r hf, he]
    rfl
  · rw [run_alone hparse read r hf, hs, fileReport_unscannable r hd]
    rfl
  · obtain ⟨rec, hp⟩ := program_ofTokens r.options ts
    refine ⟨rec, hp, ?_⟩
    rw [run_alone hparse read r hf, hs]
    cases hd : rec.diagnostic? with
    | some d => rw [fileReport_rejected r hts hp hd]; rfl
    | none => rw [fileReport_accepted r hts hp hd]; rfl

/-- A quiet run on a program and on a file that cannot be read: each is reported as it would be
alone. -/
theorem program_and_missing_file_checked_apart :
    let r : Request := ⟨false, false, false, true, ["a.txt", "b.txt"]⟩
    let read : String → Except String String := fun f =>
      if f = "a.txt" then .ok "begin x := 1 end"
      else .error "No such file or directory (os error 2)"
    (ReadsCommandLines readOptionsThenFiles ∧ r.files ≠ []) ∧
    ((∀ f ∈ r.files, f ≠ "") → run readOptionsThenFiles read r.commandLine =
        ⟨if ∀ f ∈ r.files, (run readOptionsThenFiles read (r.alone f).commandLine).status = 0
            then 0 else 1,
          String.join (r.files.map fun f =>
            (run readOptionsThenFiles read (r.alone f).commandLine).stdout), ""⟩) ∧
    ("" ∈ r.files → (run readOptionsThenFiles read r.commandLine).status = 2 ∧
        (run readOptionsThenFiles read r.commandLine).stdout = "") ∧
    ∀ f ∈ r.files, f ≠ "" →
      (∀ reason, read f = .error reason → run readOptionsThenFiles read (r.alone f).commandLine =
        ⟨1, (Diagnostic.unreadable reason ⟨0, f⟩).render f "", ""⟩) ∧
      (∀ s d, read f = .ok s → tokenize s (some f) = .error d →
        run readOptionsThenFiles read (r.alone f).commandLine = ⟨1, d.render f s, ""⟩) ∧
      (∀ s ts, read f = .ok s → tokenize s (some f) = .ok ts →
        ∃ rec, Recognition.program r.options (.ofTokens ts) = .ok rec ∧
          run readOptionsThenFiles read (r.alone f).commandLine = match rec.diagnostic? with
            | some d => ⟨1, d.render f s, ""⟩
            | none => ⟨0, (if r.quiet then "" else if r.trace then rec.trace.render
                else (rec.builder.finish.map Tree.render).getD "") ++ f ++
                ": compiled successfully\n", ""⟩) :=
  ⟨⟨readsCommandLines_readOptionsThenFiles, by decide⟩,
    run_checks_files_apart _ readsCommandLines_readOptionsThenFiles _ _ (by decide)⟩

/-- **An empty file name refuses every file.** With the argument library as documented, the
command line `-- a.txt ""` of a file that cannot be read and an empty name prints nothing, while
`a.txt` alone prints its diagnostic: the output of a run is not always what its files print
alone. -/
theorem empty_file_name_refuses_the_run :
    ¬ ∀ parse, ReadsCommandLines parse → ∀ (read : String → Except String String) (r : Request),
      r.files ≠ [] → (run parse read r.commandLine).stdout =
        String.join (r.files.map fun f => (run parse read (r.alone f).commandLine).stdout) := by
  intro h
  have hrun := h readOptionsThenFiles readsCommandLines_readOptionsThenFiles
    (fun _ => .error "No such file or directory (os error 2)")
    ⟨false, false, false, false, ["a.txt", ""]⟩ (by decide)
  rw [(run_refused readsCommandLines_readOptionsThenFiles _ _ (by decide)).2, List.map_cons,
    List.map_singleton, run_alone readsCommandLines_readOptionsThenFiles _ _ (by decide),
    (run_refused readsCommandLines_readOptionsThenFiles _ (alone _ "") (by decide)).2] at hrun
  revert hrun
  decide

end Request

end SyntaxCheck.Cli
