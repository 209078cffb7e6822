import SyntaxCheck.Cli.Arguments
import SyntaxCheck.Report.Recognition
import SyntaxCheck.Diagnostic.Excerpt

/-!
# A run of the command line

The program checks each file on its own, in the order given, and writes one report per file:
for a file that reads and recognises as a program, its derivation tree (or its trace with
`--trace`, or nothing with `--quiet`) followed by `FILE: compiled successfully`; otherwise the
diagnostic with its excerpt, a file that could not be read showing no excerpt. Everything goes to
standard output; the run fails when any file failed. A malformed command line writes its error to
standard error and ends with status 2; help ends with status 0.

Two things come from outside the program and are parameters of a run: the reading of the command
line, by the argument library, and the reading of a file, which gives its text or the reason the
operating system gives for not reading it.
-/

namespace SyntaxCheck.Cli

/-- What a run writes and how it ends. -/
structure Outcome where
  status : Nat
  stdout : String
  stderr : String
  deriving DecidableEq, Repr

namespace Request

/-- The recogniser options a request asks for. -/
def options (r : Request) : Options :=
  ⟨if r.nested then .nested else .flat, !r.lenient⟩

/-- What checking the text `source` of the file `path` prints before the success line, or the
diagnostic that stopped it. -/
def check (r : Request) (path source : String) : Except Diagnostic String := do
  let s ← TokenSource.ofText source (some path)
  let found ← Recognition.program r.options s
  match found.diagnostic? with
  | some d => .error d
  | none =>
    if r.trace then .ok found.trace.render
    else .ok ((found.builder.finish.map Tree.render).getD "")

/-- The report for one file, given how reading it went, and whether it succeeded. -/
def fileReport (r : Request) (path : String) (read : Except String String) : Bool × String :=
  match read with
  | .error reason => (false, (Diagnostic.unreadable reason ⟨0, path⟩).render path "")
  | .ok source =>
    match r.check path source with
    | .ok out => (true, (if r.quiet then "" else out) ++ path ++ ": compiled successfully\n")
    | .error d => (false, d.render path source)

/-- The outcome of checking the files of a request, given how reading each went. -/
def report (r : Request) (reads : List (String × Except String String)) : Outcome :=
  let reports := reads.map fun (path, read) => r.fileReport path read
  ⟨if reports.all (·.1) then 0 else 1, String.join (reports.map (·.2)), ""⟩

end Request

/-- The outcome of the command line `args`, read by `parse`, whose files are read by `read`. The
argument library ends a run itself: with its help on standard output and status 0, or with its
error on standard error and status 2. -/
def run (parse : List String → Command) (read : String → Except String String)
    (args : List String) : Outcome :=
  match parse args with
  | .showHelp text => ⟨0, text, ""⟩
  | .refuse message => ⟨2, "", message⟩
  | .check r => r.report (r.files.map fun f => (f, read f))

end SyntaxCheck.Cli
