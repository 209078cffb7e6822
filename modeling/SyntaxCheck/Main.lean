import SyntaxCheck.Cli.Session

/-!
# The program

Reads the files that the command line names and prints what `Cli.run` decides. The command line
is read by the argument library, passed in as `parse`.
-/

namespace SyntaxCheck.Cli

/-- The reason the operating system gives for an error, worded as the program prints it: its
description, then its number. -/
def reasonOf : IO.Error → String
  | .noFileOrDirectory _ code _ => "No such file or directory (os error " ++ toString code ++ ")"
  | .inappropriateType _ 21 _ => "Is a directory (os error 21)"
  | .inappropriateType _ 20 _ => "Not a directory (os error 20)"
  | e => toString e

/-- The text of a file, or the reason it could not be read. -/
def readText (path : String) : IO (Except String String) := do
  try
    let bytes ← IO.FS.readBinFile path
    match String.fromUTF8? bytes with
    | some text => pure (.ok text)
    | none => pure (.error "stream did not contain valid UTF-8")
  catch e => pure (.error (reasonOf e))

/-- The program on the arguments `args`, read by `parse`: it reads the files asked for, prints
what the run writes and ends with its status. -/
def runIO (parse : List String → Command) (args : List String) : IO UInt32 := do
  let texts ← match parse args with
    | .check r => r.files.mapM fun f => do pure (f, ← readText f)
    | _ => pure []
  let outcome := run parse (fun f => (texts.lookup f).getD (.error "")) args
  IO.print outcome.stdout
  IO.eprint outcome.stderr
  pure outcome.status.toUInt32

end SyntaxCheck.Cli
