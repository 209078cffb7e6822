/-!
# What the command line asks for

    syntax_analyser [--trace] [--nested] [--lenient] [-q|--quiet] <FILES>...

The program declares four options and at least one file. Reading the arguments against that
declaration is the business of the argument library: it hands back what was asked for, or it
ends the run itself, showing its help or refusing the command line with a message. A run takes
that reader as a parameter (`Cli.run`); what the library is documented to do with the command
lines a proof uses is stated as hypotheses where the proof needs it.
-/

namespace SyntaxCheck.Cli

/-- What a well-formed command line asks for: the options given, and the files in the order
given. -/
structure Request where
  trace : Bool
  nested : Bool
  lenient : Bool
  quiet : Bool
  files : List String
  deriving DecidableEq, Repr

/-- What reading the command line decides. -/
inductive Command where
  /-- Check the files. -/
  | check (r : Request)
  /-- Print this help text and succeed. -/
  | showHelp (text : String)
  /-- Print this error and fail. -/
  | refuse (message : String)
  deriving DecidableEq, Repr

end SyntaxCheck.Cli
