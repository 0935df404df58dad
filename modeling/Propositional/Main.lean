import Propositional.CommandLine

/- The program: reads the arguments, and the standard input if they hold no formula,
   and writes the answers. -/
namespace Propositional

def Page.text : Page → String
  | .help =>
    "Evaluate propositional formulas and print their truth tables\n\n" ++
    "Usage: calc [OPTIONS] [FORMULA]...\n\n" ++
    "Arguments:\n" ++
    "  [FORMULA]...  Formulas to evaluate. Read from stdin, one per line, if none are given\n\n" ++
    "Options:\n" ++
    "      --normalize        Rewrite formulas using only AND, OR and NOT\n" ++
    "      --simplify         Simplify formulas before printing them\n" ++
    "      --max-steps <INT>  Maximum number of simplification steps [default: 256]\n" ++
    "      --canonical-only   Only accept formulas written with AND, OR and NOT\n" ++
    "  -v, --verbose          Print debug logs\n" ++
    "  -h, --help             Print help\n" ++
    "  -V, --version          Print version\n"
  | .version => "logic-calc 0.1.0\n"

/-- A console that shows each record as one line, without the time of day. -/
def plainConsole : Console where
  record r := r.line ++ "\n"
  page := Page.text

/-- The rest of a stream. -/
partial def readAll (input : IO.FS.Stream) (text : String) : IO String := do
  let line ← input.getLine
  if line.isEmpty then return text else readAll input (text ++ line)

end Propositional

open Propositional in
def main (args : List String) : IO UInt32 := do
  let input ←
    match Arguments.parse args with
    | .ok a => if a.formulas.isEmpty then readAll (← IO.getStdin) "" else pure ""
    | .error (.rejected e) => IO.eprintln ("error: " ++ e.message); pure ""
    | .error (.asked _) => pure ""
  let outcome := respond args input
  IO.print (outcome.output plainConsole)
  return outcome.code.toUInt32
