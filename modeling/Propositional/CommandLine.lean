import Propositional.Reading
import Propositional.Text.Blank

/- The command line. The arguments are flags and formulas in any order; after `--`
   every argument is a formula (`Arguments.parse`). Each formula, or each line of
   the standard input if the arguments hold no formula, is answered on its own
   (`respond`). The records of what was done with it stand before the answer, as far
   as the arguments ask for them. How a record looks is left to the console that
   shows it, as is a page about the program (`Outcome.output`). -/
namespace Propositional

structure Arguments where
  formulas : List String := []
  normalize : Bool := false
  simplify : Bool := false
  canonicalOnly : Bool := false
  maxSteps : Option Nat := none
  verbose : Bool := false
deriving DecidableEq

/-- A page that is shown in place of answers. -/
inductive Page where
  | help
  | version
deriving DecidableEq

/-- Why the arguments were rejected. -/
inductive UsageError where
  | unknownFlag (flag : String)
  | repeatedFlag (flag : String)
  | unexpectedValue (flag : String)
  | missingValue (flag : String)
  | badNumber (text : String)
deriving DecidableEq

def UsageError.message : UsageError → String
  | .unknownFlag flag => "unexpected argument '" ++ flag ++ "' found"
  | .repeatedFlag flag => "the argument '" ++ flag ++ "' cannot be used multiple times"
  | .unexpectedValue flag => "unexpected value for '" ++ flag ++ "' found"
  | .missingValue flag => "a value is required for '" ++ flag ++ "' but none was supplied"
  | .badNumber text => "invalid value '" ++ text ++ "' for '--max-steps'"

/-- Why the arguments were not read to their end. -/
inductive Halt where
  | asked (page : Page)
  | rejected (e : UsageError)
deriving DecidableEq

/-- The value of a string of decimal digits, with the digits read so far in front. -/
def digitsValue? (value : Nat) : List Char → Option Nat
  | [] => some value
  | c :: cs => if c.isDigit then digitsValue? (value * 10 + (c.toNat - 48)) cs else none

/-- Reads a number below 2^64. A plus sign may stand in front of the digits. -/
def stepCount? (text : String) : Option Nat :=
  let digits :=
    match text.toList with
    | '+' :: cs => cs
    | cs => cs
  match digits with
  | [] => none
  | cs =>
    match digitsValue? 0 cs with
    | some n => if n < UInt64.size then some n else none
    | none => none

namespace Arguments

def options (a : Arguments) : Options :=
  ⟨a.normalize, a.simplify, a.maxSteps.getD defaultMaxSteps⟩

/-- The level from which on records are written. -/
def level (a : Arguments) : Level := if a.verbose then .debug else .warn

/-- The arguments with the number of steps, unless it was given before. -/
def withMaxSteps (a : Arguments) (text : String) : Except Halt Arguments :=
  if a.maxSteps.isSome then .error (.rejected (.repeatedFlag "--max-steps"))
  else
    match stepCount? text with
    | some n => .ok { a with maxSteps := some n }
    | none => .error (.rejected (.badNumber text))

/-- The arguments that a flag leads to, unless it was given before. -/
def once (flag : String) (given : Bool) (a : Arguments) : Except Halt Arguments :=
  if given then .error (.rejected (.repeatedFlag flag)) else .ok a

/-- The arguments with a flag that has no value of its own. -/
def withFlag (a : Arguments) (flag : String) : Except Halt Arguments :=
  match flag with
  | "--normalize" => once flag a.normalize { a with normalize := true }
  | "--simplify" => once flag a.simplify { a with simplify := true }
  | "--canonical-only" => once flag a.canonicalOnly { a with canonicalOnly := true }
  | "--verbose" => once flag a.verbose { a with verbose := true }
  | "--help" => .error (.asked .help)
  | "--version" => .error (.asked .version)
  | _ => .error (.rejected (.unknownFlag flag))

/-- The flag that the letter is short for. -/
def flagOf? : Char → Option String
  | 'v' => some "--verbose"
  | 'h' => some "--help"
  | 'V' => some "--version"
  | _ => none

/-- The arguments with the flags that the letters are short for. -/
def withLetters (a : Arguments) : List Char → Except Halt Arguments
  | [] => .ok a
  | ch :: letters =>
    match flagOf? ch with
    | none => .error (.rejected (.unknownFlag ("-" ++ String.singleton ch)))
    | some flag => do
      let a ← a.withFlag flag
      withLetters a letters

/-- Whether the argument is a flag: it begins with a hyphen and is not a hyphen alone. -/
def isFlag (arg : String) : Bool :=
  match arg.toList with
  | '-' :: _ :: _ => true
  | _ => false

/-- The part of a flag in front of an equals sign, and the value after it. -/
def splitFlag (arg : String) : String × Option String :=
  let cs := arg.toList
  match cs.dropWhile (· != '=') with
  | [] => (arg, none)
  | _ :: value => (String.ofList (cs.takeWhile (· != '=')), some (String.ofList value))

/-- The arguments with one more, which needs no other to follow it. -/
def withArgument (a : Arguments) (arg : String) : Except Halt Arguments :=
  match arg.toList with
  | '-' :: '-' :: _ =>
    match splitFlag arg with
    | ("--max-steps", some value) => a.withMaxSteps value
    | (flag, some _) => .error (.rejected (.unexpectedValue flag))
    | (flag, none) => a.withFlag flag
  | '-' :: ch :: letters => a.withLetters (ch :: letters)
  | _ => .ok { a with formulas := a.formulas ++ [arg] }

/-- Reads the arguments, added to those read before. -/
def parseFrom (a : Arguments) : List String → Except Halt Arguments
  | [] => .ok a
  | arg :: rest =>
    if arg = "--" then .ok { a with formulas := a.formulas ++ rest }
    else if arg = "--max-steps" then
      match rest with
      | [] => .error (.rejected (.missingValue arg))
      | value :: rest =>
        if isFlag value then .error (.rejected (.missingValue arg))
        else do
          let a ← a.withMaxSteps value
          parseFrom a rest
    else do
      let a ← a.withArgument arg
      parseFrom a rest

/-- Reads the arguments. -/
def parse (args : List String) : Except Halt Arguments := parseFrom {} args

end Arguments

/-- The lines of a text, each ended by a newline, but for the last one. -/
def linesOf (text : String) : List String := go [] text.toList
where
  go (line : List Char) : List Char → List String
    | [] => if line.isEmpty then [] else [String.ofList line.reverse]
    | c :: cs =>
      if c = '\n' then String.ofList line.reverse :: go [] cs else go (c :: line) cs

/-- A piece of what is written. -/
inductive Written where
  | text (text : String)
  | record (record : Record)
  | page (page : Page)
deriving DecidableEq

/-- How records and pages are shown. The time of day that may stand in front of a record is
    the console's as well. -/
structure Console where
  record : Record → String := fun _ => ""
  page : Page → String := fun _ => ""

namespace Console

def shows (console : Console) : Written → String
  | .text text => text
  | .record record => console.record record
  | .page page => console.page page

end Console

/-- What is written, and the exit code. -/
structure Outcome where
  code : Nat
  written : List Written
deriving DecidableEq

/-- The standard output, as the console shows it. -/
def Outcome.output (outcome : Outcome) (console : Console := {}) : String :=
  String.join (outcome.written.map console.shows)

/-- The answer to the formula of a line, and whether it has a table. -/
def reportFormula (a : Arguments) (r : Reading) : Outcome :=
  let verdict := "valid, canonical = " ++ (if r.isCanonical then "true" else "false") ++ "\n"
  if a.canonicalOnly && !r.isCanonical then
    ⟨0, [.text (verdict ++ "rejected: not in the AND/OR/NOT subset\n")]⟩
  else
    let shown := verdict ++ "formula = " ++ r.formula.render ++ "\n"
    match r.truthTable with
    | .error _ => ⟨1, [.text shown]⟩
    | .ok table =>
      ⟨0, [.text (shown ++ String.join ((table.lines " | ").map (· ++ "\n")) ++ "\n")]⟩

/-- The answer to a text that was read with the given result, after the records of its reading. -/
def reportText (a : Arguments) (text : String)
    (read : Except LineError Reading × List Record) : Outcome :=
  let answer : Outcome :=
    match read.1 with
    | .error e => ⟨0, [.text ("invalid: " ++ e.message ++ "\n")]⟩
    | .ok r => reportFormula a r
  ⟨answer.code,
    .text ("> " ++ text ++ "\n") :: (recordsFrom a.level read.2).map .record ++ answer.written⟩

/-- The answer to one line. A blank line has none. -/
def reportLine (a : Arguments) (line : String) : Outcome :=
  let text := trimmed line
  if text = "" then ⟨0, []⟩ else reportText a text (readLine a.options text)

/-- The answers to the lines, up to the first that fails. -/
def reportLines (a : Arguments) : List String → Outcome
  | [] => ⟨0, []⟩
  | line :: lines =>
    let first := reportLine a line
    if first.code = 0 then
      let rest := reportLines a lines
      ⟨rest.code, first.written ++ rest.written⟩
    else first

/-- The answer to arguments that were read, with the given standard input. -/
def report (a : Arguments) (input : String) : Outcome :=
  reportLines a (if a.formulas.isEmpty then linesOf input else a.formulas)

/-- The answer to a command line, with the given standard input. -/
def respond (args : List String) (input : String) : Outcome :=
  match Arguments.parse args with
  | .error (.asked page) => ⟨0, [.page page]⟩
  | .error (.rejected _) => ⟨2, []⟩
  | .ok a => report a input

end Propositional
