import Propositional.Record
import Propositional.Token.Stream
import Propositional.TruthTable

/- What is made of a line of text: its tokens, the formula they stand for, treated as
   the options ask, and the variables of that formula (`readLine`). -/
namespace Propositional

/-- What to do with a formula after reading it. Normalization comes first. -/
structure Options where
  normalize : Bool := false
  simplify : Bool := false
  maxSteps : Nat := defaultMaxSteps
deriving DecidableEq

/-- Why a line was rejected. -/
inductive LineError where
  | lex (e : LexError)
  | parse (e : ParseError)
deriving DecidableEq

def LineError.message : LineError → String
  | .lex e => e.message
  | .parse e => e.message

/-- A formula and the tokens that it was read from. -/
structure Reading where
  formula : Formula
  vars : List String
  tokens : List Token
deriving DecidableEq

namespace Reading

/-- Whether the line was written with ∧, ∨ and ¬ alone. -/
def isCanonical (r : Reading) : Bool := areCanonical r.tokens

def truthTable (r : Reading) : Except EvalError TruthTable := r.formula.tableOver r.vars

end Reading

/-- The reading of a formula that was parsed from the tokens, and the records of its
    treatment. Only simplification looks at the variables again. -/
def Options.treat (o : Options) (tokens : List Token) (parsed : Parsed) : Reading × List Record :=
  let normal := if o.normalize then parsed.formula.normalize else parsed.formula
  let records := if o.normalize then [Record.normalized normal] else []
  if o.simplify then
    let run := RuleSet.standard.simplify o.maxSteps normal
    (⟨run.formula, run.formula.vars, tokens⟩,
      records ++ run.records ++ [.simplified run.formula])
  else (⟨normal, parsed.vars, tokens⟩, records)

/-- Reads a line, whose tokens are parsed as given. The records tell what was done, up to the
    error if there is one. -/
def readLineBy (parse : List Token → Except ParseFailure Parsed) (o : Options) (line : String) :
    Except LineError Reading × List Record :=
  let read := (Stream.ofText line).tokenize
  let scans := read.notes.map Record.scanned
  match read.result with
  | .error e => (.error (.lex e), scans)
  | .ok tokens =>
    match parse tokens with
    | .error failure => (.error (.parse failure.error), scans ++ failure.reductions.map .reduced)
    | .ok parsed =>
      let (reading, records) := o.treat tokens parsed
      (.ok reading,
        scans ++ parsed.reductions.map .reduced ++ [.parsed line parsed.formula] ++ records)

/-- Reads a line with a parser of its own. -/
def readLine (o : Options) (line : String) : Except LineError Reading × List Record :=
  readLineBy Formula.parse o line

end Propositional
