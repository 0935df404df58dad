import Propositional.Formula.Parse
import Propositional.Simplification
import Propositional.Token.Scan

/- The records of what is done with a formula. Reading, the use of rules and the
   ending of a simplification each have their own notes; a record is any of these, with a
   level that says how much it matters and a text. -/
namespace Propositional

inductive Level where
  | trace
  | debug
  | warn
deriving DecidableEq

namespace Level

/-- The level's place among the others: what matters more comes later. -/
def rank : Level → Nat
  | .trace => 0
  | .debug => 1
  | .warn => 2

def name : Level → String
  | .trace => "TRACE"
  | .debug => "DEBUG"
  | .warn => "WARN"

end Level

inductive Record where
  | scanned (note : ScanNote)
  | reduced (reduction : Reduction)
  | parsed (line : String) (formula : Formula)
  | normalized (formula : Formula)
  | fired (firing : Firing)
  | ended (ending : Ending) (formula : Formula)
  | simplified (formula : Formula)
deriving DecidableEq

/-- The records of a run of simplification. -/
def Simplified.records (s : Simplified) : List Record :=
  s.firings.map .fired ++ [.ended s.ending s.formula]

namespace Record

def level : Record → Level
  | .scanned (.followed ..) => .trace
  | .ended (.notSmaller ..) _ | .ended (.exhausted _) _ => .warn
  | _ => .debug

/-- What a note on reading says. -/
def scanText : ScanNote → String
  | .followed run best =>
    let found :=
      match best with
      | some (n, s) => "Some((" ++ Nat.repr n ++ ", " ++ s.label ++ "))"
      | none => "None"
    "match_longest: consumed " ++ quoted (String.ofList run) ++ ", best " ++ found
  | .constant true => "token: constant true"
  | .constant false => "token: constant false"
  | .word s text => "token: " ++ s.name ++ " " ++ quoted text

/-- What is said about the ending of a run that led to the formula. -/
def endingText (f : Formula) : Ending → String
  | .fixedPoint steps =>
    "simplify: fixed point after " ++ Nat.repr steps ++ " steps: " ++ f.render
  | .notSmaller before after =>
    "simplify: step did not shrink " ++ f.render ++ " (" ++ before.describe ++ " -> " ++
      after.describe ++ "), stopping"
  | .exhausted budget =>
    "simplify: step budget of " ++ Nat.repr budget ++ " exhausted, stopping at " ++ f.render

def text : Record → String
  | .scanned note => scanText note
  | .reduced r => "reduce " ++ r.operator.name ++ ": " ++ r.formula.render
  | .parsed line f => "parsed " ++ quoted line ++ " as " ++ f.render
  | .normalized f => "normalized: " ++ f.render
  | .fired x =>
    "rule '" ++ x.rule ++ "' fired: " ++ x.before.render ++ " => " ++ x.after.render
  | .ended ending f => endingText f ending
  | .simplified f => "simplified: " ++ f.render

/-- The record as one line, the level first. -/
def line (r : Record) : String := r.level.name ++ " " ++ r.text

end Record

/-- The records that matter at least as much as the level says. -/
def recordsFrom (level : Level) (rs : List Record) : List Record :=
  rs.filter (fun r => level.rank ≤ r.level.rank)

end Propositional
