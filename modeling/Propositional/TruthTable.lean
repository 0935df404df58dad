import Propositional.Formula.Render
import Propositional.Formula.Value

/- Truth tables. The rows of a table over some variables are numbered by the binary
   numerals with a digit for each variable, the first variable being the most
   significant one, and the digit 0 standing for true. So the first row makes
   every variable true, and the last variable changes fastest. A variable that is
   listed twice has the value of its last place. -/
namespace Propositional

/-- The number of rows over these variables. -/
def rowCount (vars : List String) : Nat := 1 <<< vars.length

/-- The assignment of a row. Of a row number past the end only the low digits count. -/
def rowAssignment : List String → Nat → Assignment
  | [], _, _ => none
  | v :: vs, row, x =>
    match rowAssignment vs row x with
    | some b => some b
    | none => if x = v then some (!row.testBit vs.length) else none

/-- What the row assigns to each of the variables, in their order. -/
def rowValues (vars : List String) (row : Nat) : List Bool :=
  vars.map (fun x => (rowAssignment vars row x).getD false)

/-- A table: its header, and in each row the values of the variables and of the formula. -/
structure TruthTable where
  header : List String
  rows : List (List Bool)
deriving DecidableEq

namespace TruthTable

/-- The last value of each row that has any. -/
def results (t : TruthTable) : List Bool := t.rows.filterMap List.getLast?

def isTautology (t : TruthTable) : Bool := t.results.all id

def isContradiction (t : TruthTable) : Bool := t.results.all not

/-- The lines of the table, with the cells of each line separated as given. -/
def lines (separator : String) (t : TruthTable) : List String :=
  separator.intercalate t.header ::
    t.rows.map (fun row => separator.intercalate (row.map truthLetter))

/-- The table as text, with tabs between the cells. -/
def render (t : TruthTable) : String := String.join ((t.lines "\t").map (· ++ "\n"))

end TruthTable

namespace Formula

/-- One row of the formula's table: the values of the variables, then the formula's. -/
def tableRow (f : Formula) (vars : List String) (row : Nat) : Except EvalError (List Bool) := do
  let b ← f.eval (rowAssignment vars row)
  return rowValues vars row ++ [b]

/-- The rows from the given one on, `left` of them, after the rows made before, newest first. -/
def tableRows (f : Formula) (vars : List String) :
    (left row : Nat) → List (List Bool) → Except EvalError (List (List Bool))
  | 0, _, before => .ok before.reverse
  | left + 1, row, before =>
    match f.tableRow vars row with
    | .error e => .error e
    | .ok cells => tableRows f vars left (row + 1) (cells :: before)

/-- The formula's table over the given variables. It fails as its first failing row does. -/
def tableOver (f : Formula) (vars : List String) : Except EvalError TruthTable :=
  match f.tableRows vars (rowCount vars) 0 [] with
  | .error e => .error e
  | .ok rows => .ok ⟨vars ++ [f.render], rows⟩

/-- The formula's table over its own variables. -/
def table (f : Formula) : Except EvalError TruthTable := f.tableOver f.vars

end Formula

end Propositional
