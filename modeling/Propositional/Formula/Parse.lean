import Propositional.Formula.Render
import Propositional.Token

/- Reading a formula from tokens. The state keeps the operators that wait for their
   right operand and the operands that are complete, each newest first. An
   operator is applied as soon as a looser one, or for a connective that groups
   to the left one of equal strength, follows it; a negation is applied as soon
   as its operand is complete. Every application is noted, whether or not the
   tokens turn out to be a formula (`Formula.parse`). Tokens after the first end
   of input are not looked at. -/
namespace Propositional

inductive ParseError where
  | empty
  | missingOperand (after : String)
  | expectedOperand (found : String)
  | expectedOperator (found : String)
  | unclosedParenthesis
  | unmatchedClose
  | nothingToNegate (negation : String)
deriving DecidableEq

def ParseError.message : ParseError → String
  | .empty => "empty formula"
  | .missingOperand after => "operator `" ++ after ++ "` is missing an operand"
  | .expectedOperand found =>
    "expected a variable, constant or parenthesis, found `" ++ found ++ "`"
  | .expectedOperator found =>
    "expected an operator or closing parenthesis, found `" ++ found ++ "`"
  | .unclosedParenthesis => "opening parenthesis has no matching closing parenthesis"
  | .unmatchedClose => "closing parenthesis has no matching opening parenthesis"
  | .nothingToNegate negation => "no operand for negation `" ++ negation ++ "`"

/-- An operator that was applied, and the formula that came of it. -/
structure Reduction where
  operator : Symbol
  formula : Formula
deriving DecidableEq

/-- The state of a parse. -/
structure Parse where
  /-- The operators, negations and opening parentheses that wait, newest first. -/
  operators : List Token
  /-- The formulas that are complete, newest first. -/
  operands : List Formula
  expectsOperand : Bool
  /-- The applications so far, newest first. -/
  reductions : List Reduction
deriving DecidableEq

/-- Why a parse failed, and what had been applied by then, oldest first. -/
structure ParseFailure where
  error : ParseError
  reductions : List Reduction
deriving DecidableEq

/-- A formula that was read, its variables, and the applications that built it, oldest first. -/
structure Parsed where
  formula : Formula
  vars : List String
  reductions : List Reduction
deriving DecidableEq

namespace Parse

/-- The state before any token. -/
def start : Parse := ⟨[], [], true, []⟩

def fail {α : Type} (p : Parse) (e : ParseError) : Except ParseFailure α :=
  .error ⟨e, p.reductions.reverse⟩

/-- The state with one more operand, to which the negations that wait for it were applied. -/
def pushOperand (p : Parse) : Formula → Parse := go p.operators
where
  go : List Token → Formula → Parse
    | [], f => { p with operators := [], operands := f :: p.operands }
    | t :: ts, f =>
      if t.symbol = .not then go ts (.not f)
      else { p with operators := t :: ts, operands := f :: p.operands }

/-- Applies an operator to the newest operands. -/
def apply (p : Parse) (op : Token) : Except ParseFailure Parse :=
  let applied (f : Formula) (rest : List Formula) : Parse :=
    { p with operands := f :: rest, reductions := ⟨op.symbol, f⟩ :: p.reductions }
  match op.symbol, p.operands with
  | .not, f :: rest => .ok (applied (.not f) rest)
  | .not, [] => p.fail (.missingOperand op.display)
  | s, r :: l :: rest =>
    match Formula.ofSymbol? s l r with
    | some f => .ok (applied f rest)
    | none => p.fail (.expectedOperator op.display)
  | _, _ => p.fail (.missingOperand op.display)

/-- Whether a waiting operator is applied before the incoming one starts to wait. -/
def yields (waiting incoming : Symbol) : Bool :=
  if incoming = .connective (.derived .implies) then incoming.precedence < waiting.precedence
  else incoming.precedence ≤ waiting.precedence

/-- Applies the newest operators that yield to the incoming one, up to an opening parenthesis. -/
def reduceFor (incoming : Symbol) (p : Parse) : Except ParseFailure Parse := go p.operators p
where
  go : List Token → Parse → Except ParseFailure Parse
    | [], p => .ok p
    | t :: ts, p =>
      if t.symbol = .opening ∨ yields t.symbol incoming = false then .ok p
      else do
        let p ← { p with operators := ts }.apply t
        go ts p

/-- Applies the newest operators up to the opening parenthesis, which is taken away. -/
def closeGroup (p : Parse) : Except ParseFailure Parse := do
  let p ← go p.operators p
  match p.operands with
  | [] => p.fail .unmatchedClose
  | f :: rest => .ok ({ p with operands := rest }.pushOperand f)
where
  go : List Token → Parse → Except ParseFailure Parse
    | [], p => p.fail .unmatchedClose
    | t :: ts, p =>
      if t.symbol = .opening then .ok { p with operators := ts }
      else if t.symbol = .not then p.fail (.nothingToNegate t.display)
      else do
        let p ← { p with operators := ts }.apply t
        go ts p

/-- The formula that a variable or constant token stands for. -/
def leaf? (t : Token) : Option Formula :=
  match t.value with
  | .constant b => some (.const b)
  | .literal x => some (.var x)
  | .none => none

/-- The state after a token where an operand is expected. -/
def takeOperand (p : Parse) (t : Token) : Except ParseFailure Parse :=
  match t.symbol with
  | .constant | .var =>
    match leaf? t with
    | some f => .ok { p.pushOperand f with expectsOperand := false }
    | none => p.fail (.expectedOperand t.display)
  | .opening | .not => .ok { p with operators := t :: p.operators }
  | _ => p.fail (.expectedOperand t.display)

/-- The state after a token where an operator is expected. -/
def takeOperator (p : Parse) (t : Token) : Except ParseFailure Parse :=
  match t.symbol with
  | .connective _ => do
    let p ← p.reduceFor t.symbol
    .ok { p with operators := t :: p.operators, expectsOperand := true }
  | .closing => p.closeGroup
  | _ => p.fail (.expectedOperator t.display)

/-- The state after a token other than the end of input. -/
def take (p : Parse) (t : Token) : Except ParseFailure Parse :=
  if p.expectsOperand then p.takeOperand t else p.takeOperator t

/-- The state in which every operator that can be applied was, once the input has ended. -/
def drain (p : Parse) : Except ParseFailure Parse :=
  if p.expectsOperand then
    match p.operators with
    | [] => p.fail .empty
    | t :: _ =>
      if t.symbol = .opening then p.fail .unclosedParenthesis
      else p.fail (.missingOperand t.display)
  else p.reduceFor .eof

/-- The formula, once the input has ended. -/
def finish (p : Parse) : Except ParseFailure Parsed := do
  let p ← p.drain
  match p.operators, p.operands with
  | _ :: _, _ => p.fail .unclosedParenthesis
  | [], f :: _ => .ok ⟨f, f.vars, p.reductions.reverse⟩
  | [], [] => p.fail .empty

/-- The formula made of the tokens before the first end of input. -/
def run (p : Parse) : List Token → Except ParseFailure Parsed
  | [] => p.finish
  | t :: ts =>
    if t.symbol = .eof then p.finish
    else do
      let p ← p.take t
      run p ts

end Parse

/-- Reads a formula from tokens. -/
def Formula.parse (ts : List Token) : Except ParseFailure Parsed := Parse.start.run ts

end Propositional
