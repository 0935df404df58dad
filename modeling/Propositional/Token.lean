import Propositional.Symbol
import Propositional.Text.Quoted

/- Tokens: a symbol with the value that goes with it. A constant read from a text
   carries its truth value, the end of the text carries none, and every other
   token carries the word it was written as; but any symbol may be combined with
   any value. `Token.display` is how a token appears in a message. -/
namespace Propositional

inductive TokenValue where
  | literal (text : String)
  | constant (value : Bool)
  | none
deriving DecidableEq

structure Token where
  symbol : Symbol
  value : TokenValue
deriving DecidableEq

namespace Token

/-- The token of a constant. -/
def constant (value : Bool) : Token := ⟨.constant, .constant value⟩

/-- The token at the end of the input. -/
def eof : Token := ⟨.eof, .none⟩

/-- The word the token was written as. -/
def literal? (t : Token) : Option String :=
  match t.value with
  | .literal text => some text
  | _ => none

/-- The token as it appears in a message. -/
def display (t : Token) : String :=
  match t.value with
  | .literal text => text
  | .constant b => truthLetter b
  | .none => "EOF"

/-- The token with both of its fields named. -/
def describe (t : Token) : String :=
  let value :=
    match t.value with
    | .literal text => "Literal(" ++ quoted text ++ ")"
    | .constant true => "Constant(true)"
    | .constant false => "Constant(false)"
    | .none => "End"
  "Token \x7b kind: " ++ t.symbol.label ++ ", value: " ++ value ++ " \x7d"

end Token

/-- Whether a formula with these tokens is written with ∧, ∨ and ¬ alone. -/
def areCanonical (ts : List Token) : Bool := ts.all (fun t => t.symbol.isCanonical)

end Propositional
