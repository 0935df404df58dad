/- The symbols a formula is written with. The connectives fall into the two
   junctions ∧ and ∨, which together with ¬ express everything, and the derived
   ones, which abbreviate formulas over ∧, ∨ and ¬. `Connective.rank` says how
   tightly a connective binds, and `Symbol.precedence` places every symbol on
   one scale, the end of input below all others. `Symbol.all` lists them in
   that order. -/
namespace Propositional

/-- The two basic binary connectives. -/
inductive Junction where
  | and
  | or
deriving DecidableEq

/-- The junction that takes the place of this one when true and false trade places. -/
def Junction.dual : Junction → Junction
  | .and => .or
  | .or => .and

/-- The value that changes nothing when it is joined to another. -/
def Junction.unit : Junction → Bool
  | .and => true
  | .or => false

theorem Junction.dual_dual (j : Junction) : j.dual.dual = j := by cases j <;> rfl

theorem Junction.unit_dual (j : Junction) : j.dual.unit = !j.unit := by cases j <;> rfl

/-- The connectives defined through ∧, ∨ and ¬. -/
inductive Derived where
  | equivalent
  | implies
  | nor
  | xor
  | nand
deriving DecidableEq

inductive Connective where
  | junction (j : Junction)
  | derived (d : Derived)
deriving DecidableEq

/-- How tightly a connective binds: the loosest has rank 0. -/
def Connective.rank : Connective → Nat
  | .derived .equivalent => 0
  | .derived .implies => 1
  | .junction .or => 2
  | .derived .nor => 3
  | .derived .xor => 4
  | .junction .and => 5
  | .derived .nand => 6

theorem Connective.rank_injective : ∀ c d : Connective, c.rank = d.rank → c = d
  | .junction j, .junction k => by cases j <;> cases k <;> decide
  | .junction j, .derived d => by cases j <;> cases d <;> decide
  | .derived d, .junction j => by cases j <;> cases d <;> decide
  | .derived d, .derived e => by cases d <;> cases e <;> decide

/-- Implication groups to the right and every other connective to the left. -/
def Connective.groupsRight : Connective → Bool
  | .derived .implies => true
  | _ => false

/-- Whether the operands may trade places without changing the formula's identity. -/
def Connective.commutes : Connective → Bool
  | .junction _ => true
  | .derived .equivalent => true
  | .derived _ => false

/-- The truth function of a connective. -/
def Connective.apply : Connective → Bool → Bool → Bool
  | .junction .and, x, y => x && y
  | .junction .or, x, y => x || y
  | .derived .equivalent, x, y => x == y
  | .derived .implies, x, y => !x || y
  | .derived .nor, x, y => !(x || y)
  | .derived .xor, x, y => x != y
  | .derived .nand, x, y => !(x && y)

/-- The sign a connective is rendered with. -/
def Connective.glyph : Connective → String
  | .junction .and => "∧"
  | .junction .or => "∨"
  | .derived .equivalent => "⟷"
  | .derived .implies => "→"
  | .derived .nor => "↓"
  | .derived .xor => "⊻"
  | .derived .nand => "↑"

/-- What a token can stand for; `eof` marks the end of the input. -/
inductive Symbol where
  | eof
  | connective (c : Connective)
  | not
  | closing
  | opening
  | var
  | constant
deriving DecidableEq

namespace Symbol

/-- Every symbol, the loosest binding first. -/
def all : List Symbol :=
  [.eof, .connective (.derived .equivalent), .connective (.derived .implies),
   .connective (.junction .or), .connective (.derived .nor), .connective (.derived .xor),
   .connective (.junction .and), .connective (.derived .nand), .not, .closing, .opening, .var,
   .constant]

theorem mem_all (s : Symbol) : s ∈ all := by
  cases s with
  | connective c =>
    cases c with
    | junction j => cases j <;> decide
    | derived d => cases d <;> decide
  | _ => decide

/-- Binding strength: a lower number binds looser. -/
def precedence : Symbol → Int
  | .eof => -1
  | .connective c => c.rank
  | .not => 7
  | .closing => 8
  | .opening => 9
  | .var => 10
  | .constant => 11

/-- The symbol's place among the others, by binding strength. -/
def order (s t : Symbol) : Ordering := compare s.precedence t.precedence

def isConnective : Symbol → Bool
  | .connective _ => true
  | _ => false

def isOperand : Symbol → Bool
  | .var | .constant => true
  | _ => false

/-- Whether a formula written with ∧, ∨ and ¬ alone may contain the symbol. -/
def isCanonical : Symbol → Bool
  | .connective (.derived _) => false
  | _ => true

/-- The symbol's name in capitals. -/
def name : Symbol → String
  | .eof => "EOF"
  | .connective (.derived .equivalent) => "EQUIVALENT"
  | .connective (.derived .implies) => "IMPLIES"
  | .connective (.junction .or) => "OR"
  | .connective (.derived .nor) => "NOR"
  | .connective (.derived .xor) => "XOR"
  | .connective (.junction .and) => "AND"
  | .connective (.derived .nand) => "NAND"
  | .not => "NOT"
  | .closing => "CLOSE"
  | .opening => "OPEN"
  | .var => "VAR"
  | .constant => "CONSTANT"

/-- The symbol's name as a capitalised word. -/
def label : Symbol → String
  | .eof => "Eof"
  | .connective (.derived .equivalent) => "Equivalent"
  | .connective (.derived .implies) => "Implies"
  | .connective (.junction .or) => "Or"
  | .connective (.derived .nor) => "Nor"
  | .connective (.derived .xor) => "Xor"
  | .connective (.junction .and) => "And"
  | .connective (.derived .nand) => "Nand"
  | .not => "Not"
  | .closing => "Close"
  | .opening => "Open"
  | .var => "Var"
  | .constant => "Constant"

end Symbol

/-- The letter shown for a truth value. -/
def truthLetter (b : Bool) : String := if b then "V" else "F"

end Propositional
