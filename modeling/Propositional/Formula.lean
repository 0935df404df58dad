import Propositional.Symbol

/- Propositional formulas as trees: constants, variables, negations and binary
   connectives. A formula is canonical if every connective in it is a junction.
   Equality of formulas is equality of trees; `Formula.alike`, in
   `Propositional.Formula.Alike`, does not look at the order of operands. -/
namespace Propositional

inductive Formula where
  | const (value : Bool)
  | var (name : String)
  | not (operand : Formula)
  | binary (c : Connective) (left right : Formula)
deriving DecidableEq

namespace Formula

/-- The formula that joins two others by ∧ or ∨. -/
@[match_pattern] abbrev join (j : Junction) (l r : Formula) : Formula := .binary (.junction j) l r

@[match_pattern] abbrev derived (d : Derived) (l r : Formula) : Formula := .binary (.derived d) l r

abbrev and (l r : Formula) : Formula := join .and l r
abbrev or (l r : Formula) : Formula := join .or l r
abbrev implies (l r : Formula) : Formula := derived .implies l r
abbrev equivalent (l r : Formula) : Formula := derived .equivalent l r
abbrev xor (l r : Formula) : Formula := derived .xor l r
abbrev nand (l r : Formula) : Formula := derived .nand l r
abbrev nor (l r : Formula) : Formula := derived .nor l r

/-- The formula that a symbol makes of two operands; only a connective makes one. -/
def ofSymbol? : Symbol → Formula → Formula → Option Formula
  | .connective c, l, r => some (.binary c l r)
  | _, _, _ => none

/-- The symbol at the root. -/
def symbol : Formula → Symbol
  | const _ => .constant
  | var _ => .var
  | not _ => .not
  | binary c _ _ => .connective c

/-- The sign that the root is rendered with. -/
def glyph? : Formula → Option String
  | const _ | var _ => none
  | not _ => some "¬"
  | binary c _ _ => some c.glyph

/-- Whether the formula is a constant or a variable. -/
def isOperand : Formula → Bool
  | const _ | var _ => true
  | _ => false

/-- Whether the root is a derived connective. -/
def isDerived : Formula → Bool
  | derived .. => true
  | _ => false

def operands? : Formula → Option (Formula × Formula)
  | binary _ l r => some (l, r)
  | _ => none

/-- The formula with every operand of its root replaced by its image. -/
def mapOperands (f : Formula → Formula) : Formula → Formula
  | not a => not (f a)
  | binary c l r => binary c (f l) (f r)
  | leaf => leaf

/-- The number of nodes. -/
def size : Formula → Nat
  | const _ | var _ => 1
  | not a => 1 + a.size
  | binary _ l r => 1 + l.size + r.size

/-- The length of the longest way down from the root. -/
def depth : Formula → Nat
  | const _ | var _ => 0
  | not a => 1 + a.depth
  | binary _ l r => 1 + max l.depth r.depth

/-- The number of derived connectives. -/
def derivedCount : Formula → Nat
  | const _ | var _ => 0
  | not a => a.derivedCount
  | join _ l r => l.derivedCount + r.derivedCount
  | derived _ l r => 1 + l.derivedCount + r.derivedCount

/-- Whether ∧, ∨ and ¬ are the only connectives. -/
def isCanonical (f : Formula) : Bool := f.derivedCount == 0

/-- The variables where they occur, from left to right. -/
def occurrences : Formula → List String
  | const _ => []
  | var x => [x]
  | not a => a.occurrences
  | binary _ l r => l.occurrences ++ r.occurrences

end Formula

/-- Puts a name in its place in a sorted list, unless it is there already. -/
def insertName (x : String) : List String → List String
  | [] => [x]
  | y :: ys => if x < y then x :: y :: ys else if x = y then y :: ys else y :: insertName x ys

/-- The variables in alphabetical order, each once. -/
def Formula.vars (f : Formula) : List String := f.occurrences.foldr insertName []

/-! The size of a formula and what its variables are. -/

theorem Formula.size_pos : ∀ f : Formula, 0 < f.size
  | const _ | var _ => Nat.one_pos
  | not _ => by simp only [size]; omega
  | binary _ _ _ => by simp only [size]; omega

theorem mem_insertName {x y : String} : ∀ {ys : List String},
    x ∈ insertName y ys ↔ x = y ∨ x ∈ ys
  | [] => by simp [insertName]
  | z :: ys => by
    unfold insertName
    split
    · simp
    · split
      · next e => simp [e]
      · simp only [List.mem_cons, mem_insertName]
        constructor
        · rintro (h | h | h) <;> simp [h]
        · rintro (h | h | h) <;> simp [h]

theorem Formula.mem_vars {f : Formula} {x : String} : x ∈ f.vars ↔ x ∈ f.occurrences := by
  unfold vars
  induction f.occurrences with
  | nil => simp
  | cons y ys ih => simp [mem_insertName, ih]

end Propositional
