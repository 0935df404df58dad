import Propositional.Formula

/- Equality up to the order of operands: two formulas are alike if they become the
   same tree when the operands of some of the connectives that commute, ∧, ∨ and
   ⟷, trade places. -/
namespace Propositional.Formula

/-- Whether the formulas are equal up to the order of operands. -/
def alike : Formula → Formula → Bool
  | const a, const b => a == b
  | var x, var y => x == y
  | not a, not b => a.alike b
  | binary c l r, binary d l' r' =>
    c == d && (l.alike l' && r.alike r' || c.commutes && (l.alike r' && r.alike l'))
  | _, _ => false

end Propositional.Formula
