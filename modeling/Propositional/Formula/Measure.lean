import Propositional.Formula

/- What simplification makes smaller: the number of derived connectives, and among
   formulas with equally many, the number of nodes. -/
namespace Propositional

structure Measure where
  derivedCount : Nat
  size : Nat
deriving DecidableEq

namespace Measure

/-- The measure of a formula. -/
def of (f : Formula) : Measure := ⟨f.derivedCount, f.size⟩

/-- Derived connectives count first, nodes second. -/
def order (a b : Measure) : Ordering :=
  (compare a.derivedCount b.derivedCount).then (compare a.size b.size)

/-- Whether the first measure is the smaller one. -/
def less (a b : Measure) : Bool :=
  a.derivedCount < b.derivedCount ∨ a.derivedCount = b.derivedCount ∧ a.size < b.size

/-- The measure as text, with both of its parts named. -/
def describe (m : Measure) : String :=
  "Measure \x7b derived_count: " ++ Nat.repr m.derivedCount ++ ", size: " ++ Nat.repr m.size ++
    " \x7d"

end Measure

end Propositional
