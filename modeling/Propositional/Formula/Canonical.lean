import Propositional.Formula

/- The definitions of the derived connectives. `Formula.normalize` replaces every
   derived connective by its definition, from the bottom up, and leaves a formula
   without any (`Formula.derivedCount_normalize`). `Formula.equivalents` lists the
   forms that define the connective at the root through others. -/
namespace Propositional

/-- What a derived connective stands for. -/
def Derived.expand : Derived → Formula → Formula → Formula
  | .implies, l, r => .or (.not l) r
  | .equivalent, l, r => .and (.or (.not l) r) (.or (.not r) l)
  | .nand, l, r => .not (.and l r)
  | .nor, l, r => .not (.or l r)
  | .xor, l, r => .and (.or l r) (.not (.and l r))

namespace Formula

/-- The formula with every derived connective replaced by what it stands for. -/
def normalize : Formula → Formula
  | const b => const b
  | var x => var x
  | not a => not a.normalize
  | join j l r => join j l.normalize r.normalize
  | derived d l r => d.expand l.normalize r.normalize

/-- The formulas that the root connective makes equal to this one by definition. -/
def equivalents : Formula → List Formula
  | const _ | var _ => []
  | not a => [nand a a, nor a a]
  | join .and l r => [not (or (not l) (not r))]
  | join .or l r => [not (and (not l) (not r))]
  | derived .implies l r => [or (not l) r, not (and l (not r))]
  | derived .equivalent l r => [and (implies l r) (implies r l)]
  | derived .nand l r => [not (and l r), or (not l) (not r)]
  | derived .nor l r => [not (or l r), and (not l) (not r)]
  | derived .xor l r => [not (equivalent l r), and (or l r) (not (and l r))]

theorem derivedCount_expand (d : Derived) {l r : Formula} (hl : l.derivedCount = 0)
    (hr : r.derivedCount = 0) : (d.expand l r).derivedCount = 0 := by
  cases d <;> simp [Derived.expand, derivedCount, hl, hr]

theorem derivedCount_normalize : ∀ f : Formula, f.normalize.derivedCount = 0
  | const _ | var _ => rfl
  | not a => derivedCount_normalize a
  | join _ l r => by
    simp [normalize, derivedCount, derivedCount_normalize l, derivedCount_normalize r]
  | derived d l r => derivedCount_expand d (derivedCount_normalize l) (derivedCount_normalize r)

end Formula

end Propositional
