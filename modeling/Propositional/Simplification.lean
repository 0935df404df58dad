import Propositional.Formula.Canonical
import Propositional.Formula.Measure
import Propositional.Rule

/- Simplification by rules. A step passes through a formula from the bottom up: a
   derived connective is first replaced by its definition, all the way down, and
   where the operands are done the first rule that applies at the root is used
   (`RuleSet.step`). Steps are repeated until one changes nothing, up to the order
   of operands, or fails to make the formula smaller, or the budget is spent
   (`RuleSet.simplify`). Each rule used is noted, and how the run ended. -/
namespace Propositional

/-- The use of a rule on a formula. -/
structure Firing where
  rule : String
  before : Formula
  after : Formula
deriving DecidableEq

/-- What a pass over a formula made of it, and the rules that were used, in order. -/
structure Pass where
  formula : Formula
  firings : List Firing
deriving DecidableEq

namespace RuleSet

/-- Uses the first rule that applies at the root. -/
def atRoot (rules : RuleSet) (f : Formula) : Pass :=
  match rules.firstApplying? f with
  | some (rule, g) => ⟨g, [⟨rule.name, f, g⟩]⟩
  | none => ⟨f, []⟩

/-- Passes over a formula from the bottom up, and does at a derived connective as `expand` says. -/
def pass (rules : RuleSet) (expand : Formula → Pass) : Formula → Pass
  | .const b => ⟨.const b, []⟩
  | .var x => ⟨.var x, []⟩
  | .not a =>
    let inner := rules.pass expand a
    let root := rules.atRoot (.not inner.formula)
    ⟨root.formula, inner.firings ++ root.firings⟩
  | .join j l r =>
    let left := rules.pass expand l
    let right := rules.pass expand r
    let root := rules.atRoot (.join j left.formula right.formula)
    ⟨root.formula, left.firings ++ right.firings ++ root.firings⟩
  | .derived d l r => expand (.derived d l r)

/-- One pass over a formula. The normal form of a derived formula has no derived
    connective left to expand. -/
def step (rules : RuleSet) : Formula → Pass :=
  rules.pass (fun f => rules.pass (fun g => ⟨g, []⟩) f.normalize)

end RuleSet

/-- How a run of simplification ended. -/
inductive Ending where
  /-- The step after this many steps changed nothing. -/
  | fixedPoint (steps : Nat)
  /-- A step led from the first measure to the second, which is no smaller. -/
  | notSmaller (before after : Measure)
  /-- This many steps were all that was allowed. -/
  | exhausted (budget : Nat)
deriving DecidableEq

/-- The outcome of a run: the last formula accepted, every rule used, and the ending. -/
structure Simplified where
  formula : Formula
  firings : List Firing
  ending : Ending
deriving DecidableEq

namespace RuleSet

/-- Repeats steps, `done` of which were made before, with `left` more allowed. -/
def repeatStep (rules : RuleSet) : (left done : Nat) → Formula → Simplified
  | 0, done, f => ⟨f, [], .exhausted done⟩
  | left + 1, done, f =>
    let next := rules.step f
    if next.formula.alike f then ⟨next.formula, next.firings, .fixedPoint done⟩
    else if (Measure.of next.formula).less (Measure.of f) then
      let rest := rules.repeatStep left (done + 1) next.formula
      { rest with firings := next.firings ++ rest.firings }
    else ⟨f, next.firings, .notSmaller (Measure.of f) (Measure.of next.formula)⟩

/-- Simplifies a formula in at most `maxSteps` steps. -/
def simplify (rules : RuleSet) (maxSteps : Nat) (f : Formula) : Simplified :=
  rules.repeatStep maxSteps 0 f

end RuleSet

/-- The number of steps allowed where nothing else is asked for. -/
def defaultMaxSteps : Nat := 256

end Propositional
