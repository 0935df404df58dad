import Propositional.Proofs.Variables

/- Definitional normal forms. Replacing every derived connective by its definition changes
   neither the value that a formula has nor the variable at which its evaluation fails
   (`Formula.eval_normalize`), although some definitions repeat their operands and turn them
   around: what comes first in a definition is the left operand. Canonical formulas are left
   alone, and no others (`Formula.normalize_eq_self_iff`), so that to normalize twice is to
   normalize once (`Formula.normalize_is_exact`). -/
namespace Propositional.Formula

theorem eval_normalize (s : Assignment) : ∀ f : Formula, f.normalize.eval s = f.eval s
  | const _ | var _ => rfl
  | not a => by simp only [normalize, eval, eval_normalize s a]
  | join _ l r => by simp only [normalize, eval, eval_normalize s l, eval_normalize s r]
  | derived d l r =>
    calc (d.expand l.normalize r.normalize).eval s
        = (derived d l.normalize r.normalize).eval s := eval_expand d _ _
      _ = (derived d l r).eval s := by simp only [eval, eval_normalize s l, eval_normalize s r]

theorem normalize_of_derivedCount {f : Formula} (h : f.derivedCount = 0) : f.normalize = f := by
  induction f, h using canonical_induction with
  | const | var => rfl
  | not a _ ih => rw [normalize, ih]
  | join j l r _ _ ihl ihr => rw [normalize, ihl, ihr]

theorem normalize_eq_self_iff {f : Formula} : f.normalize = f ↔ f.isCanonical = true := by
  rw [isCanonical_eq_true_iff]
  exact ⟨fun h => h ▸ derivedCount_normalize f, normalize_of_derivedCount⟩

/-- Normalization is exact. Under every assignment the normal form has the value of the formula
    or fails at the same variable. It holds no derived connective at any depth, it has the
    variables of the formula, it is the formula itself just if that is canonical, and it is
    its own normal form. -/
theorem normalize_is_exact (f : Formula) :
    (∀ s, f.normalize.eval s = f.eval s) ∧
    (∀ g, Subformula g f.normalize → g.isDerived = false) ∧
    f.normalize.vars = f.vars ∧
    (f.normalize = f ↔ f.isCanonical = true) ∧
    f.normalize.normalize = f.normalize := by
  have canonical : f.normalize.derivedCount = 0 := derivedCount_normalize f
  exact ⟨fun s => eval_normalize s f, isCanonical_iff.mp (isCanonical_eq_true_iff.mpr canonical),
    vars_normalize f, normalize_eq_self_iff, normalize_of_derivedCount canonical⟩

/-- Both operands of ⟷ are written twice, in both orders, and evaluation still fails at the
    variable that is missed first. -/
theorem normalize_is_exact_equivalence :
    let f : Formula := .equivalent (.nor (.var "p") (.var "q")) (.var "r")
    let s : Assignment := fun x => if x = "p" then some true else none
    f.normalize.eval s = .error (.unassigned "q") ∧
      Subformula (.not (.or (.var "p") (.var "q"))) f.normalize ∧
      isDerived (.not (.or (.var "p") (.var "q"))) = false := by
  intro f s
  obtain ⟨exact, plain, -⟩ := normalize_is_exact f
  have inside : Subformula (.not (.or (.var "p") (.var "q"))) f.normalize :=
    .left (.left (.not .refl))
  exact ⟨(exact s).trans (by decide), inside, plain _ inside⟩

end Propositional.Formula
