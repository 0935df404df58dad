import Propositional.Proofs.Variables

/- The forms that define a connective through others. Each of them follows from a few laws of
   evaluation: double negation, De Morgan's law (`Formula.eval_not_join`), a connective as the
   negation of another (`Formula.eval_not_binary`), and the definitions of the derived ones. The
   laws are equations of results and not of values only: on both sides the operands are looked
   at in the same order until one of them fails. So a form fails where the formula fails, and at
   the same variable (`Formula.equivalents_are_exact`). -/
namespace Propositional.Formula

variable {s : Assignment}

/-! Laws of evaluation. -/

theorem eval_binary_congr {c : Connective} {l l' r r' : Formula} (hl : l.eval s = l'.eval s)
    (hr : r.eval s = r'.eval s) : (binary c l r).eval s = (binary c l' r').eval s := by
  simp only [eval, hl, hr]

theorem eval_not_not (a : Formula) : (not (not a)).eval s = a.eval s := by
  cases ha : a.eval s with
  | error e => exact eval_not_eq_error.mpr (eval_not_eq_error.mpr ha)
  | ok x =>
    refine eval_not_eq_ok.mpr (eval_not_eq_ok.mpr ?_)
    rw [Bool.not_not, ha]

/-- Joined to itself by a connective that negates equal values, a formula is negated. -/
theorem eval_binary_self {c : Connective} (h : ∀ x, c.apply x x = !x) (a : Formula) :
    (binary c a a).eval s = (not a).eval s := by
  cases ha : a.eval s with
  | error e => rw [eval_not_eq_error.mpr ha, eval_binary_eq_error.mpr (.inl ha)]
  | ok x =>
    have negated : (not a).eval s = .ok (!x) := eval_not_eq_ok.mpr (by rw [Bool.not_not, ha])
    rw [negated]
    exact eval_binary_eq_ok.mpr ⟨x, x, ha, ha, h x⟩

/-- To negate one connective is to use another, if their truth functions are opposite. -/
theorem eval_not_binary {c d : Connective} (h : ∀ x y, d.apply x y = !c.apply x y)
    (l r : Formula) : (not (binary c l r)).eval s = (binary d l r).eval s := by
  cases hd : (binary d l r).eval s with
  | error e => exact eval_not_eq_error.mpr (eval_binary_eq_error.mpr (eval_binary_eq_error.mp hd))
  | ok b =>
    obtain ⟨x, y, hx, hy, hb⟩ := eval_binary_eq_ok.mp hd
    refine eval_not_eq_ok.mpr (eval_binary_eq_ok.mpr ⟨x, y, hx, hy, ?_⟩)
    rw [← hb, h, Bool.not_not]

/-- De Morgan's law. -/
theorem eval_not_join (j : Junction) (l r : Formula) :
    (not (join j l r)).eval s = (join j.dual (not l) (not r)).eval s := by
  cases hd : (join j.dual (not l) (not r)).eval s with
  | error e =>
    refine eval_not_eq_error.mpr (eval_binary_eq_error.mpr ?_)
    obtain hl | ⟨⟨x, hx⟩, hr⟩ := eval_binary_eq_error.mp hd
    · exact .inl (eval_not_eq_error.mp hl)
    · exact .inr ⟨⟨!x, eval_not_eq_ok.mp hx⟩, eval_not_eq_error.mp hr⟩
  | ok b =>
    obtain ⟨x, y, hx, hy, hb⟩ := eval_binary_eq_ok.mp hd
    refine eval_not_eq_ok.mpr (eval_binary_eq_ok.mpr ?_)
    refine ⟨!x, !y, eval_not_eq_ok.mp hx, eval_not_eq_ok.mp hy, ?_⟩
    rw [← hb]
    cases j <;> cases x <;> cases y <;> rfl

/-- A junction of two formulas through the dual junction of their negations. -/
theorem eval_not_join_not (j : Junction) (l r : Formula) :
    (not (join j.dual (not l) (not r))).eval s = (join j l r).eval s :=
  calc (not (join j.dual (not l) (not r))).eval s
      = (join j.dual.dual (not (not l)) (not (not r))).eval s := eval_not_join _ _ _
    _ = (join j l r).eval s := by
        rw [Junction.dual_dual]
        exact eval_binary_congr (eval_not_not l) (eval_not_not r)

/-! Defining forms. -/

theorem eval_equivalents : ∀ (f : Formula), ∀ g ∈ f.equivalents, g.eval s = f.eval s
  | const _ | var _ => fun _ hg => nomatch hg
  | not a => by
    rw [equivalents, List.forall_mem_cons, List.forall_mem_singleton]
    refine ⟨eval_binary_self ?_ a, eval_binary_self ?_ a⟩
    · intro x
      cases x <;> rfl
    · intro x
      cases x <;> rfl
  | join .and l r => by
    rw [equivalents, List.forall_mem_singleton]
    exact eval_not_join_not .and l r
  | join .or l r => by
    rw [equivalents, List.forall_mem_singleton]
    exact eval_not_join_not .or l r
  | derived .implies l r => by
    have definition : (or (not l) r).eval s = (implies l r).eval s := eval_expand .implies l r
    rw [equivalents, List.forall_mem_cons, List.forall_mem_singleton]
    refine ⟨definition, ?_⟩
    calc (not (and l (not r))).eval s
        = (or (not l) (not (not r))).eval s := eval_not_join .and l (not r)
      _ = (or (not l) r).eval s := eval_binary_congr rfl (eval_not_not r)
      _ = (implies l r).eval s := definition
  | derived .equivalent l r => by
    rw [equivalents, List.forall_mem_singleton]
    calc (and (implies l r) (implies r l)).eval s
        = (and (or (not l) r) (or (not r) l)).eval s :=
          eval_binary_congr (eval_expand .implies l r).symm (eval_expand .implies r l).symm
      _ = (equivalent l r).eval s := eval_expand .equivalent l r
  | derived .nand l r => by
    have definition : (not (and l r)).eval s = (nand l r).eval s := eval_expand .nand l r
    rw [equivalents, List.forall_mem_cons, List.forall_mem_singleton]
    exact ⟨definition, (eval_not_join .and l r).symm.trans definition⟩
  | derived .nor l r => by
    have definition : (not (or l r)).eval s = (nor l r).eval s := eval_expand .nor l r
    rw [equivalents, List.forall_mem_cons, List.forall_mem_singleton]
    exact ⟨definition, (eval_not_join .or l r).symm.trans definition⟩
  | derived .xor l r => by
    rw [equivalents, List.forall_mem_cons, List.forall_mem_singleton]
    refine ⟨eval_not_binary ?_ l r, eval_expand .xor l r⟩
    intro x y
    cases x <;> cases y <;> rfl

theorem mem_occurrences_equivalents {x : String} {f g : Formula} (hg : g ∈ f.equivalents) :
    x ∈ g.occurrences ↔ x ∈ f.occurrences := by
  unfold equivalents at hg
  split at hg <;> simp only [List.mem_cons, List.not_mem_nil, or_false] at hg
  all_goals grind [occurrences]

theorem vars_equivalents {f g : Formula} (hg : g ∈ f.equivalents) : g.vars = f.vars :=
  vars_eq_of_mem_iff (fun x => by rw [mem_vars, mem_vars, mem_occurrences_equivalents hg])

theorem equivalents_eq_nil_iff {f : Formula} :
    f.equivalents = [] ↔ (∃ b, f = const b) ∨ ∃ x, f = var x := by
  unfold equivalents
  split <;> simp

/-- The forms that define the root of a formula are exact. Under every assignment, also one that
    leaves out variables of the formula, each of them has the value of the formula or fails at
    the same variable, and each has the variables of the formula. Only constants and variables
    have no such form. -/
theorem equivalents_are_exact (f : Formula) :
    (∀ g ∈ f.equivalents, (∀ s : Assignment, g.eval s = f.eval s) ∧ g.vars = f.vars) ∧
    (f.equivalents = [] ↔ (∃ b, f = const b) ∨ ∃ x, f = var x) :=
  ⟨fun g hg => ⟨fun _ => eval_equivalents f g hg, vars_equivalents hg⟩, equivalents_eq_nil_iff⟩

/-- The form that defines ⟷ has its right operand in front of its left one in the end, but what
    is missed first is a variable of the left one. -/
theorem equivalents_are_exact_missing_operand :
    let f : Formula := .equivalent (.nor (.var "q") (.var "p")) (.var "r")
    let g : Formula := .and (.implies (.nor (.var "q") (.var "p")) (.var "r"))
      (.implies (.var "r") (.nor (.var "q") (.var "p")))
    let s : Assignment := fun x => if x = "q" then some true else none
    g ∈ f.equivalents ∧ g.eval s = .error (.unassigned "p") ∧ g.vars = ["p", "q", "r"] ∧
      f.equivalents ≠ [] := by
  intro f g s
  obtain ⟨exact, operands⟩ := equivalents_are_exact f
  have form : g ∈ f.equivalents := List.mem_singleton_self g
  obtain ⟨value, vars⟩ := exact g form
  have compound : ¬((∃ b, f = const b) ∨ ∃ x, f = var x) := by simp [f]
  exact ⟨form, (value s).trans (by decide), vars.trans (by decide), mt operands.mp compound⟩

end Propositional.Formula
