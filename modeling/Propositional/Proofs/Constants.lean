import Propositional.Proofs.Shrinking
import Propositional.Proofs.Soundness

/- Simplification folds constants completely. Where a constant is negated or joined to
   something, a standard rule applies (`not_idle_not_const`, `not_idle_beside_const`), so a
   settled formula is a constant or holds none (`Settled.const_or_constFree`). As a formula
   that holds no constant has a variable (`Formula.ConstFree.exists_occurrence`), a run
   folds every formula without variables to its value (`simplify_folds_constants`). -/
namespace Propositional

open Formula (Exchanged Subformula)

namespace Formula

/-- No constant stands in the formula, at any depth. -/
def ConstFree (f : Formula) : Prop := ∀ v, ¬ Subformula (const v) f

theorem constFree_not {a : Formula} : (not a).ConstFree ↔ a.ConstFree := by
  refine ⟨fun h v ha => h v (.not ha), fun ha v h => ?_⟩
  cases h with
  | not h => exact ha v h

theorem constFree_binary {c : Connective} {l r : Formula} :
    (binary c l r).ConstFree ↔ l.ConstFree ∧ r.ConstFree := by
  refine ⟨fun h => ⟨fun v hl => h v (.left hl), fun v hr => h v (.right hr)⟩, ?_⟩
  intro ⟨hl, hr⟩ v h
  cases h with
  | left h => exact hl v h
  | right h => exact hr v h

/-- The leaf that is furthest to the left is a variable. -/
theorem ConstFree.exists_occurrence {f : Formula} (h : f.ConstFree) : ∃ x, x ∈ f.occurrences := by
  induction f with
  | const b => exact absurd .refl (h b)
  | var x => exact ⟨x, List.mem_singleton_self x⟩
  | not a ih => exact ih (constFree_not.mp h)
  | binary c l r ihl _ =>
    obtain ⟨x, hx⟩ := ihl (constFree_binary.mp h).1
    exact ⟨x, List.mem_append_left _ hx⟩

end Formula

namespace RuleSet
variable {f g : Formula}

/-! Standard rules that apply to constants. -/

theorem Tidy.not_idle {rules : RuleSet} (ht : rules.Tidy) {rule : Rule} (hr : rule ∈ rules.all)
    {σ : Nat → Formula} (hg : rule.pattern.Instance σ g) (hgf : Exchanged g f) :
    rules.firstApplying? f ≠ none :=
  fun idle => ht.firstApplying?_eq_none_iff.mp idle rule hr σ g hg hgf

theorem not_idle_not_const (v : Bool) : standard.firstApplying? (.not (.const v)) ≠ none := by
  cases v <;> decide

/-- A constant is the unit of the junction that it is joined by, or that of the other one. -/
theorem not_idle_beside_const {j : Junction} {v : Bool} (h : Exchanged (.join j f (.const v)) g) :
    standard.firstApplying? g ≠ none := by
  have law {rule : Rule} (hr : rule ∈ junctionRules j) : rule ∈ standard.all :=
    mem_all_standard.mpr (.inr ⟨j, hr⟩)
  have identity := law (List.mem_cons_of_mem _ List.mem_cons_self)
  have annihilation := law (List.mem_cons_of_mem _ (List.mem_cons_of_mem _ List.mem_cons_self))
  by_cases unit : v = j.unit
  · subst unit
    have described : Pattern.Instance (fun _ => f) (.join j (.slot 0) (.const j.unit))
        (.join j f (.const j.unit)) := .join (.slot 0) (.const _)
    exact standard_tidy.not_idle identity described h
  · obtain rfl : v = j.dual.unit := by
      rw [j.unit_dual]
      exact Bool.eq_not.mpr unit
    have described : Pattern.Instance (fun _ => f) (.join j .any (.const j.dual.unit))
        (.join j f (.const j.dual.unit)) := .join (.any f) (.const _)
    exact standard_tidy.not_idle annihilation described h

/-! Settled formulas. -/

theorem Settled.const_or_constFree (h : standard.Settled f) :
    (∃ v, f = .const v) ∨ f.ConstFree := by
  obtain ⟨canonical, idle⟩ := h
  induction f, canonical using Formula.canonical_induction with
  | const v => exact .inl ⟨v, rfl⟩
  | var x =>
    refine .inr (fun v h => ?_)
    cases h
  | not a _ ih =>
    obtain ⟨v, rfl⟩ | free := ih (fun u hu => idle u (.not hu))
    · exact absurd (idle _ .refl) (not_idle_not_const v)
    · exact .inr (Formula.constFree_not.mpr free)
  | join j l r _ _ ihl ihr =>
    obtain ⟨v, rfl⟩ | left := ihl (fun u hu => idle u (.left hu))
    · exact absurd (idle _ .refl) (not_idle_beside_const (.swap rfl (.refl r) (.refl _)))
    obtain ⟨v, rfl⟩ | right := ihr (fun u hu => idle u (.right hu))
    · exact absurd (idle _ .refl) (not_idle_beside_const (.refl (.join j l (.const v))))
    · exact .inr (Formula.constFree_binary.mpr ⟨left, right⟩)

/-- Simplification folds constants completely. With the standard rules, a run that may make a
    step leads to one of the constants, or to a formula in which no constant stands, at any
    depth. A formula without variables has a value without any assignment, and every such
    run leads to the constant of that value. -/
theorem simplify_folds_constants :
    (∀ (f : Formula) (n : Nat), 1 ≤ n → (∃ v, (standard.simplify n f).formula = .const v) ∨
      ∀ v, ¬ Subformula (.const v) (standard.simplify n f).formula) ∧
    ∀ (f : Formula) (n : Nat), 1 ≤ n → f.vars = [] →
      ∃ v, f.eval (fun _ => none) = .ok v ∧ (standard.simplify n f).formula = .const v := by
  have folded (f : Formula) (n : Nat) (hn : 1 ≤ n) :
      (∃ v, (standard.simplify n f).formula = .const v) ∨
        (standard.simplify n f).formula.ConstFree :=
    (standard_tidy.settled_simplify f hn).const_or_constFree
  refine ⟨folded, ?_⟩
  intro f n hn closed
  have none (x : String) : x ∉ f.occurrences := by
    rw [← Formula.mem_vars, closed]
    exact List.not_mem_nil
  obtain ⟨v, value⟩ : ∃ v, f.eval (fun _ => .none) = .ok v :=
    Formula.exists_eval_eq_ok_iff.mpr (fun x hx => absurd hx (none x))
  obtain ⟨w, const⟩ | free := folded f n hn
  · have kept := (standard_valid.carries _).simplify n f v value
    rw [const] at kept
    cases kept
    exact ⟨v, value, const⟩
  · obtain ⟨x, hx⟩ := free.exists_occurrence
    exact absurd ((carries_occurrences standard).simplify n f hx) (none x)

/-- A formula of constants, all of them two levels down, under derived connectives. -/
theorem simplify_folds_constants_closed :
    let f : Formula := .xor (.nand (.const true) (.const false)) (.implies (.const true) (.const false))
    1 ≤ 1 ∧ f.vars = [] ∧ (standard.simplify 1 f).formula = .const true := by
  intro f
  have closed : f.vars = [] := by decide
  obtain ⟨v, value, folded⟩ := simplify_folds_constants.2 f 1 (Nat.le_refl 1) closed
  cases value
  exact ⟨Nat.le_refl 1, closed, folded⟩

end RuleSet

end Propositional
