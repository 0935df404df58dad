import Propositional.Simplification
import Propositional.Proofs.Evaluation
import Propositional.Proofs.Matching

/- What rules, passes and runs of simplification do in general. A rule that applies has
   bindings that both of its sides share (`Rule.exists_matches_of_apply`). A step is a pass
   over the normal form (`RuleSet.step_eq_pass`) and makes a formula without derived
   connectives (`RuleSet.derivedCount_step`). A relation between formulas that goes from
   operands to the whole and holds for each use of a rule and for each definition is
   carried from a formula to the outcome of a step (`RuleSet.Carries.step`) and of a run
   (`RuleSet.Carries.simplify`). -/
namespace Propositional

theorem Rule.exists_matches_of_apply {rule : Rule} {f h : Formula} (e : rule.apply f = some h) :
    ∃ b, rule.pattern.Matches f Bindings.empty b ∧ rule.replacement.build b = some h := by
  simp only [apply, Option.bind_eq_bind, Option.bind_eq_some_iff] at e
  obtain ⟨b, hb, hh⟩ := e
  exact ⟨b, Pattern.matches_of_unify (Pattern.match?_eq_some.mp hb), hh⟩

/-- What a rule makes has every property that goes up through ¬ and the junctions, if
    everything in the formula that the rule is used on has it. -/
theorem Rule.apply_induction {P : Formula → Prop} (const : ∀ v, P (.const v))
    (not : ∀ {a}, P a → P (.not a)) (join : ∀ {j l r}, P l → P r → P (.join j l r))
    {rule : Rule} {f h : Formula} (inside : ∀ g, Formula.Subformula g f → P g)
    (e : rule.apply f = some h) : P h := by
  obtain ⟨b, hb, hh⟩ := exists_matches_of_apply e
  exact Pattern.build_induction const not join
    (fun n g hg => inside g (hb.subformula_of_get? hg)) hh

namespace RuleSet
variable {rules : RuleSet}

/-- The rules, those for negations first. -/
def all (rules : RuleSet) : List Rule :=
  rules.forNot ++ rules.forJunction .and ++ rules.forJunction .or

theorem mem_all_of_mem_rulesFor {rule : Rule} {f : Formula} (h : rule ∈ rules.rulesFor f) :
    rule ∈ rules.all := by
  unfold rulesFor at h
  split at h
  · exact List.mem_append_left _ (List.mem_append_left _ h)
  · next j _ _ =>
    cases j with
    | and => exact List.mem_append_left _ (List.mem_append_right _ h)
    | or => exact List.mem_append_right _ h
  · cases h

theorem mem_all_standard {rule : Rule} :
    rule ∈ standard.all ↔ rule ∈ negationRules ∨ ∃ j, rule ∈ junctionRules j := by
  simp only [all, standard, List.mem_append, or_assoc]
  refine or_congr_right ⟨?_, ?_⟩
  · intro h
    obtain h | h := h
    · exact ⟨.and, h⟩
    · exact ⟨.or, h⟩
  · intro ⟨j, h⟩
    cases j with
    | and => exact .inl h
    | or => exact .inr h

theorem firstApplying?_eq_some {rule : Rule} {f g : Formula}
    (h : rules.firstApplying? f = some (rule, g)) :
    rule ∈ rules.rulesFor f ∧ rule.apply f = some g := by
  obtain ⟨_, hmem, hr⟩ := List.exists_of_findSome?_eq_some h
  obtain ⟨_, hg, e⟩ := Option.map_eq_some_iff.mp hr
  cases e
  exact ⟨hmem, hg⟩

theorem firstApplying?_eq_none {f : Formula} :
    rules.firstApplying? f = none ↔ ∀ rule ∈ rules.rulesFor f, rule.apply f = none := by
  simp [firstApplying?, List.findSome?_eq_none_iff]

/-! Passes over formulas without derived connectives. -/

theorem pass_congr {expand expand' : Formula → Pass} {f : Formula} (h : f.derivedCount = 0) :
    rules.pass expand f = rules.pass expand' f := by
  induction f, h using Formula.canonical_induction with
  | const | var => rfl
  | not a _ ih => simp only [pass, ih]
  | join j l r _ _ ihl ihr => simp only [pass, ihl, ihr]

/-- A step is a pass over the normal form. -/
theorem step_eq_pass (expand : Formula → Pass) : ∀ f : Formula,
    rules.step f = rules.pass expand f.normalize
  | .const _ | .var _ => rfl
  | .not a => by
    have ha := step_eq_pass expand a
    unfold step at ha ⊢
    simp only [pass, Formula.normalize, ha]
  | .join j l r => by
    have hl := step_eq_pass expand l
    have hr := step_eq_pass expand r
    unfold step at hl hr ⊢
    simp only [pass, Formula.normalize, hl, hr]
  | .derived d l r => pass_congr (Formula.derivedCount_normalize _)

theorem step_normalize (f : Formula) : rules.step f.normalize = rules.step f :=
  (step_eq_pass _ f).symm

theorem derivedCount_atRoot {f : Formula} (h : f.derivedCount = 0) :
    (rules.atRoot f).formula.derivedCount = 0 := by
  unfold atRoot
  split
  · next rule g e =>
    have canonical : ∀ u, Formula.Subformula u f → u.derivedCount = 0 :=
      fun u hu => Nat.eq_zero_of_le_zero (h ▸ hu.derivedCount_le)
    refine Rule.apply_induction (P := fun u => u.derivedCount = 0) (fun _ => rfl) id ?_ canonical
      (firstApplying?_eq_some e).2
    intro j l r hl hr
    simp only [Formula.derivedCount, hl, hr]
  · exact h

theorem derivedCount_pass {expand : Formula → Pass} {f : Formula} (h : f.derivedCount = 0) :
    (rules.pass expand f).formula.derivedCount = 0 := by
  induction f, h using Formula.canonical_induction with
  | const | var => rfl
  | not _ _ ih => exact derivedCount_atRoot ih
  | join _ _ _ _ _ ihl ihr => exact derivedCount_atRoot (Nat.add_eq_zero_iff.mpr ⟨ihl, ihr⟩)

theorem derivedCount_step (f : Formula) : (rules.step f).formula.derivedCount = 0 := by
  rw [step_eq_pass (fun g => ⟨g, []⟩) f]
  exact derivedCount_pass (Formula.derivedCount_normalize f)

/-! What a simplification carries along. -/

/-- The relation holds between a formula and whatever a part of a simplification makes of it. -/
structure Carries (rules : RuleSet) (R : Formula → Formula → Prop) : Prop where
  refl : ∀ f, R f f
  trans : ∀ {f g h}, R f g → R g h → R f h
  not : ∀ {a b}, R a b → R (.not a) (.not b)
  binary : ∀ {l l' r r'} (c : Connective), R l l' → R r r' → R (.binary c l r) (.binary c l' r')
  expand : ∀ (d : Derived) (l r), R (.derived d l r) (d.expand l r)
  apply : ∀ {rule f g}, rule ∈ rules.all → rule.apply f = some g → R f g

namespace Carries
variable {R : Formula → Formula → Prop} (hR : rules.Carries R)
include hR

theorem normalize : ∀ f : Formula, R f f.normalize
  | .const _ | .var _ => hR.refl _
  | .not a => hR.not (normalize a)
  | .join _ l r => hR.binary _ (normalize l) (normalize r)
  | .derived d l r => hR.trans (hR.binary _ (normalize l) (normalize r)) (hR.expand d _ _)

theorem atRoot (f : Formula) : R f (rules.atRoot f).formula := by
  unfold RuleSet.atRoot
  split
  · next rule g h =>
    obtain ⟨hmem, hg⟩ := firstApplying?_eq_some h
    exact hR.apply (mem_all_of_mem_rulesFor hmem) hg
  · exact hR.refl f

theorem pass {expand : Formula → Pass}
    (he : ∀ (d : Derived) (l r : Formula), R (.derived d l r) (expand (.derived d l r)).formula) :
    ∀ f : Formula, R f (rules.pass expand f).formula
  | .const _ | .var _ => hR.refl _
  | .not a => hR.trans (hR.not (pass he a)) (hR.atRoot _)
  | .join _ l r => hR.trans (hR.binary _ (pass he l) (pass he r)) (hR.atRoot _)
  | .derived d l r => he d l r

theorem step (f : Formula) : R f (rules.step f).formula := by
  refine hR.pass (fun d l r => ?_) f
  exact hR.trans (hR.normalize _) (hR.pass (fun _ _ _ => hR.refl _) _)

theorem repeatStep : ∀ (left done : Nat) (f : Formula), R f (rules.repeatStep left done f).formula
  | 0, _, f => hR.refl f
  | left + 1, done, f => by
    unfold RuleSet.repeatStep
    dsimp only
    split
    · exact hR.step f
    · split
      · exact hR.trans (hR.step f) (repeatStep left (done + 1) _)
      · exact hR.refl f

theorem simplify (maxSteps : Nat) (f : Formula) : R f (rules.simplify maxSteps f).formula :=
  hR.repeatStep maxSteps 0 f

end Carries

end RuleSet

end Propositional
