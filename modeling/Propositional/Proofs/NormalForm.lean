import Propositional.Proofs.Completeness
import Propositional.Proofs.Rewriting

/- One pass with the standard rules settles a formula. A formula is settled if it has no
   derived connective and no rule applies anywhere in it (`RuleSet.Settled`). The
   standard rules are tidy (`Rule.Tidy`): their patterns are ones that the search never
   misses, so that a rule applies to all formulas that its pattern describes, up to the
   order of operands, and to no others (`Rule.Tidy.isSome_apply_iff`); and what a rule
   makes is a constant or is alike to something that stands in an operand. So the
   outcome of a rule is settled if the operands are (`settled_atRoot`), although it is
   not looked at again, and a step settles every formula (`settled_step`). -/
namespace Propositional

open Formula (Exchanged Subformula Inside)

def Pattern.isConst : Pattern → Bool
  | const _ => true
  | _ => false

namespace Rule

/-- The search finds every match of the rule's pattern, the replacement can be built from
    any match, and it is a constant or a part of the pattern. -/
def Tidy (rule : Rule) : Prop :=
  rule.pattern.isComb ∧ (∀ n ∈ rule.pattern.slots, n < slotCount) ∧
    (∀ n ∈ rule.replacement.slots, n ∈ rule.pattern.slots) ∧
    (rule.replacement ∈ rule.pattern.inner ∨ rule.replacement.isConst)

instance (rule : Rule) : Decidable rule.Tidy := inferInstanceAs (Decidable (_ ∧ _ ∧ _ ∧ _))

namespace Tidy
variable {rule : Rule} {f h : Formula}

theorem isSome_apply_iff (ht : rule.Tidy) :
    (rule.apply f).isSome ↔ ∃ σ g, rule.pattern.Instance σ g ∧ Exchanged g f := by
  obtain ⟨comb, inRange, bound, -⟩ := ht
  refine ⟨?_, ?_⟩
  · intro hf
    obtain ⟨h, hh⟩ := Option.isSome_iff_exists.mp hf
    obtain ⟨b, hb, -⟩ := exists_matches_of_apply hh
    exact ⟨b.total, hb.exists_instance b.agreesWith_total⟩
  · intro ⟨σ, g, hg, hgf⟩
    obtain ⟨b, hb⟩ := Pattern.exists_unify_of_orderly (Pattern.orderly_of_isComb comb) inRange hg
      hgf (.empty σ rule.pattern)
    have hm : rule.pattern.Matches f Bindings.empty b := Pattern.matches_of_unify hb
    obtain ⟨h, hh⟩ := Pattern.exists_build rule.noWildcard (fun n hn => hm.isSome_get? (bound n hn))
    simp [apply, Pattern.match?, hb, hh]

/-- What the rule makes is a constant, or alike to what stands in an operand. -/
theorem inside_of_apply (ht : rule.Tidy) (hh : rule.apply f = some h) :
    (∃ v, h = .const v) ∨ ∃ u, Inside u f ∧ Exchanged h u := by
  obtain ⟨-, -, -, part⟩ := ht
  obtain ⟨b, hb, hbuild⟩ := exists_matches_of_apply hh
  obtain part | part := part
  · obtain ⟨u, g, hu, hg, hgu⟩ := hb.exists_inside b.agreesWith_total part
    rw [Pattern.instance_iff_of_build b.agreesWith_total hbuild] at hg
    exact .inr ⟨u, hu, hg ▸ hgu⟩
  · left
    cases hr : rule.replacement with
    | const v =>
      rw [hr] at hbuild
      exact ⟨v, (Option.some.inj hbuild).symm⟩
    | _ =>
      rw [hr] at part
      cases part

end Tidy

end Rule

namespace RuleSet

/-- The rules are tidy, and each stands in the list that is looked at for the formulas
    that its pattern describes. -/
structure Tidy (rules : RuleSet) : Prop where
  tidy : ∀ rule ∈ rules.all, rule.Tidy
  listed : ∀ rule ∈ rules.all, ∀ σ g, rule.pattern.Instance σ g → rule ∈ rules.rulesFor g

theorem rulesFor_exchanged (rules : RuleSet) {f g : Formula} (h : Exchanged f g) :
    rules.rulesFor f = rules.rulesFor g := by
  cases h with
  | const | var | not => rfl
  | @keep c | @swap c => cases c <;> rfl

/-- `f` has no derived connective, and no rule applies to anything in `f`. -/
def Settled (rules : RuleSet) (f : Formula) : Prop :=
  f.derivedCount = 0 ∧ ∀ u, Subformula u f → rules.firstApplying? u = none

namespace Settled
variable {rules : RuleSet} {f g : Formula}

theorem of_subformula (h : rules.Settled f) (hg : Subformula g f) : rules.Settled g := by
  refine ⟨?_, fun u hu => h.2 u (hu.trans hg)⟩
  have := hg.derivedCount_le
  have := h.1
  omega

theorem const (v : Bool) : rules.Settled (.const v) := by
  refine ⟨rfl, fun u hu => ?_⟩
  cases hu
  rfl

theorem var (x : String) : rules.Settled (.var x) := by
  refine ⟨rfl, fun u hu => ?_⟩
  cases hu
  rfl

/-- A formula to which no rule applies is settled as soon as what is inside it is. -/
theorem of_inside (h : rules.firstApplying? f = none) (hf : f.derivedCount = 0)
    (inside : ∀ u, Inside u f → rules.Settled u) : rules.Settled f := by
  refine ⟨hf, fun u hu => ?_⟩
  cases hu with
  | refl => exact h
  | not hu => exact (inside u (.not hu)).2 u .refl
  | left hu => exact (inside u (.left hu)).2 u .refl
  | right hu => exact (inside u (.right hu)).2 u .refl

theorem pass_eq (expand : Formula → Pass) (h : rules.Settled f) : rules.pass expand f = ⟨f, []⟩ := by
  obtain ⟨canonical, none⟩ := h
  have root {u : Formula} (hu : Subformula u f) : rules.atRoot u = ⟨u, []⟩ := by
    simp only [atRoot, none u hu]
  induction f, canonical using Formula.canonical_induction with
  | const | var => rfl
  | not a _ ih =>
    have ha := ih (fun u hu => none u (.not hu)) (fun hu => root (.not hu))
    simp only [pass, ha, root .refl, List.append_nil]
  | join j l r _ _ ihl ihr =>
    have hl := ihl (fun u hu => none u (.left hu)) (fun hu => root (.left hu))
    have hr := ihr (fun u hu => none u (.right hu)) (fun hu => root (.right hu))
    simp only [pass, hl, hr, root .refl, List.append_nil]

theorem step_eq (h : rules.Settled f) : rules.step f = ⟨f, []⟩ := h.pass_eq _

end Settled

section Tidy
variable {rules : RuleSet} (ht : rules.Tidy)
include ht

theorem Tidy.firstApplying?_eq_none_iff {f : Formula} :
    rules.firstApplying? f = none ↔
      ∀ rule ∈ rules.all, ∀ σ g, rule.pattern.Instance σ g → ¬ Exchanged g f := by
  rw [firstApplying?_eq_none]
  refine ⟨?_, ?_⟩
  · intro h rule hmem σ g hg hgf
    have listed : rule ∈ rules.rulesFor f := by
      rw [← rules.rulesFor_exchanged hgf]
      exact ht.listed rule hmem σ g hg
    have applies : (rule.apply f).isSome := (ht.tidy rule hmem).isSome_apply_iff.mpr ⟨σ, g, hg, hgf⟩
    rw [h rule listed] at applies
    cases applies
  · intro h rule hmem
    have hall := mem_all_of_mem_rulesFor hmem
    refine Option.not_isSome_iff_eq_none.mp (fun applies => ?_)
    obtain ⟨σ, g, hg, hgf⟩ := (ht.tidy rule hall).isSome_apply_iff.mp applies
    exact h rule hall σ g hg hgf

theorem Tidy.settled_of_exchanged {f g : Formula} (hf : rules.Settled f) (h : Exchanged f g) :
    rules.Settled g := by
  refine ⟨h.derivedCount_eq ▸ hf.1, fun u hu => ?_⟩
  obtain ⟨v, hv, hvu⟩ := h.exists_subformula hu
  have none := ht.firstApplying?_eq_none_iff.mp (hf.2 v hv)
  rw [ht.firstApplying?_eq_none_iff]
  exact fun rule hmem σ k hk hku => none rule hmem σ k hk (hku.trans hvu.symm)

theorem Tidy.settled_atRoot {f : Formula} (hf : f.derivedCount = 0)
    (inside : ∀ u, Inside u f → rules.Settled u) : rules.Settled (rules.atRoot f).formula := by
  unfold atRoot
  split
  · next rule g h =>
    -- the outcome is not looked at again, but it was settled while it stood in an operand
    obtain ⟨hmem, hg⟩ := firstApplying?_eq_some h
    obtain ⟨v, rfl⟩ | ⟨u, hu, hgu⟩ :=
      (ht.tidy rule (mem_all_of_mem_rulesFor hmem)).inside_of_apply hg
    · exact .const v
    · exact ht.settled_of_exchanged (inside u hu) hgu.symm
  · next h => exact .of_inside h hf inside

theorem Tidy.settled_pass {expand : Formula → Pass} {f : Formula} (h : f.derivedCount = 0) :
    rules.Settled (rules.pass expand f).formula := by
  induction f, h using Formula.canonical_induction with
  | const v => exact .const v
  | var x => exact .var x
  | not a _ ih =>
    refine ht.settled_atRoot ih.1 (fun u hu => ?_)
    cases hu with
    | not hu => exact ih.of_subformula hu
  | join j l r _ _ ihl ihr =>
    refine ht.settled_atRoot (Nat.add_eq_zero_iff.mpr ⟨ihl.1, ihr.1⟩) (fun u hu => ?_)
    cases hu with
    | left hu => exact ihl.of_subformula hu
    | right hu => exact ihr.of_subformula hu

theorem Tidy.settled_step (f : Formula) : rules.Settled (rules.step f).formula := by
  rw [step_eq_pass (fun g => ⟨g, []⟩) f]
  exact ht.settled_pass (Formula.derivedCount_normalize f)

end Tidy

/-! The standard rules. -/

theorem exists_pattern_of_mem_negationRules {rule : Rule} (h : rule ∈ negationRules) :
    ∃ p, rule.pattern = .not p := by
  simp only [negationRules, List.mem_cons, List.not_mem_nil, or_false] at h
  rcases h with rfl | rfl | rfl <;> exact ⟨_, rfl⟩

theorem exists_pattern_of_mem_junctionRules {j : Junction} {rule : Rule}
    (h : rule ∈ junctionRules j) : ∃ p q, rule.pattern = .join j p q := by
  simp only [junctionRules, List.mem_cons, List.not_mem_nil, or_false] at h
  rcases h with rfl | rfl | rfl | rfl | rfl | rfl | rfl | rfl <;> exact ⟨_, _, rfl⟩

theorem standard_tidy : standard.Tidy where
  tidy := by decide
  listed := by
    intro rule h σ g hg
    obtain h | ⟨j, h⟩ := mem_all_standard.mp h
    · obtain ⟨p, hp⟩ := exists_pattern_of_mem_negationRules h
      rw [hp] at hg
      cases hg
      exact h
    · obtain ⟨p, q, hp⟩ := exists_pattern_of_mem_junctionRules h
      rw [hp] at hg
      cases hg
      exact h

/-- One pass reaches a full normal form. With the standard rules, what a step makes of a
    formula has no derived connective, nothing in it is alike to an instance of the left
    side of any rule, and the next step leaves it as it is. -/
theorem step_reaches_normal_form (f : Formula) :
    (standard.step f).formula.derivedCount = 0 ∧
    (∀ u, Subformula u (standard.step f).formula → ∀ rule ∈ standard.all, ∀ σ g,
      rule.pattern.Instance σ g → u.alike g = false) ∧
    (standard.step (standard.step f).formula).formula = (standard.step f).formula := by
  have settled := standard_tidy.settled_step f
  refine ⟨settled.1, fun u hu rule hmem σ g hg => ?_, by rw [settled.step_eq]⟩
  have none := standard_tidy.firstApplying?_eq_none_iff.mp (settled.2 u hu) rule hmem σ g hg
  rw [Bool.eq_false_iff]
  exact fun h => none (Formula.alike_iff_exchanged.mp h).symm

end RuleSet

end Propositional
