import Propositional.Proofs.Rewriting

/- Simplification keeps what a formula means. `Pattern.Takes` says which truth values a
   pattern can have; a rule is valid if its pattern has no other value than its
   replacement (`Rule.Valid`). The standard rules are valid (`standard_valid`), and with
   valid rules each step and each run keep every value that a formula has; with any
   rules they bring in no variable (`simplify_sound`). -/
namespace Propositional

/-- `p.Takes v x`: the pattern can have the value `x` where the slots have the values `v`
    and every wildcard has a value of its own. -/
def Pattern.Takes (v : Nat → Bool) : Pattern → Bool → Prop
  | any, _ => True
  | slot n, x => x = v n
  | const b, x => x = b
  | not p, x => p.Takes v (!x)
  | join j p q, x => ∃ y z, p.Takes v y ∧ q.Takes v z ∧ (Connective.junction j).apply y z = x

/-- The pattern and the replacement have the same value, whatever the slots and each of
    the wildcards stand for. -/
def Rule.Valid (rule : Rule) : Prop :=
  ∀ v x y, rule.pattern.Takes v x → rule.replacement.Takes v y → x = y

def RuleSet.Valid (rules : RuleSet) : Prop := ∀ rule ∈ rules.all, rule.Valid

theorem Pattern.Instance.takes {σ : Nat → Formula} {s : Assignment} {p : Pattern} {f : Formula}
    (h : p.Instance σ f) {x : Bool} (hx : f.eval s = .ok x) :
    p.Takes (fun n => (σ n).truth s) x := by
  induction h generalizing x with
  | any => trivial
  | slot n => exact (Formula.truth_eq hx).symm
  | const v =>
    cases hx
    rfl
  | not _ ih => exact ih (Formula.eval_not_eq_ok.mp hx)
  | join _ _ ihl ihr =>
    obtain ⟨y, z, hy, hz, e⟩ := Formula.eval_binary_eq_ok.mp hx
    exact ⟨y, z, ihl hy, ihr hz, e⟩

namespace Rule
variable {rule : Rule} {f g : Formula}

theorem occurrences_apply_subset (h : rule.apply f = some g) : g.occurrences ⊆ f.occurrences :=
  apply_induction (fun _ => List.nil_subset _) id (fun hl hr => List.append_subset.mpr ⟨hl, hr⟩)
    (fun _ hg => hg.occurrences_subset) h

theorem Valid.eval_apply (hr : rule.Valid) (h : rule.apply f = some g) {s : Assignment} {x : Bool}
    (hx : f.eval s = .ok x) : g.eval s = .ok x := by
  obtain ⟨b, hb, hg⟩ := exists_matches_of_apply h
  obtain ⟨k, hk, hkf⟩ := hb.exists_instance b.agreesWith_total
  have hkx : k.eval s = .ok x := Formula.eval_eq_ok_of_exchanged hkf.symm hx
  -- the outcome has a value, since it has no variable that `f` does not have
  have covered := Formula.exists_eval_eq_ok_iff.mp ⟨x, hx⟩
  obtain ⟨y, hy⟩ : ∃ y, g.eval s = .ok y := Formula.exists_eval_eq_ok_iff.mpr
    (fun v hv => covered v (occurrences_apply_subset h hv))
  have hgi : rule.replacement.Instance b.total g :=
    (Pattern.instance_iff_of_build b.agreesWith_total hg).mpr rfl
  rw [hr _ x y (hk.takes hkx) (hgi.takes hy)]
  exact hy

end Rule

namespace RuleSet
variable {rules : RuleSet}

/-- With valid rules no part of a simplification loses a value. -/
theorem Valid.carries (h : rules.Valid) (s : Assignment) :
    rules.Carries (fun f g => ∀ b, f.eval s = .ok b → g.eval s = .ok b) where
  refl _ _ := id
  trans hf hg b hb := hg b (hf b hb)
  not ha b hb := Formula.eval_not_eq_ok.mpr (ha _ (Formula.eval_not_eq_ok.mp hb))
  binary c hl hr b hb := by
    obtain ⟨x, y, hx, hy, e⟩ := Formula.eval_binary_eq_ok.mp hb
    exact Formula.eval_binary_eq_ok.mpr ⟨x, y, hl x hx, hr y hy, e⟩
  expand d l r b hb := (Formula.eval_expand d l r).trans hb
  apply hmem hg _ hb := (h _ hmem).eval_apply hg hb

/-- No part of a simplification brings in a variable. -/
theorem carries_occurrences (rules : RuleSet) :
    rules.Carries (fun f g => g.occurrences ⊆ f.occurrences) where
  refl _ := List.Subset.refl _
  trans h h' := List.Subset.trans h' h
  not h := h
  binary _ hl hr := List.append_subset.mpr
    ⟨List.subset_append_of_subset_left _ hl, List.subset_append_of_subset_right _ hr⟩
  expand _ _ _ _ hx := List.mem_append.mpr (Formula.mem_occurrences_expand.mp hx)
  apply _ h := Rule.occurrences_apply_subset h

theorem vars_subset_of_occurrences {f g : Formula} (h : g.occurrences ⊆ f.occurrences) :
    g.vars ⊆ f.vars :=
  fun _ hx => Formula.mem_vars.mpr (h (Formula.mem_vars.mp hx))

theorem valid_of_mem_negationRules {rule : Rule} (h : rule ∈ negationRules) : rule.Valid := by
  intro v x y hx hy
  simp only [negationRules, List.mem_cons, List.not_mem_nil, or_false] at h
  rcases h with rfl | rfl | rfl <;> simp_all [Pattern.Takes]

theorem valid_of_mem_junctionRules {j : Junction} {rule : Rule} (h : rule ∈ junctionRules j) :
    rule.Valid := by
  intro v x y hx hy
  simp only [junctionRules, List.mem_cons, List.not_mem_nil, or_false] at h
  rcases h with rfl | rfl | rfl | rfl | rfl | rfl | rfl | rfl <;> cases j <;>
    grind [Pattern.Takes, Connective.apply, Junction.unit, Junction.dual]

theorem standard_valid : standard.Valid := by
  intro rule h
  obtain h | ⟨j, h⟩ := mem_all_standard.mp h
  · exact valid_of_mem_negationRules h
  · exact valid_of_mem_junctionRules h

/-- Simplification preserves meaning. The standard rules are valid; with valid rules a step
    and a run keep every value that a formula has; with any rules they add no variable. -/
theorem simplify_sound :
    standard.Valid ∧
    (∀ rules : RuleSet, rules.Valid → ∀ (f : Formula) (maxSteps : Nat) (s : Assignment) (b : Bool),
      f.eval s = .ok b →
        (rules.step f).formula.eval s = .ok b ∧ (rules.simplify maxSteps f).formula.eval s = .ok b) ∧
    ∀ (rules : RuleSet) (f : Formula) (maxSteps : Nat),
      (rules.step f).formula.vars ⊆ f.vars ∧ (rules.simplify maxSteps f).formula.vars ⊆ f.vars := by
  refine ⟨standard_valid, ?_, ?_⟩
  · intro rules h f maxSteps s b hb
    exact ⟨(h.carries s).step f b hb, (h.carries s).simplify maxSteps f b hb⟩
  · intro rules f maxSteps
    have carries := carries_occurrences rules
    exact ⟨vars_subset_of_occurrences (carries.step f),
      vars_subset_of_occurrences (carries.simplify maxSteps f)⟩

/-- Two rules are used, and a variable is lost with the value it had. -/
theorem simplify_sound_complement :
    let f : Formula := .and (.or (.var "p") (.not (.var "p"))) (.var "q")
    let s : Assignment := fun x => if x = "p" then some false else some true
    standard.Valid ∧ f.eval s = .ok true ∧
      (standard.step f).firings.map Firing.rule = ["or complement", "and identity"] ∧
      (standard.step f).formula = .var "q" ∧ (standard.step f).formula.eval s = .ok true ∧
      (standard.simplify 9 f).formula.eval s = .ok true ∧
      (standard.simplify 9 f).formula.vars ⊆ ["p", "q"] := by
  intro f s
  obtain ⟨valid, sound, fewer⟩ := simplify_sound
  have value : f.eval s = .ok true := rfl
  obtain ⟨step, run⟩ := sound standard valid f 9 s true value
  exact ⟨valid, value, by decide, by decide, step, run, (fewer standard f 9).2⟩

end RuleSet

end Propositional
