import Propositional.Record
import Propositional.Proofs.Commutativity
import Propositional.Proofs.NormalForm

/- How simplification makes formulas smaller. What a tidy rule makes is smaller than what
   it was used on (`Rule.Tidy.size_lt`), so that a pass pays for every rule it uses with
   at least one node (`Tidy.size_pass`), and a pass that uses none leaves its formula as it
   is (`pass_eq_self`). Hence a step never merely exchanges operands: it leaves a formula
   alone or makes it smaller (`Tidy.step_eq_or_less`). As the formula after one step is
   settled, a run is over after one step, with nothing to stop it but a budget too small
   to see that the second step is idle (`simplify_is_one_step`), and the nodes of the
   normal form pay for all the uses of rules that a run notes (`firings_cost_nodes`). -/
namespace Propositional

open Formula (Exchanged Inside)

theorem Measure.less_iff {a b : Measure} : a.less b = true ↔
    a.derivedCount < b.derivedCount ∨ a.derivedCount = b.derivedCount ∧ a.size < b.size := by
  simp [less]

theorem Measure.ne_of_less {a b : Measure} (h : a.less b = true) : a ≠ b := by
  rintro rfl
  rw [less_iff] at h
  omega

theorem Rule.Tidy.size_lt {rule : Rule} {f h : Formula} (ht : rule.Tidy)
    (hh : rule.apply f = some h) (compound : 1 < f.size) : h.size < f.size := by
  obtain ⟨v, rfl⟩ | ⟨u, hu, hhu⟩ := ht.inside_of_apply hh
  · exact compound
  · rw [hhu.size_eq]
    exact hu.size_lt

namespace RuleSet
variable {rules : RuleSet}

/-- Rules are for formulas with an operand. -/
theorem one_lt_size_of_mem_rulesFor {rule : Rule} {f : Formula} (h : rule ∈ rules.rulesFor f) :
    1 < f.size := by
  cases f with
  | const | var => cases h
  | not a => have := a.size_pos; simp only [Formula.size]; omega
  | binary _ l r => have := l.size_pos; simp only [Formula.size]; omega

/-! Passes. -/

theorem atRoot_eq_self {f : Formula} (h : (rules.atRoot f).firings = []) :
    (rules.atRoot f).formula = f := by
  unfold atRoot at h ⊢
  split
  · next e => simp [e] at h
  · rfl

theorem pass_eq_self {expand : Formula → Pass} {f : Formula} (hf : f.derivedCount = 0)
    (h : (rules.pass expand f).firings = []) : (rules.pass expand f).formula = f := by
  induction f, hf using Formula.canonical_induction with
  | const | var => rfl
  | not a _ ih =>
    obtain ⟨inner, root⟩ := List.append_eq_nil_iff.mp h
    show (rules.atRoot (.not (rules.pass expand a).formula)).formula = .not a
    rw [atRoot_eq_self root, ih inner]
  | join j l r _ _ ihl ihr =>
    obtain ⟨operands, root⟩ := List.append_eq_nil_iff.mp h
    obtain ⟨left, right⟩ := List.append_eq_nil_iff.mp operands
    show (rules.atRoot (.join j (rules.pass expand l).formula
      (rules.pass expand r).formula)).formula = .join j l r
    rw [atRoot_eq_self root, ihl left, ihr right]

section Tidy
variable (ht : rules.Tidy)
include ht

theorem Tidy.size_atRoot (f : Formula) :
    (rules.atRoot f).formula.size + (rules.atRoot f).firings.length ≤ f.size := by
  unfold atRoot
  split
  · next rule g e =>
    obtain ⟨hmem, hg⟩ := firstApplying?_eq_some e
    have shrinks : g.size < f.size :=
      (ht.tidy rule (mem_all_of_mem_rulesFor hmem)).size_lt hg (one_lt_size_of_mem_rulesFor hmem)
    exact shrinks
  · exact Nat.le_refl _

/-- Every rule that a pass uses is paid for with a node. -/
theorem Tidy.size_pass (expand : Formula → Pass) (f : Formula) (hf : f.derivedCount = 0) :
    (rules.pass expand f).formula.size + (rules.pass expand f).firings.length ≤ f.size := by
  induction f, hf using Formula.canonical_induction with
  | const | var => exact Nat.le_refl 1
  | not a _ inner =>
    have root := ht.size_atRoot (.not (rules.pass expand a).formula)
    simp only [pass, Formula.size, List.length_append] at inner root ⊢
    omega
  | join j l r _ _ left right =>
    have root := ht.size_atRoot
      (.join j (rules.pass expand l).formula (rules.pass expand r).formula)
    simp only [pass, Formula.size, List.length_append] at left right root ⊢
    omega

end Tidy

/-! Steps and runs. -/

theorem Settled.repeatStep_eq {f : Formula} (h : rules.Settled f) (left done : Nat) :
    rules.repeatStep (left + 1) done f = ⟨f, [], .fixedPoint done⟩ := by
  have alike : f.alike f = true := Formula.alike_iff_exchanged.mpr (.refl f)
  simp only [repeatStep, h.step_eq, alike, if_true]

section Tidy
variable (ht : rules.Tidy)
include ht

/-- What a step leaves and the rules it uses are together no more than the normal form. -/
theorem Tidy.size_step (f : Formula) :
    (rules.step f).formula.size + (rules.step f).firings.length ≤ f.normalize.size := by
  rw [step_eq_pass (fun g => ⟨g, []⟩) f]
  exact ht.size_pass _ _ (Formula.derivedCount_normalize f)

theorem Tidy.step_eq_or_less (f : Formula) : (rules.step f).formula = f ∨
    (Measure.of (rules.step f).formula).less (Measure.of f) = true := by
  have canonical : (rules.step f).formula.derivedCount = 0 := (ht.settled_step f).1
  by_cases hf : f.derivedCount = 0
  · have paid : (rules.step f).formula.size + (rules.step f).firings.length ≤ f.size :=
      ht.size_pass _ f hf
    cases used : (rules.step f).firings with
    | nil => exact .inl (pass_eq_self hf used)
    | cons x xs =>
      rw [used, List.length_cons] at paid
      refine .inr (Measure.less_iff.mpr (.inr ⟨canonical.trans hf.symm, ?_⟩))
      show (rules.step f).formula.size < f.size
      omega
  · refine .inr (Measure.less_iff.mpr (.inl ?_))
    show (rules.step f).formula.derivedCount < f.derivedCount
    omega

/-- A step that changes a formula changes more than the order of operands. -/
theorem Tidy.alike_step {f : Formula} (h : (rules.step f).formula ≠ f) :
    (rules.step f).formula.alike f = false := by
  obtain same | less := ht.step_eq_or_less f
  · exact absurd same h
  · rw [Bool.eq_false_iff]
    intro alike
    exact Measure.ne_of_less less (Formula.alike_iff_exchanged.mp alike).measure_eq

theorem Tidy.settled_of_step_eq {f : Formula} (h : (rules.step f).formula = f) :
    rules.Settled f := by
  have settled := ht.settled_step f
  rwa [h] at settled

theorem Tidy.simplify_of_step_eq {f : Formula} (h : (rules.step f).formula = f) (n : Nat) :
    rules.simplify (n + 1) f = ⟨f, [], .fixedPoint 0⟩ :=
  (ht.settled_of_step_eq h).repeatStep_eq n 0

/-- After a step that changed something the run goes on from a settled formula. -/
theorem Tidy.simplify_of_step_ne {f : Formula} (h : (rules.step f).formula ≠ f) (n : Nat) :
    rules.simplify (n + 1) f = ⟨(rules.step f).formula, (rules.step f).firings,
      if n = 0 then .exhausted 1 else .fixedPoint 1⟩ := by
  have less : (Measure.of (rules.step f).formula).less (Measure.of f) = true :=
    (ht.step_eq_or_less f).resolve_left h
  simp only [simplify, repeatStep, ht.alike_step h, less, Bool.false_eq_true, if_false, if_true]
  cases n with
  | zero => simp [repeatStep]
  | succ n => simp [(ht.settled_step f).repeatStep_eq]

theorem Tidy.formula_simplify (f : Formula) (n : Nat) :
    (rules.simplify (n + 1) f).formula = (rules.step f).formula := by
  by_cases h : (rules.step f).formula = f
  · rw [ht.simplify_of_step_eq h, h]
  · rw [ht.simplify_of_step_ne h]

theorem Tidy.settled_simplify (f : Formula) {n : Nat} (hn : 1 ≤ n) :
    rules.Settled (rules.simplify n f).formula := by
  obtain ⟨left, rfl⟩ := Nat.exists_eq_add_of_le' hn
  rw [ht.formula_simplify]
  exact ht.settled_step f

theorem Tidy.firings_simplify (f : Formula) (n : Nat) :
    (rules.simplify (n + 1) f).firings = (rules.step f).firings := by
  by_cases h : (rules.step f).formula = f
  · rw [ht.simplify_of_step_eq h, (ht.settled_of_step_eq h).step_eq]
  · rw [ht.simplify_of_step_ne h]

theorem Tidy.simplify_simplify (f : Formula) : ∀ n : Nat,
    (rules.simplify n (rules.simplify n f).formula).formula = (rules.simplify n f).formula
  | 0 => rfl
  | n + 1 => by
    rw [ht.formula_simplify, ht.formula_simplify, (ht.settled_step f).step_eq]

/-- A run exhausts its budget only if it may make no step, or one that changes something. -/
theorem Tidy.ending_simplify (f : Formula) (n : Nat) : (rules.simplify n f).ending =
    if n = 0 ∨ n = 1 ∧ (rules.step f).formula ≠ f then .exhausted n
    else .fixedPoint (if (rules.step f).formula = f then 0 else 1) := by
  cases n with
  | zero => rfl
  | succ n =>
    by_cases h : (rules.step f).formula = f
    · simp [ht.simplify_of_step_eq h, h]
    · cases n with
      | zero => simp [ht.simplify_of_step_ne h, h]
      | succ n => simp [ht.simplify_of_step_ne h, h]

end Tidy

theorem mem_records_ended {run : Simplified} {e : Ending} {g : Formula} :
    Record.ended e g ∈ run.records ↔ e = run.ending ∧ g = run.formula := by
  simp [Simplified.records]

/-- With the standard rules one step is all there is to simplification. Every run that may
    make a step leads to what that step makes of the formula, and simplifying again with the
    same budget changes nothing. No step is ever refused for failing to make the formula
    smaller; the budget is exhausted only where it is 0, or 1 with a step that changes
    something; and in all other runs a fixed point is noted, after 0 steps if the formula was
    in normal form and after 1 if it was not. -/
theorem simplify_is_one_step :
    (∀ (f : Formula) (n : Nat), 1 ≤ n →
      (standard.simplify n f).formula = (standard.step f).formula) ∧
    (∀ (f : Formula) (n : Nat), (standard.simplify n (standard.simplify n f).formula).formula =
      (standard.simplify n f).formula) ∧
    (∀ (f : Formula) (n : Nat) (before after : Measure) (g : Formula),
      Record.ended (.notSmaller before after) g ∉ (standard.simplify n f).records) ∧
    (∀ (f : Formula) (n k : Nat) (g : Formula),
      Record.ended (.exhausted k) g ∈ (standard.simplify n f).records ↔
        (n = 0 ∨ n = 1 ∧ (standard.step f).formula ≠ f) ∧
          k = n ∧ g = (standard.simplify n f).formula) ∧
    (∀ (f : Formula) (n k : Nat) (g : Formula),
      Record.ended (.fixedPoint k) g ∈ (standard.simplify n f).records ↔
        ¬ (n = 0 ∨ n = 1 ∧ (standard.step f).formula ≠ f) ∧
          k = (if (standard.step f).formula = f then 0 else 1) ∧
          g = (standard.step f).formula) := by
  have ht : standard.Tidy := standard_tidy
  have stepped (f : Formula) (n : Nat) (hn : 1 ≤ n) :
      (standard.simplify n f).formula = (standard.step f).formula := by
    obtain ⟨m, rfl⟩ := Nat.exists_eq_add_of_le' hn
    exact ht.formula_simplify f m
  refine ⟨stepped, ht.simplify_simplify, ?_, ?_, ?_⟩
  · intro f n before after g h
    rw [mem_records_ended, ht.ending_simplify] at h
    split at h <;> cases h.1
  · intro f n k g
    rw [mem_records_ended, ht.ending_simplify]
    split
    · next exhausted => simp [exhausted]
    · next more => simp [more]
  · intro f n k g
    rw [mem_records_ended, ht.ending_simplify]
    split
    · next exhausted => simp [exhausted]
    · next more =>
      have positive : 1 ≤ n := Nat.pos_iff_ne_zero.mpr (fun e => more (.inl e))
      simp [more, stepped f n positive]

/-- A budget of one is enough where three rules are used. -/
theorem simplify_is_one_step_double_negation :
    let f : Formula := .not (.not (.and (.var "p") (.var "p")))
    1 ≤ 1 ∧ (standard.simplify 1 f).formula = (standard.step f).formula ∧
      (standard.step f).formula = .var "p" :=
  ⟨Nat.le_refl 1, simplify_is_one_step.1 _ 1 (Nat.le_refl 1), by decide⟩

end RuleSet

/-! The records of a run. -/

/-- Whether the record is of the use of a rule. -/
def Record.isFiring : Record → Bool
  | fired _ => true
  | _ => false

theorem Simplified.countP_isFiring (run : Simplified) :
    run.records.countP Record.isFiring = run.firings.length := by
  have fired : run.firings.countP (Record.isFiring ∘ Record.fired) = run.firings.length :=
    List.countP_eq_length.mpr (fun _ _ => rfl)
  have ended : [Record.ended run.ending run.formula].countP Record.isFiring = 0 := rfl
  rw [records, List.countP_append, List.countP_map, fired, ended, Nat.add_zero]

namespace RuleSet

/-- Every use of a standard rule costs a node. The uses in a step, those inside operands that a
    later rule throws away among them, and the nodes that the step leaves are together no more
    than the nodes of the normal form, and the step leaves the formula as it is or makes its
    measure smaller. A whole run that may make a step notes no more uses than its outcome has
    fewer nodes than the normal form. -/
theorem firings_cost_nodes (f : Formula) :
    (standard.step f).formula.size + (standard.step f).firings.length ≤ f.normalize.size ∧
    ((standard.step f).formula = f ∨
      (Measure.of (standard.step f).formula).less (Measure.of f) = true) ∧
    ∀ n, 1 ≤ n → (standard.simplify n f).formula.size +
      (standard.simplify n f).records.countP Record.isFiring ≤ f.normalize.size := by
  have ht : standard.Tidy := standard_tidy
  refine ⟨ht.size_step f, ht.step_eq_or_less f, ?_⟩
  intro n hn
  obtain ⟨left, rfl⟩ := Nat.exists_eq_add_of_le' hn
  calc (standard.simplify (left + 1) f).formula.size +
        (standard.simplify (left + 1) f).records.countP Record.isFiring
      = (standard.step f).formula.size + (standard.step f).firings.length := by
        rw [Simplified.countP_isFiring, ht.formula_simplify, ht.firings_simplify]
    _ ≤ f.normalize.size := ht.size_step f

/-- Two of the five rules are used on what the last one throws away. -/
theorem firings_cost_nodes_annihilation :
    let f : Formula := .and (.and (.not (.not (.var "p"))) (.and (.var "q") (.var "q")))
      (.not (.implies (.var "r") (.var "r")))
    1 ≤ 2 ∧ (standard.simplify 2 f).formula = .const false ∧
      (standard.simplify 2 f).records.countP Record.isFiring = 5 ∧ 1 + 5 ≤ f.normalize.size := by
  intro f
  have outcome : (standard.simplify 2 f).formula = .const false := by decide
  have uses : (standard.simplify 2 f).records.countP Record.isFiring = 5 := by decide
  have paid := (firings_cost_nodes f).2.2 2 (by decide)
  rw [outcome, uses] at paid
  exact ⟨by decide, outcome, uses, paid⟩

end RuleSet

end Propositional
