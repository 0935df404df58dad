import Propositional.Proofs.Shrinking

/- Simplification with any rules, be they unsound, growing or circular. `RuleSet.Descends`
   says by rules how a step goes down a formula, and on into the normal form of a derived
   connective, however large; it comes to an end for every formula, with the pass that
   `step` computes (`descends_iff`). A run makes some of the steps it is allowed
   (`stepTimes`), each of which makes the measure smaller, but for a last one that may
   only exchange operands (`exists_stepTimes`). So no run makes the measure greater, and
   one that may make a step ends with a canonical formula (`simplify_with_any_rules`). -/
namespace Propositional

namespace Measure
variable {a b c : Measure}

theorem isLE_order_iff : (a.order b).isLE = true ↔
    a.derivedCount < b.derivedCount ∨ a.derivedCount = b.derivedCount ∧ a.size ≤ b.size := by
  rw [order, Ordering.isLE_then_iff_or, Nat.compare_eq_lt, Nat.compare_eq_eq, Nat.isLE_compare]

theorem isLE_order_refl (a : Measure) : (a.order a).isLE = true :=
  isLE_order_iff.mpr (.inr ⟨rfl, Nat.le_refl _⟩)

theorem isLE_order_trans (hab : (a.order b).isLE = true) (hbc : (b.order c).isLE = true) :
    (a.order c).isLE = true := by
  rw [isLE_order_iff] at hab hbc ⊢
  omega

theorem isLE_order_of_less (h : a.less b = true) : (a.order b).isLE = true := by
  rw [less_iff] at h
  rw [isLE_order_iff]
  omega

end Measure

namespace RuleSet

/-- `p` is what comes of a step down the formula: what comes of the operands is put together
    and the rules are tried on it, and for a derived connective the step goes on with the
    normal form of the whole. -/
inductive Descends (rules : RuleSet) : Formula → Pass → Prop where
  | const (b : Bool) : Descends rules (.const b) ⟨.const b, []⟩
  | var (x : String) : Descends rules (.var x) ⟨.var x, []⟩
  | not {a : Formula} {inner root : Pass} : Descends rules a inner →
      rules.atRoot (.not inner.formula) = root →
      Descends rules (.not a) ⟨root.formula, inner.firings ++ root.firings⟩
  | join {j : Junction} {l r : Formula} {left right root : Pass} : Descends rules l left →
      Descends rules r right → rules.atRoot (.join j left.formula right.formula) = root →
      Descends rules (.join j l r) ⟨root.formula, left.firings ++ right.firings ++ root.firings⟩
  | derived {d : Derived} {l r : Formula} {p : Pass} :
      Descends rules (Formula.derived d l r).normalize p → Descends rules (.derived d l r) p

/-- What so many steps make of the formula. -/
def stepTimes (rules : RuleSet) : Nat → Formula → Formula
  | 0, f => f
  | k + 1, f => rules.stepTimes k (rules.step f).formula

variable {rules : RuleSet}

/-! The recursion of a step. -/

theorem descends_step_of_canonical {f : Formula} (h : f.derivedCount = 0) :
    rules.Descends f (rules.step f) := by
  induction f, h using Formula.canonical_induction with
  | const b => exact .const b
  | var x => exact .var x
  | not _ _ ih => exact .not ih rfl
  | join _ _ _ _ _ ihl ihr => exact .join ihl ihr rfl

theorem descends_step : ∀ f : Formula, rules.Descends f (rules.step f)
  | .const b => .const b
  | .var x => .var x
  | .not a => .not (descends_step a) rfl
  | .join _ l r => .join (descends_step l) (descends_step r) rfl
  | .derived d l r => by
    rw [← step_normalize]
    exact .derived (descends_step_of_canonical (Formula.derivedCount_normalize _))

theorem descends_iff {f : Formula} {p : Pass} : rules.Descends f p ↔ p = rules.step f := by
  refine ⟨?_, fun e => e ▸ descends_step f⟩
  intro h
  induction h with
  | const | var => rfl
  | not _ root ih =>
    subst ih root
    rfl
  | join _ _ root ihl ihr =>
    subst ihl ihr root
    rfl
  | derived _ ih => rw [ih, step_normalize]

/-! The steps of a run. -/

/-- One of the steps of a run of `k`: it makes the measure smaller, or is the last one and
    changes no more than the order of operands. -/
def Accepted (rules : RuleSet) (k i : Nat) (f : Formula) : Prop :=
  (Measure.of (rules.stepTimes (i + 1) f)).less (Measure.of (rules.stepTimes i f)) = true ∨
    i + 1 = k ∧ (rules.stepTimes (i + 1) f).alike (rules.stepTimes i f) = true

theorem exists_stepTimes : ∀ (left done : Nat) (f : Formula), ∃ k ≤ left,
    (rules.repeatStep left done f).formula = rules.stepTimes k f ∧ ∀ i < k, rules.Accepted k i f
  | 0, _, f => ⟨0, Nat.le_refl 0, rfl, fun _ h => absurd h (Nat.not_lt_zero _)⟩
  | left + 1, done, f => by
    unfold repeatStep
    dsimp only
    split
    · next alike =>
      refine ⟨1, Nat.succ_le_succ (Nat.zero_le _), rfl, fun i hi => ?_⟩
      obtain rfl : i = 0 := by omega
      exact .inr ⟨rfl, alike⟩
    · split
      · next less =>
        obtain ⟨k, hk, outcome, accepted⟩ := exists_stepTimes left (done + 1) (rules.step f).formula
        refine ⟨k + 1, Nat.succ_le_succ hk, outcome, fun i hi => ?_⟩
        cases i with
        | zero => exact .inl less
        | succ i => exact (accepted i (by omega)).imp_right (fun h => ⟨by omega, h.2⟩)
      · exact ⟨0, Nat.zero_le _, rfl, fun _ h => absurd h (Nat.not_lt_zero _)⟩

theorem Accepted.isLE_order {k i : Nat} {f : Formula} (h : rules.Accepted k i f) :
    ((Measure.of (rules.stepTimes (i + 1) f)).order (Measure.of (rules.stepTimes i f))).isLE =
      true := by
  obtain less | ⟨-, alike⟩ := h
  · exact Measure.isLE_order_of_less less
  · rw [(Formula.alike_iff_exchanged.mp alike).measure_eq]
    exact Measure.isLE_order_refl _

theorem isLE_order_stepTimes {n : Nat} {f : Formula} : ∀ {k : Nat},
    (∀ i < k, rules.Accepted n i f) →
      ((Measure.of (rules.stepTimes k f)).order (Measure.of f)).isLE = true
  | 0, _ => Measure.isLE_order_refl _
  | k + 1, h => by
    have last := (h k (Nat.lt_succ_self k)).isLE_order
    have before := isLE_order_stepTimes (fun i hi => h i (Nat.lt_succ_of_lt hi))
    exact Measure.isLE_order_trans last before

theorem isLE_order_repeatStep (rules : RuleSet) (left done : Nat) (f : Formula) :
    ((Measure.of (rules.repeatStep left done f).formula).order (Measure.of f)).isLE = true := by
  obtain ⟨k, -, outcome, accepted⟩ := exists_stepTimes left done f
  rw [outcome]
  exact isLE_order_stepTimes accepted

theorem size_repeatStep_le (rules : RuleSet) (left done : Nat) {f : Formula} (h : f.derivedCount = 0) :
    (rules.repeatStep left done f).formula.derivedCount = 0 ∧
      (rules.repeatStep left done f).formula.size ≤ f.size := by
  have atMost := Measure.isLE_order_iff.mp (rules.isLE_order_repeatStep left done f)
  simp only [Measure.of, h, Nat.not_lt_zero, false_or] at atMost
  exact atMost

/-- A step that may be made is made, unless the formula has no derived connective. -/
theorem derivedCount_repeatStep (left done : Nat) (f : Formula) :
    (rules.repeatStep (left + 1) done f).formula.derivedCount = 0 := by
  have canonical : (rules.step f).formula.derivedCount = 0 := derivedCount_step f
  unfold repeatStep
  dsimp only
  split
  · exact canonical
  · split
    · exact (rules.size_repeatStep_le left (done + 1) canonical).1
    · next refused =>
      rw [Measure.less_iff] at refused
      simp only [Measure.of, canonical] at refused
      show f.derivedCount = 0
      omega

/-- Simplification is safe with any rules. The recursion of a step comes to an end, in one way
    only, with a canonical formula. A run makes at most as many steps as it may; each makes
    the measure smaller, but for the last one, which may change just the order of operands.
    So a run never makes the measure greater, nor a canonical formula larger, and if it may
    make a step at all its outcome is canonical. -/
theorem simplify_with_any_rules (rules : RuleSet) (f : Formula) (maxSteps : Nat) :
    (∀ p, rules.Descends f p ↔ p = rules.step f) ∧
    (rules.step f).formula.isCanonical = true ∧
    (∃ k ≤ maxSteps, (rules.simplify maxSteps f).formula = rules.stepTimes k f ∧
      ∀ i < k,
        (Measure.of (rules.stepTimes (i + 1) f)).less (Measure.of (rules.stepTimes i f)) = true ∨
        i + 1 = k ∧ (rules.stepTimes (i + 1) f).alike (rules.stepTimes i f) = true) ∧
    ((Measure.of (rules.simplify maxSteps f).formula).order (Measure.of f)).isLE = true ∧
    (f.isCanonical = true → (rules.simplify maxSteps f).formula.size ≤ f.size) ∧
    (1 ≤ maxSteps → (rules.simplify maxSteps f).formula.isCanonical = true) := by
  refine ⟨fun p => descends_iff, Formula.isCanonical_eq_true_iff.mpr (derivedCount_step f),
    exists_stepTimes maxSteps 0 f, rules.isLE_order_repeatStep maxSteps 0 f, ?_, ?_⟩
  · intro h
    exact (rules.size_repeatStep_le maxSteps 0 (Formula.isCanonical_eq_true_iff.mp h)).2
  · intro h
    obtain ⟨left, rfl⟩ := Nat.exists_eq_add_of_le' h
    exact Formula.isCanonical_eq_true_iff.mpr (derivedCount_repeatStep left 0 f)

/-- A step with a rule that makes every conjunction larger is refused. -/
theorem simplify_with_any_rules_growing :
    let growing : Rule :=
      { name := "growing", pattern := .join .and (.slot 0) (.slot 1),
        replacement := .join .and (.join .and (.slot 0) (.slot 0)) (.slot 1) }
    let rules : RuleSet := ⟨[], fun _ => [growing]⟩
    let f : Formula := .and (.var "p") (.var "q")
    f.size = 3 ∧ (rules.step f).formula.size = 5 ∧
      f.isCanonical = true ∧ (rules.simplify 9 f).formula.size ≤ 3 ∧
      1 ≤ 9 ∧ (rules.simplify 9 f).formula.isCanonical = true := by
  intro growing rules f
  obtain ⟨-, -, -, -, small, canonical⟩ := simplify_with_any_rules rules f 9
  exact ⟨rfl, by decide, by decide, small (by decide), by decide, canonical (by decide)⟩

end RuleSet

end Propositional
