import Propositional.Proofs.Shrinking
import Propositional.Proofs.Treatment

/- What a reading holds, with any options. Its variables are those of its formula, and letters,
   since no other name stands in a line (`vars_of_readLine`). So they are few enough for a
   table, and every reading has one (`reading_is_consistent`). As simplification normalizes on
   its way, normalizing in front of it makes no difference to a formula
   (`RuleSet.Tidy.simplify_normalize`), nor to a reading (`normalizing_first_is_redundant`). -/
namespace Propositional

/-! Variables. -/

/-- Whatever the options make of a line, its variables are letters, and those of the formula. -/
theorem vars_of_readLine {o : Options} {line : String} {r : Reading}
    (h : (readLine o line).1 = .ok r) : r.vars = r.formula.vars ∧ r.vars ⊆ variableWords := by
  obtain ⟨tokens, parsed, own, accepted⟩ := exists_treat_of_readLine h
  rw [accepted] at h
  cases h
  refine ⟨o.vars_treat_eq tokens own, fun x hx => ?_⟩
  have written : x ∈ parsed.formula.vars := own ▸ o.vars_treat_subset tokens own hx
  exact vars_subset_of_readLine (accepted {}) x written

/-- Every reading is consistent, and has a truth table. With any options the variables of a
    line that was read are those of its formula, in alphabetical order. Each is a letter, so
    there are at most 26, and the rows can be counted. The table can be made; its header
    has the variables and then the formula, and each of its rows, one for every way to give
    values to the variables, has a cell under each heading. -/
theorem reading_is_consistent (o : Options) (line : String) (r : Reading)
    (h : (readLine o line).1 = .ok r) :
    r.vars = r.formula.vars ∧ r.vars.Pairwise (· < ·) ∧
    (∀ x ∈ r.vars, ∃ c : Char, 'a' ≤ c ∧ c ≤ 'z' ∧ x = String.singleton c) ∧
    r.vars.length ≤ 26 ∧ rowCount r.vars ≤ 2 ^ 26 ∧
    ∃ t, r.truthTable = .ok t ∧ t.header = r.vars ++ [r.formula.render] ∧
      t.rows.length = 2 ^ r.vars.length ∧ ∀ row ∈ t.rows, row.length = r.vars.length + 1 := by
  obtain ⟨own, letters⟩ := vars_of_readLine h
  have sorted : r.vars.Pairwise (· < ·) := own ▸ r.formula.sorted_vars
  have few : r.vars.length ≤ 26 := length_le_of_letters sorted letters
  have counted : rowCount r.vars ≤ 2 ^ 26 := by
    rw [rowCount_eq]
    exact Nat.pow_le_pow_right Nat.two_pos few
  have covered : r.formula.occurrences ⊆ r.vars := own ▸ r.formula.occurrences_subset_vars
  exact ⟨own, sorted, fun x hx => exists_letter (letters hx), few, counted,
    Formula.exists_tableOver covered⟩

/-- An implication that is normalized keeps its two variables, and its table has four rows. -/
theorem reading_is_consistent_normalized :
    let f : Formula := .implies (.var "q") (.var "p")
    let o : Options := { normalize := true }
    ∃ r t, (readLine o f.render).1 = .ok r ∧ r.formula = f.normalize ∧ r.vars = ["p", "q"] ∧
      r.truthTable = .ok t ∧ t.header = ["p", "q", "((¬q) ∨ p)"] ∧ t.rows.length = 4 ∧
      ∀ row ∈ t.rows, row.length = 3 := by
  intro f o
  have plain : (readLine {} f.render).1 = .ok _ := readLine_render (by decide)
  obtain ⟨tokens, parsed, own, accepted⟩ := exists_treat_of_readLine plain
  rw [accepted] at plain
  have formula : parsed.formula = f := congrArg Reading.formula (Except.ok.inj plain)
  have normal : (o.treat tokens parsed).1.formula = f.normalize := by
    rw [Options.formula_treat, formula]
    rfl
  obtain ⟨vars, -, -, -, -, t, made, header, count, cells⟩ :=
    reading_is_consistent o f.render _ (accepted o)
  rw [normal] at vars header
  rw [vars] at header count cells
  exact ⟨_, t, accepted o, normal, vars, made, header, count, cells⟩

/-! Normalizing first. -/

theorem RuleSet.Tidy.simplify_normalize {rules : RuleSet} (ht : rules.Tidy) (f : Formula) {n : Nat}
    (hn : 1 ≤ n) : (rules.simplify n f.normalize).formula = (rules.simplify n f).formula ∧
      (rules.simplify n f.normalize).firings = (rules.simplify n f).firings := by
  obtain ⟨left, rfl⟩ := Nat.exists_eq_add_of_le' hn
  rw [ht.formula_simplify, ht.formula_simplify, ht.firings_simplify, ht.firings_simplify,
    step_normalize]
  exact ⟨rfl, rfl⟩

/-- Simplification makes normalizing in front of it redundant. With any rules a step makes the
    same of a formula and of its normal form, by the same rules used on the same formulas in
    the same order; with the standard rules so does every run that may make a step. Hence a
    line is rejected for the same reason, or read as the same formula with the same variables
    and tokens, whether or not it is normalized before it is simplified. -/
theorem normalizing_first_is_redundant :
    (∀ (rules : RuleSet) (f : Formula), rules.step f.normalize = rules.step f) ∧
    (∀ (f : Formula) (n : Nat), 1 ≤ n →
      (RuleSet.standard.simplify n f.normalize).formula =
          (RuleSet.standard.simplify n f).formula ∧
        (RuleSet.standard.simplify n f.normalize).firings =
          (RuleSet.standard.simplify n f).firings) ∧
    ∀ (line : String) (n : Nat), 1 ≤ n →
      (readLine { normalize := true, simplify := true, maxSteps := n } line).1 =
        (readLine { normalize := false, simplify := true, maxSteps := n } line).1 := by
  refine ⟨fun rules f => RuleSet.step_normalize f,
    fun f n hn => RuleSet.standard_tidy.simplify_normalize f hn, ?_⟩
  intro line n hn
  obtain ⟨e, rejected⟩ | ⟨tokens, parsed, own, accepted⟩ := readLine_cases line
  · rw [rejected, rejected]
  · have same := (RuleSet.standard_tidy.simplify_normalize parsed.formula hn).1
    rw [accepted, accepted]
    simp only [Options.treat, if_true, Bool.false_eq_true, if_false, same]

/-- One step is allowed, and takes an implication of a formula by itself to a constant. -/
theorem normalizing_first_is_redundant_reflexive :
    let f : Formula := .implies (.var "p") (.var "p")
    1 ≤ 1 ∧ (RuleSet.standard.simplify 1 f.normalize).formula = .const true ∧
      (readLine { normalize := true, simplify := true, maxSteps := 1 } f.render).1 =
        (readLine { normalize := false, simplify := true, maxSteps := 1 } f.render).1 := by
  intro f
  obtain ⟨-, run, read⟩ := normalizing_first_is_redundant
  refine ⟨Nat.le_refl 1, ?_, read f.render 1 (Nat.le_refl 1)⟩
  rw [(run f 1 (Nat.le_refl 1)).1]
  decide

end Propositional
