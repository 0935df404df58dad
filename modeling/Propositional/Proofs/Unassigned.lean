import Propositional.Proofs.Tables

/- Variables without a value. Evaluation looks at all the variables, from left to right and
   whatever values it meets, and fails exactly at the first one that has none
   (`Formula.eval_eq_error_iff`). All rows of a table leave out the same variables
   (`Assignment.firstMissing?_rowAssignment`), so that a table fails as its first row does
   (`Formula.tableOver_eq_error_iff`) and can be made exactly if it is over all the variables
   of its formula (`Formula.exists_tableOver_iff`). -/
namespace Propositional

namespace Assignment
variable {s : Assignment} {xs ys : List String}

/-- The first of the names that the assignment has no value for. -/
def firstMissing? (s : Assignment) (xs : List String) : Option String :=
  xs.find? (fun x => (s x).isNone)

theorem firstMissing?_eq_none : s.firstMissing? xs = none ↔ s.Covers xs := by
  simp only [firstMissing?, List.find?_eq_none, Covers, Option.isNone_iff_eq_none,
    ← Option.isSome_iff_exists, Option.isSome_iff_ne_none, Ne]

theorem firstMissing?_append :
    s.firstMissing? (xs ++ ys) = (s.firstMissing? xs).or (s.firstMissing? ys) := List.find?_append

/-- Every row has values for the variables of the table, and for no others. -/
theorem firstMissing?_rowAssignment (vars : List String) (row : Nat) (xs : List String) :
    (rowAssignment vars row).firstMissing? xs = xs.find? (fun x => x ∉ vars) := by
  have missing : (fun x => (rowAssignment vars row x).isNone) = fun x => decide (x ∉ vars) := by
    funext x
    rw [Bool.eq_iff_iff, decide_eq_true_iff, Option.isNone_iff_eq_none, rowAssignment_eq_none]
  rw [firstMissing?, missing]

end Assignment

namespace Formula
variable {f : Formula} {s : Assignment} {vars : List String}

theorem exists_eval_eq_ok_iff_firstMissing? :
    (∃ b, f.eval s = .ok b) ↔ s.firstMissing? f.occurrences = none := by
  rw [exists_eval_eq_ok_iff, Assignment.firstMissing?_eq_none, Assignment.Covers]

/-- Evaluation fails at the first variable from the left that has no value. -/
theorem eval_eq_error_iff {x : String} :
    f.eval s = .error (.unassigned x) ↔ s.firstMissing? f.occurrences = some x := by
  induction f with
  | const b => simp [eval, occurrences, Assignment.firstMissing?]
  | var y =>
    rw [eval_var_eq_error, occurrences, Assignment.firstMissing?, List.find?_singleton]
    cases s y <;> simp
  | not a ih => rw [eval_not_eq_error, ih, occurrences]
  | binary c l r ihl ihr =>
    rw [eval_binary_eq_error, ihl, ihr, exists_eval_eq_ok_iff_firstMissing?, occurrences,
      Assignment.firstMissing?_append, Option.or_eq_some_iff]

/-! Tables. -/

theorem occurrences_subset_of_eval_rowAssignment {row : Nat} {b : Bool}
    (h : f.eval (rowAssignment vars row) = .ok b) : f.occurrences ⊆ vars := by
  intro x hx
  obtain ⟨c, hc⟩ := exists_eval_eq_ok_iff.mp ⟨b, h⟩ x hx
  exact mem_of_rowAssignment hc

/-- There is always a first row, and no other row is tried if it fails. -/
theorem tableOver_of_error {e : EvalError} (h : f.eval (rowAssignment vars 0) = .error e) :
    f.tableOver vars = .error e := by
  obtain ⟨more, rows⟩ : ∃ more, rowCount vars = more + 1 :=
    Nat.exists_eq_add_one.mpr (rowCount_pos vars)
  have first : f.tableRow vars 0 = .error e := by
    rw [tableRow, h]
    rfl
  rw [tableOver, rows, tableRows, first]

theorem tableOver_eq_error_iff {e : EvalError} :
    f.tableOver vars = .error e ↔ f.eval (rowAssignment vars 0) = .error e := by
  refine ⟨?_, tableOver_of_error⟩
  intro h
  cases first : f.eval (rowAssignment vars 0) with
  | error e' =>
    have failed := tableOver_of_error first
    rw [h] at failed
    injection failed with same
    rw [same]
  | ok b =>
    rw [tableOver_eq (occurrences_subset_of_eval_rowAssignment first)] at h
    cases h

theorem exists_tableOver_iff : (∃ t, f.tableOver vars = .ok t) ↔ f.occurrences ⊆ vars := by
  refine ⟨?_, fun h => ⟨_, tableOver_eq h⟩⟩
  intro ⟨t, ht⟩
  cases first : f.eval (rowAssignment vars 0) with
  | error e =>
    rw [tableOver_of_error first] at ht
    cases ht
  | ok b => exact occurrences_subset_of_eval_rowAssignment first

/-- Evaluation fails exactly where a variable has no value, and at the leftmost such variable,
    whatever values the others have; nothing but the values of its variables matters to a
    formula. So a table over fewer than 64 variables, whose rows can be counted in 64 bits, can
    be made exactly if all variables of the formula are among them, and fails at the leftmost
    variable that is not. -/
theorem evaluation_fails_at_first_missing (f : Formula) :
    (∀ s : Assignment, ((∃ b, f.eval s = .ok b) ↔ s.Covers f.vars) ∧
      ∀ x, f.eval s = .error (.unassigned x) ↔ s.firstMissing? f.occurrences = some x) ∧
    (∀ s t : Assignment, (∀ x ∈ f.vars, s x = t x) → f.eval s = f.eval t) ∧
    ∀ vars : List String, vars.length < 64 → rowCount vars < 2 ^ 64 ∧
      ((∃ t, f.tableOver vars = .ok t) ↔ f.vars ⊆ vars) ∧
      ∀ x, f.tableOver vars = .error (.unassigned x) ↔
        f.occurrences.find? (fun y => y ∉ vars) = some x := by
  refine ⟨?_, ?_, ?_⟩
  · intro s
    exact ⟨exists_eval_eq_ok_iff.trans covers_vars.symm, fun x => eval_eq_error_iff⟩
  · intro s t agree
    exact eval_congr (fun x hx => agree x (mem_vars.mpr hx))
  · intro vars few
    refine ⟨rowCount_lt few, ?_, ?_⟩
    · rw [exists_tableOver_iff]
      exact ⟨fun h x hx => h (mem_vars.mp hx), fun h x hx => h (mem_vars.mpr hx)⟩
    · intro x
      rw [tableOver_eq_error_iff, eval_eq_error_iff, Assignment.firstMissing?_rowAssignment]

/-- A false antecedent settles → and a false operand settles ∧, but the other operands are
    evaluated all the same. -/
theorem evaluation_fails_at_first_missing_implication :
    let f : Formula := .implies (.const false) (.or (.and (.var "q") (.var "p")) (.var "r"))
    let s : Assignment := fun x => if x = "q" then some false else none
    f.eval s = .error (.unassigned "p") ∧ ["r", "q"].length < 64 ∧
      f.tableOver ["r", "q"] = .error (.unassigned "p") := by
  intro f s
  obtain ⟨evaluation, -, tables⟩ := evaluation_fails_at_first_missing f
  have few : ["r", "q"].length < 64 := by decide
  exact ⟨((evaluation s).2 "p").mpr (by decide), few, ((tables _ few).2.2 "p").mpr (by decide)⟩

end Formula

end Propositional
