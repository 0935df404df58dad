import Propositional.Formula.Canonical
import Propositional.Formula.Value
import Propositional.Proofs.Structure

/- What the value of a formula depends on. A formula has a value exactly if all its
   variables have one (`exists_eval_eq_ok_iff`), and nothing else that an assignment says
   matters to it (`eval_congr`); the order of operands (`eval_eq_ok_of_exchanged`) and the
   definitions of the derived connectives (`eval_expand`) do not change it. -/
namespace Propositional

/-- The assignment has a value for each of the names, and maybe for others. -/
def Assignment.Covers (s : Assignment) (xs : List String) : Prop := ∀ x ∈ xs, ∃ b, s x = some b

theorem Connective.apply_comm {c : Connective} (h : c.commutes) (x y : Bool) :
    c.apply x y = c.apply y x := by
  cases c with
  | junction j => cases j <;> cases x <;> cases y <;> rfl
  | derived d =>
    cases d with
    | equivalent => cases x <;> cases y <;> rfl
    | _ => cases h

namespace Formula
variable {s : Assignment}

/-- The value of a formula that has one. -/
def truth (s : Assignment) (f : Formula) : Bool := (f.eval s).toOption.getD false

/-- The formula has this value under every assignment that covers its variables. -/
def Always (f : Formula) (b : Bool) : Prop := ∀ s : Assignment, s.Covers f.vars → f.eval s = .ok b

theorem eval_var_eq_ok {x : String} {b : Bool} : (var x).eval s = .ok b ↔ s x = some b := by
  cases h : s x with
  | none => simp [eval_var_of_none h]
  | some y => simp [eval_var_of_some h]

theorem eval_not_eq_ok {a : Formula} {b : Bool} : (not a).eval s = .ok b ↔ a.eval s = .ok (!b) := by
  cases h : a.eval s with
  | error e => simp [eval_not_of_error h]
  | ok x => cases x <;> cases b <;> simp [eval_not_of_ok h]

theorem eval_binary_eq_ok {c : Connective} {l r : Formula} {b : Bool} :
    (binary c l r).eval s = .ok b ↔
      ∃ x y, l.eval s = .ok x ∧ r.eval s = .ok y ∧ c.apply x y = b := by
  cases hl : l.eval s with
  | error e => simp [eval_binary_of_left_error hl]
  | ok x =>
    cases hr : r.eval s with
    | error e => simp [eval_binary_of_right_error hl hr]
    | ok y => simp [eval_binary_of_ok hl hr]

theorem eval_var_eq_error {x : String} {e : EvalError} :
    (var x).eval s = .error e ↔ s x = none ∧ EvalError.unassigned x = e := by
  cases h : s x with
  | none => simp [eval_var_of_none h]
  | some y => simp [eval_var_of_some h]

theorem eval_not_eq_error {a : Formula} {e : EvalError} :
    (not a).eval s = .error e ↔ a.eval s = .error e := by
  cases h : a.eval s with
  | error e => simp [eval_not_of_error h]
  | ok x => simp [eval_not_of_ok h]

/-- The right operand is looked at only after the left one has given a value. -/
theorem eval_binary_eq_error {c : Connective} {l r : Formula} {e : EvalError} :
    (binary c l r).eval s = .error e ↔
      l.eval s = .error e ∨ (∃ x, l.eval s = .ok x) ∧ r.eval s = .error e := by
  cases hl : l.eval s with
  | error e => simp [eval_binary_of_left_error hl]
  | ok x =>
    cases hr : r.eval s with
    | error e => simp [eval_binary_of_right_error hl hr]
    | ok y => simp [eval_binary_of_ok hl hr]

theorem exists_eval_eq_ok_iff {f : Formula} :
    (∃ b, f.eval s = .ok b) ↔ ∀ x ∈ f.occurrences, ∃ b, s x = some b := by
  induction f with
  | const b => simp [eval, occurrences]
  | var x => simp [eval_var_eq_ok, occurrences]
  | not a ih =>
    rw [occurrences, ← ih]
    refine ⟨?_, ?_⟩
    · intro ⟨b, hb⟩
      exact ⟨!b, eval_not_eq_ok.mp hb⟩
    · intro ⟨b, hb⟩
      exact ⟨!b, eval_not_eq_ok.mpr (by rwa [Bool.not_not])⟩
  | binary c l r ihl ihr =>
    simp only [occurrences, List.mem_append, or_imp, forall_and, ← ihl, ← ihr]
    refine ⟨?_, ?_⟩
    · intro ⟨b, hb⟩
      obtain ⟨x, y, hx, hy, -⟩ := eval_binary_eq_ok.mp hb
      exact ⟨⟨x, hx⟩, ⟨y, hy⟩⟩
    · intro ⟨⟨x, hx⟩, ⟨y, hy⟩⟩
      exact ⟨c.apply x y, eval_binary_eq_ok.mpr ⟨x, y, hx, hy, rfl⟩⟩

theorem covers_vars {f : Formula} :
    s.Covers f.vars ↔ ∀ x ∈ f.occurrences, ∃ b, s x = some b := by
  simp only [Assignment.Covers, mem_vars]

theorem truth_eq {f : Formula} {b : Bool} (h : f.eval s = .ok b) : f.truth s = b := by
  rw [truth, h]
  rfl

theorem eval_eq_truth {f : Formula} (h : s.Covers f.vars) : f.eval s = .ok (f.truth s) := by
  obtain ⟨b, hb⟩ := exists_eval_eq_ok_iff.mpr (covers_vars.mp h)
  rw [truth_eq hb]
  exact hb

/-- Assignments that agree on the variables of a formula give the same value or error. -/
theorem eval_congr {t : Assignment} : ∀ {f : Formula}, (∀ x ∈ f.occurrences, s x = t x) →
    f.eval s = f.eval t
  | const _, _ => rfl
  | var x, h => by simp only [eval, h x (List.mem_singleton_self x)]
  | not a, h => by
    have ha : a.eval s = a.eval t := eval_congr h
    simp only [eval, ha]
  | binary _ l r, h => by
    have hl : l.eval s = l.eval t := eval_congr (fun x hx => h x (List.mem_append_left _ hx))
    have hr : r.eval s = r.eval t := eval_congr (fun x hx => h x (List.mem_append_right _ hx))
    simp only [eval, hl, hr]

theorem truth_congr {t : Assignment} {f : Formula} (h : ∀ x ∈ f.occurrences, s x = t x) :
    f.truth s = f.truth t := by
  rw [truth, truth, eval_congr h]

/-- No formula always has both values. -/
theorem Always.unique {f : Formula} {b c : Bool} (hb : f.Always b) (hc : f.Always c) : b = c := by
  have covered : Assignment.Covers (fun _ => some true) f.vars := fun _ _ => ⟨true, rfl⟩
  have same := (hb _ covered).symm.trans (hc _ covered)
  injection same

theorem eval_eq_ok_of_exchanged {f g : Formula} (h : Exchanged f g) {b : Bool} :
    f.eval s = .ok b → g.eval s = .ok b := by
  induction h generalizing b with
  | const | var => exact id
  | not _ ih => exact fun hb => eval_not_eq_ok.mpr (ih (eval_not_eq_ok.mp hb))
  | keep _ _ ihl ihr =>
    intro hb
    obtain ⟨x, y, hx, hy, e⟩ := eval_binary_eq_ok.mp hb
    exact eval_binary_eq_ok.mpr ⟨x, y, ihl hx, ihr hy, e⟩
  | swap hc _ _ ihl ihr =>
    -- the two values trade places as their formulas do
    intro hb
    obtain ⟨x, y, hx, hy, e⟩ := eval_binary_eq_ok.mp hb
    exact eval_binary_eq_ok.mpr ⟨y, x, ihr hy, ihl hx, Connective.apply_comm hc x y ▸ e⟩

/-! The definitions of the derived connectives. -/

theorem eval_expand (d : Derived) (l r : Formula) :
    (d.expand l r).eval s = (derived d l r).eval s := by
  cases hl : l.eval s with
  | error e =>
    rw [eval_binary_of_left_error hl]
    cases d <;> simp [Derived.expand, eval_binary_eq_error, eval_not_eq_error, hl]
  | ok x =>
    cases hr : r.eval s with
    | error e =>
      rw [eval_binary_of_right_error hl hr]
      cases d <;> simp [Derived.expand, eval_binary_eq_error, eval_binary_eq_ok, eval_not_eq_error,
        eval_not_eq_ok, hl, hr]
    | ok y =>
      rw [eval_binary_of_ok hl hr]
      cases d <;> cases x <;> cases y <;>
        simp [Derived.expand, eval_binary_eq_ok, eval_not_eq_ok, hl, hr, Connective.apply]

theorem mem_occurrences_expand {d : Derived} {l r : Formula} {x : String} :
    x ∈ (d.expand l r).occurrences ↔ x ∈ l.occurrences ∨ x ∈ r.occurrences := by
  cases d <;> simp only [Derived.expand, occurrences, List.mem_append] <;> grind

end Formula

end Propositional
