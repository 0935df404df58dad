import Mathlib.Logic.Relation
import Mathlib.Order.Bounds.Defs
import Propositional.Formula.Measure
import Propositional.Proofs.Variables

/- What it means for formulas to be alike. Operands trade places one pair at a time in `Swap`,
   and at any number of places at once in `Exchanged`; either way the same formulas are
   reached (`Formula.exchanged_iff_swaps`). Every congruence that does not see the order of the
   operands of ∧, ∨ and ⟷ relates all formulas that are exchanged
   (`Formula.CommutativeCongruence.of_exchanged`), so `alike` is the least such congruence
   (`Formula.alike_is_commutativity`). Formulas that are alike have the same values, measures
   and variables (`Formula.alike_are_indistinguishable`), and their normal forms are alike
   (`Formula.Exchanged.normalize`); only which of several variables without a value is
   reported depends on the order. -/
namespace Propositional.Formula

/-- The operands of one ∧, ∨ or ⟷, anywhere in the formula, trade places. -/
inductive Swap : Formula → Formula → Prop where
  | and (l r : Formula) : Swap (and l r) (and r l)
  | or (l r : Formula) : Swap (or l r) (or r l)
  | equivalent (l r : Formula) : Swap (equivalent l r) (equivalent r l)
  | not {a b : Formula} : Swap a b → Swap (not a) (not b)
  | left {c : Connective} {l l' : Formula} (r : Formula) : Swap l l' →
      Swap (binary c l r) (binary c l' r)
  | right {c : Connective} (l : Formula) {r r' : Formula} : Swap r r' →
      Swap (binary c l r) (binary c l r')

/-- A congruence of formulas for which ∧, ∨ and ⟷ are commutative. -/
structure CommutativeCongruence (R : Formula → Formula → Prop) : Prop where
  equivalence : Equivalence R
  not : ∀ {a b}, R a b → R (not a) (not b)
  binary : ∀ (c : Connective) {l l' r r'}, R l l' → R r r' → R (binary c l r) (binary c l' r')
  and_comm : ∀ l r, R (and l r) (and r l)
  or_comm : ∀ l r, R (or l r) (or r l)
  equivalent_comm : ∀ l r, R (equivalent l r) (equivalent r l)

namespace CommutativeCongruence
variable {R : Formula → Formula → Prop} {f g : Formula}

theorem comm (hR : CommutativeCongruence R) : ∀ {c : Connective}, c.commutes →
    ∀ l r : Formula, R (.binary c l r) (.binary c r l)
  | .junction .and, _ => hR.and_comm
  | .junction .or, _ => hR.or_comm
  | .derived .equivalent, _ => hR.equivalent_comm

theorem of_exchanged (hR : CommutativeCongruence R) (h : Exchanged f g) : R f g := by
  induction h with
  | const | var => exact hR.equivalence.refl _
  | not _ ih => exact hR.not ih
  | keep _ _ hl hr => exact hR.binary _ hl hr
  | swap hc _ _ hl hr =>
    exact hR.equivalence.trans (hR.binary _ hl hr) (hR.comm hc _ _)

theorem exchanged : CommutativeCongruence Exchanged where
  equivalence := ⟨.refl, .symm, .trans⟩
  not := .not
  binary _ := .keep
  and_comm l r := .swap rfl (.refl l) (.refl r)
  or_comm l r := .swap rfl (.refl l) (.refl r)
  equivalent_comm l r := .swap rfl (.refl l) (.refl r)

theorem alike : CommutativeCongruence (fun f g => f.alike g = true) := by
  simp only [alike_iff_exchanged]
  exact exchanged

end CommutativeCongruence

namespace Swap
variable {f g : Formula}

theorem symm (h : Swap f g) : Swap g f := by
  induction h with
  | and l r => exact .and r l
  | or l r => exact .or r l
  | equivalent l r => exact .equivalent r l
  | not _ ih => exact .not ih
  | left r _ ih => exact .left r ih
  | right l _ ih => exact .right l ih

theorem rel {R : Formula → Formula → Prop} (hR : CommutativeCongruence R) (h : Swap f g) :
    R f g := by
  induction h with
  | and l r => exact hR.and_comm l r
  | or l r => exact hR.or_comm l r
  | equivalent l r => exact hR.equivalent_comm l r
  | not _ ih => exact hR.not ih
  | left r _ ih => exact hR.binary _ ih (hR.equivalence.refl r)
  | right l _ ih => exact hR.binary _ (hR.equivalence.refl l) ih

open Relation (ReflTransGen)

theorem congruence_reflTransGen : CommutativeCongruence (ReflTransGen Swap) where
  equivalence :=
    ⟨fun _ => .refl, fun h => ReflTransGen.mono (fun _ _ => symm) _ _ h.swap, .trans⟩
  not h := h.lift Formula.not (fun _ _ => .not)
  -- first all that happens in the left operand, then all that happens in the right one
  binary c {_ l' r _} hl hr :=
    (hl.lift (fun l => Formula.binary c l r) (fun _ _ => .left r)).trans
      (hr.lift (fun r => Formula.binary c l' r) (fun _ _ => .right l'))
  and_comm l r := .single (.and l r)
  or_comm l r := .single (.or l r)
  equivalent_comm l r := .single (.equivalent l r)

end Swap

/-- Operands that trade places at once may do so one pair after the other. -/
theorem exchanged_iff_swaps {f g : Formula} :
    Exchanged f g ↔ Relation.ReflTransGen Swap f g := by
  refine ⟨Swap.congruence_reflTransGen.of_exchanged, ?_⟩
  intro h
  induction h with
  | refl => exact .refl f
  | tail _ last ih => exact ih.trans (last.rel .exchanged)

/-- Being alike is commutativity of ∧, ∨ and ⟷, and no more. Formulas are alike just if one
    becomes the other when operands of these connectives trade places, any number of times and
    at any depth; and `alike` is the least of the congruences for which they commute, hence
    reflexive, symmetric and transitive. -/
theorem alike_is_commutativity :
    (∀ f g : Formula, f.alike g = true ↔ Relation.ReflTransGen Swap f g) ∧
    IsLeast {R : Formula → Formula → Prop | CommutativeCongruence R}
      (fun f g => f.alike g = true) := by
  refine ⟨?swaps, ?congruence, ?least⟩
  case swaps => exact fun f g => alike_iff_exchanged.trans exchanged_iff_swaps
  case congruence => exact CommutativeCongruence.alike
  case least =>
    intro R hR f g h
    exact hR.of_exchanged (alike_iff_exchanged.mp h)

/-- Implication is not one of these connectives. -/
example : alike (implies (var "p") (var "q")) (implies (var "q") (var "p")) = false := by decide

/-! What formulas that are alike have in common. -/

namespace Exchanged
variable {f g l l' r r' : Formula}

theorem measure_eq (h : Exchanged f g) : Measure.of f = Measure.of g := by
  simp only [Measure.of, h.derivedCount_eq, h.size_eq]

theorem depth_eq (h : Exchanged f g) : f.depth = g.depth := by
  induction h with
  | const | var => rfl
  | not _ ih => simp only [depth, ih]
  | keep _ _ hl hr => simp only [depth, hl, hr]
  | swap _ _ _ hl hr => simp only [depth, hl, hr, Nat.max_comm]

theorem mem_occurrences_iff (h : Exchanged f g) {x : String} :
    x ∈ f.occurrences ↔ x ∈ g.occurrences := by
  induction h with
  | const | var => exact Iff.rfl
  | not _ ih => exact ih
  | keep _ _ hl hr => simp only [occurrences, List.mem_append, hl, hr]
  | swap _ _ _ hl hr => simp only [occurrences, List.mem_append, hl, hr, or_comm]

theorem vars_eq (h : Exchanged f g) : f.vars = g.vars :=
  vars_eq_of_mem_iff (fun x => by rw [mem_vars, mem_vars, h.mem_occurrences_iff])

theorem eval_eq_ok_iff (h : Exchanged f g) {s : Assignment} {b : Bool} :
    f.eval s = .ok b ↔ g.eval s = .ok b :=
  ⟨eval_eq_ok_of_exchanged h, eval_eq_ok_of_exchanged h.symm⟩

theorem eval_cases (h : Exchanged f g) (s : Assignment) :
    (∃ b, f.eval s = .ok b ∧ g.eval s = .ok b) ∨
      ∃ d e, f.eval s = .error d ∧ g.eval s = .error e := by
  cases hf : f.eval s with
  | ok b => exact .inl ⟨b, rfl, h.eval_eq_ok_iff.mp hf⟩
  | error d =>
    cases hg : g.eval s with
    | ok b => exact nomatch hf.symm.trans (h.eval_eq_ok_iff.mpr hg)
    | error e => exact .inr ⟨d, e, rfl, rfl⟩

theorem expand (d : Derived) (hl : Exchanged l l') (hr : Exchanged r r') :
    Exchanged (d.expand l r) (d.expand l' r') := by
  cases d with
  | equivalent => exact .keep (.keep (.not hl) hr) (.keep (.not hr) hl)
  | implies => exact .keep (.not hl) hr
  | nor | nand => exact .not (.keep hl hr)
  | xor => exact .keep (.keep hl hr) (.not (.keep hl hr))

theorem expand_swap {d : Derived} (hd : (Connective.derived d).commutes) (hl : Exchanged l l')
    (hr : Exchanged r r') : Exchanged (d.expand l r) (d.expand r' l') := by
  cases d with
  | equivalent => exact .swap rfl (.keep (.not hl) hr) (.keep (.not hr) hl)
  | implies | nor | nand | xor => cases hd

theorem normalize (h : Exchanged f g) : Exchanged f.normalize g.normalize := by
  induction h with
  | const b => exact .const b
  | var x => exact .var x
  | not _ ih => exact .not ih
  | @keep c _ _ _ _ _ _ hl hr =>
    cases c with
    | junction j => exact .keep hl hr
    | derived d => exact expand d hl hr
  | @swap c _ _ _ _ hc _ _ hl hr =>
    cases c with
    | junction j => exact .swap rfl hl hr
    | derived d => exact expand_swap hc hl hr

end Exchanged

/-- Formulas that are alike cannot be told apart. Under every assignment both have the same
    value or both fail; size, depth, number of derived connectives, measure and variables are
    the same, both are canonical or neither is, and their normal forms are alike. -/
theorem alike_are_indistinguishable (f g : Formula) (h : f.alike g = true) :
    (∀ s, (∃ b, f.eval s = .ok b ∧ g.eval s = .ok b) ∨
      ∃ d e, f.eval s = .error d ∧ g.eval s = .error e) ∧
    f.size = g.size ∧ f.depth = g.depth ∧ f.derivedCount = g.derivedCount ∧
    Measure.of f = Measure.of g ∧ f.isCanonical = g.isCanonical ∧ f.vars = g.vars ∧
    f.normalize.alike g.normalize = true := by
  have exchanged : Exchanged f g := alike_iff_exchanged.mp h
  have canonical : f.isCanonical = g.isCanonical := by
    rw [isCanonical, isCanonical, exchanged.derivedCount_eq]
  exact ⟨exchanged.eval_cases, exchanged.size_eq, exchanged.depth_eq, exchanged.derivedCount_eq,
    exchanged.measure_eq, canonical, exchanged.vars_eq,
    alike_iff_exchanged.mpr exchanged.normalize⟩

/-- The definition of ⟷ names its left operand first. Where the operands trade places, so do
    the two halves of the definition. -/
theorem alike_are_indistinguishable_equivalence :
    let f : Formula := .equivalent (.or (.var "p") (.var "q")) (.not (.var "r"))
    let g : Formula := .equivalent (.not (.var "r")) (.or (.var "q") (.var "p"))
    f.alike g = true ∧ f.eval (fun _ => none) = .error (.unassigned "p") ∧
      g.eval (fun _ => none) = .error (.unassigned "r") ∧ f.vars = g.vars ∧
      f.normalize ≠ g.normalize ∧ f.normalize.alike g.normalize = true := by
  intro f g
  have alike : f.alike g = true := by decide
  obtain ⟨-, -, -, -, -, -, vars, normal⟩ := alike_are_indistinguishable f g alike
  exact ⟨alike, by decide, by decide, vars, by decide, normal⟩

end Propositional.Formula
