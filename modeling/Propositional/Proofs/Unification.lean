import Propositional.Proofs.Matching

/- What a search for a match does to the bindings that it starts with. Where it fails they are
   what they were (`Pattern.unify_restores`): a junction takes back what its operands have bound,
   a negation hands on what its operand leaves, and nothing else both binds and fails. Where it
   succeeds it binds just the slots of the pattern that were free (`Pattern.Matches.isSome_get?_iff`),
   and takes what it binds from the formula. So a junction that tries its operands in the other
   order starts again with what it was given (`Pattern.unify_is_atomic`). -/
namespace Propositional

/-- A slot that is refused stays as it was. -/
theorem Bindings.bind_restores {b c : Bindings} {n : Nat} {f : Formula}
    (h : b.bind n f = (false, c)) : c = b := by
  unfold bind at h
  split at h
  · exact (Prod.mk.inj h).2.symm
  · split at h
    · cases h
    · exact (Prod.mk.inj h).2.symm

namespace Pattern
variable {p q : Pattern} {b c : Bindings} {f : Formula}

/-- Neither order of the operands leaves anything behind when it fails. -/
theorem unify_join_restores {j k : Junction} {l r : Formula}
    (h : (join j p q).unify (.join k l r) b = (false, c)) : c = b := by
  simp only [unify] at h
  split at h
  · split at h
    · cases h
    · split at h
      · cases h
      · exact (Prod.mk.inj h).2.symm
  · exact (Prod.mk.inj h).2.symm

/-- By induction on the pattern: under a negation the operand is what fails. -/
theorem unify_restores (h : p.unify f b = (false, c)) : c = b := by
  induction p generalizing f with
  | any => cases h
  | slot n => exact Bindings.bind_restores h
  | const v =>
    cases f <;> exact (Prod.mk.inj h).2.symm
  | not p ih =>
    cases f with
    | not a => exact ih h
    | _ => exact (Prod.mk.inj h).2.symm
  | join j p q =>
    match f with
    | .join k l r => exact unify_join_restores h
    | .derived .. | .const _ | .var _ | .not _ => exact (Prod.mk.inj h).2.symm

/-- After a match a slot is bound if it was before or occurs in the pattern, and only then. -/
theorem Matches.isSome_get?_iff (h : Matches p f b c) {n : Nat} :
    (c.get? n).isSome ↔ (b.get? n).isSome ∨ n ∈ p.slots := by
  refine ⟨?_, ?_⟩
  · intro bound
    by_cases hn : n ∈ p.slots
    · exact .inr hn
    · exact .inl (h.get?_of_not_mem hn ▸ bound)
  · rintro (before | hn)
    · obtain ⟨g, hg⟩ := Option.isSome_iff_exists.mp before
      exact Option.isSome_iff_exists.mpr ⟨g, h.get?_mono hg⟩
    · exact h.isSome_get? hn

/-- A search either fails and leaves the bindings as they were, or succeeds and adds to them:
    what was bound is bound to the same formula, and what is newly bound are just the slots of
    the pattern that were free, each to a formula that stands in the one that was matched. -/
theorem unify_is_atomic (p : Pattern) (f : Formula) (b : Bindings) :
    (∀ c, p.unify f b = (false, c) → c = b) ∧
    ∀ c, p.unify f b = (true, c) →
      (∀ n g, b.get? n = some g → c.get? n = some g) ∧
      (∀ n, (b.get? n = none ∧ (c.get? n).isSome) ↔ (n ∈ p.slots ∧ b.get? n = none)) ∧
      ∀ n g, b.get? n = none → c.get? n = some g → Formula.Subformula g f := by
  refine ⟨fun c h => unify_restores h, ?_⟩
  intro c h
  have found : Matches p f b c := matches_of_unify h
  refine ⟨fun n g => found.get?_mono, ?_, ?_⟩
  · intro n
    rw [found.isSome_get?_iff, and_comm]
    refine and_congr_left fun free => ?_
    simp [free]
  · intro n g free bound
    obtain before | inside := found.get?_subformula bound
    · rw [free] at before
      cases before
    · exact inside

/-- The slot `a` is bound in both orders of the operands and the slot `b` was bound before. The
    second formula is refused only after each order has bound `a`; the first is matched in the
    order that is tried last, and `a` is not what the order before had bound it to. -/
theorem unify_is_atomic_second_order :
    let p : Pattern := .join .and (.slot 0) (.not (.slot 1))
    let b : Bindings := ⟨none, some (.var "x")⟩
    let f : Formula := .and (.not (.var "x")) (.var "y")
    let g : Formula := .and (.not (.var "y")) (.var "z")
    (p.unify g b = (false, b) ∧ ∀ c, p.unify g b = (false, c) → c = b) ∧
    ∃ c, p.unify f b = (true, c) ∧ c.get? 1 = some (.var "x") ∧
      c.get? 0 = some (.var "y") ∧ Formula.Subformula (.var "y") f ∧ 0 ∈ p.slots := by
  intro p b f g
  have refused : p.unify g b = (false, b) := by decide
  have found : p.unify f b = (true, ⟨some (.var "y"), some (.var "x")⟩) := by decide
  obtain ⟨kept, added, inside⟩ := (unify_is_atomic p f b).2 _ found
  have bound : 0 ∈ p.slots := ((added 0).mp ⟨rfl, rfl⟩).1
  exact ⟨⟨refused, (unify_is_atomic p g b).1⟩, _, found, kept 1 _ rfl, rfl,
    inside 0 _ rfl rfl, bound⟩

end Pattern

end Propositional
