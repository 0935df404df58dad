import Propositional.Proofs.Matching

/- Matching and building are inverse to one another. What is built from the bindings of a match
   is the formula that was matched, up to the order of operands (`Pattern.Filled.build_eq`). The
   other way round, a pattern matches what was built from it, and does so in the order that is
   tried first at every junction: as long as nothing is bound otherwise than it was for building
   (`Bindings.Extends`), no operand fails where it stands (`Pattern.exists_unify_of_build`).
   Hence the formulas that were built from are bound again, and not only formulas that are alike
   to them (`Pattern.match_and_build_are_inverse`). -/
namespace Propositional

theorem Bindings.lt_slotCount_of_get? {b : Bindings} {n : Nat} {g : Formula}
    (h : b.get? n = some g) : n < slotCount := by
  obtain room | beyond := Nat.lt_or_ge n slotCount
  · exact room
  · rw [get?_eq_none beyond] at h
    cases h

/-- Binding one more slot as it is in `b` leaves all of them bound as in `b`. -/
theorem Bindings.Extends.set {b c : Bindings} (h : b.Extends c) {n : Nat} {f : Formula}
    (hn : b.get? n = some f) : b.Extends (c.set n f) := by
  intro m g hm
  rw [get?_set (lt_slotCount_of_get? hn)] at hm
  split at hm
  · next e =>
    rw [e, hn, hm]
  · exact h m g hm

namespace Pattern
variable {p q : Pattern} {b c d : Bindings} {f g : Formula}

/-! From a match to the formula. -/

theorem Filled.build_eq (h : Filled b f p g) (hp : p.hasWildcard = false) :
    p.build b = some g := by
  induction h with
  | any => cases hp
  | slot hn => exact hn
  | const => rfl
  | not _ ih => exact build_not_eq_some.mpr ⟨_, ih hp, rfl⟩
  | join _ _ ihl ihr =>
    obtain ⟨hl, hr⟩ := Bool.or_eq_false_iff.mp hp
    exact build_join_eq_some.mpr ⟨_, _, ihl hl, ihr hr, rfl⟩

/-! From a formula that was built to a match. -/

theorem unify_join_of_both {j : Junction} {l r : Formula}
    (h : both (p.unify l) (q.unify r) b = (true, c)) :
    (join j p q).unify (.join j l r) b = (true, c) := by
  simp only [unify, if_true, h]

/-- A pattern matches what was built from it, and binds nothing that it was not built from. -/
theorem exists_unify_of_build (h : p.build b = some f) (hc : b.Extends c) :
    ∃ d, p.unify f c = (true, d) ∧ b.Extends d := by
  induction p generalizing f c with
  | any => cases h
  | slot n =>
    cases hn : c.get? n with
    | none =>
      have room : n < slotCount := Bindings.lt_slotCount_of_get? h
      exact ⟨c.set n f, by simp [unify, Bindings.bind, hn, room], hc.set h⟩
    | some g =>
      have same : g = f := Option.some.inj ((hc n g hn).symm.trans h)
      have alike : g.alike f = true := same ▸ Formula.alike_iff_exchanged.mpr (.refl g)
      exact ⟨c, by simp [unify, Bindings.bind, hn, alike], hc⟩
  | const v =>
    cases h
    exact ⟨c, by simp [unify], hc⟩
  | not p ih =>
    obtain ⟨a, ha, rfl⟩ := build_not_eq_some.mp h
    exact ih ha hc
  | join j p q ihp ihq =>
    -- the operands match as they stand, so the other order is not tried
    obtain ⟨l, r, hl, hr, rfl⟩ := build_join_eq_some.mp h
    obtain ⟨c', first, hc'⟩ := ihp hl hc
    obtain ⟨d, second, hd⟩ := ihq hr hc'
    exact ⟨d, unify_join_of_both (both_eq_true.mpr ⟨c', first, second⟩), hd⟩

/-- Matching and building undo each other. A match binds the slots of the pattern, each to
    something that stands in the formula, and no others; and if what is bound stands for the
    slots, and something in the formula for each wildcard, then the pattern becomes a formula
    that is alike to the one matched, which is also what is built if there is no wildcard. What
    is built from any bindings, as it is where all slots are bound and there is no wildcard, is
    matched again, with every slot bound to the same formula. -/
theorem match_and_build_are_inverse (p : Pattern) :
    (∀ f b, p.match? f = some b →
      (∀ n ∈ p.slots, ∃ g, b.get? n = some g ∧ Formula.Subformula g f) ∧
      (∀ n, n ∉ p.slots → b.get? n = none) ∧
      (∃ g, p.Filled b f g ∧ g.alike f = true) ∧
      (p.hasWildcard = false → ∃ g, p.build b = some g ∧ g.alike f = true)) ∧
    ∀ b f, p.build b = some f →
      ∃ c, p.match? f = some c ∧ ∀ n ∈ p.slots, ∃ g, b.get? n = some g ∧ c.get? n = some g := by
  refine ⟨?matched, ?built⟩
  case matched =>
    intro f b h
    have found : Matches p f Bindings.empty b := matches_of_unify (match?_eq_some.mp h)
    obtain ⟨g, filled, hgf⟩ := found.exists_filled
    have alike : g.alike f = true := Formula.alike_iff_exchanged.mpr hgf
    refine ⟨?_, ?_, ⟨g, filled, alike⟩, fun hp => ⟨g, filled.build_eq hp, alike⟩⟩
    · intro n hn
      obtain ⟨k, hk⟩ := Option.isSome_iff_exists.mp (found.isSome_get? hn)
      exact ⟨k, hk, found.subformula_of_get? hk⟩
    · intro n hn
      rw [found.get?_of_not_mem hn, Bindings.get?_empty]
  case built =>
    intro b f h
    obtain ⟨c, hc, within⟩ := exists_unify_of_build h b.extends_empty
    refine ⟨c, match?_eq_some.mpr hc, ?_⟩
    intro n hn
    obtain ⟨g, hg⟩ := Option.isSome_iff_exists.mp ((matches_of_unify hc).isSome_get? hn)
    exact ⟨g, within n g hg, hg⟩

/-- The slot is bound on the right, where it stands on the left of the pattern, and its second
    occurrence is met by a formula whose operands stand in the other order. What is built has
    neither difference any more. -/
theorem match_and_build_are_inverse_complement :
    let p : Pattern := .join .and (.slot 0) (.not (.slot 0))
    let a : Formula := .or (.var "x") (.var "y")
    let f : Formula := .and (.not (.or (.var "y") (.var "x"))) a
    let b : Bindings := ⟨some a, none⟩
    (p.match? f = some b ∧ 1 ∉ p.slots ∧ b.get? 1 = none ∧ Formula.Subformula a f) ∧
    (p.hasWildcard = false ∧ ∃ g, p.build b = some g ∧ g.alike f = true) ∧
    p.build b = some (.and a (.not a)) ∧
      ∃ c, p.match? (.and a (.not a)) = some c ∧ c.get? 0 = some a := by
  intro p a f b
  obtain ⟨matched, built⟩ := match_and_build_are_inverse p
  have found : p.match? f = some b := by decide
  obtain ⟨bound, free, -, build⟩ := matched f b found
  have absent : 1 ∉ p.slots := by decide
  have plain : p.hasWildcard = false := rfl
  have made : p.build b = some (.and a (.not a)) := rfl
  obtain ⟨k, hk, inside⟩ := bound 0 (by decide)
  obtain ⟨c, hc, same⟩ := built b _ made
  obtain ⟨k', hk', hck⟩ := same 0 (by decide)
  cases hk
  cases hk'
  exact ⟨⟨found, absent, free 1 absent, inside⟩, ⟨plain, build plain⟩, made, c, hc, hck⟩

end Pattern

end Propositional
