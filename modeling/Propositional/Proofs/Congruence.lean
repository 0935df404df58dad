import Propositional.Proofs.Shrinking

/- Simplification does not see the order of operands. A rule is definite if what the slots
   of its replacement stand for does not depend on how its pattern is matched, up to the order
   of operands (`Rule.Definite`); then what it makes of exchanged formulas is exchanged
   (`Rule.Definite.exchanged_of_apply`), although the search goes through the operands in the
   order in which it finds them. The standard rules are definite: their patterns pin the slots
   that their replacements have (`RuleSet.standard_definite`). Hence the same rules apply to
   exchanged formulas, and steps and runs keep them exchanged (`simplify_respects_alike`). -/
namespace Propositional

open Formula (Exchanged)

/-! Two readings of a pattern. -/

namespace Pattern
variable {σ τ : Nat → Formula} {p q : Pattern} {f g : Formula}

theorem Instance.exchanged (hp : p.hasWildcard = false)
    (h : ∀ n ∈ p.slots, Exchanged (σ n) (τ n)) (hf : p.Instance σ f) (hg : p.Instance τ g) :
    Exchanged f g := by
  induction hf generalizing g with
  | any => cases hp
  | slot n =>
    cases hg
    exact h n (List.mem_singleton_self n)
  | const v =>
    cases hg
    exact .const v
  | not _ ih =>
    cases hg with
    | not hg => exact .not (ih hp h hg)
  | join _ _ ihl ihr =>
    obtain ⟨hl, hr⟩ := Bool.or_eq_false_iff.mp hp
    cases hg with
    | join hgl hgr =>
      exact .keep (ihl hl (fun n hn => h n (List.mem_append_left _ hn)) hgl)
        (ihr hr (fun n hn => h n (List.mem_append_right _ hn)) hgr)

end Pattern

/-! Rules. -/

namespace Rule

/-- What the slots of the replacement stand for does not depend on how the pattern is matched. -/
def Definite (rule : Rule) : Prop := ∀ n ∈ rule.replacement.slots, rule.pattern.Pins n

theorem Definite.exchanged_of_apply {rule : Rule} (hr : rule.Definite) {f g h k : Formula}
    (hfg : Exchanged f g) (hh : rule.apply f = some h) (hk : rule.apply g = some k) :
    Exchanged h k := by
  obtain ⟨b, hb, hbh⟩ := exists_matches_of_apply hh
  obtain ⟨c, hc, hck⟩ := exists_matches_of_apply hk
  obtain ⟨f', hf', hff⟩ := hb.exists_instance b.agreesWith_total
  obtain ⟨g', hg', hgg⟩ := hc.exists_instance c.agreesWith_total
  have alike : Exchanged f' g' := (hff.trans hfg).trans hgg.symm
  exact Pattern.Instance.exchanged rule.noWildcard
    (fun n hn => hr n hn _ _ f' g' hf' hg' alike)
    ((Pattern.instance_iff_of_build b.agreesWith_total hbh).mpr rfl)
    ((Pattern.instance_iff_of_build c.agreesWith_total hck).mpr rfl)

/-- A tidy and definite rule does the same with exchanged formulas. -/
theorem Definite.rel_apply {rule : Rule} (hr : rule.Definite) (ht : rule.Tidy) {f g : Formula}
    (h : Exchanged f g) : Option.Rel Exchanged (rule.apply f) (rule.apply g) := by
  have both : (rule.apply f).isSome ↔ (rule.apply g).isSome := by
    rw [ht.isSome_apply_iff, ht.isSome_apply_iff]
    refine ⟨?_, ?_⟩
    · intro ⟨σ, k, hk, hkf⟩
      exact ⟨σ, k, hk, hkf.trans h⟩
    · intro ⟨σ, k, hk, hkg⟩
      exact ⟨σ, k, hk, hkg.trans h.symm⟩
  cases hf : rule.apply f with
  | none =>
    cases hg : rule.apply g with
    | none => exact .none
    | some k => simp [hf, hg] at both
  | some k =>
    cases hg : rule.apply g with
    | none => simp [hf, hg] at both
    | some k' => exact .some (hr.exchanged_of_apply h hf hg)

end Rule

namespace RuleSet

theorem definite_of_mem_negationRules {rule : Rule} (h : rule ∈ negationRules) :
    rule.Definite := by
  intro n hn
  simp only [negationRules, List.mem_cons, List.not_mem_nil, or_false] at h
  rcases h with rfl | rfl | rfl
  · obtain rfl := List.mem_singleton.mp hn
    exact (Pattern.pins_slot 0).not.not
  · cases hn
  · cases hn

theorem definite_of_mem_junctionRules {j : Junction} {rule : Rule} (h : rule ∈ junctionRules j) :
    rule.Definite := by
  intro n hn
  simp only [junctionRules, List.mem_cons, List.not_mem_nil, or_false] at h
  rcases h with rfl | rfl | rfl | rfl | rfl | rfl | rfl | rfl
  · obtain rfl := List.mem_singleton.mp hn
    exact Pattern.pins_twice j 0
  · obtain rfl := List.mem_singleton.mp hn
    exact Pattern.pins_const j 0 j.unit
  -- the rules that make a constant have no slot to pin
  · cases hn
  · cases hn
  · cases hn
  · cases hn
  · obtain rfl := List.mem_singleton.mp hn
    exact Pattern.pins_of_inside (by simp [Pattern.inner])
  · obtain rfl | rfl : n = 0 ∨ n = 1 := by simpa [Pattern.slots] using hn
    · exact Pattern.pins_of_inside (by simp [Pattern.inner])
    · exact Pattern.pins_other j 0 1

theorem standard_definite {rule : Rule} (h : rule ∈ standard.all) : rule.Definite := by
  obtain h | ⟨j, h⟩ := mem_all_standard.mp h
  · exact definite_of_mem_negationRules h
  · exact definite_of_mem_junctionRules h

/-! Steps and runs. -/

/-- Every rule does the same with exchanged formulas. -/
def Steady (rules : RuleSet) : Prop :=
  ∀ rule ∈ rules.all, ∀ {f g}, Exchanged f g → Option.Rel Exchanged (rule.apply f) (rule.apply g)

theorem standard_steady : standard.Steady :=
  fun rule h _ _ hfg => (standard_definite h).rel_apply (standard_tidy.tidy rule h) hfg

section
variable {rules : RuleSet} {f g : Formula}

theorem rel_findSome? : ∀ {candidates : List Rule},
    (∀ rule ∈ candidates, Option.Rel Exchanged (rule.apply f) (rule.apply g)) →
      Option.Rel (fun x y => x.1 = y.1 ∧ Exchanged x.2 y.2)
        (candidates.findSome? (fun rule => (rule.apply f).map (fun h => (rule, h))))
        (candidates.findSome? (fun rule => (rule.apply g).map (fun h => (rule, h))))
  | [], _ => .none
  | rule :: others, same => by
    have first := same rule List.mem_cons_self
    have rest := rel_findSome? (fun rule h => same rule (List.mem_cons_of_mem _ h))
    rw [List.findSome?_cons, List.findSome?_cons]
    generalize rule.apply f = x at first ⊢
    generalize rule.apply g = y at first ⊢
    cases first with
    | none => exact rest
    | some alike => exact .some ⟨rfl, alike⟩

variable (hs : rules.Steady)
include hs

/-- The first rule that applies is the same for both formulas. -/
theorem Steady.rel_firstApplying? (h : Exchanged f g) :
    Option.Rel (fun x y => x.1 = y.1 ∧ Exchanged x.2 y.2) (rules.firstApplying? f)
      (rules.firstApplying? g) := by
  unfold firstApplying?
  rw [← rules.rulesFor_exchanged h]
  exact rel_findSome? (fun rule hr => hs rule (mem_all_of_mem_rulesFor hr) h)

theorem Steady.exchanged_atRoot (h : Exchanged f g) :
    Exchanged (rules.atRoot f).formula (rules.atRoot g).formula := by
  have first := hs.rel_firstApplying? h
  unfold atRoot
  generalize rules.firstApplying? f = x at first ⊢
  generalize rules.firstApplying? g = y at first ⊢
  cases first with
  | none => exact h
  | some same => exact same.2

theorem Steady.exchanged_pass {expand : Formula → Pass} (hf : f.derivedCount = 0)
    (h : Exchanged f g) :
    Exchanged (rules.pass expand f).formula (rules.pass expand g).formula := by
  induction h with
  | const b => exact .const b
  | var x => exact .var x
  | not _ ih => exact hs.exchanged_atRoot (.not (ih hf))
  | @keep c _ _ _ _ _ _ ihl ihr =>
    cases c with
    | junction j =>
      obtain ⟨hl, hr⟩ := Nat.add_eq_zero_iff.mp hf
      exact hs.exchanged_atRoot (.keep (ihl hl) (ihr hr))
    | derived d => simp only [Formula.derivedCount] at hf; omega
  | @swap c _ _ _ _ _ _ _ ihl ihr =>
    cases c with
    | junction j =>
      obtain ⟨hl, hr⟩ := Nat.add_eq_zero_iff.mp hf
      exact hs.exchanged_atRoot (.swap rfl (ihl hl) (ihr hr))
    | derived d => simp only [Formula.derivedCount] at hf; omega

theorem Steady.exchanged_step (h : Exchanged f g) :
    Exchanged (rules.step f).formula (rules.step g).formula := by
  rw [step_eq_pass (fun u => ⟨u, []⟩) f, step_eq_pass (fun u => ⟨u, []⟩) g]
  exact hs.exchanged_pass (Formula.derivedCount_normalize f) h.normalize

/-- Both runs decide alike, since they compare formulas that are exchanged and measures that
    are equal. -/
theorem Steady.exchanged_repeatStep : ∀ (left done : Nat) {f g : Formula}, Exchanged f g →
    Exchanged (rules.repeatStep left done f).formula (rules.repeatStep left done g).formula
  | 0, _, _, _, h => h
  | left + 1, done, f, g, h => by
    have next := hs.exchanged_step h
    have alike : (rules.step f).formula.alike f = (rules.step g).formula.alike g := by
      rw [Bool.eq_iff_iff, Formula.alike_iff_exchanged, Formula.alike_iff_exchanged]
      exact ⟨fun e => (next.symm.trans e).trans h, fun e => (next.trans e).trans h.symm⟩
    unfold repeatStep
    dsimp only
    rw [alike, next.measure_eq, h.measure_eq]
    split
    · exact next
    · split
      · exact exchanged_repeatStep left (done + 1) next
      · exact h

end

/-- Simplification respects equality up to the order of operands. With the standard rules,
    what steps and runs make of two such formulas is equal in the same sense, and so is what
    each rule makes of them, if it applies to them, which it does to both or to neither. -/
theorem simplify_respects_alike (f g : Formula) (h : f.alike g = true) :
    (standard.step f).formula.alike (standard.step g).formula = true ∧
    (∀ maxSteps, (standard.simplify maxSteps f).formula.alike
      (standard.simplify maxSteps g).formula = true) ∧
    ∀ rule ∈ standard.all,
      Option.Rel (fun u v => u.alike v = true) (rule.apply f) (rule.apply g) := by
  have hs : standard.Steady := standard_steady
  rw [Formula.alike_iff_exchanged] at h
  simp only [Formula.alike_iff_exchanged]
  exact ⟨hs.exchanged_step h, fun maxSteps => hs.exchanged_repeatStep maxSteps 0 h,
    fun rule hr => hs rule hr h⟩

/-- Regrouping finds its operands in either order. -/
theorem simplify_respects_alike_regrouping :
    let f : Formula := .or (.var "p") (.or (.var "p") (.var "q"))
    let g : Formula := .or (.or (.var "q") (.var "p")) (.var "p")
    f.alike g = true ∧ (standard.step f).formula = .or (.var "p") (.var "q") ∧
      (standard.step f).formula.alike (standard.step g).formula = true := by
  intro f g
  have alike : f.alike g = true := by decide
  exact ⟨alike, by decide, (simplify_respects_alike f g alike).1⟩

end RuleSet

end Propositional
