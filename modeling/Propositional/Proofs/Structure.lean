import Propositional.Formula.Alike

/- What stands inside a formula, and which formulas are alike. `Subformula g f` says
   that `g` stands somewhere in `f`. Where no derived connective stands, there is an
   induction without one (`canonical_induction`), and this is what canonical formulas are
   (`isCanonical_iff`). `Exchanged` says by rules what `alike` computes
   (`alike_iff_exchanged`): the same tree, up to the order of operands of connectives
   that commute. It is an equivalence, and whatever stands in one of two such
   formulas has its like in the other (`Exchanged.exists_subformula`). -/
namespace Propositional.Formula

/-- `g` is `f`, or stands in an operand of `f`. -/
inductive Subformula (g : Formula) : Formula → Prop where
  | refl : Subformula g g
  | not {a : Formula} : Subformula g a → Subformula g (not a)
  | left {c : Connective} {l r : Formula} : Subformula g l → Subformula g (binary c l r)
  | right {c : Connective} {l r : Formula} : Subformula g r → Subformula g (binary c l r)

namespace Subformula
variable {f g h : Formula}

theorem trans (hg : Subformula f g) (hh : Subformula g h) : Subformula f h := by
  induction hh with
  | refl => exact hg
  | not _ ih => exact .not ih
  | left _ ih => exact .left ih
  | right _ ih => exact .right ih

theorem occurrences_subset (hg : Subformula g f) : g.occurrences ⊆ f.occurrences := by
  induction hg with
  | refl => exact fun _ h => h
  | not _ ih => exact ih
  | left _ ih => exact fun _ h => List.mem_append_left _ (ih h)
  | right _ ih => exact fun _ h => List.mem_append_right _ (ih h)

theorem derivedCount_le (hg : Subformula g f) : g.derivedCount ≤ f.derivedCount := by
  induction hg with
  | refl => exact Nat.le_refl _
  | not _ ih => exact ih
  | @left c l r _ ih | @right c l r _ ih => cases c <;> simp only [derivedCount] <;> omega

theorem size_le (hg : Subformula g f) : g.size ≤ f.size := by
  induction hg with
  | refl => exact Nat.le_refl _
  | not _ ih | left _ ih | right _ ih => simp only [size]; omega

end Subformula

/-- Induction over the formulas without derived connectives. -/
@[elab_as_elim]
theorem canonical_induction {motive : (f : Formula) → f.derivedCount = 0 → Prop}
    (const : ∀ b, motive (const b) rfl) (var : ∀ x, motive (var x) rfl)
    (not : ∀ a (ha : a.derivedCount = 0), motive a ha → motive (not a) ha)
    (join : ∀ j l r (hl : l.derivedCount = 0) (hr : r.derivedCount = 0), motive l hl → motive r hr →
      motive (join j l r) (Nat.add_eq_zero_iff.mpr ⟨hl, hr⟩)) :
    ∀ (f : Formula) (h : f.derivedCount = 0), motive f h
  | .const b, _ => const b
  | .var x, _ => var x
  | .not a, h => not a h (canonical_induction const var not join a h)
  | .join j l r, h => by
    obtain ⟨hl, hr⟩ := Nat.add_eq_zero_iff.mp h
    exact join j l r hl hr (canonical_induction const var not join l hl)
      (canonical_induction const var not join r hr)
  | .derived _ l r, h => by
    simp only [derivedCount, Nat.add_assoc, Nat.add_eq_zero_iff] at h
    omega

theorem isCanonical_eq_true_iff {f : Formula} : f.isCanonical = true ↔ f.derivedCount = 0 :=
  beq_iff_eq

theorem isDerived_eq_false_of_derivedCount {f : Formula} (h : f.derivedCount = 0) :
    f.isDerived = false := by
  induction f, h using canonical_induction with
  | const | var | not | join => rfl

/-- A formula is canonical if nothing in it has a derived connective at its root. -/
theorem isCanonical_iff {f : Formula} :
    f.isCanonical = true ↔ ∀ g, Subformula g f → g.isDerived = false := by
  rw [isCanonical_eq_true_iff]
  refine ⟨?_, ?_⟩
  · intro h g hg
    have none : g.derivedCount = 0 := Nat.eq_zero_of_le_zero (h ▸ hg.derivedCount_le)
    exact isDerived_eq_false_of_derivedCount none
  · intro h
    induction f with
    | const | var => rfl
    | not a ih => exact ih (fun g hg => h g (.not hg))
    | binary c l r ihl ihr =>
      have hl : l.derivedCount = 0 := ihl (fun g hg => h g (.left hg))
      have hr : r.derivedCount = 0 := ihr (fun g hg => h g (.right hg))
      cases c with
      | junction j => exact Nat.add_eq_zero_iff.mpr ⟨hl, hr⟩
      | derived d => exact nomatch h (derived d l r) .refl

/-- `g` stands in an operand of `f`. -/
inductive Inside (g : Formula) : Formula → Prop where
  | not {a : Formula} : Subformula g a → Inside g (not a)
  | left {c : Connective} {l r : Formula} : Subformula g l → Inside g (binary c l r)
  | right {c : Connective} {l r : Formula} : Subformula g r → Inside g (binary c l r)

theorem Inside.subformula {f g : Formula} : Inside g f → Subformula g f
  | .not h => .not h
  | .left h => .left h
  | .right h => .right h

theorem Inside.size_lt {f g : Formula} : Inside g f → g.size < f.size
  | .not h => by have := h.size_le; simp only [size]; omega
  | .left h => by have := h.size_le; simp only [size]; omega
  | .right h => by have := h.size_le; simp only [size]; omega

/-! Formulas that are alike. -/

/-- The second formula is the first one with the operands exchanged at some of the
    connectives that commute, at any depth. -/
inductive Exchanged : Formula → Formula → Prop where
  | const (b : Bool) : Exchanged (const b) (const b)
  | var (x : String) : Exchanged (var x) (var x)
  | not {a b : Formula} : Exchanged a b → Exchanged (not a) (not b)
  | keep {c : Connective} {l r l' r' : Formula} : Exchanged l l' → Exchanged r r' →
      Exchanged (binary c l r) (binary c l' r')
  | swap {c : Connective} {l r l' r' : Formula} : c.commutes → Exchanged l l' → Exchanged r r' →
      Exchanged (binary c l r) (binary c r' l')

theorem alike_iff_exchanged : ∀ {f g : Formula}, f.alike g ↔ Exchanged f g := by
  intro f g
  refine ⟨?_, ?_⟩
  · intro h
    induction f generalizing g with
    | const b =>
      cases g with
      | const d =>
        simp only [alike, beq_iff_eq] at h
        exact h ▸ .const b
      | _ => simp [alike] at h
    | var x =>
      cases g with
      | var y =>
        simp only [alike, beq_iff_eq] at h
        exact h ▸ .var x
      | _ => simp [alike] at h
    | not a ih =>
      cases g with
      | not b => exact .not (ih h)
      | _ => simp [alike] at h
    | binary c l r ihl ihr =>
      cases g with
      | binary d l' r' =>
        simp only [alike, Bool.and_eq_true, Bool.or_eq_true, beq_iff_eq] at h
        obtain ⟨rfl, ⟨hl, hr⟩ | ⟨hc, hl, hr⟩⟩ := h
        · exact .keep (ihl hl) (ihr hr)
        · exact .swap hc (ihl hl) (ihr hr)
      | _ => simp [alike] at h
  · intro h
    induction h with
    | const | var => simp [alike]
    | not _ ih => exact ih
    | keep _ _ hl hr => simp [alike, hl, hr]
    | swap hc _ _ hl hr => simp [alike, hc, hl, hr]

theorem exchanged_not {a b : Formula} : Exchanged (not a) (not b) ↔ Exchanged a b := by
  refine ⟨?_, .not⟩
  intro h
  cases h with
  | not h => exact h

theorem exchanged_join {j : Junction} {l r l' r' : Formula} :
    Exchanged (join j l r) (join j l' r') ↔
      Exchanged l l' ∧ Exchanged r r' ∨ Exchanged l r' ∧ Exchanged r l' := by
  refine ⟨?_, ?_⟩
  · intro h
    cases h with
    | keep hl hr => exact .inl ⟨hl, hr⟩
    | swap _ hl hr => exact .inr ⟨hl, hr⟩
  · rintro (⟨hl, hr⟩ | ⟨hl, hr⟩)
    · exact .keep hl hr
    · exact .swap rfl hl hr

namespace Exchanged
variable {f g h : Formula}

theorem refl : ∀ f : Formula, Exchanged f f
  | .const b => .const b
  | .var x => .var x
  | .not a => .not (refl a)
  | .binary _ l r => .keep (refl l) (refl r)

theorem symm (h : Exchanged f g) : Exchanged g f := by
  induction h with
  | const b => exact .const b
  | var x => exact .var x
  | not _ ih => exact .not ih
  | keep _ _ hl hr => exact .keep hl hr
  | swap hc _ _ hl hr => exact .swap hc hr hl

theorem trans (hg : Exchanged f g) (hh : Exchanged g h) : Exchanged f h := by
  induction hg generalizing h with
  | const | var => exact hh
  | not _ ih =>
    cases hh with
    | not hb => exact .not (ih hb)
  | keep _ _ hl hr =>
    cases hh with
    | keep hl' hr' => exact .keep (hl hl') (hr hr')
    | swap hc hl' hr' => exact .swap hc (hl hl') (hr hr')
  | swap hc _ _ hl hr =>
    cases hh with
    | keep hr' hl' => exact .swap hc (hl hl') (hr hr')
    -- exchanged twice, the operands are back in their places
    | swap _ hr' hl' => exact .keep (hl hl') (hr hr')

theorem derivedCount_eq (h : Exchanged f g) : f.derivedCount = g.derivedCount := by
  induction h with
  | const | var => rfl
  | not _ ih => exact ih
  | @keep c _ _ _ _ _ _ hl hr | @swap c _ _ _ _ _ _ _ hl hr =>
    cases c <;> simp only [derivedCount] <;> omega

theorem size_eq (h : Exchanged f g) : f.size = g.size := by
  induction h with
  | const | var => rfl
  | not _ ih => simp only [size, ih]
  | keep _ _ hl hr | swap _ _ _ hl hr => simp only [size]; omega

/-- Whatever stands in one of the two formulas has its like in the other. -/
theorem exists_subformula (h : Exchanged f g) {u : Formula} (hu : Subformula u g) :
    ∃ v, Subformula v f ∧ Exchanged v u := by
  induction hu generalizing f with
  | refl => exact ⟨f, .refl, h⟩
  | not _ ih =>
    cases h with
    | not ha =>
      obtain ⟨v, hv, hvu⟩ := ih ha
      exact ⟨v, .not hv, hvu⟩
  | left _ ih =>
    cases h with
    | keep hl hr =>
      obtain ⟨v, hv, hvu⟩ := ih hl
      exact ⟨v, .left hv, hvu⟩
    | swap hc hl hr =>
      obtain ⟨v, hv, hvu⟩ := ih hr
      exact ⟨v, .right hv, hvu⟩
  | right _ ih =>
    cases h with
    | keep hl hr =>
      obtain ⟨v, hv, hvu⟩ := ih hr
      exact ⟨v, .right hv, hvu⟩
    | swap hc hl hr =>
      obtain ⟨v, hv, hvu⟩ := ih hl
      exact ⟨v, .left hv, hvu⟩

end Exchanged

end Propositional.Formula
