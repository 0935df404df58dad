import Propositional.Pattern
import Propositional.Proofs.Structure

/- Patterns and the formulas they match. `Pattern.Instance` says which formulas a
   pattern describes, and `Pattern.Matches` by which rules a match may come about;
   every match that `unify` finds comes about so (`matches_of_unify`). A match binds
   the slots to what stands inside the formula (`Matches.get?_subformula`). Put in the place of
   the slots, what is bound makes the formula of the pattern, up to the order of operands
   (`Matches.exists_filled`), so that the formula is one that the pattern describes
   (`Matches.exists_instance`), part by part (`Matches.exists_inside`). -/
namespace Propositional

namespace Bindings

/-- What is bound in `b` is bound to the same formula in `c`. -/
def Extends (c b : Bindings) : Prop := ∀ n g, b.get? n = some g → c.get? n = some g

/-- The bound slots stand for just what they are bound to. -/
def AgreesWith (b : Bindings) (σ : Nat → Formula) : Prop := ∀ n g, b.get? n = some g → σ n = g

/-- The bound slots stand for what they are bound to, and the others for ⊤. -/
def total (b : Bindings) (n : Nat) : Formula := (b.get? n).getD (.const true)

theorem get?_empty (n : Nat) : empty.get? n = none := by
  match n with
  | 0 | 1 | _ + 2 => rfl

theorem Extends.refl (b : Bindings) : b.Extends b := fun _ _ => id

theorem extends_empty (b : Bindings) : b.Extends empty := by
  intro n g h
  rw [get?_empty] at h
  cases h

theorem agreesWith_total (b : Bindings) : b.AgreesWith b.total :=
  fun n g h => by rw [total, h]; rfl

end Bindings

namespace Pattern

/-- The slots where they occur, from left to right. -/
def slots : Pattern → List Nat
  | any | const _ => []
  | slot n => [n]
  | not p => p.slots
  | join _ p q => p.slots ++ q.slots

/-- The patterns that stand in the operands. -/
def inner : Pattern → List Pattern
  | any | slot _ | const _ => []
  | not p => p :: p.inner
  | join _ p q => p :: q :: (p.inner ++ q.inner)

/-- What a pattern describes where the slots stand for the given formulas and each
    wildcard for any formula of its own. -/
inductive Instance (σ : Nat → Formula) : Pattern → Formula → Prop where
  | any (f : Formula) : Instance σ any f
  | slot (n : Nat) : Instance σ (slot n) (σ n)
  | const (v : Bool) : Instance σ (const v) (.const v)
  | not {p : Pattern} {f : Formula} : Instance σ p f → Instance σ (not p) (.not f)
  | join {j : Junction} {p q : Pattern} {l r : Formula} : Instance σ p l → Instance σ q r →
      Instance σ (join j p q) (.join j l r)

section
variable {σ : Nat → Formula} {p q : Pattern} {f : Formula}

theorem instance_slot {n : Nat} : (slot n).Instance σ f ↔ f = σ n :=
  ⟨fun h => by cases h; rfl, fun e => e ▸ .slot n⟩

theorem instance_const {v : Bool} : (const v).Instance σ f ↔ f = .const v :=
  ⟨fun h => by cases h; rfl, fun e => e ▸ .const v⟩

theorem instance_not : (not p).Instance σ f ↔ ∃ a, p.Instance σ a ∧ f = .not a := by
  refine ⟨?_, fun ⟨_, ha, e⟩ => e ▸ .not ha⟩
  intro h
  cases h with
  | not ha => exact ⟨_, ha, rfl⟩

theorem instance_join {j : Junction} :
    (join j p q).Instance σ f ↔ ∃ l r, p.Instance σ l ∧ q.Instance σ r ∧ f = .join j l r := by
  refine ⟨?_, fun ⟨_, _, hl, hr, e⟩ => e ▸ .join hl hr⟩
  intro h
  cases h with
  | join hl hr => exact ⟨_, _, hl, hr, rfl⟩

end

/-- What becomes of a pattern where what is bound to a slot stands for it, and for each wildcard
    something that stands in `f`. -/
inductive Filled (b : Bindings) (f : Formula) : Pattern → Formula → Prop where
  | any {g : Formula} : Formula.Subformula g f → Filled b f any g
  | slot {n : Nat} {g : Formula} : b.get? n = some g → Filled b f (slot n) g
  | const (v : Bool) : Filled b f (const v) (.const v)
  | not {p : Pattern} {g : Formula} : Filled b f p g → Filled b f (not p) (.not g)
  | join {j : Junction} {p q : Pattern} {l r : Formula} : Filled b f p l → Filled b f q r →
      Filled b f (join j p q) (.join j l r)

namespace Filled
variable {p : Pattern} {b c : Bindings} {f f' g : Formula}

theorem mono (h : Filled b f p g) (hf : Formula.Subformula f f') (hc : c.Extends b) :
    Filled c f' p g := by
  induction h with
  | any hg => exact .any (hg.trans hf)
  | slot hn => exact .slot (hc _ _ hn)
  | const v => exact .const v
  | not _ ih => exact .not ih
  | join _ _ ihl ihr => exact .join ihl ihr

theorem describes {σ : Nat → Formula} (h : Filled b f p g) (hσ : b.AgreesWith σ) :
    Instance σ p g := by
  induction h with
  | any => exact .any _
  | @slot n g hn => exact instance_slot.mpr (hσ n g hn).symm
  | const v => exact .const v
  | not _ ih => exact .not ih
  | join _ _ ihl ihr => exact .join ihl ihr

end Filled

/-- The ways for a pattern to match a formula, from the bindings before to those after. -/
inductive Matches : Pattern → Formula → Bindings → Bindings → Prop where
  | any (f : Formula) (b : Bindings) : Matches any f b b
  | bound {n : Nat} {f g : Formula} {b : Bindings} : b.get? n = some g → g.alike f →
      Matches (slot n) f b b
  | free {n : Nat} {f : Formula} {b : Bindings} : n < slotCount → b.get? n = none →
      Matches (slot n) f b (b.set n f)
  | const (v : Bool) (b : Bindings) : Matches (const v) (.const v) b b
  | not {p : Pattern} {f : Formula} {b c : Bindings} : Matches p f b c →
      Matches (not p) (.not f) b c
  | straight {j : Junction} {p q : Pattern} {l r : Formula} {b c d : Bindings} :
      Matches p l b c → Matches q r c d → Matches (join j p q) (.join j l r) b d
  | crossed {j : Junction} {p q : Pattern} {l r : Formula} {b c d : Bindings} :
      Matches p r b c → Matches q l c d → Matches (join j p q) (.join j l r) b d

theorem both_eq_true {first second : Bindings → Bool × Bindings} {b d : Bindings} :
    both first second b = (true, d) ↔ ∃ c, first b = (true, c) ∧ second c = (true, d) := by
  unfold both
  split
  · next c e => simp [e]
  · next c e => simp [e]

theorem unify_join_eq_true {j : Junction} {p q : Pattern} {l r : Formula} {b d : Bindings}
    (h : (join j p q).unify (.join j l r) b = (true, d)) :
    both (p.unify l) (q.unify r) b = (true, d) ∨ both (p.unify r) (q.unify l) b = (true, d) := by
  simp only [unify, if_true] at h
  split at h
  · next c e => exact .inl (e.trans h)
  · split at h
    · next c e => exact .inr (e.trans h)
    · cases h

theorem exists_unify_join {j : Junction} {p q : Pattern} {l r : Formula} {b d : Bindings}
    (h : both (p.unify l) (q.unify r) b = (true, d) ∨
      both (p.unify r) (q.unify l) b = (true, d)) :
    ∃ c, (join j p q).unify (.join j l r) b = (true, c) := by
  simp only [unify, if_true]
  split
  · exact ⟨_, rfl⟩
  · next e =>
    obtain h | h := h
    · rw [e] at h
      cases h
    · rw [h]
      exact ⟨_, rfl⟩

theorem matches_of_unify {p : Pattern} {f : Formula} {b c : Bindings}
    (h : p.unify f b = (true, c)) : Matches p f b c := by
  induction p generalizing f b c with
  | any =>
    cases h
    exact .any f b
  | slot n =>
    simp only [unify, Bindings.bind] at h
    split at h
    · next g hg =>
      obtain ⟨hgf, rfl⟩ := Prod.mk.inj h
      exact .bound hg hgf
    · next hn =>
      split at h
      · next hlt =>
        cases h
        exact .free hlt hn
      · cases h
  | const v =>
    cases f with
    | const w =>
      simp only [unify, Prod.mk.injEq, beq_iff_eq] at h
      obtain ⟨rfl, rfl⟩ := h
      exact .const v b
    | _ => simp [unify] at h
  | not p ih =>
    cases f with
    | not a => exact .not (ih h)
    | _ => simp [unify] at h
  | join j p q ihp ihq =>
    match f with
    | .join k l r =>
      by_cases hjk : j = k
      · subst hjk
        obtain h | h := unify_join_eq_true h <;> obtain ⟨d, hp, hq⟩ := both_eq_true.mp h
        · exact .straight (ihp hp) (ihq hq)
        · exact .crossed (ihp hp) (ihq hq)
      · simp [unify, hjk] at h
    | .derived .. | .const _ | .var _ | .not _ => simp [unify] at h

theorem match?_eq_some {p : Pattern} {f : Formula} {b : Bindings} :
    p.match? f = some b ↔ p.unify f Bindings.empty = (true, b) := by
  unfold match?
  split
  · next c e => simp [e]
  · next c e => simp [e]

namespace Matches
variable {p : Pattern} {f : Formula} {b c : Bindings} {σ : Nat → Formula}

/-- A bound slot stays as it is. -/
theorem get?_mono (h : Matches p f b c) {n : Nat} {g : Formula} :
    b.get? n = some g → c.get? n = some g := by
  induction h with
  | any | bound | const => exact id
  | free hn hb =>
    intro hg
    rw [Bindings.get?_set hn, if_neg]
    · exact hg
    · intro e
      rw [e, hb] at hg
      cases hg
  | not _ ih => exact ih
  | straight _ _ ih ih' | crossed _ _ ih ih' => exact ih' ∘ ih

theorem extends_before (h : Matches p f b c) : c.Extends b := fun _ _ => h.get?_mono

/-- Slots that do not occur in the pattern stay as they are. -/
theorem get?_of_not_mem (h : Matches p f b c) {n : Nat} (hn : n ∉ p.slots) :
    c.get? n = b.get? n := by
  induction h with
  | any | bound | const => rfl
  | free hlt _ => rw [Bindings.get?_set hlt, if_neg (fun e => hn (List.mem_singleton.mpr e))]
  | not _ ih => exact ih hn
  | straight _ _ ih ih' | crossed _ _ ih ih' =>
    obtain ⟨hp, hq⟩ := not_or.mp (fun h => hn (List.mem_append.mpr h))
    exact (ih' hq).trans (ih hp)

/-- A slot that was not bound before is bound to what stands somewhere in the formula. -/
theorem get?_subformula (h : Matches p f b c) {n : Nat} {g : Formula} :
    c.get? n = some g → b.get? n = some g ∨ Formula.Subformula g f := by
  induction h with
  | any | bound | const => exact .inl
  | free hn _ =>
    intro hg
    rw [Bindings.get?_set hn] at hg
    split at hg
    · cases hg
      exact .inr .refl
    · exact .inl hg
  | not _ ih => exact fun hg => (ih hg).imp_right .not
  | straight _ _ ih ih' =>
    intro hg
    obtain hc | hr := ih' hg
    · exact (ih hc).imp_right .left
    · exact .inr (.right hr)
  | crossed _ _ ih ih' =>
    intro hg
    obtain hc | hl := ih' hg
    · exact (ih hc).imp_right .right
    · exact .inr (.left hl)

/-- A search that starts with nothing bound takes all it binds from the formula. -/
theorem subformula_of_get? (h : Matches p f Bindings.empty c) {n : Nat} {g : Formula}
    (hg : c.get? n = some g) : Formula.Subformula g f := by
  obtain before | inside := h.get?_subformula hg
  · rw [Bindings.get?_empty] at before
    cases before
  · exact inside

theorem isSome_get? (h : Matches p f b c) {n : Nat} : n ∈ p.slots → (c.get? n).isSome := by
  induction h with
  | any | const => exact fun hn => nomatch hn
  | bound hb _ =>
    intro hn
    rw [List.mem_singleton.mp hn, hb]
    rfl
  | free hlt _ =>
    intro hn
    rw [List.mem_singleton.mp hn, Bindings.get?_set hlt, if_pos rfl]
    rfl
  | not _ ih => exact ih
  | straight _ hq ih ih' | crossed _ hq ih ih' =>
    intro hn
    obtain hn | hn := List.mem_append.mp hn
    · obtain ⟨g, hg⟩ := Option.isSome_iff_exists.mp (ih hn)
      exact Option.isSome_iff_exists.mpr ⟨g, hq.get?_mono hg⟩
    · exact ih' hn

theorem agreesWith (h : Matches p f b c) (hσ : c.AgreesWith σ) : b.AgreesWith σ :=
  fun n g hg => hσ n g (h.get?_mono hg)

/-- The formula is alike to what becomes of the pattern under the bindings. -/
theorem exists_filled (h : Matches p f b c) : ∃ g, Filled c f p g ∧ Formula.Exchanged g f := by
  induction h with
  | any f => exact ⟨f, .any .refl, .refl f⟩
  | bound hb hg => exact ⟨_, .slot hb, Formula.alike_iff_exchanged.mp hg⟩
  | @free n f b hn _ =>
    have bound : (b.set n f).get? n = some f := by rw [Bindings.get?_set hn, if_pos rfl]
    exact ⟨f, .slot bound, .refl f⟩
  | const v => exact ⟨.const v, .const v, .refl _⟩
  | not _ ih =>
    obtain ⟨g, hg, hgf⟩ := ih
    exact ⟨_, .not (hg.mono (.not .refl) (.refl _)), .not hgf⟩
  | straight _ hq ih ih' =>
    obtain ⟨g, hg, hgl⟩ := ih
    obtain ⟨g', hg', hgr⟩ := ih'
    exact ⟨_, .join (hg.mono (.left .refl) hq.extends_before) (hg'.mono (.right .refl) (.refl _)),
      .keep hgl hgr⟩
  | crossed _ hq ih ih' =>
    obtain ⟨g, hg, hgr⟩ := ih
    obtain ⟨g', hg', hgl⟩ := ih'
    exact ⟨_, .join (hg.mono (.right .refl) hq.extends_before) (hg'.mono (.left .refl) (.refl _)),
      .swap rfl hgr hgl⟩

theorem exists_instance (h : Matches p f b c) (hσ : c.AgreesWith σ) :
    ∃ g, Instance σ p g ∧ Formula.Exchanged g f := by
  obtain ⟨g, hg, hgf⟩ := h.exists_filled
  exact ⟨g, hg.describes hσ, hgf⟩

/-- What a part of the pattern describes stands in an operand of the formula. -/
theorem exists_inside (h : Matches p f b c) (hσ : c.AgreesWith σ) {q : Pattern}
    (hq : q ∈ p.inner) : ∃ u g, Formula.Inside u f ∧ Instance σ q g ∧ Formula.Exchanged g u := by
  induction h with
  | any | bound | free | const => cases hq
  | not hp ih =>
    obtain rfl | hq := List.mem_cons.mp hq
    · obtain ⟨g, hg, hgf⟩ := hp.exists_instance hσ
      exact ⟨_, g, .not .refl, hg, hgf⟩
    · obtain ⟨u, g, hu, hg⟩ := ih hσ hq
      exact ⟨u, g, .not hu.subformula, hg⟩
  | straight hp hp' ih ih' =>
    obtain rfl | rfl | hq | hq := by simpa only [inner, List.mem_cons, List.mem_append] using hq
    · obtain ⟨g, hg, hgf⟩ := hp.exists_instance (hp'.agreesWith hσ)
      exact ⟨_, g, .left .refl, hg, hgf⟩
    · obtain ⟨g, hg, hgf⟩ := hp'.exists_instance hσ
      exact ⟨_, g, .right .refl, hg, hgf⟩
    · obtain ⟨u, g, hu, hg⟩ := ih (hp'.agreesWith hσ) hq
      exact ⟨u, g, .left hu.subformula, hg⟩
    · obtain ⟨u, g, hu, hg⟩ := ih' hσ hq
      exact ⟨u, g, .right hu.subformula, hg⟩
  | crossed hp hp' ih ih' =>
    obtain rfl | rfl | hq | hq := by simpa only [inner, List.mem_cons, List.mem_append] using hq
    · obtain ⟨g, hg, hgf⟩ := hp.exists_instance (hp'.agreesWith hσ)
      exact ⟨_, g, .right .refl, hg, hgf⟩
    · obtain ⟨g, hg, hgf⟩ := hp'.exists_instance hσ
      exact ⟨_, g, .left .refl, hg, hgf⟩
    · obtain ⟨u, g, hu, hg⟩ := ih (hp'.agreesWith hσ) hq
      exact ⟨u, g, .right hu.subformula, hg⟩
    · obtain ⟨u, g, hu, hg⟩ := ih' hσ hq
      exact ⟨u, g, .left hu.subformula, hg⟩

end Matches

/-! Building a formula from bindings. -/

section Build
variable {b : Bindings} {p : Pattern}

theorem build_not_eq_some {f : Formula} :
    (not p).build b = some f ↔ ∃ a, p.build b = some a ∧ f = .not a := by
  cases h : p.build b <;> simp [build, h, eq_comm]

theorem build_join_eq_some {j : Junction} {q : Pattern} {f : Formula} :
    (join j p q).build b = some f ↔
      ∃ l r, p.build b = some l ∧ q.build b = some r ∧ f = .join j l r := by
  cases hl : p.build b <;> cases hr : q.build b <;> simp [build, hl, hr, eq_comm]

theorem exists_build (hp : p.hasWildcard = false) (hs : ∀ n ∈ p.slots, (b.get? n).isSome) :
    ∃ f, p.build b = some f := by
  induction p with
  | any => cases hp
  | slot n => exact Option.isSome_iff_exists.mp (hs n (List.mem_singleton_self n))
  | const v => exact ⟨.const v, rfl⟩
  | not p ih =>
    obtain ⟨a, ha⟩ := ih hp hs
    exact ⟨.not a, build_not_eq_some.mpr ⟨a, ha, rfl⟩⟩
  | join j p q ihp ihq =>
    obtain ⟨hp, hq⟩ := Bool.or_eq_false_iff.mp hp
    obtain ⟨l, hl⟩ := ihp hp (fun n hn => hs n (List.mem_append_left _ hn))
    obtain ⟨r, hr⟩ := ihq hq (fun n hn => hs n (List.mem_append_right _ hn))
    exact ⟨.join j l r, build_join_eq_some.mpr ⟨l, r, hl, hr, rfl⟩⟩

/-- What is built is the one formula that the pattern describes. -/
theorem instance_iff_of_build {σ : Nat → Formula} (hσ : b.AgreesWith σ) {f g : Formula}
    (h : p.build b = some f) : Instance σ p g ↔ g = f := by
  induction p generalizing f g with
  | any => cases h
  | slot n => rw [instance_slot, hσ n f h]
  | const v =>
    cases h
    exact instance_const
  | not p ih =>
    obtain ⟨a, ha, rfl⟩ := build_not_eq_some.mp h
    simp only [instance_not, ih ha, exists_eq_left]
  | join j p q ihp ihq =>
    obtain ⟨l, r, hl, hr, rfl⟩ := build_join_eq_some.mp h
    simp only [instance_join, ihp hl, ihq hr, exists_and_left, exists_eq_left]

/-- What is built has every property that goes up through ¬ and the junctions, if what is
    bound has it. -/
theorem build_induction {P : Formula → Prop} (const : ∀ v, P (.const v))
    (not : ∀ {a}, P a → P (.not a)) (join : ∀ {j l r}, P l → P r → P (.join j l r))
    (hb : ∀ n g, b.get? n = some g → P g) {f : Formula} (h : p.build b = some f) : P f := by
  induction p generalizing f with
  | any => cases h
  | slot n => exact hb n f h
  | const v =>
    cases h
    exact const v
  | not p ih =>
    obtain ⟨a, ha, rfl⟩ := build_not_eq_some.mp h
    exact not (ih ha)
  | join j p q ihp ihq =>
    obtain ⟨l, r, hl, hr, rfl⟩ := build_join_eq_some.mp h
    exact join (ihp hl) (ihq hr)

end Build

end Pattern

end Propositional
