import Propositional.Proofs.Matching

/- Which matches the search finds. A junction in a left operand is matched in the first order
   that fits, and is not taken up again when what is on the right then fails; so what the
   pattern describes may go unmatched (`first_fit_hides_match`). It takes a slot that both
   operands share and that the left one may bind in several ways. A pattern may leave a slot no
   choice (`Pins`), above all where one operand contains the other, so that size tells which is
   which (`operands_exchanged`). In an orderly pattern no choice is left, so that the bindings
   which the left operand makes are ready for the right one, whichever they are
   (`Ready.right`). The search then finds a match for every formula that the pattern describes,
   up to the order of operands (`exists_unify_of_orderly`), and for no other. A pattern is
   orderly if each of its slots occurs once (`orderly_of_nodup`), and so is a comb
   (`orderly_of_isComb`). -/
namespace Propositional

open Formula (Exchanged Inside)

namespace Pattern
variable {σ τ : Nat → Formula} {j : Junction} {p q : Pattern} {f g : Formula} {b c : Bindings}

/-! Two readings of a pattern. -/

theorem Instance.exists_inside (h : p.Instance σ f) (hq : q ∈ p.inner) :
    ∃ g, Inside g f ∧ q.Instance σ g := by
  induction h with
  | any | slot | const => cases hq
  | not hf ih =>
    obtain rfl | hq := List.mem_cons.mp hq
    · exact ⟨_, .not .refl, hf⟩
    · obtain ⟨g, hg, hgi⟩ := ih hq
      exact ⟨g, .not hg.subformula, hgi⟩
  | join hl hr ihl ihr =>
    obtain rfl | rfl | hq | hq := by simpa only [inner, List.mem_cons, List.mem_append] using hq
    · exact ⟨_, .left .refl, hl⟩
    · exact ⟨_, .right .refl, hr⟩
    · obtain ⟨g, hg, hgi⟩ := ihl hq
      exact ⟨g, .left hg.subformula, hgi⟩
    · obtain ⟨g, hg, hgi⟩ := ihr hq
      exact ⟨g, .right hg.subformula, hgi⟩

theorem Instance.size_lt {n : Nat} (h : p.Instance σ f) (hn : .slot n ∈ p.inner) :
    (σ n).size < f.size := by
  obtain ⟨g, hg, hgi⟩ := h.exists_inside hn
  rw [instance_slot] at hgi
  exact hgi ▸ hg.size_lt

/-- Whichever way the pattern is read into exchanged formulas, the slot stands for the same
    formula, up to the order of operands. -/
def Pins (p : Pattern) (n : Nat) : Prop :=
  ∀ σ τ f g, p.Instance σ f → p.Instance τ g → Exchanged f g → Exchanged (σ n) (τ n)

theorem pins_slot (n : Nat) : (slot n).Pins n := by
  intro σ τ f g hf hg h
  rw [instance_slot] at hf hg
  exact hf ▸ hg ▸ h

theorem Pins.not {n : Nat} (hp : p.Pins n) : (not p).Pins n := by
  intro σ τ f g hf hg h
  obtain ⟨a, ha, rfl⟩ := instance_not.mp hf
  obtain ⟨b, hb, rfl⟩ := instance_not.mp hg
  exact hp σ τ a b ha hb (Formula.exchanged_not.mp h)

theorem pins_twice (j : Junction) (n : Nat) : (join j (slot n) (slot n)).Pins n := by
  intro σ τ f g hf hg h
  obtain ⟨l, r, hl, hr, rfl⟩ := instance_join.mp hf
  obtain ⟨l', r', hl', hr', rfl⟩ := instance_join.mp hg
  rw [instance_slot] at hl hr hl' hr'
  subst hl hr hl' hr'
  obtain ⟨same, -⟩ | ⟨same, -⟩ := Formula.exchanged_join.mp h
  · exact same
  · exact same

theorem pins_const (j : Junction) (n : Nat) (v : Bool) : (join j (slot n) (const v)).Pins n := by
  intro σ τ f g hf hg h
  obtain ⟨l, r, hl, hr, rfl⟩ := instance_join.mp hf
  obtain ⟨l', r', hl', hr', rfl⟩ := instance_join.mp hg
  rw [instance_slot] at hl hl'
  rw [instance_const] at hr hr'
  subst hl hr hl' hr'
  obtain ⟨same, -⟩ | ⟨left, right⟩ := Formula.exchanged_join.mp h
  · exact same
  · exact left.trans right

/-- If the second operand contains the first one, the operands cannot be mistaken for one
    another, since the one that contains the other is larger. -/
theorem operands_exchanged {j : Junction} {n : Nat} (hn : slot n ∈ q.inner)
    {l r l' r' : Formula} (hl : (slot n).Instance σ l) (hr : q.Instance σ r)
    (hl' : (slot n).Instance τ l') (hr' : q.Instance τ r')
    (h : Exchanged (.join j l r) (.join j l' r')) : Exchanged l l' ∧ Exchanged r r' := by
  obtain same | ⟨left, right⟩ := Formula.exchanged_join.mp h
  · exact same
  · have := hr.size_lt hn
    have := hr'.size_lt hn
    rw [instance_slot] at hl hl'
    rw [hl] at left
    rw [hl'] at right
    have := left.size_eq
    have := right.size_eq
    omega

theorem pins_of_inside {j : Junction} {n : Nat} (hn : slot n ∈ q.inner) :
    (join j (slot n) q).Pins n := by
  intro σ τ f g hf hg h
  obtain ⟨l, r, hl, hr, rfl⟩ := instance_join.mp hf
  obtain ⟨l', r', hl', hr', rfl⟩ := instance_join.mp hg
  obtain ⟨same, -⟩ := operands_exchanged hn hl hr hl' hr' h
  rw [instance_slot] at hl hl'
  exact hl ▸ hl' ▸ same

/-- The other slot is pinned by the one that it is joined with. -/
theorem pins_other (j : Junction) (n m : Nat) :
    (join j (slot n) (join j (slot n) (slot m))).Pins m := by
  intro σ τ f g hf hg h
  obtain ⟨l, r, hl, hr, rfl⟩ := instance_join.mp hf
  obtain ⟨l', r', hl', hr', rfl⟩ := instance_join.mp hg
  obtain ⟨known, others⟩ := operands_exchanged (by simp [inner]) hl hr hl' hr' h
  obtain ⟨a, b, ha, hb, rfl⟩ := instance_join.mp hr
  obtain ⟨a', b', ha', hb', rfl⟩ := instance_join.mp hr'
  rw [instance_slot] at hl hl' ha ha' hb hb'
  subst hl hl' ha ha' hb hb'
  obtain ⟨-, same⟩ | ⟨left, right⟩ := Formula.exchanged_join.mp others
  · exact same
  · exact (right.trans known.symm).trans left

/-- A pinned slot is bound as wanted, whichever match it is. -/
theorem Matches.exchanged_of_pins (h : Matches p f b c) {n : Nat} (hn : p.Pins n)
    (hg : p.Instance σ g) (hgf : Exchanged g f) {k : Formula} (hk : c.get? n = some k) :
    Exchanged (σ n) k := by
  obtain ⟨g', hg', hgf'⟩ := h.exists_instance c.agreesWith_total
  have same : Exchanged (σ n) (c.total n) := hn σ c.total g g' hg hg' (hgf.trans hgf'.symm)
  exact c.agreesWith_total n k hk ▸ same

/-! Orderly patterns. -/

/-- Whether the operands of each junction share only slots that are bound before, or that the
    left one pins. The left operand is matched first, so its slots are bound before the right
    one is. -/
def Orderly (bound : List Nat) : Pattern → Prop
  | not p => p.Orderly bound
  | join _ p q => p.Orderly bound ∧ q.Orderly (p.slots ++ bound) ∧
      ∀ n ∈ p.slots, n ∈ q.slots → n ∈ bound ∨ p.Pins n
  | any | slot _ | const _ => True

/-- Whether the slots of the list are bound, and no slot of the pattern is bound otherwise
    than wanted. -/
structure Ready (σ : Nat → Formula) (bound : List Nat) (p : Pattern) (b : Bindings) : Prop where
  bound : ∀ n ∈ bound, (b.get? n).isSome
  wanted : ∀ n ∈ p.slots, ∀ g, b.get? n = some g → Exchanged (σ n) g

namespace Ready
variable {bound : List Nat}

theorem empty (σ : Nat → Formula) (p : Pattern) : Ready σ [] p Bindings.empty :=
  ⟨fun _ hn => absurd hn List.not_mem_nil, fun n _ g h => by
    rw [Bindings.get?_empty] at h
    cases h⟩

theorem left (h : Ready σ bound (join j p q) b) : Ready σ bound p b :=
  ⟨h.bound, fun n hn => h.wanted n (List.mem_append_left _ hn)⟩

/-- However the left operand was matched, its bindings are ready for the right one. -/
theorem right (h : Ready σ bound (join j p q) b)
    (shared : ∀ n ∈ p.slots, n ∈ q.slots → n ∈ bound ∨ p.Pins n) (hm : Matches p f b c)
    (hg : p.Instance σ g) (hgf : Exchanged g f) : Ready σ (p.slots ++ bound) q c := by
  have kept : ∀ n ∈ bound, ∃ k, b.get? n = some k ∧ c.get? n = some k := by
    intro n hn
    obtain ⟨k, hk⟩ := Option.isSome_iff_exists.mp (h.bound n hn)
    exact ⟨k, hk, hm.get?_mono hk⟩
  refine ⟨?bound, ?wanted⟩
  case bound =>
    intro n hn
    obtain hn | hn := List.mem_append.mp hn
    · exact hm.isSome_get? hn
    · obtain ⟨k, -, hk⟩ := kept n hn
      exact Option.isSome_iff_exists.mpr ⟨k, hk⟩
  case wanted =>
    intro n hn k hk
    have before : b.get? n = some k → Exchanged (σ n) k :=
      h.wanted n (List.mem_append_right _ hn) k
    by_cases hp : n ∈ p.slots
    · obtain hbound | pinned := shared n hp hn
      · obtain ⟨k', hb, hc⟩ := kept n hbound
        exact before (hb.trans (hc.symm.trans hk))
      · exact hm.exchanged_of_pins pinned hg hgf hk
    · exact before ((hm.get?_of_not_mem hp).symm.trans hk)

end Ready

/-- The search misses nothing that an orderly pattern describes. -/
theorem exists_unify_of_orderly {bound : List Nat} (hp : p.Orderly bound)
    (hs : ∀ n ∈ p.slots, n < slotCount) (hg : p.Instance σ g) (hgf : Exchanged g f)
    (hb : Ready σ bound p b) : ∃ c, p.unify f b = (true, c) := by
  induction hg generalizing f bound b with
  | any => exact ⟨b, rfl⟩
  | slot n =>
    have hn : n ∈ (slot n).slots := List.mem_singleton_self n
    cases h : b.get? n with
    | none => exact ⟨b.set n f, by simp [unify, Bindings.bind, h, hs n hn]⟩
    | some k =>
      have hk : k.alike f :=
        Formula.alike_iff_exchanged.mpr ((hb.wanted n hn k h).symm.trans hgf)
      exact ⟨b, by simp [unify, Bindings.bind, h, hk]⟩
  | const v =>
    cases hgf
    exact ⟨b, by simp [unify]⟩
  | not _ ih =>
    cases hgf with
    | not hgf => exact ih hp hs hgf ⟨hb.bound, hb.wanted⟩
  | @join j p q l r hl hr ihl ihr =>
    obtain ⟨hp, hq, shared⟩ := hp
    have hsp : ∀ n ∈ p.slots, n < slotCount := fun n hn => hs n (List.mem_append_left _ hn)
    have hsq : ∀ n ∈ q.slots, n < slotCount := fun n hn => hs n (List.mem_append_right _ hn)
    -- the two operands match one after the other, on whichever side of the formula they are
    have inTurn : ∀ {u v : Formula}, Exchanged l u → Exchanged r v →
        ∃ d, both (p.unify u) (q.unify v) b = (true, d) := by
      intro u v hu hv
      obtain ⟨c, hc⟩ := ihl hp hsp hu hb.left
      obtain ⟨d, hd⟩ := ihr hq hsq hv (hb.right shared (matches_of_unify hc) hl hu)
      exact ⟨d, both_eq_true.mpr ⟨c, hc, hd⟩⟩
    cases hgf with
    | keep hu hv =>
      obtain ⟨d, hd⟩ := inTurn hu hv
      exact exists_unify_join (.inl hd)
    | swap _ hu hv =>
      obtain ⟨d, hd⟩ := inTurn hu hv
      exact exists_unify_join (.inr hd)

/-! Which patterns are orderly. -/

/-- Whether the pattern holds no junction. -/
def isPath : Pattern → Bool
  | any | slot _ | const _ => true
  | not p => p.isPath
  | join .. => false

/-- Whether the pattern is a path, or joins a path with another such pattern. -/
def isComb : Pattern → Bool
  | join _ p q => p.isPath && q.isComb
  | p => p.isPath

/-- A path holds at most one slot, and leaves it no choice. -/
theorem pins_of_isPath (hp : p.isPath) : ∀ n ∈ p.slots, p.Pins n := by
  induction p with
  | any | const => exact fun _ hn => absurd hn List.not_mem_nil
  | slot m =>
    intro n hn
    exact List.mem_singleton.mp hn ▸ pins_slot m
  | not p ih => exact fun n hn => (ih hp n hn).not
  | join => cases hp

theorem orderly_of_isPath {bound : List Nat} (hp : p.isPath) : p.Orderly bound := by
  induction p with
  | any | slot | const => trivial
  | not p ih => exact ih hp
  | join => cases hp

theorem orderly_of_isComb {bound : List Nat} (hp : p.isComb) : p.Orderly bound := by
  induction p generalizing bound with
  | join j p q _ ih =>
    obtain ⟨path, comb⟩ := Bool.and_eq_true_iff.mp hp
    exact ⟨orderly_of_isPath path, ih comb, fun n hn _ => .inr (pins_of_isPath path n hn)⟩
  | _ => exact orderly_of_isPath hp

/-- Where each slot occurs once, no operand has to do with what another one binds. -/
theorem orderly_of_nodup {bound : List Nat} (hp : p.slots.Nodup) : p.Orderly bound := by
  induction p generalizing bound with
  | any | slot | const => trivial
  | not p ih => exact ih hp
  | join j p q ihp ihq =>
    obtain ⟨hp, hq, apart⟩ := List.nodup_append.mp hp
    exact ⟨ihp hp, ihq hq, fun n hn hn' => absurd rfl (apart n hn n hn')⟩

/-- An orderly pattern matches the formulas that it describes, up to the order of operands,
    and no others. -/
theorem orderly_misses_no_match (hp : p.Orderly []) (hs : ∀ n ∈ p.slots, n < slotCount) :
    (p.match? f).isSome ↔ ∃ σ g, p.Instance σ g ∧ g.alike f = true := by
  simp only [Option.isSome_iff_exists, match?_eq_some, Formula.alike_iff_exchanged]
  refine ⟨?_, ?_⟩
  · intro ⟨b, hb⟩
    exact ⟨b.total, (matches_of_unify hb).exists_instance b.agreesWith_total⟩
  · intro ⟨σ, g, hg, hgf⟩
    exact exists_unify_of_orderly hp hs hg hgf (.empty σ p)

/-- The left operand holds a junction and binds the slot that is on the right, but may bind
    it in one way only, since one of its operands contains the other. -/
theorem orderly_misses_no_match_regrouping :
    let p : Pattern := .join .and (.join .or (.slot 0) (.join .or (.slot 0) (.slot 1))) (.slot 1)
    let f : Formula := .and (.var "x") (.or (.or (.var "x") (.var "y")) (.var "y"))
    p.Orderly [] ∧ (∀ n ∈ p.slots, n < slotCount) ∧ (p.match? f).isSome := by
  intro p f
  have inner : (join .or (slot 0) (join .or (slot 0) (slot 1))).Orderly [] :=
    orderly_of_isComb rfl
  have orderly : p.Orderly [] := by
    refine ⟨inner, trivial, fun n _ hn => .inr ?_⟩
    exact List.mem_singleton.mp hn ▸ pins_other .or 0 1
  have inRange : ∀ n ∈ p.slots, n < slotCount := by decide
  let σ : Nat → Formula := fun n => if n = 0 then .var "y" else .var "x"
  have described : p.Instance σ
      (.and (.or (.var "y") (.or (.var "y") (.var "x"))) (.var "x")) :=
    .join (.join (.slot 0) (.join (.slot 0) (.slot 1))) (.slot 1)
  exact ⟨orderly, inRange,
    (orderly_misses_no_match orderly inRange).mpr ⟨σ, _, described, by decide⟩⟩

/-- The left operand `a ∨ b` fits `x ∨ y` as it stands, with `x` for `a`. The right operand
    then calls for `y` to be `x`, and the other order of `x ∨ y` is not tried. -/
theorem first_fit_hides_match :
    let p : Pattern := .join .and (.join .or (.slot 0) (.slot 1)) (.slot 0)
    let f : Formula := .and (.or (.var "x") (.var "y")) (.var "y")
    (∀ n ∈ p.slots, n < slotCount) ∧ (∃ σ g, p.Instance σ g ∧ g.alike f = true) ∧
      p.match? f = none := by
  intro p f
  let σ : Nat → Formula := fun n => if n = 0 then .var "y" else .var "x"
  have described : p.Instance σ (.and (.or (.var "y") (.var "x")) (.var "y")) :=
    .join (.join (.slot 0) (.slot 1)) (.slot 0)
  exact ⟨by decide, ⟨σ, _, described, by decide⟩, by decide⟩

end Pattern

end Propositional
