import Mathlib.Data.List.Forall2
import Propositional.Proofs.Shrinking

/- Simplification treats ∧ and ∨ alike. The dual of a formula has ∧ for ∨, ⊤ for ⊥, and each
   the other way round (`Formula.dual`). Equality up to the order of operands, matching and
   building commute with this exchange, so that a rule makes of the dual of a formula what
   the dual rule makes of the formula, but for the exchange (`Rule.Mirrors.apply_dual`). The
   standard rules for a junction mirror, in their order, those for the other one; among the
   rules for negations the two for constants change places, and only one of them ever applies
   (`standard_selfDual`). From there the exchange is carried through passes and runs
   (`simplify_dual`). -/
namespace Propositional

/-! Formulas. -/

def Connective.dual : Connective → Connective
  | .junction j => .junction j.dual
  | .derived d => .derived d

/-- The formula with the junctions exchanged for each other, and true for false. A derived
    connective, of which a canonical formula has none, is left as it is. -/
def Formula.dual : Formula → Formula
  | const b => const (!b)
  | var x => var x
  | not a => not a.dual
  | binary c l r => binary c.dual l.dual r.dual

theorem Junction.dual_inj {j k : Junction} : j.dual = k.dual ↔ j = k :=
  (Function.Involutive.injective Junction.dual_dual).eq_iff

theorem Connective.dual_dual (c : Connective) : c.dual.dual = c := by
  cases c with
  | junction j => exact congrArg Connective.junction j.dual_dual
  | derived d => rfl

theorem Connective.dual_beq (c d : Connective) : (c.dual == d.dual) = (c == d) := by
  rw [Bool.eq_iff_iff, beq_iff_eq, beq_iff_eq]
  exact (Function.Involutive.injective Connective.dual_dual).eq_iff

theorem Connective.commutes_dual (c : Connective) : c.dual.commutes = c.commutes := by
  cases c <;> rfl

namespace Formula

theorem alike_dual (f g : Formula) : f.dual.alike g.dual = f.alike g := by
  induction f generalizing g with
  | const b =>
    cases g with
    | const d => cases b <;> cases d <;> rfl
    | _ => rfl
  | var x => cases g <;> rfl
  | not a ih =>
    cases g with
    | not b => exact ih b
    | _ => rfl
  | binary c l r ihl ihr =>
    cases g with
    | binary d l' r' =>
      simp only [dual, alike, Connective.dual_beq, Connective.commutes_dual, ihl, ihr]
    | _ => rfl

theorem size_dual (f : Formula) : f.dual.size = f.size := by
  induction f with
  | const | var => rfl
  | not _ ih => simp only [dual, size, ih]
  | binary _ _ _ ihl ihr => simp only [dual, size, ihl, ihr]

theorem derivedCount_dual (f : Formula) : f.dual.derivedCount = f.derivedCount := by
  induction f with
  | const | var => rfl
  | not _ ih => exact ih
  | binary c _ _ ihl ihr => cases c <;> simp only [dual, Connective.dual, derivedCount, ihl, ihr]

end Formula

theorem Measure.of_dual (f : Formula) : Measure.of f.dual = Measure.of f := by
  simp only [of, f.derivedCount_dual, f.size_dual]

/-! Patterns. -/

def Pattern.dual : Pattern → Pattern
  | any => any
  | slot n => slot n
  | const v => const (!v)
  | not p => not p.dual
  | join j p q => join j.dual p.dual q.dual

namespace Bindings

def dual (b : Bindings) : Bindings := ⟨b.first.map Formula.dual, b.second.map Formula.dual⟩

theorem get?_dual (b : Bindings) (n : Nat) : b.dual.get? n = (b.get? n).map Formula.dual := by
  match n with
  | 0 | 1 | _ + 2 => rfl

theorem set_dual (b : Bindings) (n : Nat) (f : Formula) : b.dual.set n f.dual = (b.set n f).dual := by
  match n with
  | 0 | 1 | _ + 2 => rfl

theorem bind_dual (b : Bindings) (n : Nat) (f : Formula) :
    b.dual.bind n f.dual = Prod.map id dual (b.bind n f) := by
  simp only [bind, get?_dual]
  cases b.get? n with
  | some bound => exact congrArg (·, b.dual) (bound.alike_dual f)
  | none =>
    show (if n < slotCount then (true, b.dual.set n f.dual) else (false, b.dual)) = _
    rw [set_dual]
    split <;> rfl

end Bindings

namespace Pattern

theorem both_dual {first second first' second' : Bindings → Bool × Bindings}
    (hf : ∀ b, first' b.dual = Prod.map id Bindings.dual (first b))
    (hs : ∀ b, second' b.dual = Prod.map id Bindings.dual (second b)) (b : Bindings) :
    both first' second' b.dual = Prod.map id Bindings.dual (both first second b) := by
  unfold both
  rw [hf]
  obtain ⟨_ | _, c⟩ := first b
  · rfl
  · exact hs c

theorem unify_dual (p : Pattern) (f : Formula) (b : Bindings) :
    p.dual.unify f.dual b.dual = Prod.map id Bindings.dual (p.unify f b) := by
  induction p generalizing f b with
  | any => rfl
  | slot n => exact b.bind_dual n f
  | const v =>
    match f with
    | .const w => cases v <;> cases w <;> rfl
    | .join .. | .derived .. | .var _ | .not _ => rfl
  | not p ih =>
    match f with
    | .not a => exact ih a b
    | .join .. | .derived .. | .const _ | .var _ => rfl
  | join j p q ihp ihq =>
    match f with
    | .join k l r =>
      have straight := both_dual (ihp l) (ihq r) b
      have crossed := both_dual (ihp r) (ihq l) b
      simp only [dual, Formula.dual, Connective.dual, unify, Junction.dual_inj, straight, crossed]
      split
      · generalize both (p.unify l) (q.unify r) b = x
        obtain ⟨_ | _, c⟩ := x
        · generalize both (p.unify r) (q.unify l) b = y
          obtain ⟨_ | _, d⟩ := y <;> rfl
        · rfl
      · rfl
    | .derived .. | .const _ | .var _ | .not _ => rfl

theorem match?_dual (p : Pattern) (f : Formula) :
    p.dual.match? f.dual = (p.match? f).map Bindings.dual := by
  have search : p.dual.unify f.dual Bindings.empty = _ := p.unify_dual f Bindings.empty
  unfold match?
  rw [search]
  obtain ⟨_ | _, b⟩ := p.unify f Bindings.empty <;> rfl

theorem build_dual (p : Pattern) (b : Bindings) :
    p.dual.build b.dual = (p.build b).map Formula.dual := by
  induction p with
  | any | const => rfl
  | slot n => exact b.get?_dual n
  | not p ih =>
    simp only [dual, build, ih]
    cases p.build b <;> rfl
  | join j p q ihp ihq =>
    simp only [dual, build, ihp, ihq]
    cases p.build b <;> cases q.build b <;> rfl

end Pattern

/-! Rules. -/

/-- The other rule is the dual of the first one, whatever their names. -/
structure Rule.Mirrors (rule other : Rule) : Prop where
  pattern : other.pattern = rule.pattern.dual
  replacement : other.replacement = rule.replacement.dual

theorem Rule.Mirrors.apply_dual {rule other : Rule} (h : rule.Mirrors other) (f : Formula) :
    other.apply f.dual = (rule.apply f).map Formula.dual := by
  unfold apply
  rw [h.pattern, h.replacement, Pattern.match?_dual]
  cases rule.pattern.match? f with
  | none => rfl
  | some b => exact rule.replacement.build_dual b

namespace RuleSet
variable {rules : RuleSet} {f : Formula}

theorem formula_atRoot (rules : RuleSet) (f : Formula) :
    (rules.atRoot f).formula = ((rules.rulesFor f).findSome? (fun rule => rule.apply f)).getD f := by
  have first : (rules.firstApplying? f).map Prod.snd =
      (rules.rulesFor f).findSome? (fun rule => rule.apply f) := by
    unfold firstApplying?
    rw [List.map_findSome?]
    refine congrArg (List.findSome? · _) (funext fun rule => ?_)
    show ((rule.apply f).map (fun g => (rule, g))).map Prod.snd = rule.apply f
    cases rule.apply f <;> rfl
  rw [← first, atRoot]
  cases rules.firstApplying? f <;> rfl

theorem findSome?_dual {candidates others : List Rule}
    (h : List.Forall₂ Rule.Mirrors candidates others) (f : Formula) :
    others.findSome? (fun rule => rule.apply f.dual) =
      (candidates.findSome? (fun rule => rule.apply f)).map Formula.dual := by
  induction h with
  | nil => rfl
  | @cons rule _ _ _ first _ ih =>
    rw [List.findSome?_cons, List.findSome?_cons, first.apply_dual, ih]
    cases rule.apply f <;> rfl

/-- At the root of the dual of a formula the rules do the dual of what they do at its own. -/
def SelfDual (rules : RuleSet) : Prop :=
  ∀ f : Formula, (rules.atRoot f.dual).formula = (rules.atRoot f).formula.dual

theorem mirrors_junctionRules (j : Junction) :
    List.Forall₂ Rule.Mirrors (junctionRules j) (junctionRules j.dual) := by
  -- law by law, in the order of priority
  cases j <;> repeat' constructor

theorem standard_selfDual : standard.SelfDual
  | .const _ | .var _ | .derived .. => rfl
  -- the rules for the negations of constants exclude one another, so their order is of no account
  | .not (.const v) => by cases v <;> rfl
  | .not (.var _) | .not (.not _) | .not (.join ..) | .not (.derived ..) => rfl
  | .join j l r => by
    rw [formula_atRoot, formula_atRoot]
    have mirrored := findSome?_dual (mirrors_junctionRules j) (.join j l r)
    show Option.getD ((junctionRules j.dual).findSome? _) _ = _
    rw [mirrored]
    exact Option.getD_map ..

/-! Passes and runs. -/

section
variable (hd : rules.SelfDual)
include hd

theorem SelfDual.pass_dual {expand : Formula → Pass} (hf : f.derivedCount = 0) :
    (rules.pass expand f.dual).formula = (rules.pass expand f).formula.dual := by
  induction f, hf using Formula.canonical_induction with
  | const | var => rfl
  | not a _ ih =>
    show (rules.atRoot (.not (rules.pass expand a.dual).formula)).formula = _
    rw [ih]
    exact hd (.not _)
  | join j l r _ _ ihl ihr =>
    show (rules.atRoot (.join j.dual (rules.pass expand l.dual).formula
      (rules.pass expand r.dual).formula)).formula = _
    rw [ihl, ihr]
    exact hd (.join j _ _)

theorem SelfDual.step_dual (hf : f.derivedCount = 0) :
    (rules.step f.dual).formula = (rules.step f).formula.dual := hd.pass_dual hf

/-- Both runs decide alike, since the exchange keeps likeness and measures. -/
theorem SelfDual.repeatStep_dual : ∀ (left done : Nat) {f : Formula}, f.derivedCount = 0 →
    (rules.repeatStep left done f.dual).formula = (rules.repeatStep left done f).formula.dual
  | 0, _, _, _ => rfl
  | left + 1, done, f, hf => by
    have canonical : (rules.step f).formula.derivedCount = 0 := derivedCount_step f
    have rest := repeatStep_dual left (done + 1) canonical
    unfold repeatStep
    dsimp only
    rw [hd.step_dual hf, Formula.alike_dual, Measure.of_dual, Measure.of_dual]
    split
    · rfl
    · split
      · exact rest
      · rfl

end

/-- Simplification treats the junctions alike. With the standard rules, what a step makes of the
    dual of a canonical formula is the dual of what it makes of the formula, and so is what
    every run makes of it. -/
theorem simplify_dual (f : Formula) (h : f.isCanonical = true) :
    (standard.step f.dual).formula = (standard.step f).formula.dual ∧
    ∀ maxSteps, (standard.simplify maxSteps f.dual).formula =
      (standard.simplify maxSteps f).formula.dual := by
  have canonical : f.derivedCount = 0 := Formula.isCanonical_eq_true_iff.mp h
  exact ⟨standard_selfDual.step_dual canonical,
    fun maxSteps => standard_selfDual.repeatStep_dual maxSteps 0 canonical⟩

/-- Where a conjunction is absorbed, its dual is too, and a constant turns into the other one. -/
theorem simplify_dual_absorption :
    let f : Formula := .and (.or (.var "q") (.var "p")) (.or (.const false) (.var "p"))
    f.isCanonical = true ∧
      f.dual = .or (.and (.var "q") (.var "p")) (.and (.const true) (.var "p")) ∧
      (standard.simplify 2 f).formula = .var "p" ∧
      (standard.simplify 2 f.dual).formula = .var "p" := by
  intro f
  have run : (standard.simplify 2 f).formula = .var "p" := by decide
  refine ⟨by decide, rfl, run, ?_⟩
  rw [(simplify_dual f (by decide)).2, run]
  rfl

end RuleSet

end Propositional
