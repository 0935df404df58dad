import Propositional.Formula.Parse

/- The grammar of formulas over tokens. Every connective has a level of its own, the
   loosest one level 0 (`levels`); `Derives n ts f` says that the tokens `ts` are the
   formula `f` with no connective looser than level `n` outside parentheses, and
   `operandLevel` is the level of what binds tighter than every connective. A
   connective groups to the left or to the right by the level of its operands
   (`Derives.binary`), and a token list read in a tight place may stand in a loose one
   (`Derives.mono`). -/
namespace Propositional

/-- The connectives, the loosest first. -/
def levels : List Connective :=
  [.derived .equivalent, .derived .implies, .junction .or, .derived .nor, .derived .xor,
   .junction .and, .derived .nand]

/-- The level of variables, constants, negations and groups in parentheses. -/
def operandLevel : Nat := levels.length

/-- The tokens spell the formula at the level. -/
inductive Derives : Nat → List Token → Formula → Prop where
  | var {t : Token} {x : String} : t.symbol.isOperand → t.value = .literal x →
      Derives operandLevel [t] (.var x)
  | const {t : Token} {b : Bool} : t.symbol.isOperand → t.value = .constant b →
      Derives operandLevel [t] (.const b)
  | negation {t : Token} {ts : List Token} {f : Formula} : t.symbol = .not →
      Derives operandLevel ts f → Derives operandLevel (t :: ts) (.not f)
  | group {o c : Token} {ts : List Token} {f : Formula} : o.symbol = .opening →
      c.symbol = .closing → Derives 0 ts f → Derives operandLevel (o :: (ts ++ [c])) f
  | tighter {n : Nat} {ts : List Token} {f : Formula} : Derives (n + 1) ts f → Derives n ts f
  | toLeft {n : Nat} {c : Connective} {t : Token} {ls rs : List Token} {l r : Formula} :
      levels[n]? = some c → c.groupsRight = false → t.symbol = .connective c →
      Derives n ls l → Derives (n + 1) rs r → Derives n (ls ++ t :: rs) (.binary c l r)
  | toRight {n : Nat} {c : Connective} {t : Token} {ls rs : List Token} {l r : Formula} :
      levels[n]? = some c → c.groupsRight = true → t.symbol = .connective c →
      Derives (n + 1) ls l → Derives n rs r → Derives n (ls ++ t :: rs) (.binary c l r)

/-! Levels and ranks. -/

namespace Connective

theorem levels_getElem?_eq_some {n : Nat} {c : Connective} : levels[n]? = some c ↔ c.rank = n := by
  refine ⟨?_, ?_⟩
  · intro h
    have ranked : ∀ n < levels.length, ∀ c, levels[n]? = some c → c.rank = n := by decide +kernel
    exact ranked n (List.getElem?_eq_some_iff.mp h).1 c h
  · intro h
    subst h
    cases c with
    | junction j => cases j <;> rfl
    | derived d => cases d <;> rfl

theorem rank_lt_operandLevel (c : Connective) : c.rank < operandLevel :=
  (List.getElem?_eq_some_iff.mp (levels_getElem?_eq_some.mpr rfl)).1

/-- The level that the left operand has at least. -/
def leftLevel (c : Connective) : Nat := if c.groupsRight then c.rank + 1 else c.rank

/-- The level that the right operand has at least. -/
def rightLevel (c : Connective) : Nat := if c.groupsRight then c.rank else c.rank + 1

theorem leftLevel_le (c : Connective) : c.leftLevel ≤ operandLevel := by
  have := c.rank_lt_operandLevel
  unfold leftLevel
  split <;> omega

theorem rightLevel_le (c : Connective) : c.rightLevel ≤ operandLevel := by
  have := c.rank_lt_operandLevel
  unfold rightLevel
  split <;> omega

theorem rank_le_leftLevel (c : Connective) : c.rank ≤ c.leftLevel := by
  unfold leftLevel
  split <;> omega

theorem rank_le_rightLevel (c : Connective) : c.rank ≤ c.rightLevel := by
  unfold rightLevel
  split <;> omega

end Connective

namespace Derives
variable {n m : Nat} {ts : List Token} {f : Formula}

theorem of_add : ∀ k : Nat, Derives (m + k) ts f → Derives m ts f
  | 0, h => h
  | k + 1, h => of_add k (.tighter h)

theorem mono (h : Derives n ts f) (hm : m ≤ n) : Derives m ts f := by
  obtain ⟨k, rfl⟩ := Nat.exists_eq_add_of_le hm
  exact of_add k h

theorem binary {c : Connective} {t : Token} {ls rs : List Token} {l r : Formula}
    (ht : t.symbol = .connective c) (hl : Derives c.leftLevel ls l)
    (hr : Derives c.rightLevel rs r) : Derives c.rank (ls ++ t :: rs) (.binary c l r) := by
  unfold Connective.leftLevel at hl
  unfold Connective.rightLevel at hr
  have level := Connective.levels_getElem?_eq_some.mpr (rfl : c.rank = c.rank)
  cases hc : c.groupsRight with
  | false =>
    rw [hc] at hl hr
    exact .toLeft level hc ht hl hr
  | true =>
    rw [hc] at hl hr
    exact .toRight level hc ht hl hr

/-- A variable of the formula stands among its tokens. -/
theorem exists_token (h : Derives n ts f) : ∀ x ∈ f.occurrences,
    ∃ t ∈ ts, t.symbol.isOperand ∧ t.value = .literal x := by
  induction h with
  | @var t y ht hv =>
    intro x hx
    obtain rfl := List.mem_singleton.mp hx
    exact ⟨t, List.mem_singleton.mpr rfl, ht, hv⟩
  | const => exact fun _ hx => nomatch hx
  | negation _ _ ih =>
    intro x hx
    obtain ⟨t, ht, rest⟩ := ih x hx
    exact ⟨t, List.mem_cons_of_mem _ ht, rest⟩
  | group _ _ _ ih =>
    intro x hx
    obtain ⟨t, ht, rest⟩ := ih x hx
    exact ⟨t, by simp [ht], rest⟩
  | tighter _ ih => exact ih
  | toLeft _ _ _ _ _ ihl ihr | toRight _ _ _ _ _ ihl ihr =>
    intro x hx
    obtain hx | hx := List.mem_append.mp hx
    · obtain ⟨t, ht, rest⟩ := ihl x hx
      exact ⟨t, by simp [ht], rest⟩
    · obtain ⟨t, ht, rest⟩ := ihr x hx
      exact ⟨t, by simp [ht], rest⟩

/-- No token of a formula ends the input. -/
theorem symbol_ne_eof (h : Derives n ts f) : ∀ t ∈ ts, t.symbol ≠ .eof := by
  induction h with
  | var ht | const ht =>
    intro t hm he
    obtain rfl := List.mem_singleton.mp hm
    rw [he] at ht
    cases ht
  | negation ht _ ih =>
    intro t hm
    obtain rfl | hm := List.mem_cons.mp hm
    · simp [ht]
    · exact ih t hm
  | group ho hc _ ih =>
    intro t hm
    simp only [List.mem_cons, List.mem_append, List.not_mem_nil, or_false] at hm
    obtain rfl | hm | rfl := hm
    · simp [ho]
    · exact ih t hm
    · simp [hc]
  | tighter _ ih => exact ih
  | toLeft _ _ ht _ _ ihl ihr | toRight _ _ ht _ _ ihl ihr =>
    intro t hm
    rw [List.mem_append, List.mem_cons] at hm
    obtain hm | rfl | hm := hm
    · exact ihl t hm
    · simp [ht]
    · exact ihr t hm

end Derives

/-- The applications that build the formula, in the order of their operators' ends:
    those of the operands first. -/
def Formula.reductions : Formula → List Reduction
  | const _ | var _ => []
  | not a => a.reductions
  | binary c l r => l.reductions ++ r.reductions ++ [⟨.connective c, binary c l r⟩]

end Propositional
