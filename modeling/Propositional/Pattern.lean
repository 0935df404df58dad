import Propositional.Formula.Alike
import Propositional.Formula.Render

/- Patterns for canonical formulas. A slot stands for any formula, and for the same
   one, up to the order of operands, wherever it occurs; a wildcard stands for any
   formula. `Pattern.unify` compares a pattern with a formula in the presence of
   bindings; a junction matches in either order of its operands, and bindings made
   on the way to a failed attempt are undone before the next. `Pattern.build` is
   the way back, from bindings to a formula. -/
namespace Propositional

/-- The number of slots that bindings have room for. -/
def slotCount : Nat := 2

inductive Pattern where
  | any
  | slot (n : Nat)
  | const (value : Bool)
  | not (operand : Pattern)
  | join (j : Junction) (left right : Pattern)
deriving DecidableEq

/-- The formulas that the slots stand for. -/
structure Bindings where
  first : Option Formula
  second : Option Formula
deriving DecidableEq

namespace Bindings

/-- The bindings with nothing bound. -/
def empty : Bindings := ⟨none, none⟩

/-- The formula bound to a slot. -/
def get? (b : Bindings) : Nat → Option Formula
  | 0 => b.first
  | 1 => b.second
  | _ => none

/-- The bindings with the slot's formula replaced, if there is such a slot. -/
def set (b : Bindings) : Nat → Formula → Bindings
  | 0, f => { b with first := some f }
  | 1, f => { b with second := some f }
  | _, _ => b

/-- Binds a slot, or compares the formula with the one that the slot is bound to. -/
def bind (b : Bindings) (n : Nat) (f : Formula) : Bool × Bindings :=
  match b.get? n with
  | some bound => (bound.alike f, b)
  | none => if n < slotCount then (true, b.set n f) else (false, b)

theorem get?_set {b : Bindings} {n : Nat} {f : Formula} (h : n < slotCount) (m : Nat) :
    (b.set n f).get? m = if m = n then some f else b.get? m := by
  unfold slotCount at h
  match n, m with
  | 0, 0 | 0, 1 | 0, _ + 2 | 1, 0 | 1, 1 | 1, _ + 2 => simp [set, get?]
  | _ + 2, _ => omega

theorem get?_eq_none {b : Bindings} {n : Nat} (h : slotCount ≤ n) : b.get? n = none := by
  unfold slotCount at h
  match n with
  | 0 | 1 => omega
  | _ + 2 => rfl

end Bindings

namespace Pattern

/-- The letter shown for a slot. Letters go on after `z` through the first 256
    characters, and then start again. -/
def slotLetter (n : Nat) : String := String.singleton (Char.ofNat ((97 + n) % 256))

/-- The pattern as text. -/
def render : Pattern → String
  | any => "_"
  | slot n => slotLetter n
  | const b => truthLetter b
  | not p => "(¬" ++ p.render ++ ")"
  | join j l r => "(" ++ l.render ++ " " ++ (Connective.junction j).glyph ++ " " ++ r.render ++ ")"

def hasWildcard : Pattern → Bool
  | any => true
  | slot _ | const _ => false
  | not p => p.hasWildcard
  | join _ l r => l.hasWildcard || r.hasWildcard

/-- Compares by one and then by another, which sees the bindings of the first. -/
def both (first second : Bindings → Bool × Bindings) (b : Bindings) : Bool × Bindings :=
  match first b with
  | (true, b) => second b
  | (false, b) => (false, b)

/-- Whether the pattern matches the formula, and the bindings afterwards. -/
def unify : Pattern → Formula → Bindings → Bool × Bindings
  | any, _, b => (true, b)
  | slot n, f, b => b.bind n f
  | const v, .const w, b => (v == w, b)
  | not p, .not f, b => p.unify f b
  | join j p q, .join k l r, b =>
    if j = k then
      match both (p.unify l) (q.unify r) b with
      | (true, b) => (true, b)
      | (false, _) =>
        match both (p.unify r) (q.unify l) b with
        | (true, b) => (true, b)
        | (false, _) => (false, b)
    else (false, b)
  | _, _, b => (false, b)

/-- The bindings under which the pattern matches the formula, if it does. -/
def match? (p : Pattern) (f : Formula) : Option Bindings :=
  match p.unify f Bindings.empty with
  | (true, b) => some b
  | (false, _) => none

/-- The formula that the pattern describes under the bindings. A wildcard and an
    unbound slot describe none. -/
def build (b : Bindings) : Pattern → Option Formula
  | any => none
  | slot n => b.get? n
  | const v => some (.const v)
  | not p => do
    let f ← p.build b
    some (.not f)
  | join j p q => do
    let l ← p.build b
    let r ← q.build b
    some (.join j l r)

end Pattern

/-- Why a pattern or a rule cannot be made. -/
inductive PatternError where
  | slotOutOfRange (n : Nat)
  | wildcardInReplacement (rule : String) (replacement : Pattern)
deriving DecidableEq

def PatternError.message : PatternError → String
  | .slotOutOfRange n => "metavariable slot " ++ Nat.repr n ++ " out of range"
  | .wildcardInReplacement rule replacement =>
    "rule " ++ rule ++ ": replacement " ++ replacement.render ++ " contains a wildcard"

/-- The pattern of a slot that bindings have room for. -/
def Pattern.slot? (n : Nat) : Except PatternError Pattern :=
  if n < slotCount then .ok (.slot n) else .error (.slotOutOfRange n)

end Propositional
