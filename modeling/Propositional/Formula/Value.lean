import Propositional.Formula

/- The truth value of a formula. An assignment gives values to some variables.
   Both operands of a connective are always evaluated, the left one first, so a
   variable without a value makes the whole formula fail, and the leftmost such
   variable is the one reported. -/
namespace Propositional

abbrev Assignment := String → Option Bool

inductive EvalError where
  | unassigned (name : String)
deriving DecidableEq

def EvalError.message : EvalError → String
  | .unassigned name => "variable `" ++ name ++ "` has no assigned value"

namespace Formula

/-- The value under an assignment. -/
def eval (s : Assignment) : Formula → Except EvalError Bool
  | const b => .ok b
  | var x =>
    match s x with
    | some b => .ok b
    | none => .error (.unassigned x)
  | not a => do
    let x ← a.eval s
    return !x
  | binary c l r => do
    let x ← l.eval s
    let y ← r.eval s
    return c.apply x y

section
variable {s : Assignment} {a l r : Formula} {c : Connective} {x y : Bool} {e : EvalError}

theorem eval_var_of_some {name : String} (h : s name = some x) : (var name).eval s = .ok x := by
  show (match s name with | some b => _ | none => _) = _
  rw [h]

theorem eval_var_of_none {name : String} (h : s name = none) :
    (var name).eval s = .error (.unassigned name) := by
  show (match s name with | some b => _ | none => _) = _
  rw [h]

theorem eval_not_of_ok (h : a.eval s = .ok x) : (not a).eval s = .ok (!x) := by
  show (a.eval s >>= fun x => pure (!x)) = _
  rw [h]
  rfl

theorem eval_not_of_error (h : a.eval s = .error e) : (not a).eval s = .error e := by
  show (a.eval s >>= fun x => pure (!x)) = _
  rw [h]
  rfl

theorem eval_binary_of_ok (hl : l.eval s = .ok x) (hr : r.eval s = .ok y) :
    (binary c l r).eval s = .ok (c.apply x y) := by
  show (l.eval s >>= fun x => r.eval s >>= fun y => pure (c.apply x y)) = _
  rw [hl, hr]
  rfl

theorem eval_binary_of_left_error (hl : l.eval s = .error e) :
    (binary c l r).eval s = .error e := by
  show (l.eval s >>= fun x => r.eval s >>= fun y => pure (c.apply x y)) = _
  rw [hl]
  rfl

theorem eval_binary_of_right_error (hl : l.eval s = .ok x) (hr : r.eval s = .error e) :
    (binary c l r).eval s = .error e := by
  show (l.eval s >>= fun x => r.eval s >>= fun y => pure (c.apply x y)) = _
  rw [hl, hr]
  rfl

end

end Formula

end Propositional
