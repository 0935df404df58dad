import Propositional.Proofs.Stacks

/- Why tokens are no formula. The verdict on a token list needs neither operators nor
   operands: it is found by a scan that keeps in mind whether an operand is expected and
   how many groups are open (`Outline`). Of what a parse has reached the same can be said
   (`Parse.outline`), and each token changes it as it changes the scan, with the same
   failure if there is one (`Parse.Reached.verdict_take`). So a parse fails exactly where
   the scan does, for the reason that the scan gives (`parse_fails_as_outline`). -/
namespace Propositional

/-- What the tokens so far ask for next, and the number of groups they leave open. -/
structure Outline where
  expectsOperand : Bool
  depth : Nat
deriving DecidableEq

namespace Outline

/-- The outline of no tokens. -/
def start : Outline := ⟨true, 0⟩

def takeOperand (o : Outline) (t : Token) : Except ParseError Outline :=
  match t.symbol with
  | .var | .constant =>
    if t.value = .none then .error (.expectedOperand t.display)
    else .ok { o with expectsOperand := false }
  | .opening => .ok { o with depth := o.depth + 1 }
  | .not => .ok o
  | _ => .error (.expectedOperand t.display)

def takeOperator (o : Outline) (t : Token) : Except ParseError Outline :=
  match t.symbol with
  | .connective _ => .ok { o with expectsOperand := true }
  | .closing =>
    if o.depth = 0 then .error .unmatchedClose else .ok { o with depth := o.depth - 1 }
  | _ => .error (.expectedOperator t.display)

/-- The outline after one more token. -/
def take (o : Outline) (t : Token) : Except ParseError Outline :=
  if o.expectsOperand then o.takeOperand t else o.takeOperator t

/-- What is wrong at the end, if the last of the tokens is the given one. -/
def finish (o : Outline) (last : Option Token) : Except ParseError Unit :=
  if o.expectsOperand then
    match last with
    | none => .error .empty
    | some t =>
      if t.symbol = .opening then .error .unclosedParenthesis
      else .error (.missingOperand t.display)
  else if 0 < o.depth then .error .unclosedParenthesis
  else .ok ()

/-- Whether the tokens are a formula, or the reason why not. -/
def scan (ts : List Token) : Except ParseError Unit := do
  let o ← ts.foldlM take start
  o.finish ts.getLast?

end Outline

/-- What a result says without the notes: the view of what was reached, or the error. -/
def verdict {α β : Type} (view : α → β) : Except ParseFailure α → Except ParseError β
  | .ok a => .ok (view a)
  | .error failure => .error failure.error

namespace Parse

/-- The number of groups that are open. -/
def openings (ops : List Token) : Nat := ops.countP (fun t => t.symbol == .opening)

/-- The outline of the tokens that led to the state. -/
def outline (p : Parse) : Outline := ⟨p.expectsOperand, openings p.operators⟩

/-- The state with nothing on its stacks, as it is before a parse. -/
def reset (p : Parse) : Parse := { p with operators := [], operands := [], expectsOperand := true }

/-- Reads tokens with a parser that was used before. What is left on its stacks is dropped;
    `Formula.parse` is the case of a parser that was not. -/
def reuse (p : Parse) (ts : List Token) : Except ParseFailure Parsed := run p.reset ts

/-! Open groups. -/

section
variable {ops : List Token}

theorem openings_cons_opening {t : Token} (h : t.symbol = .opening) :
    openings (t :: ops) = openings ops + 1 := by
  simp [openings, h]

theorem openings_cons_ne {t : Token} (h : t.symbol ≠ .opening) :
    openings (t :: ops) = openings ops := by
  simp [openings, h]

theorem openings_negate : ∀ (ops : List Token) (f : Formula),
    openings (negate ops f).1 = openings ops
  | [], _ => rfl
  | t :: ts, f => by
    unfold negate
    split
    · next h => rw [openings_negate ts, openings_cons_ne (by simp [h])]
    · rfl

/-- Applying operators closes no group. -/
theorem openings_reduceFor_go {incoming : Symbol} : ∀ {ops : List Token} {p q : Parse},
    reduceFor.go incoming ops p = .ok q → p.operators = ops → openings q.operators = openings ops
  | [], p, q, h, hp => by
    cases h
    rw [hp]
  | t :: ts, p, q, h, hp => by
    unfold reduceFor.go at h
    split at h
    · cases h
      rw [hp]
    · next applies =>
      have closed : t.symbol ≠ .opening := fun ho => applies (.inl ho)
      cases ha : apply { p with operators := ts } t with
      | error e =>
        rw [ha] at h
        cases h
      | ok p' =>
        rw [ha] at h
        rw [openings_cons_ne closed]
        exact openings_reduceFor_go h (operators_apply ha)

/-- Where an operand is expected, the newest thing that waits is the last token. -/
theorem Waiting.head?_eq {w : List Token} {fs : List Formula} (h : Waiting w ops fs) :
    ops.head? = w.getLast? := by
  cases h with
  | start => rfl
  | negation | opening | operator => simp

end

/-! What a token does to the outline. -/

section
variable {w : List Token} {p : Parse}

theorem verdict_takeOperand {ops : List Token} {fs : List Formula} {log : List Reduction}
    (t : Token) : verdict outline (takeOperand ⟨ops, fs, true, log⟩ t) =
      (outline ⟨ops, fs, true, log⟩).takeOperand t := by
  by_cases leaf : t.symbol.isOperand = true
  · rw [takeOperand_leaf _ leaf]
    have operand : (outline ⟨ops, fs, true, log⟩).takeOperand t =
        if t.value = .none then .error (.expectedOperand t.display)
        else .ok ⟨false, openings ops⟩ := by
      unfold Outline.takeOperand
      cases hs : t.symbol with
      | var | constant => rfl
      | eof | connective | not | closing | opening =>
        rw [hs] at leaf
        cases leaf
    rw [operand]
    cases hv : t.value <;> simp [leaf?, hv, verdict, outline, fail, pushOperand_eq, openings_negate]
  · unfold takeOperand Outline.takeOperand
    cases hs : t.symbol with
    | opening => simp [verdict, outline, openings_cons_opening hs]
    | not =>
      have closed : t.symbol ≠ .opening := by simp [hs]
      simp [verdict, outline, openings_cons_ne closed]
    | var | constant => exact absurd (by rw [hs]; rfl) leaf
    | eof | closing | connective => rfl

/-- A closing parenthesis fails exactly where no group is open. -/
theorem Holding.verdict_closeGroup {ops : List Token} {fs : List Formula} (log : List Reduction)
    (h : Holding operandLevel w ops fs) : verdict outline (Parse.closeGroup ⟨ops, fs, false, log⟩) =
      if openings ops = 0 then .error .unmatchedClose else .ok ⟨false, openings ops - 1⟩ := by
  obtain ⟨k, ops', fs', log', run, holding, stops⟩ := h.reduceFor_eof false log
  have depth : openings ops' = openings ops := openings_reduceFor_go run rfl
  have connectives : ∀ t ∈ ops.takeWhile (fun t => t.symbol != .opening), t.symbol ≠ .not := by
    obtain ⟨hw, ready, _⟩ := h
    exact hw.not_negation ready
  unfold Parse.closeGroup
  rw [closeGroup_go_eq _ _ rfl connectives, run, ← depth]
  obtain ⟨hw, _, _⟩ := holding
  cases ops' with
  | nil => rfl
  | cons o ops'' =>
    rw [openings_cons_opening stops.opening_of_eof]
    simp [bind, Except.bind, verdict, outline, pushOperand_eq, openings_negate]

theorem Holding.verdict_takeOperator {ops : List Token} {fs : List Formula} (log : List Reduction)
    (h : Holding operandLevel w ops fs) (t : Token) :
    verdict outline (Parse.takeOperator ⟨ops, fs, false, log⟩ t) =
      (outline ⟨ops, fs, false, log⟩).takeOperator t := by
  unfold Parse.takeOperator Outline.takeOperator
  cases hs : t.symbol with
  | connective c =>
    -- operators that are applied take no parenthesis with them
    obtain ⟨k, ops', fs', log', run, _⟩ :=
      h.reduceFor_go c.leftLevel_le (fun _ => yields_connective) false log
    have depth : openings ops' = openings ops := openings_reduceFor_go run rfl
    have closed : t.symbol ≠ .opening := by simp [hs]
    simp [reduceFor, run, bind, Except.bind, verdict, outline, openings_cons_ne closed, depth]
  | closing => exact h.verdict_closeGroup log
  | eof | not | opening | var | constant => rfl

/-- A token does to what a parse has reached what it does to the outline. -/
theorem Reached.verdict_take (h : Reached w p) (t : Token) :
    verdict outline (p.take t) = p.outline.take t := by
  cases h with
  | operand => exact verdict_takeOperand t
  | operator hf => exact hf.verdict_takeOperator _ t

theorem Reached.verdict_foldlM : ∀ {w : List Token} {p : Parse} (ts : List Token), Reached w p →
    verdict outline (ts.foldlM Parse.take p) = ts.foldlM Outline.take p.outline
  | _, _, [], _ => rfl
  | w, p, t :: ts, h => by
    rw [List.foldlM_cons, List.foldlM_cons, ← h.verdict_take t]
    cases taken : p.take t with
    | error e => rfl
    | ok q => exact (h.take taken).verdict_foldlM ts

/-- At the end an operand is missing, or a group is still open, or nothing is wrong. -/
theorem Reached.verdict_finish (h : Reached w p) :
    verdict (fun _ => ()) p.finish = p.outline.finish w.getLast? := by
  cases h with
  | @operand ops fs log hw =>
    rw [← hw.head?_eq]
    unfold Parse.finish Parse.drain Outline.finish
    cases ops with
    | nil => rfl
    | cons t ts =>
      show verdict _ (Except.bind (if t.symbol = .opening then _ else _) _) =
        if t.symbol = .opening then _ else _
      by_cases ho : t.symbol = .opening
      · rw [if_pos ho, if_pos ho]
        rfl
      · rw [if_neg ho, if_neg ho]
        rfl
  | @operator ops fs log hf =>
    obtain ⟨k, ops', fs', log', run, holding, stops⟩ := hf.reduceFor_eof false log
    have depth : openings ops' = openings ops := openings_reduceFor_go run rfl
    have drained : drain ⟨ops, fs, false, log⟩ = .ok ⟨ops', fs', false, log'⟩ := run
    unfold Parse.finish Outline.finish
    rw [drained]
    show _ = (if 0 < openings ops then .error .unclosedParenthesis else .ok () : Except ParseError Unit)
    rw [← depth]
    obtain ⟨hw, _, _⟩ := holding
    cases ops' with
    | nil => rfl
    | cons o ops'' =>
      rw [openings_cons_opening stops.opening_of_eof, if_pos (Nat.succ_pos _)]
      rfl

end

/-- From a state with empty stacks the tokens are judged as the scan judges them. -/
theorem verdict_run (log : List Reduction) (ts : List Token) :
    verdict (fun _ => ()) (run ⟨[], [], true, log⟩ ts) = Outline.scan (beforeEnd ts) := by
  have start : Reached [] ⟨[], [], true, log⟩ := .operand .start
  have scanned : verdict outline ((beforeEnd ts).foldlM take ⟨[], [], true, log⟩) =
      (beforeEnd ts).foldlM Outline.take Outline.start := start.verdict_foldlM (beforeEnd ts)
  rw [run_eq, Outline.scan, ← scanned]
  cases reached : (beforeEnd ts).foldlM take ⟨[], [], true, log⟩ with
  | error e => rfl
  | ok p =>
    have ended : Reached ([] ++ beforeEnd ts) p := start.foldlM_take reached
    exact ended.verdict_finish

end Parse

/-- A token list is rejected exactly where the scan of the tokens in front of the first end of
    input finds something wrong, with the error that the scan finds, and is read as a formula
    where it finds nothing; so it is with a parser in whatever state another parse left it. -/
theorem parse_fails_as_outline (ts : List Token) :
    verdict (fun _ => ()) (Formula.parse ts) = Outline.scan (beforeEnd ts) ∧
    ∀ p : Parse, verdict (fun _ => ()) (p.reuse ts) = Outline.scan (beforeEnd ts) :=
  ⟨Parse.verdict_run [] ts, fun p => Parse.verdict_run p.reductions ts⟩

/-- In `(p &` the missing operand is noticed, and not the open group. -/
example : Outline.scan [⟨.opening, .literal "("⟩, ⟨.var, .literal "p"⟩,
    ⟨.connective (.junction .and), .literal "&"⟩] = .error (.missingOperand "&") := rfl

end Propositional
