import Propositional.Proofs.StackOrder

/- What a parse takes for granted. `Guarded.run` reads tokens as `Parse.run` does, with the end of
   the input put among the operators, but wherever the stacks are not as they have to be it stops
   and says which assumption was broken (`Lapse`). Where an operator is expected, all that waits
   down to the newest group are connectives with enough operands (`Holding.applicable`), so that no
   assumption is ever broken (`Reached.guarded_run`): the two readings are one. With the order that
   the stacks are in this is `stacks_in_order`. -/
namespace Propositional.Parse

/-- An assumption of a parse that is broken. -/
inductive Lapse where
  /-- An operator has fewer operands than it is applied to. -/
  | missingOperand (operator : Token)
  /-- What is applied to two operands is no connective. -/
  | notConnective (operator : Token)
  /-- A negation still waits when its group is closed. -/
  | nothingToNegate (negation : Token)
  /-- The group that is closed has no formula. -/
  | emptyGroup
  /-- The reading is over, but the end of the input is not on top of what waits. -/
  | noEnd
  /-- Something other than a group is left at the end of the input. -/
  | notOpening (operator : Token)
  /-- No formula is left at the end of the input. -/
  | noFormula
  /-- More than one formula is left at the end of the input. -/
  | manyFormulas
deriving DecidableEq

/-- Why a guarded parse stops. -/
inductive Stop where
  | failed (failure : ParseFailure)
  | lapsed (lapse : Lapse)
deriving DecidableEq

namespace Guarded

def fail {α : Type} (p : Parse) (e : ParseError) : Except Stop α := (p.fail e).mapError .failed

def lapse {α : Type} (l : Lapse) : Except Stop α := .error (.lapsed l)

/-- Applies an operator to the newest operands, which have to be there. -/
def apply (p : Parse) (op : Token) : Except Stop Parse :=
  let applied (f : Formula) (rest : List Formula) : Parse :=
    { p with operands := f :: rest, reductions := ⟨op.symbol, f⟩ :: p.reductions }
  match op.symbol, p.operands with
  | .not, f :: rest => .ok (applied (.not f) rest)
  | .not, [] => lapse (.missingOperand op)
  | s, r :: l :: rest =>
    match Formula.ofSymbol? s l r with
    | some f => .ok (applied f rest)
    | none => lapse (.notConnective op)
  | _, _ => lapse (.missingOperand op)

/-- Applies the newest operators that yield to the incoming one, up to an opening parenthesis. -/
def reduceFor (incoming : Symbol) : List Token → Parse → Except Stop Parse
  | [], p => .ok p
  | t :: ts, p =>
    if t.symbol = .opening ∨ yields t.symbol incoming = false then .ok p
    else do
      let p ← apply { p with operators := ts } t
      reduceFor incoming ts p

/-- Applies the newest operators up to the opening parenthesis, which is taken away. -/
def closeTo : List Token → Parse → Except Stop Parse
  | [], p => fail p .unmatchedClose
  | t :: ts, p =>
    if t.symbol = .opening then .ok { p with operators := ts }
    else if t.symbol = .not then lapse (.nothingToNegate t)
    else do
      let p ← apply { p with operators := ts } t
      closeTo ts p

def closeGroup (p : Parse) : Except Stop Parse := do
  let p ← closeTo p.operators p
  match p.operands with
  | [] => lapse .emptyGroup
  | f :: rest => .ok ({ p with operands := rest }.pushOperand f)

/-- The state after a token where an operand is expected; the input must not end there. -/
def takeOperand (p : Parse) (t : Token) : Except Stop Parse :=
  if t.symbol = .eof then
    match p.operators with
    | [] => fail p .empty
    | u :: _ =>
      if u.symbol = .opening then fail p .unclosedParenthesis
      else fail p (.missingOperand u.display)
  else (p.takeOperand t).mapError .failed

/-- The state after a token where an operator is expected. The end of the input is put on top of
    the operators just as a connective is. -/
def takeOperator (p : Parse) (t : Token) : Except Stop Parse :=
  match t.symbol with
  | .connective _ | .eof => do
    let p ← reduceFor t.symbol p.operators p
    .ok { p with operators := t :: p.operators, expectsOperand := true }
  | .closing => closeGroup p
  | _ => fail p (.expectedOperator t.display)

def take (p : Parse) (t : Token) : Except Stop Parse :=
  if p.expectsOperand then takeOperand p t else takeOperator p t

/-- The formula, once the end of the input is on top of the operators. -/
def conclude (p : Parse) : Except Stop Parsed :=
  match p.operators with
  | [] => lapse .noEnd
  | t :: ops =>
    if t.symbol = .eof then
      match ops, p.operands with
      | u :: _, _ =>
        if u.symbol = .opening then fail p .unclosedParenthesis else lapse (.notOpening u)
      | [], [f] => .ok ⟨f, f.vars, p.reductions.reverse⟩
      | [], [] => lapse .noFormula
      | [], _ :: _ :: _ => lapse .manyFormulas
    else lapse .noEnd

/-- The formula made of the tokens up to the first end of input, which has to be among them.
    The reading is over when the end of the input is taken where an operator is expected. -/
def run (p : Parse) : List Token → Except Stop Parsed
  | [] => conclude p
  | t :: ts => do
    let q ← take p t
    if p.expectsOperand = false ∧ t.symbol = .eof then conclude q else run q ts

end Guarded

/-! Where nothing is broken. -/

/-- The operators down to the newest group are connectives, and there are operands for all that
    wait and one more. -/
structure Applicable (ops : List Token) (fs : List Formula) : Prop where
  signs : ∀ t ∈ innermost ops, ∃ c, t.symbol = .connective c
  operands : fs.length = (connectives ops).length + 1

section
variable {n : Nat} {w ops ops' : List Token} {fs : List Formula} {t : Token} {incoming : Symbol}
  {m : Bool} {log : List Reduction}

theorem Holding.applicable (h : Holding n w ops fs) : Applicable ops fs := by
  obtain ⟨hw, ready, -⟩ := h
  refine ⟨fun t ht => ?_, congrArg (· + 1) hw.length_operands⟩
  have waits : t ∈ ops := (List.takeWhile_prefix _).mem ht
  have inside : t.symbol ≠ .opening := by simpa using List.all_eq_true.mp List.all_takeWhile t ht
  have sign : t.symbol ≠ .not := hw.not_negation ready t ht
  exact ((hw.symbols t waits).resolve_left inside).resolve_left sign

/-- An operator in front of a group is applied to two operands, and what is left is as before. -/
theorem Applicable.cons (h : Applicable (t :: ops) fs) (inside : t.symbol ≠ .opening) :
    ∃ c l r rest, t.symbol = .connective c ∧ fs = r :: l :: rest ∧
      ∀ f, Applicable ops (f :: rest) := by
  obtain ⟨signs, operands⟩ := h
  rw [innermost_cons_ne inside, List.forall_mem_cons] at signs
  obtain ⟨⟨c, hc⟩, signs⟩ := signs
  rw [connectives_cons hc, List.length_cons] at operands
  match fs, operands with
  | r :: l :: rest, operands =>
    refine ⟨c, l, r, rest, hc, rfl, fun f => ⟨signs, ?_⟩⟩
    simpa using operands

theorem guarded_apply_connective {c : Connective} (ht : t.symbol = .connective c)
    (l r : Formula) : Guarded.apply ⟨ops, r :: l :: fs, m, log⟩ t =
      .ok ⟨ops, .binary c l r :: fs, m, ⟨.connective c, .binary c l r⟩ :: log⟩ := by
  simp [Guarded.apply, ht, Formula.ofSymbol?]

theorem Applicable.guarded_reduceFor : ∀ {ops ops' : List Token} {fs : List Formula}
    {log : List Reduction}, Applicable ops fs →
    Guarded.reduceFor incoming ops ⟨ops', fs, m, log⟩ =
      (reduceFor.go incoming ops ⟨ops', fs, m, log⟩).mapError .failed
  | [], _, _, _, _ => rfl
  | t :: ts, ops', fs, log, h => by
    unfold Guarded.reduceFor reduceFor.go
    by_cases stops : t.symbol = .opening ∨ yields t.symbol incoming = false
    · rw [if_pos stops, if_pos stops]
      rfl
    · obtain ⟨c, l, r, rest, hc, rfl, further⟩ := h.cons (fun ho => stops (.inl ho))
      rw [if_neg stops, if_neg stops, guarded_apply_connective hc, apply_connective hc]
      exact (further _).guarded_reduceFor

/-- Up to its opening parenthesis a group is applied without a lapse, and has a formula then. -/
theorem Applicable.guarded_closeTo : ∀ {ops ops' : List Token} {fs : List Formula}
    {log : List Reduction}, Applicable ops fs →
    Guarded.closeTo ops ⟨ops', fs, m, log⟩ =
      (closeGroup.go ops ⟨ops', fs, m, log⟩).mapError .failed ∧
    ∀ q, closeGroup.go ops ⟨ops', fs, m, log⟩ = .ok q → q.operands ≠ []
  | [], _, _, _, _ => ⟨rfl, fun _ hq => nomatch hq⟩
  | t :: ts, ops', fs, log, h => by
    unfold Guarded.closeTo closeGroup.go
    by_cases ho : t.symbol = .opening
    · rw [if_pos ho, if_pos ho]
      refine ⟨rfl, fun q hq => ?_⟩
      have some : 0 < fs.length := by rw [h.operands]; exact Nat.succ_pos _
      cases hq
      exact List.ne_nil_of_length_pos some
    · obtain ⟨c, l, r, rest, hc, rfl, further⟩ := h.cons ho
      have sign : t.symbol ≠ .not := by simp [hc]
      rw [if_neg ho, if_neg ho, if_neg sign, if_neg sign, guarded_apply_connective hc,
        apply_connective hc]
      exact (further _).guarded_closeTo

theorem Applicable.guarded_closeGroup (h : Applicable ops fs) :
    Guarded.closeGroup ⟨ops, fs, m, log⟩ = (closeGroup ⟨ops, fs, m, log⟩).mapError .failed := by
  obtain ⟨same, formula⟩ : Guarded.closeTo ops ⟨ops, fs, m, log⟩ =
    (closeGroup.go ops ⟨ops, fs, m, log⟩).mapError .failed ∧ _ := h.guarded_closeTo
  unfold Guarded.closeGroup closeGroup
  rw [same]
  cases closed : closeGroup.go ops ⟨ops, fs, m, log⟩ with
  | error e => rfl
  | ok q =>
    obtain ⟨f, rest, hq⟩ := List.exists_cons_of_ne_nil (formula q closed)
    show (match q.operands with | [] => _ | _ :: _ => _) =
      Except.mapError _ (match q.operands with | [] => _ | _ :: _ => _)
    rw [hq]
    rfl

theorem Applicable.guarded_takeOperator (h : Applicable ops fs) (more : t.symbol ≠ .eof) :
    Guarded.takeOperator ⟨ops, fs, m, log⟩ t =
      (takeOperator ⟨ops, fs, m, log⟩ t).mapError .failed := by
  unfold Guarded.takeOperator takeOperator
  cases hs : t.symbol with
  | connective c =>
    simp only [h.guarded_reduceFor, reduceFor]
    cases reduceFor.go (.connective c) ops ⟨ops, fs, m, log⟩ <;> rfl
  | closing => exact h.guarded_closeGroup
  | eof => exact absurd hs more
  | not | opening | var | constant => rfl

end

/-- A token other than the end of the input is taken without a lapse. -/
theorem Reached.guarded_take {w : List Token} {p : Parse} {t : Token} (h : Reached w p)
    (more : t.symbol ≠ .eof) : Guarded.take p t = (p.take t).mapError .failed := by
  cases h with
  | operand hw => exact if_neg more
  | operator hf => exact hf.applicable.guarded_takeOperator more

/-- Where an operand is expected, both readings stop at the end of the input, with one error. -/
theorem guarded_end_operand {ops ts : List Token} {fs : List Formula} {log : List Reduction}
    {t : Token} (ht : t.symbol = .eof) : Guarded.run ⟨ops, fs, true, log⟩ (t :: ts) =
      (Parse.finish ⟨ops, fs, true, log⟩).mapError .failed := by
  have taken : Guarded.take ⟨ops, fs, true, log⟩ t = Guarded.takeOperand ⟨ops, fs, true, log⟩ t := rfl
  unfold Guarded.run Parse.finish
  rw [taken, Guarded.takeOperand, if_pos ht, drain, if_pos rfl]
  cases ops with
  | nil => rfl
  | cons u us =>
    by_cases ho : u.symbol = .opening
    · simp only [ho, if_true]
      rfl
    · simp only [ho, if_false]
      rfl

/-- At the end of the input an operand is missing, or the stacks make one formula, or a group is
    still open. -/
theorem Reached.guarded_end {w : List Token} {p : Parse} {t : Token} (h : Reached w p)
    (ht : t.symbol = .eof) (ts : List Token) :
    Guarded.run p (t :: ts) = p.finish.mapError .failed := by
  cases h with
  | operand => exact guarded_end_operand ht
  | @operator ops fs log hf =>
    obtain ⟨k, ops', fs', log', run, holding, stops⟩ := hf.reduceFor_eof false log
    have drained : drain ⟨ops, fs, false, log⟩ = .ok ⟨ops', fs', false, log'⟩ := run
    have applied : Guarded.reduceFor .eof ops ⟨ops, fs, false, log⟩ =
        .ok ⟨ops', fs', false, log'⟩ := by
      rw [hf.applicable.guarded_reduceFor, run]
      rfl
    have taken : Guarded.take ⟨ops, fs, false, log⟩ t = .ok ⟨t :: ops', fs', true, log'⟩ := by
      simp [Guarded.take, Guarded.takeOperator, ht, applied, bind, Except.bind]
    have count := holding.applicable.operands
    unfold Guarded.run Parse.finish
    rw [taken, drained]
    show (if _ then Guarded.conclude _ else _) = _
    rw [if_pos ⟨rfl, ht⟩]
    unfold Guarded.conclude
    cases ops' with
    | nil =>
      obtain ⟨f, rfl⟩ := List.length_eq_one_iff.mp count
      exact if_pos ht
    | cons u us =>
      simp only [ht, stops.opening_of_eof, if_true]
      rfl

/-- A parse takes nothing for granted that is not so. -/
theorem Reached.guarded_run : ∀ {w : List Token} {p : Parse} (ts : List Token), Reached w p →
    Guarded.run p (ts ++ [Token.eof]) = (p.run ts).mapError .failed
  | _, _, [], h => h.guarded_end rfl []
  | _, p, t :: ts, h => by
    unfold Parse.run
    by_cases ht : t.symbol = .eof
    · rw [if_pos ht]
      exact h.guarded_end ht _
    · rw [if_neg ht, List.cons_append, Guarded.run, h.guarded_take ht]
      cases taken : p.take t with
      | error e => rfl
      | ok q =>
        show (if _ then _ else _) = _
        rw [if_neg (fun ended => ht ended.2)]
        exact (h.take taken).guarded_run ts

/-! What a parse that has taken some tokens still does, and what it never reports. -/

theorem take_eof {p : Parse} {t : Token} (ht : t.symbol = .eof) : ∃ e, p.take t = .error e := by
  unfold take takeOperand takeOperator
  rw [ht]
  cases p.expectsOperand <;> exact ⟨_, rfl⟩

/-- The state after some tokens is the one in which the others are read. -/
theorem run_append (rest : List Token) : ∀ {w : List Token} {p q : Parse},
    w.foldlM take p = .ok q → p.run (w ++ rest) = q.run rest
  | [], p, q, h => by
    cases h
    rfl
  | t :: w, p, q, h => by
    rw [List.foldlM_cons] at h
    cases taken : p.take t with
    | error e =>
      rw [taken] at h
      cases h
    | ok p' =>
      have more : t.symbol ≠ .eof := by
        intro ended
        obtain ⟨e, failed⟩ := take_eof (p := p) ended
        rw [taken] at failed
        cases failed
      rw [taken] at h
      rw [List.cons_append, Parse.run, if_neg more, taken]
      exact run_append rest h

end Propositional.Parse

namespace Propositional

namespace Outline
variable {o : Outline} {t : Token} {e : ParseError}

theorem takeOperand_error (h : o.takeOperand t = .error e) : e = .expectedOperand t.display := by
  unfold takeOperand at h
  cases hs : t.symbol with
  | var | constant =>
    simp only [hs] at h
    split at h
    · cases h
      rfl
    · cases h
  | opening | not =>
    simp only [hs] at h
    cases h
  | eof | closing | connective =>
    simp only [hs] at h
    cases h
    rfl

theorem takeOperator_error (h : o.takeOperator t = .error e) :
    e = .expectedOperator t.display ∨ e = .unmatchedClose := by
  unfold takeOperator at h
  cases hs : t.symbol with
  | closing =>
    simp only [hs] at h
    split at h
    · cases h
      exact .inr rfl
    · cases h
  | connective =>
    simp only [hs] at h
    cases h
  | eof | not | opening | var | constant =>
    simp only [hs] at h
    cases h
    exact .inl rfl

/-- What is wrong with a token is its place, or that it closes no group. -/
theorem take_error (h : o.take t = .error e) :
    e = .expectedOperand t.display ∨ e = .expectedOperator t.display ∨ e = .unmatchedClose := by
  unfold take at h
  split at h
  · exact .inl (takeOperand_error h)
  · exact .inr (takeOperator_error h)

theorem foldlM_take_ne_nothingToNegate {s : String} : ∀ {ts : List Token} {o : Outline},
    ts.foldlM take o ≠ .error (.nothingToNegate s)
  | [], _, h => nomatch h
  | t :: ts, o, h => by
    rw [List.foldlM_cons] at h
    cases taken : o.take t with
    | error e =>
      rw [taken] at h
      cases h
      simpa using take_error taken
    | ok o' =>
      rw [taken] at h
      exact foldlM_take_ne_nothingToNegate h

theorem finish_ne_nothingToNegate {s : String} {last : Option Token} :
    o.finish last ≠ .error (.nothingToNegate s) := by
  unfold finish
  split
  · cases last with
    | none => exact nofun
    | some t =>
      dsimp only
      split <;> exact nofun
  · split <;> exact nofun

theorem scan_ne_nothingToNegate {s : String} {ts : List Token} :
    scan ts ≠ .error (.nothingToNegate s) := by
  unfold scan
  cases scanned : ts.foldlM take start with
  | error e =>
    intro h
    cases h
    exact foldlM_take_ne_nothingToNegate scanned
  | ok o => exact finish_ne_nothingToNegate

end Outline

/-- The stacks stay in order, and a parse relies on nothing else. After any tokens that were taken,
    by a parser in whatever state another parse left it, the stacks are as `Parse.InOrder` says,
    and the tokens that are left are read from there. So no assumption of a parse is ever broken:
    to stop at one that is makes no difference to any token list, and no such stop occurs. And no
    formula is rejected for a negation that has nothing to negate. -/
theorem stacks_in_order (q : Parse) :
    (∀ (w : List Token) (p : Parse), w.foldlM Parse.take q.reset = .ok p →
      p.InOrder ∧ ∀ rest, q.reuse (w ++ rest) = p.run rest) ∧
    ∀ ts : List Token,
      Parse.Guarded.run q.reset (ts ++ [Token.eof]) = (q.reuse ts).mapError .failed ∧
      (∀ l, Parse.Guarded.run q.reset (ts ++ [Token.eof]) ≠ .error (.lapsed l)) ∧
      ∀ failure, q.reuse ts = .error failure → ∀ s, failure.error ≠ .nothingToNegate s := by
  have start : Parse.Reached [] q.reset := .operand .start
  refine ⟨fun w p hp => ?_, fun ts => ?_⟩
  · have reached : Parse.Reached ([] ++ w) p := start.foldlM_take hp
    exact ⟨reached.inOrder, fun rest => Parse.run_append rest hp⟩
  · have same : Parse.Guarded.run q.reset (ts ++ [Token.eof]) = (q.reuse ts).mapError .failed :=
      start.guarded_run ts
    refine ⟨same, fun l lapsed => ?_, fun failure failed s hs => ?_⟩
    · rw [same] at lapsed
      cases read : q.reuse ts with
      | error failure =>
        rw [read] at lapsed
        cases lapsed
      | ok r =>
        rw [read] at lapsed
        cases lapsed
    · have scanned := Parse.verdict_run q.reductions ts
      have judged : verdict (fun _ => ()) (q.reuse ts) = .error (.nothingToNegate s) := by
        rw [failed, ← hs]
        rfl
      exact Outline.scan_ne_nothingToNegate (scanned.symm.trans judged)

/-- In `~ ( p -> q & ~` two negations, a group and two connectives wait, with two operands, after
    another parse was left; the tokens `r )` make a formula of it, and `)` does not. -/
theorem stacks_in_order_in_group :
    let sign (s : Symbol) (text : String) : Token := ⟨s, .literal text⟩
    let closing := sign .closing ")"
    let w : List Token := [sign .not "~", sign .opening "(", sign .var "p",
      sign (.connective (.derived .implies)) "->", sign .var "q",
      sign (.connective (.junction .and)) "&", sign .not "~"]
    let q : Parse := ⟨[closing], [.var "x"], false, []⟩
    ∃ p : Parse, w.foldlM Parse.take q.reset = .ok p ∧ p.InOrder ∧
      p.operators.map Token.symbol = [.not, .connective (.junction .and),
        .connective (.derived .implies), .opening, .not] ∧
      p.operands = [.var "q", .var "p"] ∧
      (∃ r, p.run [sign .var "r", closing] = .ok r) ∧
      p.run [closing] = .error ⟨.expectedOperand ")", []⟩ ∧
      Parse.Guarded.run q.reset (w ++ [closing] ++ [Token.eof]) =
        .error (.failed ⟨.expectedOperand ")", []⟩) := by
  intro sign closing w q
  obtain ⟨kept, guarded⟩ := stacks_in_order q
  have taken : w.foldlM Parse.take q.reset = .ok _ := rfl
  obtain ⟨order, further⟩ := kept w _ taken
  have failed : q.reuse (w ++ [closing]) = .error ⟨.expectedOperand ")", []⟩ := rfl
  refine ⟨_, taken, order, rfl, rfl, ⟨_, rfl⟩, (further _).symm.trans failed, ?_⟩
  rw [(guarded _).1, failed]
  rfl

/-- A negation that waits behind an operand is an order that no tokens lead to. -/
example : Parse.Guarded.run ⟨[⟨.not, .literal "~"⟩], [.var "p"], false, []⟩
    [⟨.closing, .literal ")"⟩, Token.eof] =
      .error (.lapsed (.nothingToNegate ⟨.not, .literal "~"⟩)) := rfl

end Propositional
