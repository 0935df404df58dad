import Propositional.Proofs.Parsing

/- What the stacks of a parse say about the tokens that were taken. `Waiting w ops fs`
   holds where an operand is expected after the tokens `w`, and `Holding n w ops fs` where
   the newest operand is complete at level `n`. Every token that is taken keeps the two
   (`Reached.take`), and a failure leaves nothing to keep. At the end of the input no
   operator waits, so that the one operand left is derived from all of the tokens: what
   is read is what the grammar derives (`parse_eq_ok_iff_derives`). -/
namespace Propositional

theorem Connective.rightLevel_le_rank {c d : Connective} (h : c.rank < d.leftLevel) :
    c.rightLevel ≤ d.rank := by
  unfold leftLevel at h
  unfold rightLevel
  by_cases hc : c.groupsRight = true
  · rw [if_pos hc]
    split at h <;> omega
  · rw [if_neg hc]
    split at h
    · next hd =>
      -- the two differ, since one of them groups to the right and the other does not
      have ne : c.rank ≠ d.rank := fun e => hc (rank_injective c d e ▸ hd)
      omega
    · omega

namespace Parse

/-- The tokens are those of the operands that wait and of the operators behind them. -/
inductive Waiting : List Token → List Token → List Formula → Prop where
  | start : Waiting [] [] []
  | negation {t : Token} {w ops : List Token} {fs : List Formula} : t.symbol = .not →
      Waiting w ops fs → Waiting (w ++ [t]) (t :: ops) fs
  | opening {t : Token} {w ops : List Token} {fs : List Formula} : t.symbol = .opening →
      Waiting w ops fs → Waiting (w ++ [t]) (t :: ops) fs
  | operator {c : Connective} {t : Token} {w ls ops : List Token} {l : Formula}
      {fs : List Formula} : t.symbol = .connective c → Ready c.rank ops →
      Derives c.leftLevel ls l → Waiting w ops fs → Waiting (w ++ ls ++ [t]) (t :: ops) (l :: fs)

/-- As `Waiting`, with one more operand, complete at the level, behind the newest operator. -/
inductive Holding : Nat → List Token → List Token → List Formula → Prop where
  | intro {n : Nat} {w us ops : List Token} {f : Formula} {fs : List Formula} :
      Waiting w ops fs → Ready n ops → Derives n us f → Holding n (w ++ us) ops (f :: fs)

/-- The state may be the one after the tokens. -/
inductive Reached : List Token → Parse → Prop where
  | operand {w ops : List Token} {fs : List Formula} {log : List Reduction} :
      Waiting w ops fs → Reached w ⟨ops, fs, true, log⟩
  | operator {w ops : List Token} {fs : List Formula} {log : List Reduction} :
      Holding operandLevel w ops fs → Reached w ⟨ops, fs, false, log⟩

section
variable {n : Nat} {w ops : List Token} {fs : List Formula} {incoming : Symbol}

/-- Negations wait only directly behind an opening parenthesis or for the next operand. -/
theorem Waiting.not_negation (h : Waiting w ops fs) : ∀ {n : Nat}, Ready n ops →
    ∀ t ∈ ops.takeWhile (fun t => t.symbol != .opening), t.symbol ≠ .not := by
  induction h with
  | start => exact fun _ _ ht => nomatch ht
  | negation hs =>
    intro n ready
    obtain ho | ⟨c, hc, _⟩ := ready
    · exact absurd (hs.symm.trans ho) (by decide)
    · exact absurd (hs.symm.trans hc) (by simp)
  | opening hs =>
    intro n _ t ht
    simp [hs] at ht
  | operator hs ready _ _ ih =>
    intro n _ t ht
    rw [List.takeWhile_cons_of_pos (by simp [hs])] at ht
    obtain rfl | ht := List.mem_cons.mp ht
    · simp [hs]
    · exact ih ready t ht

/-- An operand takes the negations that wait for it with it. -/
theorem Waiting.negate (h : Waiting w ops fs) : ∀ {us : List Token} {f : Formula},
    Derives operandLevel us f →
      Holding operandLevel (w ++ us) (negate ops f).1 ((negate ops f).2 :: fs) := by
  induction h with
  | start => exact fun hf => .intro .start trivial hf
  | negation hs _ ih =>
    intro us f hf
    have negated := ih (.negation hs hf)
    rw [Parse.negate, if_pos hs]
    rw [List.append_assoc, List.singleton_append]
    exact negated
  | @opening t _ ops _ hs hw =>
    intro us f hf
    have ready : Ready operandLevel (t :: ops) := .inl hs
    rw [ready.negate_eq]
    exact .intro (.opening hs hw) ready hf
  | @operator c t _ _ ops _ _ hs ready hl hw =>
    intro us f hf
    have ready' : Ready operandLevel (t :: ops) := .inr ⟨c, hs, c.rightLevel_le⟩
    rw [ready'.negate_eq]
    exact .intro (.operator hs ready hl hw) ready' hf

/-- Applying the operators that yield always works, and keeps what the stacks say. -/
theorem Holding.reduceFor_go {m : Nat} (h : Holding n w ops fs) (hm : m ≤ n)
    (hy : ∀ c : Connective, yields (.connective c) incoming = true ↔ m ≤ c.rank)
    (b : Bool) (log : List Reduction) :
    ∃ k ops' fs' log', reduceFor.go incoming ops ⟨ops, fs, b, log⟩ = .ok ⟨ops', fs', b, log'⟩ ∧
      m ≤ k ∧ Holding k w ops' fs' ∧ Stops incoming ops' := by
  obtain @⟨w, us, ops, f, fs, hw, ready, hf⟩ := h
  -- by induction on the operators; the level of the newest operand drops to that of the
  -- operator that was applied to it
  induction hw generalizing n us f log with
  | start => exact ⟨n, _, _, log, rfl, hm, .intro .start ready hf, trivial⟩
  | negation hs =>
    obtain ho | ⟨c, hc, _⟩ := ready
    · exact absurd (hs.symm.trans ho) (by decide)
    · exact absurd (hs.symm.trans hc) (by simp)
  | @opening t w ops fs hs hw =>
    have stops : Stops incoming (t :: ops) := .inl hs
    exact ⟨n, _, _, log, reduceFor_go_stop _ stops, hm, .intro (.opening hs hw) ready hf, stops⟩
  | @operator c t w ls ops l fs hs readyL hl hw ih =>
    by_cases hyield : yields (.connective c) incoming = true
    · obtain ho | ⟨d, hd, level⟩ := ready
      · exact absurd (hs.symm.trans ho) (by simp)
      · obtain rfl : c = d := Symbol.connective.inj (hs.symm.trans hd)
        obtain ⟨k, ops', fs', log', run, hk, holding, stops⟩ :=
          ih ((hy c).mp hyield) _ (.binary hs hl (hf.mono level)) readyL
        rw [reduceFor_go_apply hs hyield]
        refine ⟨k, ops', fs', log', run, hk, ?_, stops⟩
        simpa using holding
    · have stops : Stops incoming (t :: ops) := by
        refine .inr ?_
        rw [hs]
        exact Bool.eq_false_iff.mpr hyield
      exact ⟨n, _, _, log, reduceFor_go_stop _ stops, hm,
        .intro (.operator hs readyL hl hw) ready hf, stops⟩

/-- At the end of the input all operators are applied, up to an opening parenthesis. -/
theorem Holding.reduceFor_eof (h : Holding n w ops fs) (b : Bool) (log : List Reduction) :
    ∃ k ops' fs' log', reduceFor.go .eof ops ⟨ops, fs, b, log⟩ = .ok ⟨ops', fs', b, log'⟩ ∧
      Holding k w ops' fs' ∧ Stops .eof ops' := by
  have all (c : Connective) : yields (.connective c) .eof = true ↔ 0 ≤ c.rank :=
    ⟨fun _ => Nat.zero_le _, fun _ => yields_eof _⟩
  obtain ⟨k, ops', fs', log', run, _, holding, stops⟩ := h.reduceFor_go (Nat.zero_le _) all b log
  exact ⟨k, ops', fs', log', run, holding, stops⟩

/-- An operator that nothing yields to may have an operand that is read next. -/
theorem Ready.of_stops {c : Connective} : ∀ {ops : List Token}, Ready n ops →
    Stops (.connective c) ops → Ready c.rank ops
  | [], _, _ => trivial
  | _ :: _, .inl ho, _ => .inl ho
  | _ :: _, .inr ⟨_, _, _⟩, .inl ho => .inl ho
  | _ :: _, .inr ⟨d, hd, _⟩, .inr hs => by
    refine .inr ⟨d, hd, Connective.rightLevel_le_rank ?_⟩
    rw [hd, Bool.eq_false_iff, Ne, yields_connective] at hs
    omega

/-- At the end of the input only an opening parenthesis still waits. -/
theorem Stops.opening_of_eof {t : Token} (h : Stops .eof (t :: ops)) : t.symbol = .opening := by
  obtain ho | hy := h
  · exact ho
  · rw [yields_eof] at hy
    exact absurd hy (by decide)

theorem derives_of_leaf {t : Token} {f : Formula} (ht : t.symbol.isOperand)
    (hf : leaf? t = some f) : Derives operandLevel [t] f := by
  unfold leaf? at hf
  cases hv : t.value with
  | constant b =>
    rw [hv] at hf
    cases hf
    exact .const ht hv
  | literal x =>
    rw [hv] at hf
    cases hf
    exact .var ht hv
  | none =>
    rw [hv] at hf
    cases hf

theorem Waiting.takeOperand {t : Token} {log : List Reduction} {q : Parse}
    (h : Waiting w ops fs) (hq : takeOperand ⟨ops, fs, true, log⟩ t = .ok q) :
    Reached (w ++ [t]) q := by
  by_cases leaf : t.symbol.isOperand = true
  · rw [takeOperand_leaf _ leaf] at hq
    cases hf : leaf? t with
    | none =>
      rw [hf] at hq
      cases hq
    | some f =>
      simp only [hf, pushOperand_eq] at hq
      cases hq
      exact .operator (h.negate (derives_of_leaf leaf hf))
  · unfold Parse.takeOperand at hq
    cases hs : t.symbol with
    | opening =>
      simp only [hs] at hq
      cases hq
      exact .operand (.opening hs h)
    | not =>
      simp only [hs] at hq
      cases hq
      exact .operand (.negation hs h)
    | var | constant => exact absurd (by rw [hs]; rfl) leaf
    | eof | closing | connective =>
      simp only [hs] at hq
      cases hq

theorem Holding.closeGroup {t : Token} {log : List Reduction} {q : Parse}
    (h : Holding operandLevel w ops fs) (ht : t.symbol = .closing)
    (hq : closeGroup ⟨ops, fs, false, log⟩ = .ok q) : Reached (w ++ [t]) q := by
  obtain ⟨k, ops', fs', log', run, holding, stops⟩ := h.reduceFor_eof false log
  have connectives : ∀ t ∈ ops.takeWhile (fun t => t.symbol != .opening), t.symbol ≠ .not := by
    obtain ⟨hw, ready, _⟩ := h
    exact hw.not_negation ready
  unfold Parse.closeGroup at hq
  rw [closeGroup_go_eq _ _ rfl connectives, run] at hq
  obtain @⟨w', us, ops', f, fs', hw', _, hf⟩ := holding
  cases ops' with
  | nil => cases hq
  | cons o ops'' =>
    have ho := stops.opening_of_eof
    cases hw' with
    | negation hn _ => exact absurd (hn.symm.trans ho) (by decide)
    | operator hc _ _ _ => exact absurd (hc.symm.trans ho) (by simp)
    | opening _ hw'' =>
      -- the group is an operand of what waits in front of the parenthesis
      have grouped := hw''.negate (.group ho ht (hf.mono (Nat.zero_le _)))
      simp only [bind, Except.bind, pushOperand_eq] at hq
      cases hq
      refine .operator ?_
      simpa using grouped

theorem Holding.takeOperator {t : Token} {log : List Reduction} {q : Parse}
    (h : Holding operandLevel w ops fs) (hq : takeOperator ⟨ops, fs, false, log⟩ t = .ok q) :
    Reached (w ++ [t]) q := by
  unfold Parse.takeOperator at hq
  cases hs : t.symbol with
  | connective c =>
    obtain ⟨k, ops', fs', log', run, level, holding, stops⟩ :=
      h.reduceFor_go c.leftLevel_le (fun _ => yields_connective) false log
    simp only [hs, reduceFor, run, bind, Except.bind] at hq
    cases hq
    obtain ⟨hw, ready, hf⟩ := holding
    exact .operand (.operator hs (ready.of_stops stops) (hf.mono level) hw)
  | closing =>
    simp only [hs] at hq
    exact h.closeGroup hs hq
  | eof | not | opening | var | constant =>
    simp only [hs] at hq
    cases hq

/-- Taking a token keeps what the stacks say. -/
theorem Reached.take {t : Token} {p q : Parse} (h : Reached w p) (hq : p.take t = .ok q) :
    Reached (w ++ [t]) q := by
  cases h with
  | operand hw => exact hw.takeOperand hq
  | operator hf => exact hf.takeOperator hq

/-- So does taking any number of them. -/
theorem Reached.foldlM_take : ∀ {w ts : List Token} {p q : Parse}, Reached w p →
    ts.foldlM Parse.take p = .ok q → Reached (w ++ ts) q
  | w, [], p, q, h, hq => by
    cases hq
    rw [List.append_nil]
    exact h
  | w, t :: ts, p, q, h, hq => by
    rw [List.foldlM_cons] at hq
    cases ht : p.take t with
    | error e =>
      rw [ht] at hq
      cases hq
    | ok p' =>
      rw [ht] at hq
      have rest := (h.take ht).foldlM_take hq
      rw [List.append_assoc] at rest
      exact rest

/-- A state that is read as a formula has derived it from all of the tokens. -/
theorem Reached.finish {p : Parse} {r : Parsed} (h : Reached w p) (hr : p.finish = .ok r) :
    Derives 0 w r.formula := by
  unfold Parse.finish at hr
  cases hd : p.drain with
  | error e =>
    rw [hd] at hr
    cases hr
  | ok q =>
    rw [hd] at hr
    unfold Parse.drain at hd
    cases h with
    | @operand ops fs log _ =>
      -- an operand is missing
      simp only [if_true] at hd
      split at hd
      · cases hd
      · split at hd <;> cases hd
    | @operator ops fs log hf =>
      obtain ⟨k, ops', fs', log', run, holding, _⟩ := hf.reduceFor_eof false log
      simp only [reduceFor, run, Bool.false_eq_true, if_false] at hd
      cases hd
      obtain @⟨w', us, ops', f, fs', hw', _, derived⟩ := holding
      cases hw' with
      | start =>
        cases hr
        exact derived.mono (Nat.zero_le _)
      | negation | opening | operator => cases hr

end

end Parse

/-- What is read is what the grammar derives, whatever was noted before. -/
theorem Parse.derives_of_run {log : List Reduction} {ts : List Token} {r : Parsed}
    (h : (⟨[], [], true, log⟩ : Parse).run ts = .ok r) : Derives 0 (beforeEnd ts) r.formula := by
  rw [Parse.run_eq] at h
  cases hp : (beforeEnd ts).foldlM Parse.take ⟨[], [], true, log⟩ with
  | error e =>
    rw [hp] at h
    cases h
  | ok p =>
    rw [hp] at h
    have start : Parse.Reached [] ⟨[], [], true, log⟩ := .operand .start
    exact (start.foldlM_take hp).finish h

theorem derives_of_parse {ts : List Token} {r : Parsed} (h : Formula.parse ts = .ok r) :
    Derives 0 (beforeEnd ts) r.formula :=
  Parse.derives_of_run h

theorem vars_of_parse {ts : List Token} {r : Parsed} (h : Formula.parse ts = .ok r) :
    r.vars = r.formula.vars := by
  have parsed := parse_of_derives (derives_of_parse h)
  rw [h] at parsed
  injection parsed with same
  exact congrArg Parsed.vars same

/-- The grammar derives at most one formula from a token list. -/
theorem Derives.unique {ts : List Token} {f g : Formula} (hf : Derives 0 (beforeEnd ts) f)
    (hg : Derives 0 (beforeEnd ts) g) : f = g := by
  have same := (parse_of_derives hf).symm.trans (parse_of_derives hg)
  injection same with same
  injection same

/-- A token list is read as a formula exactly when the grammar derives the formula from the
    tokens in front of the first end of input, and its variables are returned with it. -/
theorem parse_eq_ok_iff_derives (ts : List Token) (f : Formula) (vars : List String) :
    (∃ reductions, Formula.parse ts = .ok ⟨f, vars, reductions⟩) ↔
      Derives 0 (beforeEnd ts) f ∧ vars = f.vars := by
  refine ⟨?_, ?_⟩
  · intro ⟨reductions, h⟩
    have derived := derives_of_parse h
    have parsed := parse_of_derives derived
    rw [h] at parsed
    injection parsed with same
    injection same with _ hv _
    exact ⟨derived, hv⟩
  · intro ⟨derived, hv⟩
    subst hv
    exact ⟨f.reductions, parse_of_derives derived⟩

end Propositional
