import Propositional.Proofs.Grammar

/- Whatever the grammar derives is read. While the tokens of a formula are read, some of
   its operators wait: `Spine n ops fs log f` says that the operators `ops`, applied to
   the operands `fs`, all newest first, make the formula `f`, none of them looser than
   level `n`, and that `log` was noted so far. An operator that all of them yield to
   turns a spine into its formula (`Spine.reduceFor_go`), so that the tokens of a
   derivation leave a spine on top of the stacks (`Derives.reads`), and after the last of
   them the formula itself (`parse_of_derives`). -/
namespace Propositional

/-- The tokens in front of the first end of input. -/
def beforeEnd (ts : List Token) : List Token := ts.takeWhile (fun t => t.symbol != .eof)

namespace Connective

theorem groupsRight_iff {c : Connective} : c.groupsRight = true ↔ c = .derived .implies := by
  cases c with
  | junction j => simp [groupsRight]
  | derived d => cases d <;> simp [groupsRight]

theorem rank_lt_leftLevel {c d : Connective} (h : c.rightLevel ≤ d.rank) : c.rank < d.leftLevel := by
  unfold rightLevel at h
  unfold leftLevel
  split at h
  · next hc =>
    split
    · omega
    · next hd =>
      have ne : c.rank ≠ d.rank := fun e => hd (rank_injective c d e ▸ hc)
      omega
  · split <;> omega

end Connective

namespace Parse

theorem yields_connective {c d : Connective} :
    yields (.connective c) (.connective d) = true ↔ d.leftLevel ≤ c.rank := by
  have symbol : Symbol.connective d = .connective (.derived .implies) ↔ d.groupsRight = true := by
    rw [Symbol.connective.injEq, Connective.groupsRight_iff]
  unfold yields Connective.leftLevel
  by_cases h : d.groupsRight = true
  · rw [if_pos (symbol.mpr h), if_pos h, decide_eq_true_iff]
    show (d.rank : Int) < c.rank ↔ d.rank + 1 ≤ c.rank
    omega
  · rw [if_neg (mt symbol.mp h), if_neg h, decide_eq_true_iff]
    show (d.rank : Int) ≤ c.rank ↔ d.rank ≤ c.rank
    omega

theorem yields_eof (s : Symbol) : yields s .eof = true := by
  have loosest : Symbol.eof.precedence ≤ s.precedence := by
    cases s with
    | connective c =>
      show (-1 : Int) ≤ c.rank
      omega
    | _ => decide
  unfold yields
  rw [if_neg (by decide)]
  exact decide_eq_true loosest

theorem run_eq : ∀ (p : Parse) (ts : List Token),
    p.run ts = ((beforeEnd ts).foldlM take p >>= finish)
  | _, [] => rfl
  | p, t :: ts => by
    unfold run beforeEnd
    by_cases h : t.symbol = .eof
    · simp [h]
    · simp only [h, if_false, List.takeWhile_cons, bne_iff_ne, ne_eq, not_false_eq_true, if_true,
        List.foldlM_cons, bind_assoc]
      congr 1
      funext q
      exact run_eq q ts

theorem apply_connective {t : Token} {c : Connective} (ht : t.symbol = .connective c)
    (ops : List Token) (l r : Formula) (fs : List Formula) (m : Bool) (log : List Reduction) :
    (⟨ops, r :: l :: fs, m, log⟩ : Parse).apply t =
      .ok ⟨ops, .binary c l r :: fs, m, ⟨.connective c, .binary c l r⟩ :: log⟩ := by
  simp [apply, ht, Formula.ofSymbol?]

theorem operators_apply {p q : Parse} {t : Token} (h : p.apply t = .ok q) :
    q.operators = p.operators := by
  unfold apply at h
  dsimp only at h
  split at h
  · cases h
    rfl
  · cases h
  · split at h
    · cases h
      rfl
    · cases h
  · cases h

/-- What is left of the waiting operators when the negations on top are applied, and the
    formula that they are applied to. -/
def negate : List Token → Formula → List Token × Formula
  | [], f => ([], f)
  | t :: ts, f => if t.symbol = .not then negate ts (.not f) else (t :: ts, f)

theorem pushOperand_go_eq (p : Parse) : ∀ (ops : List Token) (f : Formula),
    pushOperand.go p ops f =
      { p with operators := (negate ops f).1, operands := (negate ops f).2 :: p.operands }
  | [], _ => rfl
  | t :: ts, f => by
    unfold pushOperand.go negate
    split
    · exact pushOperand_go_eq p ts (.not f)
    · rfl

theorem pushOperand_eq (ops : List Token) (fs : List Formula) (m : Bool) (log : List Reduction)
    (f : Formula) :
    (⟨ops, fs, m, log⟩ : Parse).pushOperand f =
      ⟨(negate ops f).1, (negate ops f).2 :: fs, m, log⟩ :=
  pushOperand_go_eq _ ops f

theorem takeOperand_leaf (p : Parse) {t : Token} (ht : t.symbol.isOperand) :
    p.takeOperand t = match leaf? t with
      | some f => .ok { p.pushOperand f with expectsOperand := false }
      | none => p.fail (.expectedOperand t.display) := by
  unfold takeOperand
  cases hs : t.symbol with
  | var | constant => rfl
  | eof | connective | not | closing | opening =>
    rw [hs] at ht
    cases ht

/-- The newest waiting operator may have what is read at the level as its right operand. -/
def Ready (n : Nat) : List Token → Prop
  | [] => True
  | t :: _ => t.symbol = .opening ∨ ∃ c, t.symbol = .connective c ∧ c.rightLevel ≤ n

theorem Ready.mono {n m : Nat} (h : n ≤ m) : ∀ {ops : List Token}, Ready n ops → Ready m ops
  | [], _ => trivial
  | _ :: _, .inl ho => .inl ho
  | _ :: _, .inr ⟨c, hc, hn⟩ => .inr ⟨c, hc, Nat.le_trans hn h⟩

theorem Ready.negate_eq {n : Nat} (f : Formula) : ∀ {ops : List Token}, Ready n ops →
    negate ops f = (ops, f)
  | [], _ => rfl
  | _ :: _, .inl ho => by simp [negate, ho]
  | _ :: _, .inr ⟨c, hc, _⟩ => by simp [negate, hc]

/-- No operator that waits is applied when this one comes in. -/
def Stops (incoming : Symbol) : List Token → Prop
  | [] => True
  | t :: _ => t.symbol = .opening ∨ yields t.symbol incoming = false

theorem reduceFor_go_stop {incoming : Symbol} (p : Parse) : ∀ {ops : List Token},
    Stops incoming ops → reduceFor.go incoming ops p = .ok p
  | [], _ => rfl
  | t :: ts, h => by
    unfold reduceFor.go
    exact if_pos h

theorem reduceFor_go_apply {incoming : Symbol} {t : Token} {c : Connective}
    (ht : t.symbol = .connective c) (hy : yields (.connective c) incoming = true)
    (ops ops' : List Token) (l r : Formula) (fs : List Formula) (m : Bool) (log : List Reduction) :
    reduceFor.go incoming (t :: ops) ⟨ops', r :: l :: fs, m, log⟩ =
      reduceFor.go incoming ops
        ⟨ops, .binary c l r :: fs, m, ⟨.connective c, .binary c l r⟩ :: log⟩ := by
  rw [reduceFor.go, ht, if_neg (by simp [hy]), apply_connective ht]
  rfl

/-- Where no negation waits, the operators up to an opening parenthesis are applied just as
    they are at the end of the input, and then the parenthesis is taken away. -/
theorem closeGroup_go_eq : ∀ (ops : List Token) (p : Parse), p.operators = ops →
    (∀ t ∈ ops.takeWhile (fun t => t.symbol != .opening), t.symbol ≠ .not) →
    closeGroup.go ops p = (reduceFor.go .eof ops p >>= fun q =>
      match q.operators with
      | [] => q.fail .unmatchedClose
      | _ :: ts => .ok { q with operators := ts })
  | [], p, hp, _ => by
    simp only [closeGroup.go, reduceFor.go, bind, Except.bind, hp]
  | t :: ts, p, hp, h => by
    unfold closeGroup.go reduceFor.go
    by_cases ho : t.symbol = .opening
    · simp only [ho, if_true, true_or, bind, Except.bind, hp]
    · have hn : t.symbol ≠ .not := h t (by simp [ho])
      have rest : ∀ u ∈ ts.takeWhile (fun t => t.symbol != .opening), u.symbol ≠ .not :=
        fun u hu => h u (by simp [ho, hu])
      simp only [ho, hn, yields_eof, if_false, Bool.true_eq_false, or_self, bind_assoc]
      cases ha : apply { p with operators := ts } t with
      | error e => rfl
      | ok q => exact closeGroup_go_eq ts q (operators_apply ha) rest

theorem Ready.stops {c : Connective} : ∀ {ops : List Token}, Ready c.rank ops →
    Stops (.connective c) ops
  | [], _ => trivial
  | _ :: _, .inl ho => .inl ho
  | _ :: _, .inr ⟨d, hd, hc⟩ => by
    refine .inr ?_
    rw [hd, Bool.eq_false_iff, Ne, yields_connective]
    have := Connective.rank_lt_leftLevel hc
    omega

/-! Operators and operands on top of the stacks that make one formula. -/

/-- The operators, applied to the operands, make the formula. The first operator that came
    is the formula's own, and the others belong to its right operand. -/
inductive Spine : Nat → List Token → List Formula → List Reduction → Formula → Prop where
  | done {n : Nat} (f : Formula) : Spine n [] [f] f.reductions.reverse f
  | more {n : Nat} {c : Connective} {t : Token} {ops : List Token} {fs : List Formula}
      {log : List Reduction} {l r : Formula} : t.symbol = .connective c → n ≤ c.rank →
      Spine c.rightLevel ops fs log r →
      Spine n (ops ++ [t]) (fs ++ [l]) (log ++ l.reductions.reverse) (.binary c l r)

namespace Spine
variable {n : Nat} {ops : List Token} {fs : List Formula} {log : List Reduction} {f : Formula}

theorem mono {m : Nat} (h : Spine n ops fs log f) (hm : m ≤ n) : Spine m ops fs log f := by
  cases h with
  | done => exact .done f
  | more ht hn hr => exact .more ht (Nat.le_trans hm hn) hr

theorem exists_connective (h : Spine n ops fs log f) : ∀ t ∈ ops, ∃ c, t.symbol = .connective c := by
  induction h with
  | done => exact fun _ ht => nomatch ht
  | more hc _ _ ih =>
    intro t ht
    obtain ht | ht := List.mem_append.mp ht
    · exact ih t ht
    · exact ⟨_, List.mem_singleton.mp ht ▸ hc⟩

/-- An operator that all of the waiting ones yield to finds the formula complete. -/
theorem reduceFor_go {incoming : Symbol} (h : Spine n ops fs log f)
    (hy : ∀ c : Connective, n ≤ c.rank → yields (.connective c) incoming = true)
    (base : List Token) (fs' : List Formula) (m : Bool) (log' : List Reduction) :
    reduceFor.go incoming (ops ++ base) ⟨ops ++ base, fs ++ fs', m, log ++ log'⟩ =
      reduceFor.go incoming base ⟨base, f :: fs', m, f.reductions.reverse ++ log'⟩ := by
  induction h generalizing base fs' log' with
  | done => rfl
  | @more _ c t ops fs log l r ht hn _ ih =>
    have inner := ih (fun d hd => hy d (Nat.le_trans hn (Nat.le_trans c.rank_le_rightLevel hd)))
      (t :: base) (l :: fs') (l.reductions.reverse ++ log')
    simp only [List.append_assoc, List.singleton_append] at inner ⊢
    rw [inner, reduceFor_go_apply ht (hy c hn)]
    simp [Formula.reductions]

end Spine

/-- The tokens are read as the formula, which the negations that wait for it are applied to. -/
def Completes (ts : List Token) (f : Formula) : Prop :=
  ∀ (ops : List Token) (fs : List Formula) (log : List Reduction),
    ts.foldlM take ⟨ops, fs, true, log⟩ =
      .ok ⟨(negate ops f).1, (negate ops f).2 :: fs, false, f.reductions.reverse ++ log⟩

/-- Where an operand of the level may stand, the tokens are read as a spine of the formula. -/
def Reads (n : Nat) (ts : List Token) (f : Formula) : Prop :=
  ∀ (ops : List Token) (fs : List Formula) (log : List Reduction), Ready n ops →
    ∃ ops' fs' log', Spine n ops' fs' log' f ∧
      ts.foldlM take ⟨ops, fs, true, log⟩ =
        .ok ⟨ops' ++ ops, fs' ++ fs, false, log' ++ log⟩

section Reading
variable {n : Nat} {t : Token} {ts ls rs : List Token} {f l r : Formula}

theorem Completes.reads (h : Completes ts f) : Reads n ts f := by
  intro ops fs log ready
  refine ⟨[], [f], f.reductions.reverse, .done f, ?_⟩
  rw [h ops fs log, ready.negate_eq f]
  rfl

theorem completes_leaf (ht : t.symbol.isOperand) (hf : leaf? t = some f) (hlog : f.reductions = []) :
    Completes [t] f := by
  intro ops fs log
  have operand : take ⟨ops, fs, true, log⟩ t =
      .ok ⟨(negate ops f).1, (negate ops f).2 :: fs, false, log⟩ := by
    show takeOperand ⟨ops, fs, true, log⟩ t = _
    rw [takeOperand_leaf _ ht, hf]
    simp only [pushOperand_eq]
  rw [List.foldlM_cons, operand, hlog]
  rfl

theorem Completes.negation (ht : t.symbol = .not) (h : Completes ts f) :
    Completes (t :: ts) (.not f) := by
  intro ops fs log
  have waits : take ⟨ops, fs, true, log⟩ t = .ok ⟨t :: ops, fs, true, log⟩ := by
    simp [take, takeOperand, ht]
  rw [List.foldlM_cons, waits]
  show ts.foldlM take _ = _
  rw [h (t :: ops) fs log, negate, if_pos ht]
  rfl

theorem Reads.group {o c : Token} (ho : o.symbol = .opening) (hc : c.symbol = .closing)
    (h : Reads 0 ts f) : Completes (o :: (ts ++ [c])) f := by
  intro ops fs log
  have waits : take ⟨ops, fs, true, log⟩ o = .ok ⟨o :: ops, fs, true, log⟩ := by
    simp [take, takeOperand, ho]
  obtain ⟨ops', fs', log', spine, read⟩ := h (o :: ops) fs log (.inl ho)
  -- only connectives wait above the parenthesis, so that closing it never meets a negation
  have closes : closeGroup.go (ops' ++ o :: ops) ⟨ops' ++ o :: ops, fs' ++ fs, false, log' ++ log⟩ =
      .ok ⟨ops, f :: fs, false, f.reductions.reverse ++ log⟩ := by
    have connectives : ∀ u ∈ (ops' ++ o :: ops).takeWhile (fun u => u.symbol != .opening),
        u.symbol ≠ .not := by
      intro u hu hn
      rw [List.takeWhile_append] at hu
      have : u ∈ ops' := by
        split at hu
        · simpa [ho] using hu
        · exact (List.takeWhile_prefix _).mem hu
      obtain ⟨d, hd⟩ := spine.exists_connective u this
      exact absurd (hd.symm.trans hn) (by simp)
    have stops : Stops .eof (o :: ops) := .inl ho
    rw [closeGroup_go_eq (ops' ++ o :: ops) _ rfl connectives,
      spine.reduceFor_go (fun _ _ => yields_eof _), reduceFor_go_stop _ stops]
    rfl
  have taken : take ⟨ops' ++ o :: ops, fs' ++ fs, false, log' ++ log⟩ c =
      .ok ⟨(negate ops f).1, (negate ops f).2 :: fs, false, f.reductions.reverse ++ log⟩ := by
    simp only [take, takeOperator, hc, closeGroup, closes, bind, Except.bind, Bool.false_eq_true,
      if_false, pushOperand_eq]
  rw [List.foldlM_cons, waits]
  show (ts ++ [c]).foldlM take _ = _
  rw [List.foldlM_append, read]
  show take _ c >>= _ = _
  rw [taken]
  rfl

theorem Reads.binary {c : Connective} (ht : t.symbol = .connective c) (hl : Reads c.leftLevel ls l)
    (hr : Reads c.rightLevel rs r) : Reads c.rank (ls ++ t :: rs) (.binary c l r) := by
  intro ops fs log ready
  obtain ⟨opsL, fsL, logL, spineL, readL⟩ := hl ops fs log (ready.mono c.rank_le_leftLevel)
  -- the connective completes the left operand and leaves all that waits below it
  have reduced : reduceFor.go (.connective c) (opsL ++ ops) ⟨opsL ++ ops, fsL ++ fs, false, logL ++ log⟩ =
      .ok ⟨ops, l :: fs, false, l.reductions.reverse ++ log⟩ := by
    rw [spineL.reduceFor_go (fun _ hd => yields_connective.mpr hd), reduceFor_go_stop _ ready.stops]
  have taken : take ⟨opsL ++ ops, fsL ++ fs, false, logL ++ log⟩ t =
      .ok ⟨t :: ops, l :: fs, true, l.reductions.reverse ++ log⟩ := by
    simp only [take, takeOperator, ht, reduceFor, reduced, bind, Except.bind, Bool.false_eq_true,
      if_false]
  obtain ⟨opsR, fsR, logR, spineR, readR⟩ := hr (t :: ops) (l :: fs) (l.reductions.reverse ++ log)
    (.inr ⟨c, ht, Nat.le_refl _⟩)
  refine ⟨opsR ++ [t], fsR ++ [l], logR ++ l.reductions.reverse, .more ht (Nat.le_refl _) spineR, ?_⟩
  rw [List.foldlM_append, readL]
  show (t :: rs).foldlM take _ = _
  rw [List.foldlM_cons, taken]
  show rs.foldlM take _ = _
  rw [readR]
  simp

end Reading

end Parse

namespace Derives
variable {n : Nat} {ts : List Token} {f : Formula}

theorem le_operandLevel (h : Derives n ts f) : n ≤ operandLevel := by
  induction h with
  | tighter _ ih => omega
  | toLeft _ _ _ _ _ ih _ | toRight _ _ _ _ _ _ ih => exact ih
  | _ => exact Nat.le_refl _

/-- A derivation is read; one without a connective outside parentheses is read as an operand. -/
theorem reads (h : Derives n ts f) :
    (n = operandLevel → Parse.Completes ts f) ∧ Parse.Reads n ts f := by
  have complete {n : Nat} {ts : List Token} {f : Formula} (h : Parse.Completes ts f) :
      (n = operandLevel → Parse.Completes ts f) ∧ Parse.Reads n ts f := ⟨fun _ => h, h.reads⟩
  have loose {c : Connective} {ts : List Token} {f : Formula} (h : Parse.Reads c.rank ts f) :
      (c.rank = operandLevel → Parse.Completes ts f) ∧ Parse.Reads c.rank ts f :=
    ⟨fun hc => absurd hc (Nat.ne_of_lt c.rank_lt_operandLevel), h⟩
  -- only what derives at the operand level itself is read as an operand
  induction h with
  | var ht hv => exact complete (Parse.completes_leaf ht (by simp [Parse.leaf?, hv]) rfl)
  | const ht hv => exact complete (Parse.completes_leaf ht (by simp [Parse.leaf?, hv]) rfl)
  | negation ht _ ih => exact complete ((ih.1 rfl).negation ht)
  | group ho hc _ ih => exact complete (ih.2.group ho hc)
  | tighter h ih =>
    refine ⟨fun hn => absurd h.le_operandLevel (by omega), ?_⟩
    intro ops fs log ready
    obtain ⟨ops', fs', log', spine, read⟩ := ih.2 ops fs log (ready.mono (Nat.le_succ _))
    exact ⟨ops', fs', log', spine.mono (Nat.le_succ _), read⟩
  | @toLeft _ c _ _ _ _ _ level hc ht _ _ ihl ihr =>
    obtain rfl := Connective.levels_getElem?_eq_some.mp level
    have left : c.leftLevel = c.rank := by simp [Connective.leftLevel, hc]
    have right : c.rightLevel = c.rank + 1 := by simp [Connective.rightLevel, hc]
    exact loose (.binary ht (left ▸ ihl.2) (right ▸ ihr.2))
  | @toRight _ c _ _ _ _ _ level hc ht _ _ ihl ihr =>
    obtain rfl := Connective.levels_getElem?_eq_some.mp level
    have left : c.leftLevel = c.rank + 1 := by simp [Connective.leftLevel, hc]
    have right : c.rightLevel = c.rank := by simp [Connective.rightLevel, hc]
    exact loose (.binary ht (left ▸ ihl.2) (right ▸ ihr.2))

end Derives

/-- What the grammar derives is read, with the applications in the order of the formula behind
    those noted before. -/
theorem Parse.run_of_derives {ts : List Token} {f : Formula} (h : Derives 0 (beforeEnd ts) f)
    (log : List Reduction) :
    (⟨[], [], true, log⟩ : Parse).run ts = .ok ⟨f, f.vars, log.reverse ++ f.reductions⟩ := by
  obtain ⟨ops, fs, log', spine, read⟩ := h.reads.2 [] [] log trivial
  have drained := spine.reduceFor_go (fun _ _ => Parse.yields_eof _) [] [] false log
  simp only [List.append_nil] at read drained
  rw [Parse.run_eq, read]
  show Parse.finish _ = _
  simp [Parse.finish, Parse.drain, Parse.reduceFor, drained, Parse.reduceFor.go, bind, Except.bind]

theorem parse_of_derives {ts : List Token} {f : Formula} (h : Derives 0 (beforeEnd ts) f) :
    Formula.parse ts = .ok ⟨f, f.vars, f.reductions⟩ :=
  Parse.run_of_derives h []

end Propositional
