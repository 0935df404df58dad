import Propositional.Proofs.Nesting

/- The order that the two stacks are in between tokens. There is one operand for every
   connective that waits, and one more where an operator is expected; negations wait only where
   their operand begins; and inside a group each connective that waits binds tighter than those
   before it, where only implications may follow each other (`Parse.InOrder`). Each of these is
   read off from what waits (`Parse.Waiting`), which every token keeps, and so is the order
   (`Parse.Reached.inOrder`). -/
namespace Propositional.Parse

/-! The order of the stacks. -/

/-- The connectives among the tokens. -/
def connectives (ts : List Token) : List Token := ts.filter (fun t => t.symbol.isConnective)

/-- What waits inside each group that is open, the innermost group first, and outside all groups. -/
def segments (ops : List Token) : List (List Token) := ops.splitOnP (fun t => t.symbol == .opening)

/-- What waits inside the innermost group. -/
def innermost (ops : List Token) : List Token := ops.takeWhile (fun t => t.symbol != .opening)

/-- A connective may wait above an earlier one if it binds tighter, or if both are implications. -/
def Above (newer older : Token) : Prop :=
  older.symbol.precedence < newer.symbol.precedence ∨
    older.symbol = newer.symbol ∧ newer.symbol = .connective (.derived .implies)

/-- What the stacks are like between two tokens. -/
structure InOrder (p : Parse) : Prop where
  operands : p.operands.length = (connectives p.operators).length + if p.expectsOperand then 0 else 1
  symbols : ∀ t ∈ p.operators,
    t.symbol = .opening ∨ t.symbol = .not ∨ ∃ c, t.symbol = .connective c
  /-- A run of negations that is not part of a longer one is on top, where an operand is expected,
      or directly below an opening parenthesis. -/
  negations : ∀ above run below, p.operators = above ++ run ++ below → run ≠ [] →
    (∀ t ∈ run, t.symbol = .not) → (∀ t ∈ above.getLast?, t.symbol ≠ .not) →
    (above = [] ∧ p.expectsOperand = true) ∨ ∃ t ∈ above.getLast?, t.symbol = .opening
  ranks : ∀ segment ∈ segments p.operators, (connectives segment).Pairwise Above

section
variable {n : Nat} {w ops : List Token} {fs : List Formula} {t u : Token}

theorem isConnective_iff {s : Symbol} : s.isConnective = true ↔ ∃ c, s = .connective c := by
  cases s <;> simp [Symbol.isConnective]

theorem connectives_cons {c : Connective} (h : t.symbol = .connective c) :
    connectives (t :: ops) = t :: connectives ops :=
  List.filter_cons_of_pos (isConnective_iff.mpr ⟨c, h⟩)

theorem connectives_cons_ne (h : ∀ c, t.symbol ≠ .connective c) :
    connectives (t :: ops) = connectives ops :=
  List.filter_cons_of_neg (fun sign => (isConnective_iff.mp sign).elim h)

theorem segments_cons_opening (h : t.symbol = .opening) :
    segments (t :: ops) = [] :: segments ops := by
  simp [segments, List.splitOnP_cons_eq_if_modifyHead, h]

theorem segments_cons_ne (h : t.symbol ≠ .opening) :
    segments (t :: ops) = (segments ops).modifyHead (t :: ·) := by
  simp [segments, List.splitOnP_cons_eq_if_modifyHead, h]

theorem innermost_cons_opening (h : t.symbol = .opening) : innermost (t :: ops) = [] :=
  List.takeWhile_cons_of_neg (by simp [h])

theorem innermost_cons_ne (h : t.symbol ≠ .opening) : innermost (t :: ops) = t :: innermost ops :=
  List.takeWhile_cons_of_pos (by simp [h])

theorem exists_segments : ∀ ops : List Token, ∃ rest, segments ops = innermost ops :: rest
  | [] => ⟨[], rfl⟩
  | t :: ops => by
    by_cases h : t.symbol = .opening
    · exact ⟨segments ops, by rw [segments_cons_opening h, innermost_cons_opening h]⟩
    · obtain ⟨rest, hrest⟩ := exists_segments ops
      exact ⟨rest, by rw [segments_cons_ne h, hrest, innermost_cons_ne h, List.modifyHead_cons]⟩

theorem above_iff {c d : Connective} (ht : t.symbol = .connective c) (hu : u.symbol = .connective d) :
    Above t u ↔ d.rightLevel ≤ c.rank := by
  have implication : Symbol.connective c = .connective (.derived .implies) ↔ c.groupsRight = true := by
    rw [Symbol.connective.injEq, Connective.groupsRight_iff]
  have order : Above t u ↔ d.rank < c.rank ∨ d = c ∧ c.groupsRight = true := by
    rw [Above, ht, hu, implication, Symbol.connective.injEq]
    show (d.rank : Int) < c.rank ∨ _ ↔ _
    rw [Int.ofNat_lt]
  rw [order]
  unfold Connective.rightLevel
  cases right : d.groupsRight with
  | true =>
    rw [if_pos rfl]
    refine ⟨?_, fun level => ?_⟩
    · rintro (tighter | ⟨rfl, -⟩)
      · exact Nat.le_of_lt tighter
      · exact Nat.le_refl _
    · obtain tighter | same := Nat.lt_or_eq_of_le level
      · exact .inl tighter
      · obtain rfl := Connective.rank_injective d c same
        exact .inr ⟨rfl, right⟩
  | false =>
    rw [if_neg (by decide)]
    refine or_iff_left ?_
    rintro ⟨rfl, h⟩
    rw [right] at h
    cases h

theorem Above.trans {v : Token} {c d e : Connective} (ht : t.symbol = .connective c)
    (hu : u.symbol = .connective d) (hv : v.symbol = .connective e) (h : Above t u)
    (h' : Above u v) : Above t v := by
  have tu := (above_iff ht hu).mp h
  have uv := (above_iff hu hv).mp h'
  have level := d.rank_le_rightLevel
  exact (above_iff ht hv).mpr (by omega)

/-- A connective that may wait on top of what waits may wait above all of its group. -/
theorem Ready.above {c : Connective} (ht : t.symbol = .connective c) : ∀ {ops : List Token},
    Ready c.rank ops → (connectives (innermost ops)).Pairwise Above →
    ∀ u ∈ connectives (innermost ops), Above t u
  | [], _, _, _, hu => nomatch hu
  | v :: ops, .inl ho, _, u, hu => by
    rw [innermost_cons_opening ho] at hu
    cases hu
  | v :: ops, .inr ⟨d, hd, level⟩, sorted, u, hu => by
    have top : Above t v := (above_iff ht hd).mpr level
    rw [innermost_cons_ne (by simp [hd]), connectives_cons hd] at sorted hu
    obtain rfl | hu := List.mem_cons.mp hu
    · exact top
    · obtain ⟨e, he⟩ := isConnective_iff.mp (List.mem_filter.mp hu).2
      exact top.trans ht hd he ((List.pairwise_cons.mp sorted).1 u hu)

namespace Waiting

theorem symbols (h : Waiting w ops fs) : ∀ t ∈ ops,
    t.symbol = .opening ∨ t.symbol = .not ∨ ∃ c, t.symbol = .connective c := by
  induction h with
  | start => exact fun _ ht => nomatch ht
  | negation hs _ ih => exact List.forall_mem_cons.mpr ⟨.inr (.inl hs), ih⟩
  | opening hs _ ih => exact List.forall_mem_cons.mpr ⟨.inl hs, ih⟩
  | operator hs _ _ _ ih => exact List.forall_mem_cons.mpr ⟨.inr (.inr ⟨_, hs⟩), ih⟩

theorem length_operands (h : Waiting w ops fs) : fs.length = (connectives ops).length := by
  induction h with
  | start => rfl
  | negation hs _ ih | opening hs _ ih => rw [connectives_cons_ne (by simp [hs]), ih]
  | operator hs _ _ _ ih => rw [connectives_cons hs, List.length_cons, List.length_cons, ih]

/-- Directly above a negation only another one waits, or a group. -/
theorem above_negation (h : Waiting w ops fs) : ∀ {above below : List Token},
    ops = above ++ t :: u :: below → u.symbol = .not → t.symbol = .not ∨ t.symbol = .opening := by
  induction h with
  | start => intro above below e; simp at e
  | @negation t' _ _ _ hs _ ih | @opening t' _ _ _ hs _ ih =>
    intro above below e hu
    cases above with
    | nil =>
      obtain ⟨rfl, -⟩ := List.cons.inj e
      simp [hs]
    | cons x above => exact ih (List.cons.inj e).2 hu
  | operator hs ready _ _ ih =>
    intro above below e hu
    cases above with
    | nil =>
      -- a connective is put on top only where no negation waits
      obtain ⟨-, rfl⟩ := List.cons.inj e
      obtain ho | ⟨d, hd, -⟩ := ready
      · simp [hu] at ho
      · simp [hu] at hd
    | cons x above => exact ih (List.cons.inj e).2 hu

/-- A run of negations that is not part of a longer one is on top or directly below a group. -/
theorem negations (h : Waiting w ops fs) {above run below : List Token}
    (e : ops = above ++ run ++ below) (nonempty : run ≠ []) (nots : ∀ t ∈ run, t.symbol = .not)
    (whole : ∀ t ∈ above.getLast?, t.symbol ≠ .not) :
    above = [] ∨ ∃ t ∈ above.getLast?, t.symbol = .opening := by
  obtain ⟨u, us, rfl⟩ := List.exists_cons_of_ne_nil nonempty
  obtain rfl | ⟨above, t, rfl⟩ := above.eq_nil_or_concat
  · exact .inl rfl
  · have last : t ∈ (above.concat t).getLast? := by simp
    have split : ops = above ++ t :: u :: (us ++ below) := by simp [e]
    refine .inr ⟨t, last, ?_⟩
    exact (h.above_negation split (nots u List.mem_cons_self)).resolve_left (whole t last)

/-- Inside each group the connectives are in order. -/
theorem ranks (h : Waiting w ops fs) :
    ∀ segment ∈ segments ops, (connectives segment).Pairwise Above := by
  induction h with
  | start => simp [segments, connectives]
  | opening hs _ ih =>
    rw [segments_cons_opening hs]
    exact List.forall_mem_cons.mpr ⟨.nil, ih⟩
  | @negation t _ ops _ hs _ ih =>
    obtain ⟨rest, hrest⟩ := exists_segments ops
    rw [hrest, List.forall_mem_cons] at ih
    rw [segments_cons_ne (by simp [hs]), hrest, List.modifyHead_cons, List.forall_mem_cons,
      connectives_cons_ne (by simp [hs])]
    exact ih
  | @operator c t _ _ ops _ _ hs ready _ _ ih =>
    obtain ⟨rest, hrest⟩ := exists_segments ops
    rw [hrest, List.forall_mem_cons] at ih
    rw [segments_cons_ne (by simp [hs]), hrest, List.modifyHead_cons, List.forall_mem_cons,
      connectives_cons hs, List.pairwise_cons]
    exact ⟨⟨ready.above hs ih.1, ih.1⟩, ih.2⟩

end Waiting

/-- An operand stands above the newest operator only where no negation waits for it. -/
theorem Ready.head_ne_not : ∀ {ops : List Token}, Ready n ops → ∀ t ∈ ops.head?, t.symbol ≠ .not
  | [], _, t, ht => nomatch ht
  | u :: ops, ready, t, ht => by
    obtain rfl : u = t := Option.some.inj ht
    obtain ho | ⟨c, hc, -⟩ := ready
    · simp [ho]
    · simp [hc]

/-- Between two tokens the stacks are in order. -/
theorem Reached.inOrder {p : Parse} (h : Reached w p) : p.InOrder := by
  cases h with
  | operand hw =>
    refine ⟨hw.length_operands, hw.symbols, ?_, hw.ranks⟩
    intro above run below e nonempty nots whole
    exact (hw.negations e nonempty nots whole).imp_left (fun top => ⟨top, rfl⟩)
  | operator hf =>
    obtain ⟨hw, ready, -⟩ := hf
    refine ⟨congrArg (· + 1) hw.length_operands, hw.symbols, ?_, hw.ranks⟩
    intro above run below e nonempty nots whole
    refine (hw.negations e nonempty nots whole).imp_left (fun top => ?_)
    obtain ⟨u, us, rfl⟩ := List.exists_cons_of_ne_nil nonempty
    subst top e
    exact absurd (nots u List.mem_cons_self) (ready.head_ne_not u rfl)

end

end Propositional.Parse
