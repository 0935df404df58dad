import Mathlib.Data.List.TakeWhile
import Propositional.Token.Scan

/- Runs of characters, read by one call of `next` and some of `adjacent`. `next` passes over
   separators and then does what `adjacent` does (`Cursor.next_eq`), so that a run is what calls
   of `adjacent` give behind them. To read a token is to read a run and to put the end of it back
   (`Cursor.exists_keep_of_token`). A cursor that has read on and put back what it read cannot be
   told from one that has not, whatever is called afterwards and whatever else is put back on top
   (`Cursor.Ahead.answers`). -/
namespace Propositional

namespace Cursor

/-- The index of the character that directly follows, whether it was put back or never read. -/
def front (c : Cursor) : Nat := c.passed - c.pending.length

/-- More was put back than was ever read, so that no index can be told. -/
def InDebt (c : Cursor) : Prop := c.passed < c.pending.length

/-- Passes over the separators in front of the character that `next` would read. -/
def approach (c : Cursor) : Cursor :=
  match c.pending with
  | [] => c.skip
  | _ :: _ => c

/-- The characters that a number of calls of `adjacent` give, and the cursor after them. -/
def adjacents : Nat → Cursor → List Char × Cursor
  | 0, c => ([], c)
  | n + 1, c => (c.adjacent.1.toList ++ (adjacents n c.adjacent.2).1, (adjacents n c.adjacent.2).2)

/-- The characters that a call of `next` and a number of calls of `adjacent` give, and the
    cursor after them. -/
def readRun (c : Cursor) (n : Nat) : List Char × Cursor :=
  (c.next.1.toList ++ (c.next.2.adjacents n).1, (c.next.2.adjacents n).2)

/-- The cursor as a list of calls leaves it. -/
def after (c : Cursor) (calls : List Call) : Cursor :=
  calls.foldl (fun c call => (c.answer call).2) c

/-- What a reader of tokens does with its characters. -/
inductive Move where
  | next
  | adjacent
  /-- Reads a run and puts back what is beyond so many of its characters. -/
  | keep (kept n : Nat)

def move (c : Cursor) : Move → Cursor
  | .next => c.next.2
  | .adjacent => c.adjacent.2
  | .keep kept n => (c.readRun n).2.putBackAll ((c.readRun n).1.drop kept)

/-! Reading behind separators. -/

theorem isSeparator_of_dropWhile {text rest : List Char} {ch : Char}
    (h : text.dropWhile isSeparator = ch :: rest) : isSeparator ch = false :=
  isSeparator_head?_dropWhile text ch (by rw [h, List.head?_cons, Option.mem_some])

/-- Behind the separators both ways of reading are one. -/
theorem next_eq (c : Cursor) : c.next = c.approach.adjacent := by
  obtain ⟨pending, rest, passed⟩ := c
  cases pending with
  | cons ch pending => rfl
  | nil =>
    cases h : rest.dropWhile isSeparator with
    | nil => simp [next, approach, adjacent, skip, take, h]
    | cons ch left =>
      simp [next, approach, adjacent, skip, take, h, isSeparator_of_dropWhile h]

theorem readRun_eq (c : Cursor) (n : Nat) : c.readRun n = c.approach.adjacents (n + 1) := by
  rw [readRun, adjacents, next_eq]

theorem position_eq (c : Cursor) : c.position = c.approach.front := by
  obtain ⟨pending, rest, passed⟩ := c
  cases pending <;> rfl

theorem isEmpty_iff (c : Cursor) : c.isEmpty = true ↔ c.next.1 = none := by
  obtain ⟨pending, rest, passed⟩ := c
  cases pending with
  | cons ch pending => simp [isEmpty, next]
  | nil =>
    have blank : rest.all isSeparator = true ↔ rest.dropWhile isSeparator = [] := by
      rw [List.all_eq_true, List.dropWhile_eq_nil_iff]
    simp only [isEmpty, List.isEmpty_nil, Bool.true_and, blank, next, skip, take]
    cases rest.dropWhile isSeparator <;> simp

/-- What is followed through a tree is read by calls of `adjacent`, and the last of it put back
    if the tree does not lead along it. -/
theorem exists_adjacents_of_follow : ∀ (t : PrefixTree) (ch : Char) (c : Cursor), ∃ n rejected,
    ch :: (c.adjacents n).1 = (follow t ch c).1 ++ rejected ∧
      (follow t ch c).2 = (c.adjacents n).2.putBackAll rejected
  | .leaf, ch, c => ⟨0, [ch], rfl, rfl⟩
  | .branch d below others, ch, c => by
    unfold follow
    split
    · split
      · next c' e =>
        refine ⟨1, [], ?_, ?_⟩ <;> simp only [adjacents, e] <;> rfl
      · next x c' e =>
        obtain ⟨n, rejected, run, left⟩ := exists_adjacents_of_follow below x c'
        refine ⟨n + 1, rejected, ?_, ?_⟩ <;> simp only [adjacents, e]
        · exact congrArg (ch :: ·) run
        · exact left
    · exact exists_adjacents_of_follow others ch c

/-- To read a token is to read a run and to put the end of it back. -/
theorem exists_keep_of_token (c : Cursor) : ∃ kept n, c.token.cursor = c.move (.keep kept n) := by
  unfold token tokenIn
  split
  · next c' e => exact ⟨0, 0, by simp [move, readRun, adjacents, e, putBackAll]⟩
  · next ch c' e =>
    have single : c' = c.move (.keep 1 0) := by simp [move, readRun, adjacents, e, putBackAll]
    dsimp only
    split
    · exact ⟨1, 0, single⟩
    · split
      · exact ⟨1, 0, single⟩
      · obtain ⟨n, rejected, run, left⟩ := exists_adjacents_of_follow wordTree ch c'
        have whole : c.readRun n = ((follow wordTree ch c').1 ++ rejected, (c'.adjacents n).2) := by
          simp only [readRun, e, ← run]
          rfl
        split
        · refine ⟨0, n, ?_⟩
          simp [move, whole, left, putBackAll]
        · next kept s best =>
          refine ⟨kept, n, ?_⟩
          obtain ⟨-, le⟩ := longestWithin?_pos best
          simp [move, whole, left, putBackAll, List.drop_append_of_le_length le]

/-! Cursors that have read on. -/

/-- The second cursor is the first one, but has read on and put back what it read. -/
structure Ahead (extra : List Char) (a b : Cursor) : Prop where
  pending : b.pending = a.pending ++ extra
  rest : a.rest = extra ++ b.rest
  passed : b.passed = a.passed + extra.length
  noSeparator : ∀ ch ∈ extra, isSeparator ch = false

namespace Ahead
variable {extra : List Char} {a b : Cursor}

theorem refl (a : Cursor) : Ahead [] a a where
  pending := (List.append_nil _).symm
  rest := rfl
  passed := rfl
  noSeparator := nofun

theorem eq (h : Ahead [] a b) : a = b := by
  obtain ⟨pending, rest, passed, -⟩ := h
  obtain ⟨pa, ra, na⟩ := a
  obtain ⟨pb, rb, nb⟩ := b
  simp only [List.append_nil, List.nil_append, List.length_nil, Nat.add_zero] at pending rest passed
  rw [pending, rest, passed]

theorem front_eq (h : Ahead extra a b) : a.front = b.front := by
  rw [front, front, h.pending, h.passed, List.length_append, Nat.add_sub_add_right]

theorem putBackAll (h : Ahead extra a b) (run : List Char) :
    Ahead extra (a.putBackAll run) (b.putBackAll run) where
  pending := by simp only [Cursor.putBackAll, h.pending, List.append_assoc]
  rest := h.rest
  passed := h.passed
  noSeparator := h.noSeparator

/-- What one cursor has put back the other one finds in the text, where no separator is in
    front of it. -/
theorem cases (h : Ahead extra a b) :
    a = b ∨ (∃ ch p, a.pending = ch :: p ∧ b.pending = ch :: (p ++ extra)) ∨
      ∃ ch o, extra = ch :: o ∧ isSeparator ch = false ∧ a.pending = [] ∧ b.pending = ch :: o ∧
        a.rest = ch :: (o ++ b.rest) := by
  cases hp : a.pending with
  | cons ch p => exact .inr (.inl ⟨ch, p, rfl, by rw [h.pending, hp, List.cons_append]⟩)
  | nil =>
    cases extra with
    | nil => exact .inl h.eq
    | cons ch o =>
      refine .inr (.inr ⟨ch, o, rfl, h.noSeparator ch List.mem_cons_self, rfl, ?_, h.rest⟩)
      rw [h.pending, hp, List.nil_append]

theorem adjacent (h : Ahead extra a b) :
    b.adjacent.1 = a.adjacent.1 ∧ ∃ extra', Ahead extra' a.adjacent.2 b.adjacent.2 := by
  obtain rfl | ⟨ch, p, ha, hb⟩ | ⟨ch, o, rfl, free, ha, hb, rest⟩ := h.cases
  · exact ⟨rfl, [], .refl a.adjacent.2⟩
  · simp only [Cursor.adjacent, ha, hb]
    exact ⟨trivial, extra, rfl, h.rest, h.passed, h.noSeparator⟩
  · -- what is pending in one is read from the text by the other
    have passed := h.passed
    rw [List.length_cons] at passed
    simp only [Cursor.adjacent, ha, hb, rest, free, take]
    refine ⟨rfl, o, by simp, rfl, ?_, fun x hx => h.noSeparator x (List.mem_cons_of_mem ch hx)⟩
    show b.passed = a.passed + 1 + o.length
    omega

theorem approach (h : Ahead extra a b) : ∃ extra', Ahead extra' a.approach b.approach := by
  obtain rfl | ⟨ch, p, ha, hb⟩ | ⟨ch, o, rfl, free, ha, hb, rest⟩ := h.cases
  · exact ⟨[], .refl a.approach⟩
  · simp only [Cursor.approach, ha, hb]
    exact ⟨extra, h⟩
  · have blank : a.rest.takeWhile isSeparator = [] ∧ a.rest.dropWhile isSeparator = a.rest := by
      rw [rest]
      simp [free]
    have there : a.skip = a := by
      rw [skip, blank.1, blank.2]
      rfl
    simp only [Cursor.approach, ha, hb, there]
    exact ⟨ch :: o, h⟩

/-- A call gives the same reply at both cursors, and leaves one ahead of the other. -/
theorem answer (h : Ahead extra a b) (call : Call) : (b.answer call).1 = (a.answer call).1 ∧
    ∃ extra', Ahead extra' (a.answer call).2 (b.answer call).2 := by
  obtain ⟨_, near⟩ := h.approach
  cases call with
  | next =>
    simp only [Cursor.answer, next_eq]
    obtain ⟨same, left⟩ := near.adjacent
    exact ⟨congrArg Reply.char same, left⟩
  | adjacent => exact ⟨congrArg Reply.char h.adjacent.1, h.adjacent.2⟩
  | putBack ch => exact ⟨rfl, extra, h.putBackAll [ch]⟩
  | putBackAll run => exact ⟨rfl, extra, h.putBackAll run⟩
  | position =>
    refine ⟨?_, extra, h⟩
    simp only [Cursor.answer, Cursor.position_eq, near.front_eq]
  | isEmpty =>
    refine ⟨?_, extra, h⟩
    have same : b.next.1 = a.next.1 := by
      rw [next_eq, next_eq]
      exact near.adjacent.1
    have empty : b.isEmpty = a.isEmpty := by
      rw [Bool.eq_iff_iff, isEmpty_iff, isEmpty_iff, same]
    exact congrArg Reply.truth empty

theorem answers : ∀ (calls : List Call) {extra : List Char} {a b : Cursor}, Ahead extra a b →
    b.answers calls = a.answers calls
  | [], _, _, _, _ => rfl
  | call :: calls, _, _, _, h => by
    obtain ⟨reply, _, left⟩ := h.answer call
    rw [Cursor.answers, Cursor.answers, reply, left.answers calls]

theorem after : ∀ (calls : List Call) {extra : List Char} {a b : Cursor}, Ahead extra a b →
    ∃ extra', Ahead extra' (a.after calls) (b.after calls)
  | [], extra, _, _, h => ⟨extra, h⟩
  | call :: calls, _, _, _, h => by
    obtain ⟨-, _, left⟩ := h.answer call
    exact left.after calls

end Ahead

end Cursor

end Propositional
