import Propositional.Proofs.Runs
import Propositional.Proofs.Scanning

/- Characters that are put back where they were read. A cursor is well placed in a text if what
   it has pending is what ends the part of the text that it has passed, and no separator
   (`Cursor.WellPlaced`). All that can be learned from such a cursor is its front, the index of
   the character that directly follows: of two with the same front one has read on and put back
   what it read (`Cursor.WellPlaced.ahead`). Reading a run leaves a cursor well placed, with the
   run in front of it (`Cursor.WellPlaced.adjacents`), and so does putting any end of the run back
   (`Cursor.WellPlaced.putBackAll`). If all of it is put back, the front is at the first character
   of the run again. That is behind the separators that were passed over on the way there, which
   only a call of `adjacent` could notice (`Cursor.putting_back_restores`). -/
namespace Propositional

namespace Cursor

/-- What was put back ends the part of the text that was passed, and is no separator; what was
    never read is the part behind it. -/
structure WellPlaced (text : List Char) (c : Cursor) : Prop where
  passed : c.passed ≤ text.length
  rest : c.rest = text.drop c.passed
  pending : c.pending <:+ text.take c.passed
  noSeparator : ∀ ch ∈ c.pending, isSeparator ch = false

theorem Awaits.front_eq {c : Cursor} {k : Nat} {text : List Char} (h : c.Awaits k text) :
    c.front = k := by
  rw [front, h.passed, Nat.add_sub_cancel]

theorem wellPlaced_of_split {c : Cursor} {text : List Char} (before : List Char)
    (parts : before ++ c.pending ++ c.rest = text) (passed : c.passed = (before ++ c.pending).length)
    (free : ∀ ch ∈ c.pending, isSeparator ch = false) : c.WellPlaced text := by
  subst parts
  refine ⟨?_, ?_, ?_, free⟩
  · exact passed ▸ (List.prefix_append (before ++ c.pending) c.rest).length_le
  · rw [passed, List.drop_left]
  · rw [passed, List.take_left]
    exact List.suffix_append _ _

theorem Awaits.wellPlaced {c : Cursor} {k : Nat} {text : List Char}
    (h : c.Awaits k (text.drop k)) (hk : k ≤ text.length) : c.WellPlaced text := by
  refine wellPlaced_of_split (text.take k) ?_ ?_ h.noSeparator
  · rw [List.append_assoc, h.unread, List.take_append_drop]
  · rw [List.length_append, List.length_take, Nat.min_eq_left hk, h.passed]

namespace WellPlaced
variable {text : List Char} {a b c : Cursor}

theorem take_passed (h : c.WellPlaced text) :
    text.take c.passed = text.take c.front ++ c.pending := by
  obtain ⟨before, ends⟩ := h.pending
  have length : before.length + c.pending.length = c.passed := by
    rw [← List.length_append, ends, List.length_take, Nat.min_eq_left h.passed]
  have front : c.front = before.length := by
    rw [Cursor.front]
    omega
  have start : text.take c.front = before := by
    rw [front, ← Nat.min_eq_left (Nat.le.intro length), ← List.take_take, ← ends, List.take_left]
  rw [start, ends]

theorem not_inDebt (h : c.WellPlaced text) : ¬ c.InDebt := by
  have length := h.pending.length_le
  rw [List.length_take, Nat.min_eq_left h.passed] at length
  exact Nat.not_lt.mpr length

theorem awaits (h : c.WellPlaced text) : c.Awaits c.front (text.drop c.front) where
  unread := by
    have parts : text.take c.front ++ (c.pending ++ c.rest) = text := by
      rw [← List.append_assoc, ← h.take_passed, h.rest, List.take_append_drop]
    exact List.append_cancel_left (parts.trans (List.take_append_drop _ _).symm)
  passed := by
    have solvent := h.not_inDebt
    rw [InDebt] at solvent
    rw [front]
    omega
  noSeparator := h.noSeparator

/-- What directly follows is read unless it is a separator, whether it was put back or not. -/
theorem adjacent_cases (h : c.WellPlaced text) :
    (c.adjacent = (none, c) ∧ ∀ ch, text[c.front]? = some ch → isSeparator ch = true) ∨
    ∃ ch, text[c.front]? = some ch ∧ isSeparator ch = false ∧ c.adjacent.1 = some ch ∧
      c.adjacent.2.WellPlaced text ∧ c.adjacent.2.front = c.front + 1 := by
  obtain ⟨same, stop⟩ | ⟨ch, rest, c', left, free, read, awaits⟩ := h.awaits.adjacent_cases
  · rw [List.head?_drop] at stop
    exact .inl ⟨same, stop⟩
  · have here : text[c.front]? = some ch := by rw [← List.head?_drop, left, List.head?_cons]
    have behind : text.drop (c.front + 1) = rest := by
      rw [← List.drop_drop, left, List.drop_one, List.tail_cons]
    have inside : c.front + 1 ≤ text.length := (List.getElem?_eq_some_iff.mp here).1
    rw [read]
    exact .inr ⟨ch, here, free, rfl, (behind ▸ awaits).wellPlaced inside, awaits.front_eq⟩

theorem approach (h : c.WellPlaced text) : c.approach.WellPlaced text := by
  unfold Cursor.approach
  split
  · next empty =>
    refine wellPlaced_of_split (text.take c.passed ++ c.rest.takeWhile isSeparator) ?_ ?_
      h.noSeparator
    · simp only [skip, empty, List.append_nil, List.append_assoc, List.takeWhile_append_dropWhile]
      rw [h.rest, List.take_append_drop]
    · simp only [skip, empty, List.append_nil, List.length_append, List.length_take,
        Nat.min_eq_left h.passed]
  · exact h

/-- A run is what the front passes over, and has no separator in it. -/
theorem adjacents : ∀ (n : Nat) {c : Cursor}, c.WellPlaced text →
    (c.adjacents n).2.WellPlaced text ∧
      text.take (c.adjacents n).2.front = text.take c.front ++ (c.adjacents n).1 ∧
      ∀ ch ∈ (c.adjacents n).1, isSeparator ch = false
  | 0, c, h => ⟨h, (List.append_nil _).symm, nofun⟩
  | n + 1, c, h => by
    rw [Cursor.adjacents]
    obtain ⟨same, -⟩ | ⟨ch, here, free, read, left, front⟩ := h.adjacent_cases
    · rw [same]
      exact h.adjacents n
    · obtain ⟨placed, reached, frees⟩ := left.adjacents n
      refine ⟨placed, ?_, ?_⟩
      · rw [reached, front, List.take_add_one, here, read, List.append_assoc]
      · rw [read]
        exact List.forall_mem_cons.mpr ⟨free, frees⟩

/-- What was read last may be put back. -/
theorem putBackAll (h : c.WellPlaced text) {run : List Char} (ends : run <:+ text.take c.front)
    (free : ∀ ch ∈ run, isSeparator ch = false) : (c.putBackAll run).WellPlaced text where
  passed := h.passed
  rest := h.rest
  pending := by
    obtain ⟨before, split⟩ := ends
    rw [Cursor.putBackAll, h.take_passed, ← split, List.append_assoc]
    exact List.suffix_append _ _
  noSeparator := List.forall_mem_append.mpr ⟨free, h.noSeparator⟩

theorem adjacent (h : c.WellPlaced text) : c.adjacent.2.WellPlaced text := by
  obtain ⟨same, -⟩ | ⟨_, -, -, -, left, -⟩ := h.adjacent_cases
  · rw [same]
    exact h
  · exact left

theorem next (h : c.WellPlaced text) : c.next.2.WellPlaced text := by
  rw [next_eq]
  exact h.approach.adjacent

/-- The front is behind the run, and the run is what stands there from the position on. -/
theorem readRun (h : c.WellPlaced text) (n : Nat) : (c.readRun n).2.WellPlaced text ∧
    text.take (c.readRun n).2.front = text.take c.position ++ (c.readRun n).1 ∧
    ∀ ch ∈ (c.readRun n).1, isSeparator ch = false := by
  rw [readRun_eq, position_eq]
  exact h.approach.adjacents (n + 1)

theorem putBackAll_readRun (h : c.WellPlaced text) {n : Nat} {run : List Char}
    (ends : run <:+ (c.readRun n).1) : ((c.readRun n).2.putBackAll run).WellPlaced text := by
  obtain ⟨placed, reached, free⟩ := h.readRun n
  refine placed.putBackAll ?_ fun ch hch => free ch (ends.subset hch)
  rw [reached]
  exact ends.trans (List.suffix_append _ _)

theorem move (h : c.WellPlaced text) : ∀ m : Move, (c.move m).WellPlaced text
  | .next => h.next
  | .adjacent => h.adjacent
  | .keep kept _ => h.putBackAll_readRun (List.drop_suffix kept _)

theorem token (h : c.WellPlaced text) : c.token.cursor.WellPlaced text := by
  obtain ⟨kept, n, same⟩ := c.exists_keep_of_token
  rw [same]
  exact h.move (.keep kept n)

theorem ahead_of_pending (ha : a.WellPlaced text) (hb : b.WellPlaced text)
    (front : a.front = b.front) {extra : List Char} (pending : b.pending = a.pending ++ extra)
    (rest : a.rest = extra ++ b.rest) : Ahead extra a b where
  pending := pending
  rest := rest
  passed := by
    have lengths := congrArg List.length pending
    rw [List.length_append] at lengths
    rw [ha.awaits.passed, hb.awaits.passed, front]
    omega
  noSeparator ch hch := hb.noSeparator ch (pending ▸ List.mem_append_right _ hch)

/-- Of two cursors with the same front one has read on. -/
theorem ahead (ha : a.WellPlaced text) (hb : b.WellPlaced text) (front : a.front = b.front) :
    (∃ extra, Ahead extra a b) ∨ ∃ extra, Ahead extra b a := by
  have unread : a.pending ++ a.rest = b.pending ++ b.rest := by
    rw [ha.awaits.unread, hb.awaits.unread, front]
  obtain ⟨extra, pending, rest⟩ | ⟨extra, pending, rest⟩ := List.append_eq_append_iff.mp unread
  · exact .inl ⟨extra, ha.ahead_of_pending hb front pending rest⟩
  · exact .inr ⟨extra, hb.ahead_of_pending ha front.symm pending rest⟩

end WellPlaced

end Cursor

end Propositional
