import Propositional.Token.Stream

/- What is read next depends only on the text that is left (`Cursor.Awaits`), whether it
   was put back or never read. No word has a separator in it, so that following the
   characters one by one stops where a walk through the tree of words does
   (`Cursor.follow_eq`), and the token is the longest word that the text goes on with
   (`Cursor.Awaits.token_word`). -/
namespace Propositional

namespace PrefixTree

/-- No path from the root has a character of the class in it. -/
def avoids (p : Char → Bool) : PrefixTree → Bool
  | .leaf => true
  | .branch c below others => !p c && below.avoids p && others.avoids p

variable {p : Char → Bool}

theorem avoids_branch {c : Char} {below others : PrefixTree} :
    (branch c below others).avoids p = true ↔
      p c = false ∧ below.avoids p = true ∧ others.avoids p = true := by
  simp [avoids, and_assoc]

theorem avoids_child? {ch : Char} {node : PrefixTree} : ∀ {t : PrefixTree}, t.avoids p = true →
    t.child? ch = some node → p ch = false ∧ node.avoids p = true
  | .leaf, _, hc => by cases hc
  | .branch c below others, h, hc => by
    obtain ⟨hp, hbelow, hothers⟩ := avoids_branch.mp h
    unfold child? at hc
    by_cases e : ch = c
    · rw [if_pos e] at hc
      cases hc
      exact ⟨e ▸ hp, hbelow⟩
    · rw [if_neg e] at hc
      exact avoids_child? hothers hc

/-- How many characters of the text the tree leads along. -/
def reach (t : PrefixTree) (text : List Char) : Nat := (t.walk text).1

theorem reach_eq_zero {t : PrefixTree} {ch : Char} (h : t.child? ch = none) (text : List Char) :
    t.reach (ch :: text) = 0 := by
  simp [reach, walk, h]

theorem reach_cons {t node : PrefixTree} {ch : Char} (h : t.child? ch = some node)
    (text : List Char) : t.reach (ch :: text) = node.reach text + 1 := by
  simp [reach, walk, h]

theorem reach_leaf : ∀ text : List Char, leaf.reach text = 0
  | [] => rfl
  | _ :: text => reach_eq_zero rfl text

theorem reach_branch_of_ne {c ch : Char} (h : ch ≠ c) (below others : PrefixTree)
    (text : List Char) : (branch c below others).reach (ch :: text) = others.reach (ch :: text) := by
  have same : (branch c below others).child? ch = others.child? ch := if_neg h
  cases hc : others.child? ch with
  | none => rw [reach_eq_zero hc, reach_eq_zero (same.trans hc)]
  | some node => rw [reach_cons hc, reach_cons (same.trans hc)]

/-- The tree leads nowhere along a character that it avoids. -/
theorem reach_eq_zero_of_head {t : PrefixTree} (h : t.avoids p = true) : ∀ {text : List Char},
    (∀ ch ∈ text.head?, p ch = true) → t.reach text = 0
  | [], _ => rfl
  | ch :: text, stop => by
    refine reach_eq_zero ?_ text
    cases hc : t.child? ch with
    | none => rfl
    | some node =>
      have avoided := (avoids_child? h hc).1
      exact absurd (stop ch rfl) (by simp [avoided])

theorem reach_le_length : ∀ (t : PrefixTree) (text : List Char), t.reach text ≤ text.length
  | _, [] => Nat.le_refl 0
  | t, ch :: text => by
    cases hc : t.child? ch with
    | none =>
      rw [reach_eq_zero hc]
      omega
    | some node =>
      have := reach_le_length node text
      rw [reach_cons hc, List.length_cons]
      omega

theorem avoids_reach : ∀ {t : PrefixTree} {text : List Char}, t.avoids p = true →
    ∀ ch ∈ text.take (t.reach text), p ch = false
  | _, [], _, ch, hm => by simp at hm
  | t, x :: text, h, ch, hm => by
    cases hx : t.child? x with
    | none => simp [reach_eq_zero hx] at hm
    | some node =>
      obtain ⟨hp, hnode⟩ := avoids_child? h hx
      rw [reach_cons hx, List.take_succ_cons, List.mem_cons] at hm
      obtain rfl | hm := hm
      · exact hp
      · exact avoids_reach hnode ch hm

end PrefixTree

theorem wordTree_avoids_separators : wordTree.avoids isSeparator = true := by decide +kernel

namespace Cursor

/-- What is left to be read is the text, which starts at the index; nothing that was put
    back is a separator. -/
structure Awaits (c : Cursor) (k : Nat) (text : List Char) : Prop where
  unread : c.pending ++ c.rest = text
  passed : c.passed = k + c.pending.length
  noSeparator : ∀ ch ∈ c.pending, isSeparator ch = false

theorem awaits_ofText (text : String) : (ofText text).Awaits 0 text.toList where
  unread := rfl
  passed := rfl
  noSeparator := fun _ h => nomatch h

namespace Awaits
variable {c : Cursor} {k : Nat} {ch : Char} {text : List Char}

theorem putBack (h : c.Awaits (k + 1) text) (hc : isSeparator ch = false) :
    (c.putBack ch).Awaits k (ch :: text) where
  unread := congrArg (ch :: ·) h.unread
  passed := by
    have := h.passed
    simp only [Cursor.putBack, List.length_cons]
    omega
  noSeparator := by
    intro x hx
    obtain rfl | hx := List.mem_cons.mp hx
    · exact hc
    · exact h.noSeparator x hx

theorem putBackAll {run : List Char} (h : c.Awaits (k + run.length) text)
    (hr : ∀ ch ∈ run, isSeparator ch = false) : (c.putBackAll run).Awaits k (run ++ text) where
  unread := by
    simp only [Cursor.putBackAll, List.append_assoc, h.unread]
  passed := by
    have := h.passed
    simp only [Cursor.putBackAll, List.length_append]
    omega
  noSeparator := by
    intro x hx
    obtain hx | hx := List.mem_append.mp hx
    · exact hr x hx
    · exact h.noSeparator x hx

/-- In front of a separator and at the end of the text nothing was put back. -/
theorem pending_eq_nil (h : c.Awaits k text) (hc : ∀ ch ∈ text.head?, isSeparator ch = true) :
    c.pending = [] := by
  cases hp : c.pending with
  | nil => rfl
  | cons x pending =>
    have unread := h.unread
    rw [hp] at unread
    have sep : isSeparator x = true := hc x (by simp [← unread])
    exact absurd sep (by simp [h.noSeparator x (by simp [hp])])

/-- A character that is no separator is read by both ways of reading. -/
theorem next_adjacent (h : c.Awaits k (ch :: text)) (hc : isSeparator ch = false) :
    ∃ c' : Cursor, c.next = (some ch, c') ∧ c.adjacent = (some ch, c') ∧ c'.Awaits (k + 1) text := by
  have unread := h.unread
  have passed := h.passed
  cases hp : c.pending with
  | nil =>
    rw [hp, List.nil_append] at unread
    refine ⟨⟨[], text, c.passed + 1⟩, ?_, ?_, ⟨rfl, ?_, fun _ h => nomatch h⟩⟩
    · simp [next, skip, take, hp, unread, hc]
    · simp [adjacent, take, hp, unread, hc]
    · simp only [hp, List.length_nil] at passed ⊢
      omega
  | cons x pending =>
    rw [hp, List.cons_append] at unread
    injection unread with hx unread
    subst hx
    refine ⟨{ c with pending }, ?_, ?_, ⟨unread, ?_, ?_⟩⟩
    · simp [next, hp]
    · simp [adjacent, hp]
    · simp only [hp, List.length_cons] at passed ⊢
      omega
    · exact fun y hy => h.noSeparator y (by simp [hp, hy])

/-- What directly follows is read unless it is a separator. -/
theorem adjacent_cases (h : c.Awaits k text) :
    (c.adjacent = (none, c) ∧ ∀ x ∈ text.head?, isSeparator x = true) ∨
    ∃ x rest c', text = x :: rest ∧ isSeparator x = false ∧ c.adjacent = (some x, c') ∧
      c'.Awaits (k + 1) rest := by
  cases text with
  | nil =>
    have hp := h.pending_eq_nil (by simp)
    have unread := h.unread
    rw [hp, List.nil_append] at unread
    refine .inl ⟨?_, by simp⟩
    simp [adjacent, hp, unread]
  | cons x rest =>
    cases hx : isSeparator x with
    | true =>
      have hp := h.pending_eq_nil (by simp [hx])
      have unread := h.unread
      rw [hp, List.nil_append] at unread
      refine .inl ⟨?_, by simp [hx]⟩
      simp [adjacent, hp, unread, hx]
    | false =>
      obtain ⟨c', _, read, awaits⟩ := h.next_adjacent hx
      exact .inr ⟨x, rest, c', rfl, hx, read, awaits⟩

theorem position_eq (h : c.Awaits k (ch :: text)) (hc : isSeparator ch = false) :
    c.position = k := by
  have unread := h.unread
  have passed := h.passed
  unfold position
  split
  · next hp =>
    rw [hp, List.nil_append] at unread
    simp only [hp, List.length_nil] at passed
    simp [skip, unread, hc, passed]
  · omega

/-- A separator makes no difference to what is read next. -/
theorem token_separator (h : c.Awaits k (ch :: text)) (hc : isSeparator ch = true) :
    ∃ c' : Cursor, c'.Awaits (k + 1) text ∧ c.token = c'.token := by
  have hp := h.pending_eq_nil (by simp [hc])
  have unread := h.unread
  have passed := h.passed
  rw [hp, List.nil_append] at unread
  refine ⟨⟨[], text, c.passed + 1⟩, ⟨rfl, ?_, fun _ h => nomatch h⟩, ?_⟩
  · simp only [hp, List.length_nil] at passed ⊢
    omega
  · have skipped : c.skip = skip ⟨[], text, c.passed + 1⟩ := by
      simp only [skip, hp, unread, List.dropWhile_cons_of_pos hc, List.takeWhile_cons_of_pos hc,
        List.length_cons, Cursor.mk.injEq, true_and]
      omega
    have same : c.next = next ⟨[], text, c.passed + 1⟩ := by simp [next, hp, skipped]
    have place : c.position = position ⟨[], text, c.passed + 1⟩ := by simp [position, hp, skipped]
    unfold token tokenIn
    rw [same, place]

end Awaits

/-- Following the characters stops where the tree does not lead on. -/
theorem follow_eq : ∀ (t : PrefixTree) {c : Cursor} {k : Nat} {ch : Char} {text : List Char},
    t.avoids isSeparator = true → isSeparator ch = false → c.Awaits (k + 1) text →
    ∃ c' : Cursor, follow t ch c = ((ch :: text).take (t.reach (ch :: text)), c') ∧
      c'.Awaits (k + t.reach (ch :: text)) ((ch :: text).drop (t.reach (ch :: text)))
  | .leaf, c, k, ch, text, _, hc, h => by
    rw [PrefixTree.reach_leaf]
    exact ⟨c.putBack ch, rfl, h.putBack hc⟩
  | .branch d below others, c, k, ch, text, ht, hc, h => by
    obtain ⟨_, hbelow, hothers⟩ := PrefixTree.avoids_branch.mp ht
    unfold follow
    by_cases hd : ch = d
    · have child : (PrefixTree.branch d below others).child? ch = some below := if_pos hd
      rw [if_pos hd, PrefixTree.reach_cons child]
      -- a separator is not read, and the tree does not lead along one either
      obtain ⟨ended, stop⟩ | ⟨x, rest, c', text_eq, hx, read, h'⟩ := h.adjacent_cases
      · have short := PrefixTree.reach_eq_zero_of_head hbelow stop
        simp only [ended, short]
        exact ⟨c, rfl, h⟩
      · subst text_eq
        obtain ⟨c'', run, h''⟩ := follow_eq below hbelow hx h'
        simp only [read, run]
        refine ⟨c'', rfl, ?_⟩
        rw [Nat.add_right_comm] at h''
        exact h''
    · rw [if_neg hd, PrefixTree.reach_branch_of_ne hd]
      exact follow_eq others hothers hc h

namespace Awaits
variable {c : Cursor} {k : Nat} {ch : Char} {text : List Char}

theorem token_eof (h : c.Awaits k []) :
    c.token.result = .ok Token.eof ∧ c.token.cursor.Awaits k [] := by
  obtain ⟨pending, rest, passed⟩ := c
  obtain rfl : pending = [] := h.pending_eq_nil (by simp)
  obtain rfl : rest = [] := h.unread
  exact ⟨rfl, h⟩

theorem token_constant {b : Bool} (h : c.Awaits k (ch :: text)) (hs : isSeparator ch = false)
    (hb : constantOf? ch = some b) :
    c.token.result = .ok (Token.constant b) ∧ c.token.cursor.Awaits (k + 1) text := by
  obtain ⟨c', next, _, h'⟩ := h.next_adjacent hs
  have read : c.token = ⟨.ok (Token.constant b), c', [.constant b]⟩ := by
    simp only [token, tokenIn, next, hb]
  rw [read]
  exact ⟨rfl, h'⟩

/-- The token is the longest word that the text goes on with. -/
theorem token_word {n : Nat} {s : Symbol} (h : c.Awaits k (ch :: text))
    (hs : isSeparator ch = false) (hb : constantOf? ch = none)
    (hw : longestWord? ((ch :: text).take (wordTree.reach (ch :: text))) = some (n, s)) :
    c.token.result = .ok ⟨s, .literal (String.ofList ((ch :: text).take n))⟩ ∧
      c.token.cursor.Awaits (k + n) ((ch :: text).drop n) := by
  obtain ⟨c', next, _, h'⟩ := h.next_adjacent hs
  obtain ⟨c'', followed, h''⟩ := follow_eq wordTree wordTree_avoids_separators hs h'
  have inside := PrefixTree.reach_le_length wordTree (ch :: text)
  have separate : ∀ x ∈ (ch :: text).take (wordTree.reach (ch :: text)), isSeparator x = false :=
    PrefixTree.avoids_reach wordTree_avoids_separators
  obtain ⟨pos, le⟩ := longestWithin?_pos hw
  have known : (wordTree.child? ch).isNone = false := by
    cases hn : wordTree.child? ch with
    | none =>
      rw [PrefixTree.reach_eq_zero hn] at le
      simp at le
      omega
    | some node => rfl
  generalize wordTree.reach (ch :: text) = m at hw followed h'' le inside separate
  have word : ((ch :: text).take m).take n = (ch :: text).take n := by
    rw [List.length_take] at le
    rw [List.take_take, Nat.min_eq_left (by omega)]
  have rest : ((ch :: text).take m).drop n ++ (ch :: text).drop m = (ch :: text).drop n := by
    rw [← List.drop_append_of_le_length le, List.take_append_drop]
  have read : c.token = ⟨.ok ⟨s, .literal (String.ofList ((ch :: text).take n))⟩,
      c''.putBackAll (((ch :: text).take m).drop n),
      [.followed ((ch :: text).take m) (some (n, s)),
        .word s (String.ofList ((ch :: text).take n))]⟩ := by
    simp only [token, tokenIn, next, hb, known, followed, hw, word]
    rfl
  rw [read, ← rest]
  refine ⟨rfl, putBackAll ?_ fun x hx => separate x (List.mem_of_mem_drop hx)⟩
  rw [List.length_take, Nat.min_eq_left inside] at le
  have index : k + n + (((ch :: text).take m).drop n).length = k + m := by
    rw [List.length_drop, List.length_take, Nat.min_eq_left inside]
    omega
  rw [index]
  exact h''

/-- A character that no word begins with is consumed. -/
theorem token_unknown (h : c.Awaits k (ch :: text)) (hs : isSeparator ch = false)
    (hb : constantOf? ch = none) (unknown : wordTree.child? ch = none) :
    c.token.result = .error (.badToken ch k) ∧ c.token.cursor.Awaits (k + 1) text := by
  obtain ⟨c', next, _, h'⟩ := h.next_adjacent hs
  have read : c.token = ⟨.error (.badToken ch k), c', []⟩ := by
    simp [token, tokenIn, next, hb, unknown, h.position_eq hs]
  rw [read]
  exact ⟨rfl, h'⟩

/-- The characters of a word that is not complete are put back. -/
theorem token_unfinished (h : c.Awaits k (ch :: text)) (hs : isSeparator ch = false)
    (hb : constantOf? ch = none) (known : wordTree.child? ch ≠ none)
    (hw : longestWord? ((ch :: text).take (wordTree.reach (ch :: text))) = none) :
    c.token.result = .error (.badToken ch k) ∧ c.token.cursor.Awaits k (ch :: text) := by
  obtain ⟨c', next, _, h'⟩ := h.next_adjacent hs
  obtain ⟨c'', followed, h''⟩ := follow_eq wordTree wordTree_avoids_separators hs h'
  have inside := PrefixTree.reach_le_length wordTree (ch :: text)
  have separate : ∀ x ∈ (ch :: text).take (wordTree.reach (ch :: text)), isSeparator x = false :=
    PrefixTree.avoids_reach wordTree_avoids_separators
  generalize wordTree.reach (ch :: text) = m at hw followed h'' inside separate
  have read : c.token = ⟨.error (.badToken ch k), c''.putBackAll ((ch :: text).take m),
      [.followed ((ch :: text).take m) none]⟩ := by
    simp [token, tokenIn, next, hb, known, followed, hw, h.position_eq hs]
  have index : k + ((ch :: text).take m).length = k + m := by
    rw [List.length_take, Nat.min_eq_left inside]
  rw [read]
  refine ⟨rfl, ?_⟩
  have back : (c''.putBackAll ((ch :: text).take m)).Awaits k
      ((ch :: text).take m ++ (ch :: text).drop m) := putBackAll (index ▸ h'') separate
  rwa [List.take_append_drop] at back

end Awaits

end Cursor

end Propositional
