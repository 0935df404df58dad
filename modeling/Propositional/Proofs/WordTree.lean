import Propositional.Proofs.Scanning

/- What a tree of words knows of its words. The paths from the root of such a tree are the
   beginnings of the words that were added (`PrefixTree.contains_ofWords`), so that it leads
   along a text at least as far as each of its words that the text begins with
   (`PrefixTree.length_le_reach`). -/
namespace Propositional.PrefixTree

theorem contains_nil (t : PrefixTree) : t.contains [] = true := by cases t <;> rfl

theorem contains_leaf_cons (c : Char) (cs : List Char) : leaf.contains (c :: cs) = false := rfl

theorem contains_branch_cons (d : Char) (below others : PrefixTree) (c : Char) (cs : List Char) :
    (branch d below others).contains (c :: cs) =
      if c = d then below.contains cs else others.contains (c :: cs) := by
  by_cases h : c = d <;> simp [contains, child?, h]

theorem contains_ofWord : ∀ (w v : List Char), (ofWord w).contains v = true ↔ v <+: w
  | w, [] => by simp [contains_nil]
  | [], c :: cs => by simp [ofWord, contains_leaf_cons]
  | d :: w, c :: cs => by
    rw [ofWord, contains_branch_cons, List.cons_prefix_cons]
    split
    · next h => simp [h, contains_ofWord w cs]
    · next h => simp [h, contains_leaf_cons]

theorem contains_add : ∀ (t : PrefixTree) (w v : List Char),
    (t.add w).contains v = true ↔ t.contains v = true ∨ v <+: w
  | t, w, [] => by simp [contains_nil]
  | .leaf, w, c :: cs => by simp [add, contains_ofWord, contains_leaf_cons]
  | .branch d below others, [], c :: cs => by simp [add]
  | .branch d below others, x :: w, c :: cs => by
    unfold add
    rw [contains_branch_cons, List.cons_prefix_cons]
    by_cases hx : x = d
    · rw [if_pos hx, contains_branch_cons]
      by_cases hc : c = d
      · simp [hc, hx, contains_add below w cs]
      · simp [hc, hx]
    · rw [if_neg hx, contains_branch_cons]
      by_cases hc : c = d
      · have ne : d ≠ x := fun e => hx e.symm
        simp [hc, ne]
      · simp [hc, contains_add others (x :: w) (c :: cs), List.cons_prefix_cons]

/-- The paths are the beginnings of the words. -/
theorem contains_ofWords {ws : List String} {v : List Char} :
    (ofWords ws).contains v = true ↔ v = [] ∨ ∃ w ∈ ws, v <+: w.toList := by
  have added (t : PrefixTree) : (ws.foldl (fun t w => t.add w.toList) t).contains v = true ↔
      t.contains v = true ∨ ∃ w ∈ ws, v <+: w.toList := by
    induction ws generalizing t with
    | nil => simp
    | cons w ws ih => simp [ih, contains_add, or_assoc]
  have root : leaf.contains v = true ↔ v = [] := by cases v <;> simp [contains_nil, contains_leaf_cons]
  rw [ofWords, added, root]

theorem isSome_child? (t : PrefixTree) (c : Char) : (t.child? c).isSome = t.contains [c] := by
  unfold contains
  split
  · next h => simp [h]
  · next node h => simp [h, contains_nil]

/-- The tree leads along a text as far as any of its paths goes. -/
theorem length_le_reach : ∀ {t : PrefixTree} {w text : List Char}, t.contains w = true →
    w <+: text → w.length ≤ t.reach text
  | _, [], _, _, _ => Nat.zero_le _
  | t, c :: cs, [], _, h => by simp at h
  | t, c :: cs, x :: text, ht, h => by
    obtain ⟨rfl, rest⟩ := List.cons_prefix_cons.mp h
    unfold contains at ht
    split at ht
    · cases ht
    · next node hc =>
      rw [reach_cons hc, List.length_cons]
      exact Nat.succ_le_succ (length_le_reach ht rest)

end Propositional.PrefixTree
