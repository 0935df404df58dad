import Mathlib.Data.Set.Card
import Propositional.Proofs.WordTree

/- What a tree of words keeps of its words. Its nodes are the beginnings of the words, each of
   them once, as no node has two children for one character (`PrefixTree.separate_ofWords`), so
   that its size is the number of beginnings (`PrefixTree.ncard_contains`). A walk stops at the
   longest beginning that the text has in front (`PrefixTree.longest_take_reach`), at a node that
   leads on along whatever follows that beginning in a word (`PrefixTree.contains_walk`). How
   often a word was added, and before which others, is not kept
   (`PrefixTree.tree_holds_beginnings`), and tokens are read alike whatever the order was
   (`Cursor.tokenIn_ofWords`). -/
namespace Propositional

/-- `v` is empty or a beginning of one of the words. -/
def Begins (ws : List String) (v : List Char) : Prop := v = [] ∨ ∃ w ∈ ws, v <+: w.toList

/-- Of the beginnings of words that stand in front of the text, `v` is the longest. -/
structure Begins.Longest (ws : List String) (text v : List Char) : Prop where
  inFront : v <+: text
  begins : Begins ws v
  longest : ∀ u, u <+: text → Begins ws u → u.length ≤ v.length

namespace PrefixTree

/-! Paths. -/

/-- The paths from the root to the nodes below it. -/
def paths : PrefixTree → List (List Char)
  | .leaf => []
  | .branch c below others => [c] :: below.paths.map (c :: ·) ++ others.paths

theorem length_paths : ∀ t : PrefixTree, t.paths.length = t.descendants
  | .leaf => rfl
  | .branch c below others => by
    rw [paths, List.length_append, List.length_cons, List.length_map, length_paths below,
      length_paths others, descendants]
    omega

theorem nil_not_mem_paths : ∀ t : PrefixTree, [] ∉ t.paths
  | .leaf => List.not_mem_nil
  | .branch c below others => by simp [paths, nil_not_mem_paths others]

/-- No node has two children for one character. -/
def Separate : PrefixTree → Prop
  | .leaf => True
  | .branch c below others => others.contains [c] = false ∧ below.Separate ∧ others.Separate

theorem separate_ofWord : ∀ w : List Char, (ofWord w).Separate
  | [] => trivial
  | _ :: w => ⟨rfl, separate_ofWord w, trivial⟩

theorem separate_add : ∀ {t : PrefixTree} (w : List Char), t.Separate → (t.add w).Separate
  | .leaf, w, _ => separate_ofWord w
  | .branch _ _ _, [], h => h
  | .branch d below others, c :: cs, ⟨apart, hbelow, hothers⟩ => by
    unfold add
    split
    · exact ⟨apart, separate_add cs hbelow, hothers⟩
    · next ne =>
      refine ⟨?_, hbelow, separate_add (c :: cs) hothers⟩
      rw [Bool.eq_false_iff, Ne, contains_add, List.cons_prefix_cons]
      simp [apart, Ne.symm ne]

theorem separate_ofWords (ws : List String) : (ofWords ws).Separate := by
  have added (t : PrefixTree) (h : t.Separate) :
      (ws.foldl (fun t w => t.add w.toList) t).Separate := by
    induction ws generalizing t with
    | nil => exact h
    | cons w ws ih => exact ih _ (separate_add w.toList h)
  exact added .leaf trivial

theorem contains_head {t : PrefixTree} {c : Char} {cs : List Char}
    (h : t.contains (c :: cs) = true) : t.contains [c] = true := by
  unfold contains at h
  rw [← isSome_child?]
  split at h
  · cases h
  · next node hc => rw [hc]; rfl

theorem mem_paths : ∀ {t : PrefixTree}, t.Separate → ∀ {c : Char} {cs : List Char},
    c :: cs ∈ t.paths ↔ t.contains (c :: cs) = true
  | .leaf, _, c, cs => by simp [paths, contains_leaf_cons]
  | .branch d below others, ⟨apart, hbelow, hothers⟩, c, cs => by
    have further : c :: cs ∈ others.paths ↔ others.contains (c :: cs) = true := mem_paths hothers
    have inside : c :: cs ∈ [d] :: below.paths.map (d :: ·) ↔ c = d ∧ below.contains cs = true := by
      cases cs with
      | nil => simp [contains_nil, nil_not_mem_paths below]
      | cons x xs => simp [mem_paths hbelow, @eq_comm _ d, and_comm]
    rw [paths, List.mem_append, inside, further, contains_branch_cons]
    split
    · next same =>
      -- the character leads below, so that no further child is for it
      have none : ¬ others.contains (c :: cs) = true := fun h => by
        rw [same] at h
        exact absurd (contains_head h) (by simp [apart])
      rw [or_iff_left none, and_iff_right same]
    · next ne => simp [ne]

theorem nodup_paths : ∀ {t : PrefixTree}, t.Separate → t.paths.Nodup
  | .leaf, _ => .nil
  | .branch d below others, ⟨apart, hbelow, hothers⟩ => by
    have deeper : [d] ∉ below.paths.map (d :: ·) := by simpa using nil_not_mem_paths below
    have inside : ([d] :: below.paths.map (d :: ·)).Nodup :=
      List.nodup_cons.mpr ⟨deeper, (nodup_paths hbelow).map List.cons_injective⟩
    refine List.nodup_append.mpr ⟨inside, nodup_paths hothers, ?_⟩
    -- a path below would make the character one that the further children are for as well
    rintro u hu v hv rfl
    obtain ⟨cs, rfl⟩ : ∃ cs, u = d :: cs := by
      obtain rfl | hu := List.mem_cons.mp hu
      · exact ⟨[], rfl⟩
      · obtain ⟨cs, -, rfl⟩ := List.mem_map.mp hu
        exact ⟨cs, rfl⟩
    exact absurd (contains_head ((mem_paths hothers).mp hv)) (by simp [apart])

theorem setOf_contains {t : PrefixTree} (h : t.Separate) :
    {v | t.contains v = true} = ([] :: t.paths).toFinset := by
  ext v
  cases v with
  | nil => simp [contains_nil]
  | cons c cs => simp [mem_paths h]

/-- The paths of a tree, the empty one among them, are as many as its nodes. -/
theorem ncard_contains {t : PrefixTree} (h : t.Separate) :
    {v | t.contains v = true}.ncard = t.size := by
  have distinct : ([] :: t.paths).Nodup :=
    List.nodup_cons.mpr ⟨nil_not_mem_paths t, nodup_paths h⟩
  rw [setOf_contains h, Set.ncard_coe_finset, List.toFinset_card_of_nodup distinct,
    List.length_cons, length_paths, size, Nat.add_comm]

/-! Walks. -/

theorem contains_take_reach : ∀ (t : PrefixTree) (text : List Char),
    t.contains (text.take (t.reach text)) = true
  | t, [] => by simp [contains_nil]
  | t, c :: cs => by
    cases hc : t.child? c with
    | none => rw [reach_eq_zero hc, List.take_zero, contains_nil]
    | some node =>
      rw [reach_cons hc, List.take_succ_cons, contains, hc]
      exact contains_take_reach node cs

/-- From the node where a walk stops the tree leads on as it does along the text so far. -/
theorem contains_walk (v : List Char) : ∀ (t : PrefixTree) (text : List Char),
    (t.walk text).2.contains v = t.contains (text.take (t.reach text) ++ v)
  | t, [] => rfl
  | t, c :: cs => by
    cases hc : t.child? c with
    | none => simp [reach_eq_zero hc, walk, hc]
    | some node =>
      have further := contains_walk v node cs
      simp [reach_cons hc, walk, hc, contains, further]

theorem isLeaf_iff {t : PrefixTree} : t.isLeaf = true ↔ ∀ v, t.contains v = true → v = [] := by
  cases t with
  | leaf =>
    refine iff_of_true rfl (fun v h => ?_)
    cases v with
    | nil => rfl
    | cons c cs => cases h
  | branch c below others =>
    refine iff_of_false (by simp [isLeaf]) (fun h => ?_)
    have child : (branch c below others).contains [c] = true := by
      simp [contains_branch_cons, contains_nil]
    exact absurd (h [c] child) (by simp)

theorem isLeaf_walk_iff {t : PrefixTree} {text : List Char} : (t.walk text).2.isLeaf = true ↔
    ∀ u, t.contains (text.take (t.reach text) ++ u) = true → u = [] := by
  simp only [isLeaf_iff, contains_walk]

/-! Trees with the same paths. -/

section
variable {t t' : PrefixTree} (same : ∀ v, t.contains v = t'.contains v)
include same

theorem reach_le_of_contains (text : List Char) : t.reach text ≤ t'.reach text := by
  have path : t'.contains (text.take (t.reach text)) = true := same _ ▸ contains_take_reach t text
  have along := length_le_reach path (List.take_prefix _ _)
  rwa [List.length_take, Nat.min_eq_left (reach_le_length t text)] at along

theorem reach_eq_of_contains (text : List Char) : t.reach text = t'.reach text :=
  Nat.le_antisymm (reach_le_of_contains same text) (reach_le_of_contains (fun v => (same v).symm) text)

theorem isLeaf_walk_eq_of_contains (text : List Char) :
    (t.walk text).2.isLeaf = (t'.walk text).2.isLeaf := by
  rw [Bool.eq_iff_iff, isLeaf_walk_iff, isLeaf_walk_iff, reach_eq_of_contains same]
  simp only [same]

theorem isSome_child?_of_contains (c : Char) : (t.child? c).isSome = (t'.child? c).isSome := by
  rw [isSome_child?, isSome_child?, same]

theorem size_eq_of_contains (h : t.Separate) (h' : t'.Separate) : t.size = t'.size := by
  rw [← ncard_contains h, ← ncard_contains h']
  simp only [same]

end

/-! Trees of words. -/

variable {ws : List String} {text : List Char}

theorem setOf_begins (ws : List String) :
    {v | Begins ws v} = {v | (ofWords ws).contains v = true} :=
  Set.ext (fun _ => contains_ofWords.symm)

/-- A walk stops at the longest beginning of a word that is in front of the text. -/
theorem longest_take_reach (ws : List String) (text : List Char) :
    Begins.Longest ws text (text.take ((ofWords ws).reach text)) where
  inFront := List.take_prefix _ _
  begins := contains_ofWords.mp (contains_take_reach _ _)
  longest := fun u hu h => by
    have along := length_le_reach (contains_ofWords.mpr h) hu
    rwa [List.length_take, Nat.min_eq_left (reach_le_length _ _)]

/-- Where a walk stops there is a child if a word goes on there. -/
theorem isLeaf_walk_ofWords_iff : ((ofWords ws).walk text).2.isLeaf = true ↔
    ¬ ∃ w ∈ ws, text.take ((ofWords ws).reach text) <+: w.toList ∧
      text.take ((ofWords ws).reach text) ≠ w.toList := by
  rw [isLeaf_walk_iff]
  generalize text.take ((ofWords ws).reach text) = v
  refine ⟨?_, ?_⟩
  · rintro h ⟨w, hw, ⟨u, hu⟩, ne⟩
    have whole : (ofWords ws).contains (v ++ u) = true :=
      contains_ofWords.mpr (.inr ⟨w, hw, hu ▸ List.prefix_refl _⟩)
    exact ne (by rw [← hu, h u whole, List.append_nil])
  · intro h u hu
    obtain empty | ⟨w, hw, further⟩ := contains_ofWords.mp hu
    · exact (List.append_eq_nil_iff.mp empty).2
    · -- if something followed, the word would be longer than the beginning
      by_contra more
      refine h ⟨w, hw, (List.prefix_append v u).trans further, fun e => more ?_⟩
      have short := further.length_le
      rw [← e, List.length_append] at short
      exact List.length_eq_zero_iff.mp (by omega)

/-- The tree of a list of words holds exactly the beginnings of the words: these are its paths,
    its size is their number, and a walk along a text stops after the longest of them that the
    text has in front, at a node without children exactly if no word goes on from there. So two
    lists of words with the same beginnings, in whatever order and however often each word is in
    them, give trees that no use can tell apart. -/
theorem tree_holds_beginnings :
    (∀ ws : List String,
      (∀ v, (ofWords ws).contains v = true ↔ Begins ws v) ∧
      {v | Begins ws v}.Finite ∧ (ofWords ws).size = {v | Begins ws v}.ncard ∧
      ∀ text, ∃ v, Begins.Longest ws text v ∧ ((ofWords ws).walk text).1 = v.length ∧
        (((ofWords ws).walk text).2.isLeaf = true ↔ ¬ ∃ w ∈ ws, v <+: w.toList ∧ v ≠ w.toList)) ∧
    ∀ ws ws' : List String, (∀ v, Begins ws v ↔ Begins ws' v) →
      (∀ v, (ofWords ws).contains v = (ofWords ws').contains v) ∧
      (∀ text, ((ofWords ws).walk text).1 = ((ofWords ws').walk text).1 ∧
        ((ofWords ws).walk text).2.isLeaf = ((ofWords ws').walk text).2.isLeaf) ∧
      (ofWords ws).size = (ofWords ws').size := by
  refine ⟨fun ws => ⟨fun v => contains_ofWords, ?_, ?_, fun text => ?_⟩, fun ws ws' h => ?_⟩
  · rw [setOf_begins, setOf_contains (separate_ofWords ws)]
    exact Finset.finite_toSet _
  · rw [setOf_begins, ncard_contains (separate_ofWords ws)]
  · refine ⟨_, longest_take_reach ws text, ?_, isLeaf_walk_ofWords_iff⟩
    rw [List.length_take, Nat.min_eq_left (reach_le_length _ _)]
    rfl
  · have same (v : List Char) : (ofWords ws).contains v = (ofWords ws').contains v := by
      rw [Bool.eq_iff_iff, contains_ofWords, contains_ofWords]
      exact h v
    exact ⟨same, fun text => ⟨reach_eq_of_contains same text, isLeaf_walk_eq_of_contains same text⟩,
      size_eq_of_contains same (separate_ofWords ws) (separate_ofWords ws')⟩

/-- Without words there is a root and nothing else. -/
example : (ofWords []).size = 1 := rfl

/-- A word twice, the empty word and a beginning of another word add nothing, and the order of
    the words does not matter. -/
theorem tree_holds_beginnings_reordered :
    let ws := ["NOT", "NOR", "&&"]
    let ws' := ["&&", "NO", "NOR", "", "NOT", "NOR"]
    (∀ v, Begins ws v ↔ Begins ws' v) ∧ (ofWords ws').size = 7 ∧
      ((ofWords ws').walk "NO|".toList).1 = 2 ∧
      ((ofWords ws').walk "NO|".toList).2.isLeaf = false := by
  intro ws ws'
  have shorter : "NO".toList <+: "NOR".toList := by decide
  have same (v : List Char) : Begins ws v ↔ Begins ws' v := by
    simp only [Begins, ws, ws', List.mem_cons, List.not_mem_nil, or_false, exists_eq_or_imp,
      exists_eq_left]
    have through : v <+: "NO".toList → v <+: "NOR".toList := fun h => h.trans shorter
    have empty : v <+: "".toList ↔ v = [] := List.prefix_nil
    rw [empty]
    grind
  obtain ⟨-, walks, sizes⟩ := tree_holds_beginnings.2 ws ws' same
  obtain ⟨reached, stopped⟩ := walks "NO|".toList
  exact ⟨same, sizes.symm.trans (by decide), reached.symm.trans (by decide),
    stopped.symm.trans (by decide)⟩

end PrefixTree

/-! Reading with trees that have the same paths. -/

namespace Cursor

/-- One character is followed to the child that the tree has for it, if there is one. -/
theorem follow_eq_child? (ch : Char) (c : Cursor) : ∀ t : PrefixTree, follow t ch c =
    match t.child? ch with
    | none => ([], c.putBack ch)
    | some node =>
      match c.adjacent with
      | (none, c) => ([ch], c)
      | (some next, c) => (ch :: (follow node next c).1, (follow node next c).2)
  | .leaf => rfl
  | .branch d below others => by
    by_cases e : ch = d
    · have here : (PrefixTree.branch d below others).child? ch = some below := if_pos e
      rw [here]
      exact if_pos e
    · have further : (PrefixTree.branch d below others).child? ch = others.child? ch := if_neg e
      rw [further]
      exact (if_neg e).trans (follow_eq_child? ch c others)

/-- Which characters are followed depends on the paths of the tree alone. -/
theorem follow_eq_of_contains {t t' : PrefixTree} (same : ∀ v, t.contains v = t'.contains v)
    (ch : Char) (c : Cursor) : follow t ch c = follow t' ch c := by
  have child := PrefixTree.isSome_child?_of_contains same ch
  cases h : t.child? ch with
  | none =>
    have h' : t'.child? ch = none := by simpa [h] using child
    rw [follow_eq_child?, follow_eq_child?, h, h']
  | some node =>
    obtain ⟨node', h'⟩ : ∃ node', t'.child? ch = some node' := by
      rw [← Option.isSome_iff_exists, ← child, h, Option.isSome_some]
    have below (v : List Char) : node.contains v = node'.contains v := by
      have further := same (ch :: v)
      simpa only [PrefixTree.contains, h, h'] using further
    rw [follow_eq_child?, follow_eq_child?, h, h']
    cases e : c.adjacent with
    | mk read cur =>
      cases read with
      | none => rfl
      | some next =>
        have shorter : cur.remaining < c.remaining := by
          have one := remaining_adjacent (congrArg Prod.fst e)
          rw [e] at one
          exact Nat.lt_of_succ_le one.le
        simp only [follow_eq_of_contains below next cur]
termination_by c.remaining

theorem tokenIn_eq_of_contains {t t' : PrefixTree} (same : ∀ v, t.contains v = t'.contains v)
    (c : Cursor) : c.tokenIn t = c.tokenIn t' := by
  have known (ch : Char) : (t.child? ch).isNone = (t'.child? ch).isNone := by
    rw [← Option.not_isSome, ← Option.not_isSome, PrefixTree.isSome_child?_of_contains same]
  simp only [tokenIn, known, follow_eq_of_contains same]

/-- In whatever order the words are added to the tree, and however often, the same token is
    read, with the same notes, and the same is left to be read. -/
theorem tokenIn_ofWords {ws : List String} (h : ∀ w, w ∈ ws ↔ w ∈ Symbol.words) (c : Cursor) :
    c.tokenIn (.ofWords ws) = c.token := by
  refine tokenIn_eq_of_contains (fun v => ?_) c
  rw [wordTree, Bool.eq_iff_iff, PrefixTree.contains_ofWords, PrefixTree.contains_ofWords]
  simp only [h]

end Cursor

end Propositional
