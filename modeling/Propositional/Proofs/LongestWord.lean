import Mathlib.Data.List.MinMax
import Propositional.Proofs.WordTree

/- The longest word that a text begins with. `Symbol.longest?` looks for it among all the
   words, and finds the one that no other is longer than (`Symbol.longest?_eq_some_iff`).
   Reading follows the characters through the tree of words instead and tries the
   beginnings of what it followed; as the tree leads along every word, it finds the same
   one (`longestWord?_of_longest`). -/
namespace Propositional

namespace Symbol

theorem mem_words {w : String} : w ∈ words ↔ ∃ s : Symbol, w ∈ s.spellings := by
  simp [words, mem_all]

theorem length_pos_of_mem_words {w : String} (h : w ∈ words) : 0 < w.length := by
  have nonempty : ∀ v ∈ words, 0 < v.length := by decide +kernel
  exact nonempty w h

/-- Every word with its symbol. -/
def entries : List (Symbol × String) := all.flatMap (fun s => s.spellings.map (fun w => (s, w)))

theorem mem_entries {s : Symbol} {w : String} : (s, w) ∈ entries ↔ w ∈ s.spellings := by
  simp [entries, mem_all]

/-- The longest word that the text begins with, and its symbol. -/
def longest? (text : List Char) : Option (Symbol × String) :=
  (entries.filter (fun e => e.2.toList.isPrefixOf text)).argmax (fun e => e.2.length)

/-- The text begins with the word, which stands for the symbol, and with no longer word. -/
structure Longest (s : Symbol) (w : String) (text : List Char) : Prop where
  spelling : w ∈ s.spellings
  inFront : w.toList <+: text
  longest : ∀ v ∈ words, v.toList <+: text → v.length ≤ w.length

variable {s : Symbol} {w : String} {text : List Char}

theorem eq_of_prefix_of_length {v w : String} (hv : v.toList <+: text) (hw : w.toList <+: text)
    (h : v.length = w.length) : v = w := by
  rw [← String.toList_inj, List.prefix_iff_eq_take.mp hv, List.prefix_iff_eq_take.mp hw,
    String.length_toList, String.length_toList, h]

theorem Longest.unique {s' : Symbol} {w' : String} (h : s.Longest w text)
    (h' : s'.Longest w' text) : (s, w) = (s', w') := by
  have le := h'.longest w (mem_words.mpr ⟨s, h.spelling⟩) h.inFront
  have ge := h.longest w' (mem_words.mpr ⟨s', h'.spelling⟩) h'.inFront
  obtain rfl : w = w' := eq_of_prefix_of_length h.inFront h'.inFront (Nat.le_antisymm le ge)
  have same := ofSpelling?_of_mem h'.spelling
  rw [ofSpelling?_of_mem h.spelling] at same
  cases same
  rfl

theorem longest_of_longest? (h : longest? text = some (s, w)) : s.Longest w text := by
  have found := List.mem_filter.mp (List.argmax_mem (Option.mem_def.mpr h))
  refine ⟨mem_entries.mp found.1, List.isPrefixOf_iff_prefix.mp found.2, fun v hv hvt => ?_⟩
  obtain ⟨t, ht⟩ := mem_words.mp hv
  have listed : (t, v) ∈ entries.filter (fun e => e.2.toList.isPrefixOf text) :=
    List.mem_filter.mpr ⟨mem_entries.mpr ht, List.isPrefixOf_iff_prefix.mpr hvt⟩
  exact List.le_of_mem_argmax (f := fun e : Symbol × String => e.2.length) listed
    (Option.mem_def.mpr h)

theorem longest?_eq_none_iff : longest? text = none ↔ ∀ w ∈ words, ¬ w.toList <+: text := by
  rw [longest?, List.argmax_eq_none, List.filter_eq_nil_iff]
  refine ⟨?_, ?_⟩
  · intro h w hw hwt
    obtain ⟨s, hs⟩ := mem_words.mp hw
    exact h (s, w) (mem_entries.mpr hs) (List.isPrefixOf_iff_prefix.mpr hwt)
  · intro h e he hwt
    exact h e.2 (mem_words.mpr ⟨e.1, mem_entries.mp he⟩) (List.isPrefixOf_iff_prefix.mp hwt)

theorem longest?_eq_some_iff : longest? text = some (s, w) ↔ s.Longest w text := by
  refine ⟨longest_of_longest?, fun h => ?_⟩
  cases hf : longest? text with
  | none =>
    exact absurd h.inFront (longest?_eq_none_iff.mp hf w (mem_words.mpr ⟨s, h.spelling⟩))
  | some e =>
    have same : e = (s, w) := (longest_of_longest? hf).unique h
    rw [same]

end Symbol

namespace Cursor
variable {s : Symbol} {w : String} {text : List Char}

theorem longestWithin?_eq_some {run : List Char} {k : Nat} (hk : 0 < k)
    (found : Symbol.ofSpelling? (String.ofList (run.take k)) = some s) : ∀ {n : Nat}, k ≤ n →
    (∀ m, k < m → m ≤ n → Symbol.ofSpelling? (String.ofList (run.take m)) = none) →
    longestWithin? run n = some (k, s)
  | 0, hn, _ => by omega
  | n + 1, hn, longer => by
    unfold longestWithin?
    by_cases h : k = n + 1
    · subst h
      rw [found]
    · rw [longer (n + 1) (by omega) (Nat.le_refl _)]
      exact longestWithin?_eq_some hk found (by omega) (fun m hm hmn => longer m hm (by omega))

theorem longestWithin?_eq_none {run : List Char} : ∀ {n : Nat},
    (∀ m ≤ n, Symbol.ofSpelling? (String.ofList (run.take m)) = none) → longestWithin? run n = none
  | 0, _ => rfl
  | n + 1, missing => by
    unfold longestWithin?
    rw [missing (n + 1) (Nat.le_refl _)]
    exact longestWithin?_eq_none (fun m hm => missing m (by omega))

/-- The tree leads along every word. -/
theorem length_le_reach_wordTree (hw : w ∈ Symbol.words) (h : w.toList <+: text) :
    w.length ≤ wordTree.reach text := by
  have path : wordTree.contains w.toList = true :=
    PrefixTree.contains_ofWords.mpr (.inr ⟨w, hw, List.prefix_refl _⟩)
  have along := PrefixTree.length_le_reach path h
  rwa [String.length_toList] at along

/-- What the tree was followed along has the words that the text begins with. -/
theorem mem_words_of_take {m : Nat} (hm : m ≤ wordTree.reach text)
    (found : Symbol.ofSpelling? (String.ofList
      ((text.take (wordTree.reach text)).take m)) = some s) :
    ∃ v ∈ Symbol.words, v.toList <+: text ∧ v.length = m := by
  have inside := PrefixTree.reach_le_length wordTree text
  rw [List.take_take, Nat.min_eq_left hm] at found
  refine ⟨String.ofList (text.take m), Symbol.mem_words.mpr ⟨s, Symbol.ofSpelling?_eq_some.mp found⟩,
    ?_, ?_⟩
  · rw [String.toList_ofList]
    exact List.take_prefix m text
  · rw [← String.length_toList, String.toList_ofList, List.length_take]
    omega

theorem longestWord?_of_longest (h : s.Longest w text) (hw : 0 < w.length) :
    longestWord? (text.take (wordTree.reach text)) = some (w.length, s) := by
  have inside := PrefixTree.reach_le_length wordTree text
  have along := length_le_reach_wordTree (Symbol.mem_words.mpr ⟨s, h.spelling⟩) h.inFront
  have word : String.ofList ((text.take (wordTree.reach text)).take w.length) = w := by
    have front := List.prefix_iff_eq_take.mp h.inFront
    rw [String.length_toList] at front
    rw [List.take_take, Nat.min_eq_left along, ← front, String.ofList_toList]
  refine longestWithin?_eq_some hw ?_ ?_ ?_
  · rw [word]
    exact Symbol.ofSpelling?_of_mem h.spelling
  · rw [List.length_take]
    omega
  · intro m hm hmr
    rw [List.length_take, Nat.min_eq_left inside] at hmr
    cases found : Symbol.ofSpelling? (String.ofList ((text.take (wordTree.reach text)).take m)) with
    | none => rfl
    | some t =>
      obtain ⟨v, hv, hvt, length⟩ := mem_words_of_take hmr found
      have := h.longest v hv hvt
      omega

theorem longestWord?_of_no_word (h : ∀ w ∈ Symbol.words, ¬ w.toList <+: text) :
    longestWord? (text.take (wordTree.reach text)) = none := by
  have inside := PrefixTree.reach_le_length wordTree text
  refine longestWithin?_eq_none fun m hm => ?_
  rw [List.length_take, Nat.min_eq_left inside] at hm
  cases found : Symbol.ofSpelling? (String.ofList ((text.take (wordTree.reach text)).take m)) with
  | none => rfl
  | some t =>
    obtain ⟨v, hv, hvt, -⟩ := mem_words_of_take hm found
    exact absurd hvt (h v hv)

end Cursor

end Propositional
