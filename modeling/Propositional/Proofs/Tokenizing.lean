import Propositional.Proofs.Scanning

/- Reading all tokens of a text. A token that is read carries what it was written as: one
   of its symbol's words, or the truth value of a constant (`Token.Spelled`). What a text
   reads as is put together from the front: `Tokenizes text ts` does not change with a
   separator in front of the text, and gains a token with a word in front that the tree
   leads no further from. -/
namespace Propositional

/-- The token is one that a text may be read as. -/
inductive Token.Spelled : Token → Prop where
  | eof : Spelled Token.eof
  | constant (b : Bool) : Spelled (Token.constant b)
  | word {s : Symbol} {w : String} : w ∈ s.spellings → s ≠ .constant → Spelled ⟨s, .literal w⟩

theorem Token.Spelled.mem_variableWords {t : Token} {x : String} (h : t.Spelled)
    (ht : t.symbol.isOperand) (hx : t.value = .literal x) : x ∈ variableWords := by
  cases h with
  | eof => cases hx
  | constant => cases hx
  | @word s w hw hs =>
    cases hx
    cases s with
    | var => exact hw
    | constant => exact absurd rfl hs
    | eof | connective | not | closing | opening => cases ht

namespace Cursor

theorem longestWithin?_spells {run : List Char} : ∀ {n k : Nat} {s : Symbol},
    longestWithin? run n = some (k, s) → String.ofList (run.take k) ∈ s.spellings
  | 0, _, _, h => by simp [longestWithin?] at h
  | n + 1, k, s, h => by
    unfold longestWithin? at h
    split at h
    · next found =>
      simp only [Option.some.injEq, Prod.mk.injEq] at h
      obtain ⟨hk, hs⟩ := h
      subst hk hs
      exact Symbol.ofSpelling?_eq_some.mp found
    · exact longestWithin?_spells h

/-- What is followed begins with the character just read, if it is followed at all. -/
theorem follow_head : ∀ (t : PrefixTree) (ch : Char) (c : Cursor),
    ∀ x ∈ (follow t ch c).1.head?, x = ch
  | .leaf, _, _, x, hx => by simp [follow] at hx
  | .branch d below others, ch, c, x, hx => by
    unfold follow at hx
    split at hx
    · split at hx <;> simpa using hx.symm
    · exact follow_head others ch c x hx

theorem constantOf?_ne_none {ch : Char} {cs : List Char}
    (h : String.ofList (ch :: cs) ∈ Symbol.constant.spellings) : constantOf? ch ≠ none := by
  have letters : Symbol.constant.spellings.map String.toList = [['V'], ['T'], ['F']] := by decide
  have mem := List.mem_map_of_mem (f := String.toList) h
  rw [letters, String.toList_ofList] at mem
  simp only [List.mem_cons, List.cons.injEq, List.not_mem_nil, or_false] at mem
  rcases mem with ⟨rfl, _⟩ | ⟨rfl, _⟩ | ⟨rfl, _⟩ <;> decide

theorem spelled_token {c : Cursor} {t : Token} (h : c.token.result = .ok t) : t.Spelled := by
  unfold token tokenIn at h
  split at h
  · cases h
    exact .eof
  · next ch cur _ =>
    dsimp only at h
    split at h
    · cases h
      exact .constant _
    · next hb =>
      split at h
      · cases h
      · split at h
        · cases h
        · next n s best =>
          cases h
          have spelled := longestWithin?_spells best
          refine .word spelled fun hs => ?_
          -- a constant's word is one letter, which the first look found not to be one
          subst hs
          obtain ⟨pos, le⟩ := longestWithin?_pos best
          cases hr : (follow wordTree ch cur).1 with
          | nil =>
            rw [hr] at le
            exact absurd le (Nat.not_le.mpr pos)
          | cons x run =>
            have hx := follow_head wordTree ch cur x (by rw [hr]; rfl)
            subst hx
            obtain ⟨m, rfl⟩ := Nat.exists_eq_succ_of_ne_zero (Nat.pos_iff_ne_zero.mp pos)
            rw [hr, List.take_succ_cons] at spelled
            exact constantOf?_ne_none spelled hb

end Cursor

namespace Stream

theorem tokenize_of_error {s : Stream} {e : LexError} (h : s.next.result = .error e) :
    s.tokenize = ⟨.error e, s.next.stream, s.next.notes⟩ := by
  rw [tokenize]
  split
  · next e' he =>
    rw [h] at he
    cases he
    rfl
  · next t ht =>
    rw [h] at ht
    cases ht

theorem tokenize_of_eof {s : Stream} {t : Token} (h : s.next.result = .ok t)
    (ht : t.symbol = .eof) :
    s.tokenize = ⟨.ok [Token.eof], { s.next.stream with buffer := some t }, s.next.notes⟩ := by
  rw [tokenize]
  split
  · next e he =>
    rw [h] at he
    cases he
  · next t' ht' =>
    rw [h] at ht'
    cases ht'
    rw [dif_pos ht]

theorem tokenize_of_more {s : Stream} {t : Token} (h : s.next.result = .ok t)
    (ht : t.symbol ≠ .eof) :
    s.tokenize = ⟨s.next.stream.tokenize.result.map (t :: ·), s.next.stream.tokenize.stream,
      s.next.notes ++ s.next.stream.tokenize.notes⟩ := by
  rw [tokenize]
  split
  · next e he =>
    rw [h] at he
    cases he
  · next t' ht' =>
    rw [h] at ht'
    cases ht'
    rw [dif_neg ht]

/-- A text that is read either ends, or goes on with a token. -/
theorem tokenize_cases {s : Stream} {ts : List Token} (h : s.tokenize.result = .ok ts) :
    (∃ t, s.next.result = .ok t ∧ t.symbol = .eof ∧ ts = [Token.eof]) ∨
    (∃ t us, s.next.result = .ok t ∧ t.symbol ≠ .eof ∧
      s.next.stream.tokenize.result = .ok us ∧ ts = t :: us) := by
  cases hr : s.next.result with
  | error e =>
    rw [tokenize_of_error hr] at h
    cases h
  | ok t =>
    by_cases ht : t.symbol = .eof
    · rw [tokenize_of_eof hr ht] at h
      cases h
      exact .inl ⟨t, rfl, ht, rfl⟩
    · rw [tokenize_of_more hr ht] at h
      cases rest : s.next.stream.tokenize.result with
      | error e =>
        rw [rest] at h
        cases h
      | ok us =>
        rw [rest] at h
        cases h
        exact .inr ⟨t, us, rfl, ht, rfl, rfl⟩

theorem tokenize_congr {s s' : Stream} (h : s.next = s'.next) :
    s.tokenize.result = s'.tokenize.result := by
  cases hr : s'.next.result with
  | error e => rw [tokenize_of_error hr, tokenize_of_error (h ▸ hr)]
  | ok t =>
    by_cases ht : t.symbol = .eof
    · rw [tokenize_of_eof hr ht, tokenize_of_eof (h ▸ hr) ht]
    · rw [tokenize_of_more hr ht, tokenize_of_more (h ▸ hr) ht, h]

/-- Every token that is read from a text is spelled. -/
theorem spelled_tokenize {s : Stream} {ts : List Token} (empty : s.buffer = none)
    (h : s.tokenize.result = .ok ts) : ∀ t ∈ ts, t.Spelled := by
  have next : s.next = ⟨s.cursor.token.result, ⟨s.cursor.token.cursor, none⟩, s.cursor.token.notes⟩ := by
    simp only [Stream.next, empty]
  obtain ⟨t, -, -, rfl⟩ | ⟨t, us, hr, ht, rest, rfl⟩ := tokenize_cases h
  · intro x hx
    obtain rfl := List.mem_singleton.mp hx
    exact .eof
  · have less := remaining_next hr ht
    have spelled : t.Spelled := Cursor.spelled_token (by rw [next] at hr; exact hr)
    have following := spelled_tokenize (by rw [next]) rest
    intro x hx
    obtain rfl | hx := List.mem_cons.mp hx
    · exact spelled
    · exact following x hx
termination_by s.remaining

end Stream

/-! Texts and their tokens, put together from the front. -/

/-- The character is a word of the symbol, and no longer word begins with it. -/
structure Symbol.Letter (s : Symbol) (ch : Char) : Prop where
  spelling : String.singleton ch ∈ s.spellings
  separate : isSeparator ch = false
  notConstant : constantOf? ch = none
  alone : wordTree.child? ch = some .leaf

namespace Symbol
variable {s : Symbol} {ch : Char}

theorem letter_iff : s.Letter ch ↔ String.singleton ch ∈ s.spellings ∧ isSeparator ch = false ∧
    constantOf? ch = none ∧ wordTree.child? ch = some .leaf :=
  ⟨fun h => ⟨h.spelling, h.separate, h.notConstant, h.alone⟩,
    fun ⟨spelling, separate, notConstant, alone⟩ => ⟨spelling, separate, notConstant, alone⟩⟩

instance : Decidable (s.Letter ch) := decidable_of_iff _ letter_iff.symm

end Symbol

/-- Wherever the text is what is left to be read, the tokens are read. -/
def Tokenizes (text : List Char) (ts : List Token) : Prop :=
  ∀ (c : Cursor) (k : Nat), c.Awaits k text → (⟨c, none⟩ : Stream).tokenize.result = .ok ts

namespace Tokenizes
variable {text : List Char} {ts : List Token} {ch : Char}

theorem nil : Tokenizes [] [Token.eof] := by
  intro c k h
  have read : (⟨c, none⟩ : Stream).next.result = .ok Token.eof := h.token_eof.1
  rw [Stream.tokenize_of_eof read rfl]

theorem separator (h : Tokenizes text ts) (hc : isSeparator ch = true) :
    Tokenizes (ch :: text) ts := by
  intro c k awaits
  obtain ⟨c', awaits', same⟩ := awaits.token_separator hc
  have next : (⟨c, none⟩ : Stream).next = (⟨c', none⟩ : Stream).next := by
    show (⟨c.token.result, ⟨c.token.cursor, none⟩, c.token.notes⟩ : Stream.Read Token) = _
    rw [same]
    rfl
  rw [Stream.tokenize_congr next]
  exact h c' (k + 1) awaits'

theorem cons {t : Token} {rest : List Char} (h : Tokenizes rest ts) (ht : t.symbol ≠ .eof)
    (read : ∀ (c : Cursor) (k : Nat), c.Awaits k text →
      c.token.result = .ok t ∧ ∃ m, c.token.cursor.Awaits m rest) :
    Tokenizes text (t :: ts) := by
  intro c k awaits
  obtain ⟨token, m, awaits'⟩ := read c k awaits
  have next : (⟨c, none⟩ : Stream).next.result = .ok t := token
  rw [Stream.tokenize_of_more next ht]
  show ((⟨c.token.cursor, none⟩ : Stream).tokenize.result).map (t :: ·) = _
  rw [h _ m awaits']
  rfl

theorem constant {b : Bool} (h : Tokenizes text ts) (hs : isSeparator ch = false)
    (hb : constantOf? ch = some b) : Tokenizes (ch :: text) (Token.constant b :: ts) := by
  refine h.cons (by simp [Token.constant]) fun c k awaits => ?_
  obtain ⟨token, awaits'⟩ := awaits.token_constant hs hb
  exact ⟨token, k + 1, awaits'⟩

theorem letter {s : Symbol} (h : Tokenizes text ts) (hl : s.Letter ch) :
    Tokenizes (ch :: text) (⟨s, .literal (String.singleton ch)⟩ :: ts) := by
  have known : s ≠ .eof := by
    intro e
    have spelling := hl.spelling
    rw [e] at spelling
    cases spelling
  refine h.cons known fun c k awaits => ?_
  have best : longestWord? ((ch :: text).take (wordTree.reach (ch :: text))) = some (1, s) := by
    rw [PrefixTree.reach_cons hl.alone, PrefixTree.reach_leaf]
    simp [longestWord?, longestWithin?, Symbol.ofSpelling?_of_mem hl.spelling]
  obtain ⟨token, awaits'⟩ := awaits.token_word hl.separate hl.notConstant best
  rw [String.singleton_eq_ofList]
  exact ⟨token, k + 1, awaits'⟩

end Tokenizes

end Propositional
