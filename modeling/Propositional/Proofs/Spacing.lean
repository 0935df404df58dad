import Mathlib.Data.List.Chain
import Propositional.Proofs.Reader

/- Which texts can be read, and as what. A text is laid out as pieces, each a word of a
   token with the separators behind it (`Layout`), and is read as the tokens of its pieces.
   Separators may be left out everywhere but between the two words that would run together:
   only & and | begin a longer word, their own double (`Symbol.eq_or_doubled`). Reading
   never looks for another split, and need not: whatever is put together from words and
   separators can be read, as a double may always be taken whole (`Mixed.readable`). -/
namespace Propositional

namespace Symbol

/-- The signs that may be written twice for the same symbol. -/
def doubling : List Char := ['&', '|']

/-- The word is a sign that may be written twice, and the text goes on with the sign. -/
def Doubled (w : String) (text : List Char) : Prop :=
  ∃ ch ∈ doubling, w = String.singleton ch ∧ text.head? = some ch

instance (w : String) (text : List Char) : Decidable (Doubled w text) :=
  List.decidableBEx _ doubling

theorem mem_doubling {ch : Char} : ch ∈ doubling ↔ ch = '&' ∨ ch = '|' := List.mem_pair

/-- A word begins with no other word but the sign that it doubles. -/
theorem eq_or_doubled {v w : String} (hv : v ∈ words) (hw : w ∈ words) (h : w.toList <+: v.toList) :
    v = w ∨ ∃ ch ∈ doubling, w = String.singleton ch ∧ v.toList = [ch, ch] := by
  have listed : ∀ v ∈ words, ∀ w ∈ words, w.toList <+: v.toList →
      v = w ∨ w = "&" ∧ v = "&&" ∨ w = "|" ∧ v = "||" := by decide +kernel
  obtain rfl | ⟨rfl, rfl⟩ | ⟨rfl, rfl⟩ := listed v hv w hw h
  · exact .inl rfl
  · exact .inr ⟨'&', mem_doubling.mpr (.inl rfl), by decide, by decide⟩
  · exact .inr ⟨'|', mem_doubling.mpr (.inr rfl), by decide, by decide⟩

section
variable {ch : Char} (h : ch ∈ doubling)
include h

theorem singleton_mem_words : String.singleton ch ∈ words := by
  obtain rfl | rfl := mem_doubling.mp h <;> decide

theorem double_mem_words : String.ofList [ch, ch] ∈ words := by
  obtain rfl | rfl := mem_doubling.mp h <;> decide

theorem isSeparator_of_mem_doubling : isSeparator ch = false := by
  obtain rfl | rfl := mem_doubling.mp h <;> decide

theorem constantOf?_of_mem_doubling : constantOf? ch = none := by
  obtain rfl | rfl := mem_doubling.mp h <;> decide

end

theorem isSeparator_of_mem_word {w : String} (hw : w ∈ words) :
    ∀ ch ∈ w.toList, isSeparator ch = false := by
  have listed : ∀ w ∈ words, w.toList.all (fun ch => !isSeparator ch) = true := by decide +kernel
  simpa using listed w hw

variable {s : Symbol} {w : String} {text rest : List Char}

theorem toList_ne_nil (hw : w ∈ s.spellings) : w.toList ≠ [] := by
  have pos := length_pos_of_mem_words (mem_words.mpr ⟨s, hw⟩)
  rw [← String.length_toList] at pos
  exact List.ne_nil_of_length_pos pos

theorem longest_append_iff :
    s.Longest w (w.toList ++ rest) ↔ w ∈ s.spellings ∧ ¬ Doubled w rest := by
  refine ⟨fun h => ⟨h.spelling, ?_⟩, fun ⟨spelling, single⟩ =>
    ⟨spelling, List.prefix_append .., fun v hv hvt => ?_⟩⟩
  · rintro ⟨ch, hch, rfl, head⟩
    obtain ⟨rest, rfl⟩ := List.head?_eq_some_iff.mp head
    have double := h.longest _ (double_mem_words hch) (by simp)
    simp at double
  · by_contra longer
    have shorter : w.toList.length ≤ v.toList.length := by
      rw [String.length_toList, String.length_toList]
      omega
    have inFront : w.toList <+: v.toList :=
      List.prefix_of_prefix_length_le (List.prefix_append ..) hvt shorter
    obtain rfl | ⟨ch, hch, rfl, double⟩ := eq_or_doubled hv (mem_words.mpr ⟨s, spelling⟩) inFront
    · exact longer (Nat.le_refl _)
    · obtain ⟨rest', run⟩ := hvt
      obtain rfl : ch :: rest' = rest := by simpa [double] using run
      exact single ⟨ch, hch, rfl, rfl⟩

end Symbol

/-- The token is what the word is read as: the word itself goes with its symbol, and the
    truth value that it stands for with a constant. -/
inductive Token.WrittenAs : Token → String → Prop where
  | word {s : Symbol} {w : String} : w ∈ s.spellings → s ≠ .constant → WrittenAs ⟨s, .literal w⟩ w
  | constant {ch : Char} {b : Bool} : String.singleton ch ∈ Symbol.constant.spellings →
      constantOf? ch = some b → WrittenAs (Token.constant b) (String.singleton ch)

theorem constant_spelling {ch : Char} {b : Bool} (h : constantOf? ch = some b) :
    String.singleton ch ∈ Symbol.constant.spellings := by
  unfold constantOf? at h
  split at h
  · next letter => rcases letter with rfl | rfl <;> decide
  · split at h
    · next letter =>
      subst letter
      decide
    · cases h

theorem not_doubled_constant {ch : Char} {b : Bool} {rest : List Char} (h : constantOf? ch = some b) :
    ¬ Symbol.Doubled (String.singleton ch) rest := by
  rintro ⟨sign, hs, same, -⟩
  obtain rfl : ch = sign := by simpa using congrArg String.toList same
  rw [Symbol.constantOf?_of_mem_doubling hs] at h
  cases h

/-- Only the words of a constant begin with one of its letters. -/
theorem constantOf?_head {s : Symbol} {w : String} (hw : w ∈ s.spellings) (hs : s ≠ .constant) :
    w.toList.head?.bind constantOf? = none := by
  have listed : ∀ s ∈ Symbol.all, s ≠ .constant → ∀ w ∈ s.spellings,
      w.toList.head?.bind constantOf? = none := by decide +kernel
  exact listed s (Symbol.mem_all s) hs w hw

namespace Token.WrittenAs
variable {t : Token} {w : String}

theorem spelling (h : t.WrittenAs w) : w ∈ t.symbol.spellings := by
  cases h with
  | word hw _ => exact hw
  | constant hw _ => exact hw

theorem ne_eof (h : t.WrittenAs w) : t.symbol ≠ .eof := by
  intro e
  have spelling := h.spelling
  rw [e] at spelling
  cases spelling

end Token.WrittenAs

theorem Token.exists_writtenAs {w : String} (hw : w ∈ Symbol.words) : ∃ t : Token, t.WrittenAs w := by
  obtain ⟨s, hs⟩ := Symbol.mem_words.mp hw
  by_cases e : s = .constant
  · subst e
    have letters : Symbol.constant.spellings = ['V', 'T', 'F'].map String.singleton := by decide
    obtain ⟨ch, hch, rfl⟩ := List.mem_map.mp (letters ▸ hs)
    simp only [List.mem_cons, List.not_mem_nil, or_false] at hch
    obtain rfl | rfl | rfl := hch <;> exact ⟨_, .constant hs rfl⟩
  · exact ⟨_, .word hs e⟩

namespace Reader
variable {k : Nat} {t : Token} {w : String} {text rest : List Char}

theorem read_word (h : t.WrittenAs w) (single : ¬ Symbol.Doubled w rest) :
    read k (w.toList ++ rest) = (.ok t, w.length) := by
  cases h with
  | @constant ch b _ hb => simp [read, hb]
  | @word s w hw hs =>
    have best := Symbol.longest?_eq_some_iff.mpr (Symbol.longest_append_iff.mpr ⟨hw, single⟩)
    have nonempty := Symbol.toList_ne_nil hw
    have letters := constantOf?_head hw hs
    cases hl : w.toList with
    | nil => exact absurd hl nonempty
    | cons ch cs =>
      rw [hl] at best letters
      have hb : constantOf? ch = none := letters
      simp only [List.cons_append] at best ⊢
      simp only [read, hb, best]

/-- What is read of a text is the word that it begins with. -/
theorem word_of_read {ch : Char} (h : (read k (ch :: text)).1 = .ok t) :
    ∃ w rest, ch :: text = w.toList ++ rest ∧ t.WrittenAs w ∧ ¬ Symbol.Doubled w rest ∧
      (read k (ch :: text)).2 = w.length := by
  simp only [read] at h ⊢
  cases hb : constantOf? ch with
  | some b =>
    simp only [hb] at h ⊢
    cases h
    exact ⟨String.singleton ch, text, by simp, .constant (constant_spelling hb) hb,
      not_doubled_constant hb, by simp⟩
  | none =>
    simp only [hb] at h ⊢
    cases hw : Symbol.longest? (ch :: text) with
    | none =>
      simp only [hw] at h
      cases h
    | some e =>
      obtain ⟨s, w⟩ := e
      simp only [hw] at h ⊢
      cases h
      have best := Symbol.longest?_eq_some_iff.mp hw
      obtain ⟨rest, split⟩ := best.inFront
      rw [← split] at best
      obtain ⟨spelling, single⟩ := Symbol.longest_append_iff.mp best
      refine ⟨w, rest, split.symm, .word spelling ?_, single, rfl⟩
      -- a constant would have been found by its letter
      rintro rfl
      cases hl : w.toList with
      | nil => exact Symbol.toList_ne_nil spelling hl
      | cons x cs =>
        rw [hl] at split
        injection split with same _
        rw [← String.ofList_toList (s := w), hl, same] at spelling
        exact Cursor.constantOf?_ne_none spelling hb

end Reader

/-! Texts that are laid out as pieces. -/

/-- A word that a token is written as, and the separators behind it. -/
structure Piece where
  token : Token
  word : String
  gap : List Char

namespace Piece

def text (p : Piece) : List Char := p.word.toList ++ p.gap

structure Proper (p : Piece) : Prop where
  written : p.token.WrittenAs p.word
  blank : ∀ ch ∈ p.gap, isSeparator ch = true

/-- The words of two pieces that follow one another do not run together. -/
def Apart (p q : Piece) : Prop := Symbol.Doubled p.word q.word.toList → p.gap ≠ []

instance (p q : Piece) : Decidable (p.Apart q) :=
  inferInstanceAs (Decidable (Symbol.Doubled p.word q.word.toList → p.gap ≠ []))

end Piece

/-- The text is laid out as separators and then the pieces, which are those of the tokens. -/
structure Layout (lead : List Char) (pieces : List Piece) (ts : List Token) (text : List Char) :
    Prop where
  tokens : pieces.map Piece.token = ts
  text : lead ++ pieces.flatMap Piece.text = text
  lead : ∀ ch ∈ lead, isSeparator ch = true
  proper : ∀ p ∈ pieces, p.Proper
  apart : pieces.IsChain Piece.Apart

namespace Layout
variable {lead gap rest text : List Char} {pieces : List Piece} {ts : List Token} {t : Token}
  {w : String}

theorem nil (h : ∀ ch ∈ lead, isSeparator ch = true) : Layout lead [] [] lead where
  tokens := rfl
  text := List.append_nil lead
  lead := h
  proper := nofun
  apart := .nil

/-- Two words are kept apart if the text does not go on with the second half of a double. -/
theorem apart_iff {p : Piece} (blank : ∀ ch ∈ p.gap, isSeparator ch = true)
    (proper : ∀ q ∈ pieces, q.Proper) : (∀ q ∈ pieces.head?, p.Apart q) ↔
      ¬ Symbol.Doubled p.word (p.gap ++ pieces.flatMap Piece.text) := by
  cases hg : p.gap with
  | nil =>
    cases pieces with
    | nil => simp [Symbol.Doubled]
    | cons q pieces =>
      have nonempty := Symbol.toList_ne_nil (proper q (by simp)).written.spelling
      have head : ([] ++ (q :: pieces).flatMap Piece.text).head? = q.word.toList.head? := by
        rw [List.nil_append, List.flatMap_cons, Piece.text, List.append_assoc,
          List.head?_append_of_ne_nil _ nonempty]
      rw [Symbol.Doubled, head]
      refine ⟨fun apart doubled => apart q rfl doubled hg, fun single q' hq' doubled => ?_⟩
      cases hq'
      exact absurd doubled single
  | cons ch gap =>
    refine ⟨fun _ => ?_, fun _ _ _ _ => by simp [hg]⟩
    rintro ⟨sign, hs, -, head⟩
    obtain rfl : ch = sign := by simpa using head
    have blank := blank ch (by simp [hg])
    rw [Symbol.isSeparator_of_mem_doubling hs] at blank
    cases blank

theorem cons (h : Layout gap pieces ts rest) (hw : t.WrittenAs w) (single : ¬ Symbol.Doubled w rest)
    (hl : ∀ ch ∈ lead, isSeparator ch = true) :
    Layout lead (⟨t, w, gap⟩ :: pieces) (t :: ts) (lead ++ (w.toList ++ rest)) where
  tokens := congrArg (t :: ·) h.tokens
  text := by rw [← h.text, List.flatMap_cons, Piece.text, List.append_assoc]
  lead := hl
  proper := List.forall_mem_cons.mpr ⟨⟨hw, h.lead⟩, h.proper⟩
  apart := by
    rw [← h.text] at single
    exact List.isChain_cons.mpr ⟨(apart_iff h.lead h.proper).mpr single, h.apart⟩

end Layout

namespace Tokenizes
variable {text rest gap : List Char} {ts : List Token} {t : Token} {w : String}

theorem separators (h : Tokenizes text ts) : ∀ {gap : List Char},
    (∀ ch ∈ gap, isSeparator ch = true) → Tokenizes (gap ++ text) ts
  | [], _ => h
  | ch :: gap, blank => by
    obtain ⟨hc, hg⟩ := List.forall_mem_cons.mp blank
    exact (h.separators hg).separator hc

theorem word (h : Tokenizes rest ts) (hw : t.WrittenAs w) (single : ¬ Symbol.Doubled w rest) :
    Tokenizes (w.toList ++ rest) (t :: ts) := by
  refine h.cons hw.ne_eof fun c k awaits => ?_
  have head : ∀ ch ∈ (w.toList ++ rest).head?, isSeparator ch = false := by
    have nonempty := Symbol.toList_ne_nil hw.spelling
    rw [List.head?_append_of_ne_nil _ nonempty]
    intro ch hch
    exact Symbol.isSeparator_of_mem_word (Symbol.mem_words.mpr ⟨_, hw.spelling⟩) ch
      (List.mem_of_mem_head? hch)
  obtain ⟨result, after⟩ := awaits.token_front head
  rw [Reader.read_word hw single] at result after
  rw [← String.length_toList, List.drop_left] at after
  exact ⟨result, _, after⟩

end Tokenizes

namespace Layout
variable {text : List Char} {ts : List Token}

/-- A text that is laid out is read as the tokens of its pieces. -/
theorem tokenizes : ∀ {pieces : List Piece} {lead text : List Char} {ts : List Token},
    Layout lead pieces ts text → Tokenizes text (ts ++ [Token.eof])
  | [], lead, text, ts, h => by
    obtain rfl := h.tokens
    obtain rfl := h.text
    exact Tokenizes.nil.separators h.lead
  | p :: pieces, lead, text, ts, h => by
    obtain ⟨hp, proper⟩ := List.forall_mem_cons.mp h.proper
    obtain ⟨first, apart⟩ := List.isChain_cons.mp h.apart
    have rest : Layout p.gap pieces (pieces.map Piece.token)
        (p.gap ++ pieces.flatMap Piece.text) := ⟨rfl, rfl, hp.blank, proper, apart⟩
    have single := (apart_iff hp.blank proper).mp first
    obtain rfl := h.tokens
    obtain rfl := h.text
    rw [List.flatMap_cons, Piece.text, List.append_assoc]
    exact (rest.tokenizes.word hp.written single).separators h.lead

/-- A text that is read is laid out as pieces of the tokens. By recursion on the length of the
    text, as the index and the cursor change from token to token. -/
theorem of_tokenize {text : List Char} {c : Cursor} {k : Nat} {us : List Token}
    (h : c.Awaits k text) (read : (⟨c, none⟩ : Stream).tokenize.result = .ok us) :
    ∃ lead pieces ts, us = ts ++ [Token.eof] ∧ Layout lead pieces ts text := by
  obtain ⟨result, after⟩ := h.token_read
  have blank : ∀ ch ∈ text.takeWhile isSeparator, isSeparator ch = true :=
    List.all_eq_true.mp List.all_takeWhile
  have split : text.takeWhile isSeparator ++ text.dropWhile isSeparator = text :=
    List.takeWhile_append_dropWhile
  generalize text.takeWhile isSeparator = lead at *
  generalize k + lead.length = i at *
  -- behind the separators comes the end of the text, or a word and what is laid out after it
  cases left : text.dropWhile isSeparator with
  | nil =>
    rw [left] at result split
    rw [Stream.tokenize_of_eof (s := ⟨c, none⟩) result rfl] at read
    cases read
    rw [← split, List.append_nil]
    exact ⟨_, [], [], rfl, nil blank⟩
  | cons ch left' =>
    rw [left] at result after split
    have token : ∀ t, (⟨c, none⟩ : Stream).next.result = .ok t →
        (Reader.read i (ch :: left')).1 = .ok t := fun t hr => result.symm.trans hr
    obtain ⟨t, hr, ht, -⟩ | ⟨t, us', hr, -, results, rfl⟩ := Stream.tokenize_cases read
    · obtain ⟨w, -, -, written, -, -⟩ := Reader.word_of_read (token t hr)
      exact absurd ht written.ne_eof
    · obtain ⟨w, rest, front, written, single, taken⟩ := Reader.word_of_read (token t hr)
      rw [taken, front, ← String.length_toList, List.drop_left] at after
      rw [front] at split
      have shorter : rest.length < text.length := by
        have nonempty := List.length_pos_of_ne_nil (Symbol.toList_ne_nil written.spelling)
        rw [← split, List.length_append, List.length_append]
        omega
      obtain ⟨gap, pieces, ts, rfl, laid⟩ := of_tokenize after results
      rw [← split]
      exact ⟨lead, ⟨t, w, gap⟩ :: pieces, t :: ts, rfl, laid.cons written single blank⟩
termination_by text.length

end Layout

/-- Put together from words and separators, in any order. -/
inductive Mixed : List Char → Prop where
  | nil : Mixed []
  | separator {ch : Char} {text : List Char} : isSeparator ch = true → Mixed text →
      Mixed (ch :: text)
  | word {w : String} {text : List Char} : w ∈ Symbol.words → Mixed text → Mixed (w.toList ++ text)

namespace Mixed

theorem separators {text : List Char} (h : Mixed text) : ∀ {gap : List Char},
    (∀ ch ∈ gap, isSeparator ch = true) → Mixed (gap ++ text)
  | [], _ => h
  | ch :: gap, blank => by
    obtain ⟨hc, hg⟩ := List.forall_mem_cons.mp blank
    exact .separator hc (h.separators hg)

theorem join : ∀ {parts : List String},
    (∀ p ∈ parts, p ∈ Symbol.words ∨ p.toList.all isSeparator = true) →
    Mixed (String.join parts).toList
  | [], _ => .nil
  | p :: parts, h => by
    obtain ⟨hp, hparts⟩ := List.forall_mem_cons.mp h
    rw [String.join_cons, String.toList_append]
    cases hp with
    | inl hw => exact .word hw (join hparts)
    | inr blank => exact (join hparts).separators (List.all_eq_true.mp blank)

/-- Half of a double may be taken from the front. -/
theorem tail {ch : Char} {text : List Char} (h : Mixed (ch :: text)) (hch : ch ∈ Symbol.doubling) :
    Mixed text := by
  generalize whole : ch :: text = all at h
  cases h with
  | nil => cases whole
  | separator hs rest =>
    cases whole
    rw [Symbol.isSeparator_of_mem_doubling hch] at hs
    cases hs
  | @word w rest hw mixed =>
    have sign := Symbol.singleton_mem_words hch
    have pos := Symbol.length_pos_of_mem_words hw
    have inFront : (String.singleton ch).toList <+: w.toList := by
      refine List.prefix_of_prefix_length_le ⟨text, ?_⟩ ⟨rest, whole.symm⟩ ?_
      · simp
      · rw [String.length_toList, String.length_toList, String.length_singleton]
        exact pos
    obtain rfl | ⟨ch', _, same, double⟩ := Symbol.eq_or_doubled hw sign inFront
    · obtain rfl : text = rest := by simpa using whole
      exact mixed
    · obtain rfl : ch = ch' := by simpa using congrArg String.toList same
      obtain rfl : text = (String.singleton ch).toList ++ rest := by simpa [double] using whole
      exact mixed.word sign

/-- By recursion on the length: the first word is read, or with the next sign its double. -/
theorem readable {text : List Char} (h : Mixed text) :
    ∃ ts, Tokenizes text (ts ++ [Token.eof]) := by
  cases h with
  | nil => exact ⟨[], .nil⟩
  | separator hs rest =>
    obtain ⟨ts, read⟩ := rest.readable
    exact ⟨ts, read.separator hs⟩
  | @word w rest hw mixed =>
    have pos := Symbol.length_pos_of_mem_words hw
    have shorter : rest.length < (w.toList ++ rest).length := by
      rw [List.length_append, String.length_toList]
      omega
    by_cases doubled : Symbol.Doubled w rest
    · obtain ⟨ch, hch, rfl, head⟩ := doubled
      obtain ⟨rest', rfl⟩ := List.head?_eq_some_iff.mp head
      have : rest'.length < ((String.singleton ch).toList ++ ch :: rest').length :=
        Nat.lt_of_succ_lt shorter
      obtain ⟨ts, read⟩ := (mixed.tail hch).readable
      obtain ⟨t, written⟩ := Token.exists_writtenAs (Symbol.double_mem_words hch)
      have whole : ¬ Symbol.Doubled (String.ofList [ch, ch]) rest' := by
        rintro ⟨ch', _, same, _⟩
        simpa using congrArg String.toList same
      have both := read.word written whole
      rw [String.toList_ofList] at both
      rw [String.toList_singleton]
      exact ⟨t :: ts, both⟩
    · obtain ⟨ts, read⟩ := mixed.readable
      obtain ⟨t, written⟩ := Token.exists_writtenAs hw
      exact ⟨t :: ts, read.word written doubled⟩
termination_by text.length

end Mixed

/-- A text is read as the tokens that it can be laid out as; and whatever words and
    separators are joined, in any order, the text is read. -/
theorem tokenize_eq_ok_iff_layout :
    (∀ (text : String) (ts : List Token),
      (Stream.ofText text).tokenize.result = .ok (ts ++ [Token.eof]) ↔
        ∃ lead pieces, Layout lead pieces ts text.toList) ∧
    (∀ parts : List String,
      (∀ p ∈ parts, p ∈ Symbol.words ∨ p.toList.all isSeparator = true) →
        ∃ ts, (Stream.ofText (String.join parts)).tokenize.result = .ok (ts ++ [Token.eof])) := by
  refine ⟨fun text ts => ⟨fun h => ?_, fun ⟨lead, pieces, laid⟩ => ?_⟩, fun parts h => ?_⟩
  · obtain ⟨lead, pieces, ts', same, laid⟩ := Layout.of_tokenize (Cursor.awaits_ofText text) h
    obtain rfl := List.append_cancel_right same
    exact ⟨lead, pieces, laid⟩
  · exact laid.tokenizes _ 0 (Cursor.awaits_ofText text)
  · obtain ⟨ts, read⟩ := (Mixed.join h).readable
    exact ⟨ts, read _ 0 (Cursor.awaits_ofText _)⟩

/-- Two signs that are kept apart by a space, and three that are not. -/
theorem tokenize_eq_ok_iff_layout_signs :
    (Stream.ofText "p& &&q").tokenize.result = .ok
      ([⟨.var, .literal "p"⟩, ⟨.connective (.junction .and), .literal "&"⟩,
        ⟨.connective (.junction .and), .literal "&&"⟩, ⟨.var, .literal "q"⟩] ++ [Token.eof]) ∧
    ∃ ts, (Stream.ofText (String.join ["p", "&", "&", "&", " ", "q"])).tokenize.result =
      .ok (ts ++ [Token.eof]) := by
  refine ⟨(tokenize_eq_ok_iff_layout.1 _ _).mpr ⟨[], [⟨⟨.var, .literal "p"⟩, "p", []⟩,
    ⟨⟨.connective (.junction .and), .literal "&"⟩, "&", [' ']⟩,
    ⟨⟨.connective (.junction .and), .literal "&&"⟩, "&&", []⟩,
    ⟨⟨.var, .literal "q"⟩, "q", []⟩], rfl, by decide, nofun, ?_, ?_⟩,
    tokenize_eq_ok_iff_layout.2 _ (by decide)⟩
  · simp only [List.forall_mem_cons, List.not_mem_nil, false_implies, implies_true, and_true]
    have space : ∀ ch ∈ [' '], isSeparator ch = true := List.forall_mem_singleton.mpr rfl
    exact ⟨⟨.word (by decide) nofun, nofun⟩, ⟨.word (by decide) nofun, space⟩,
      ⟨.word (by decide) nofun, nofun⟩, ⟨.word (by decide) nofun, nofun⟩⟩
  · decide

end Propositional
