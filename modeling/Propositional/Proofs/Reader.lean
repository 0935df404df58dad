import Propositional.Proofs.LongestWord
import Propositional.Proofs.Tokenizing

/- A stream of tokens as a machine with two registers over the whole text: a token that was
   put back, and the index of the first character that was not read (`Reader`). A stream
   keeps the unread text in two parts, and counts on while characters are put back; all
   that can be seen of it is what the machine shows (`Shows`). Each call keeps the two in
   step and gives the same reply, failed calls included (`Shows.answer`), so that no list
   of calls tells them apart (`replies_eq_reader`). -/
namespace Propositional

/-- Whether the character is the first one of a word. -/
def Symbol.beginsWord (ch : Char) : Bool := words.any (fun w => w.toList.head? == some ch)

/-- What a text is read with: a token that was put back, and the index of the first
    character that was not read. -/
structure Reader where
  buffer : Option Token
  index : Nat
deriving DecidableEq

namespace Reader

/-- Nothing was read, and nothing put back. -/
def start : Reader := ⟨none, 0⟩

section Machine
variable (text : List Char)

/-- The first index from the given one on that is not one of a separator. -/
def skip (k : Nat) : Nat := k + ((text.drop k).takeWhile isSeparator).length

/-- What is read of a text that has no separator in front and starts at the index, and how
    many characters that takes. -/
def read (k : Nat) : List Char → Except LexError Token × Nat
  | [] => (.ok Token.eof, 0)
  | ch :: rest =>
    match constantOf? ch with
    | some b => (.ok (Token.constant b), 1)
    | none =>
      match Symbol.longest? (ch :: rest) with
      | some (s, w) => (.ok ⟨s, .literal w⟩, w.length)
      | none => (.error (.badToken ch k), if Symbol.beginsWord ch then 0 else 1)

/-- What is read at the index, and the index afterwards. -/
def token (k : Nat) : Except LexError Token × Nat :=
  ((read (skip text k) (text.drop (skip text k))).1,
    skip text k + (read (skip text k) (text.drop (skip text k))).2)

def next (r : Reader) : Except LexError Token × Reader :=
  match r.buffer with
  | some t => (.ok t, { r with buffer := none })
  | none => ((token text r.index).1, { r with index := (token text r.index).2 })

/-- Reads a token and stores it. -/
def peek (r : Reader) : Except LexError Token × Reader :=
  match (r.next text).1 with
  | .ok t => (.ok t, { (r.next text).2 with buffer := some t })
  | .error e => (.error e, (r.next text).2)

def putBack? (r : Reader) (t : Token) : Option Reader :=
  if r.buffer.isSome then none else some { r with buffer := some t }

/-- The number of characters and tokens that may still be read. -/
def remaining (r : Reader) : Nat := (text.length - r.index) + r.buffer.toList.length

variable {text}

theorem read_pos {k : Nat} {rest : List Char} {t : Token} (h : (read k rest).1 = .ok t)
    (more : t.symbol ≠ .eof) : rest ≠ [] ∧ 0 < (read k rest).2 := by
  cases rest with
  | nil =>
    cases h
    exact absurd rfl more
  | cons ch rest =>
    refine ⟨nofun, ?_⟩
    simp only [read] at h ⊢
    cases hb : constantOf? ch with
    | some b => exact Nat.one_pos
    | none =>
      cases hw : Symbol.longest? (ch :: rest) with
      | none => simp [hb, hw] at h
      | some e =>
        exact Symbol.length_pos_of_mem_words (Symbol.mem_words.mpr
          ⟨e.1, (Symbol.longest?_eq_some_iff.mp hw).spelling⟩)

theorem lt_token {k : Nat} {t : Token} (h : (token text k).1 = .ok t)
    (more : t.symbol ≠ .eof) : k < text.length ∧ k < (token text k).2 := by
  have ahead : k ≤ skip text k := Nat.le_add_right _ _
  obtain ⟨left, taken⟩ := read_pos h more
  have inside : skip text k < text.length := by
    rwa [Ne, List.drop_eq_nil_iff, Nat.not_le] at left
  refine ⟨by omega, ?_⟩
  show k < skip text k + _
  omega

theorem buffer_next (r : Reader) : (r.next text).2.buffer = none := by
  unfold next
  split
  · rfl
  · next e => exact e

theorem remaining_next {r : Reader} {t : Token} (h : (r.next text).1 = .ok t)
    (more : t.symbol ≠ .eof) : (r.next text).2.remaining text < r.remaining text := by
  unfold next at h ⊢
  split at h
  · next e => simp [remaining, e]
  · next e =>
    obtain ⟨inside, ahead⟩ := lt_token h more
    simp only [remaining, e, Option.toList_none, List.length_nil]
    omega

/-- After a look at a token the next reading is the one that was looked at. -/
theorem next_peek {r : Reader} {t : Token} (h : (r.peek text).1 = .ok t) :
    (r.next text).1 = .ok t ∧ (r.peek text).2.next text = (.ok t, (r.next text).2) := by
  unfold peek at h ⊢
  cases hr : (r.next text).1 with
  | error e =>
    rw [hr] at h
    cases h
  | ok t' =>
    rw [hr] at h
    cases h
    have empty : (r.next text).2.buffer = none := r.buffer_next
    have cleared : ({ (r.next text).2 with buffer := none } : Reader) = (r.next text).2 := by
      rw [← empty]
    exact ⟨rfl, congrArg (Prod.mk (Except.ok t)) cleared⟩

variable (text)

/-- Looks at a token and reads it, again and again, until one is of the kind that ends the
    input, which stays stored. -/
def tokenize (r : Reader) : Except LexError (List Token) × Reader :=
  match h : (r.peek text).1 with
  | .error e => (.error e, (r.peek text).2)
  | .ok t =>
    if more : t.symbol = .eof then (.ok [Token.eof], (r.peek text).2)
    else
      have : ((r.peek text).2.next text).2.remaining text < r.remaining text := by
        rw [(next_peek h).2]
        exact remaining_next (next_peek h).1 more
      let rest := tokenize ((r.peek text).2.next text).2
      (rest.1.map (t :: ·), rest.2)
termination_by r.remaining text

/-- The reply to one call, and what is shown after it. -/
def answer (r : Reader) : Stream.Call → Stream.Reply × Reader
  | .next => (.ofResult .token (r.next text).1, (r.next text).2)
  | .peek => (.ofResult .token (r.peek text).1, (r.peek text).2)
  | .putBack t =>
    match r.putBack? t with
    | some r => (.done, r)
    | none => (.refused t, r)
  | .tokenize => (.ofResult .tokens (r.tokenize text).1, (r.tokenize text).2)

def answers : Reader → List Stream.Call → List Stream.Reply
  | _, [] => []
  | r, call :: calls => (r.answer text call).1 :: answers (r.answer text call).2 calls

variable {text}

theorem tokenize_of_error {r : Reader} {e : LexError} (h : (r.next text).1 = .error e) :
    r.tokenize text = (.error e, (r.next text).2) := by
  have seen : r.peek text = (.error e, (r.next text).2) := by simp only [peek, h]
  rw [tokenize]
  split
  · next e' he =>
    rw [seen] at he ⊢
    cases he
    rfl
  · next t ht =>
    rw [seen] at ht
    cases ht

theorem tokenize_of_eof {r : Reader} {t : Token} (h : (r.next text).1 = .ok t)
    (ht : t.symbol = .eof) :
    r.tokenize text = (.ok [Token.eof], { (r.next text).2 with buffer := some t }) := by
  have seen : r.peek text = (.ok t, { (r.next text).2 with buffer := some t }) := by
    simp only [peek, h]
  rw [tokenize]
  split
  · next e he =>
    rw [seen] at he
    cases he
  · next t' ht' =>
    rw [seen] at ht'
    cases ht'
    rw [dif_pos ht, seen]

theorem tokenize_of_more {r : Reader} {t : Token} (h : (r.next text).1 = .ok t)
    (ht : t.symbol ≠ .eof) : r.tokenize text =
      (((r.next text).2.tokenize text).1.map (t :: ·), ((r.next text).2.tokenize text).2) := by
  have seen : (r.peek text).1 = .ok t := by simp only [peek, h]
  rw [tokenize]
  split
  · next e he =>
    rw [seen] at he
    cases he
  · next t' ht' =>
    rw [seen] at ht'
    cases ht'
    rw [dif_neg ht]
    show ((((r.peek text).2.next text).2.tokenize text).1.map (t :: ·),
      (((r.peek text).2.next text).2.tokenize text).2) = _
    rw [(next_peek seen).2]

end Machine

end Reader

/-! A stream and a machine in step. -/

namespace Symbol

/-- The tree has a branch for the first character of every word, and no others. -/
theorem child?_eq_none_iff {ch : Char} : wordTree.child? ch = none ↔ beginsWord ch = false := by
  have path : (wordTree.child? ch).isSome = true ↔ beginsWord ch = true := by
    rw [PrefixTree.isSome_child?, wordTree, PrefixTree.contains_ofWords, beginsWord, List.any_eq_true]
    simp only [List.cons_ne_nil, false_or, List.singleton_prefix_iff_head?_eq_some,
      beq_iff_eq]
  rw [← Option.not_isSome_iff_eq_none, path, Bool.not_eq_true]

end Symbol

namespace Cursor.Awaits
variable {c : Cursor} {k : Nat} {text : List Char}

/-- Separators make no difference to what is read next. -/
theorem token_skip : ∀ {text : List Char} {c : Cursor} {k : Nat}, c.Awaits k text →
    ∃ c' : Cursor, c'.Awaits (k + (text.takeWhile isSeparator).length) (text.dropWhile isSeparator) ∧
      c.token = c'.token
  | [], c, k, h => ⟨c, h, rfl⟩
  | ch :: text, c, k, h => by
    cases hs : isSeparator ch with
    | false =>
      refine ⟨c, ?_, rfl⟩
      simpa [hs] using h
    | true =>
      obtain ⟨c', h', same⟩ := h.token_separator hs
      obtain ⟨c'', h'', same'⟩ := h'.token_skip
      refine ⟨c'', ?_, same.trans same'⟩
      have index : k + ((ch :: text).takeWhile isSeparator).length =
          k + 1 + (text.takeWhile isSeparator).length := by
        rw [List.takeWhile_cons_of_pos hs, List.length_cons]
        omega
      rw [index, List.dropWhile_cons_of_pos hs]
      exact h''

end Cursor.Awaits

namespace Reader
variable {text : List Char}

theorem drop_skip (k : Nat) : text.drop (skip text k) = (text.drop k).dropWhile isSeparator := by
  have parts : (text.drop k).takeWhile isSeparator ++ (text.drop k).dropWhile isSeparator =
      text.drop k := List.takeWhile_append_dropWhile
  calc text.drop (skip text k)
      = (text.drop k).drop ((text.drop k).takeWhile isSeparator).length := by
        rw [skip, List.drop_drop]
    _ = ((text.drop k).takeWhile isSeparator ++ (text.drop k).dropWhile isSeparator).drop
          ((text.drop k).takeWhile isSeparator).length := by rw [parts]
    _ = (text.drop k).dropWhile isSeparator := List.drop_left

end Reader

namespace Cursor.Awaits
variable {c : Cursor} {k : Nat} {text : List Char}

theorem token_front (h : c.Awaits k text) (hs : ∀ ch ∈ text.head?, isSeparator ch = false) :
    c.token.result = (Reader.read k text).1 ∧
      c.token.cursor.Awaits (k + (Reader.read k text).2) (text.drop (Reader.read k text).2) := by
  cases text with
  | nil => exact h.token_eof
  | cons ch rest =>
    replace hs : isSeparator ch = false := hs ch rfl
    simp only [Reader.read]
    cases hb : constantOf? ch with
    | some b => exact h.token_constant hs hb
    | none =>
      cases hw : Symbol.longest? (ch :: rest) with
      | some e =>
        have best := Symbol.longest?_eq_some_iff.mp hw
        have pos := Symbol.length_pos_of_mem_words (Symbol.mem_words.mpr ⟨e.1, best.spelling⟩)
        have word : String.ofList ((ch :: rest).take e.2.length) = e.2 := by
          have front := List.prefix_iff_eq_take.mp best.inFront
          rw [String.length_toList] at front
          rw [← front, String.ofList_toList]
        have taken := h.token_word hs hb (Cursor.longestWord?_of_longest best pos)
        rw [word] at taken
        exact taken
      | none =>
        have missing := Cursor.longestWord?_of_no_word (Symbol.longest?_eq_none_iff.mp hw)
        cases begins : Symbol.beginsWord ch with
        | true =>
          have known : wordTree.child? ch ≠ none := by simp [Symbol.child?_eq_none_iff, begins]
          exact h.token_unfinished hs hb known missing
        | false => exact h.token_unknown hs hb (Symbol.child?_eq_none_iff.mpr begins)

/-- What is read is read behind the separators. -/
theorem token_read (h : c.Awaits k text) :
    let i := k + (text.takeWhile isSeparator).length
    let front := Reader.read i (text.dropWhile isSeparator)
    c.token.result = front.1 ∧
      c.token.cursor.Awaits (i + front.2) ((text.dropWhile isSeparator).drop front.2) := by
  obtain ⟨c', h', same⟩ := h.token_skip
  rw [same]
  exact h'.token_front (isSeparator_head?_dropWhile text)

/-- A cursor reads the token that stands at its index in the text. -/
theorem token_eq (h : c.Awaits k (text.drop k)) :
    c.token.result = (Reader.token text k).1 ∧
      c.token.cursor.Awaits (Reader.token text k).2 (text.drop (Reader.token text k).2) := by
  obtain ⟨result, after⟩ := h.token_read
  rw [← Reader.drop_skip] at result after
  rw [List.drop_drop] at after
  exact ⟨result, after⟩

end Cursor.Awaits

/-- The stream and the machine hold the same token, and have the same text to read. -/
structure Stream.Shows (text : List Char) (s : Stream) (r : Reader) : Prop where
  buffer : s.buffer = r.buffer
  awaits : s.cursor.Awaits r.index (text.drop r.index)

namespace Stream.Shows
variable {text : List Char} {s : Stream} {r : Reader}

theorem ofText (text : String) : (Stream.ofText text).Shows text.toList Reader.start :=
  ⟨rfl, Cursor.awaits_ofText text⟩

theorem store (h : s.Shows text r) (t : Token) :
    ({ s with buffer := some t } : Stream).Shows text { r with buffer := some t } :=
  ⟨rfl, h.awaits⟩

theorem next (h : s.Shows text r) :
    s.next.result = (r.next text).1 ∧ s.next.stream.Shows text (r.next text).2 := by
  obtain ⟨same, awaits⟩ := h
  unfold Stream.next Reader.next
  rw [← same]
  cases s.buffer with
  | some t => exact ⟨rfl, rfl, awaits⟩
  | none =>
    obtain ⟨result, after⟩ := awaits.token_eq
    exact ⟨result, rfl, after⟩

theorem peek (h : s.Shows text r) :
    s.peek.result = (r.peek text).1 ∧ s.peek.stream.Shows text (r.peek text).2 := by
  obtain ⟨result, after⟩ := h.next
  unfold Stream.peek Reader.peek
  cases hr : (r.next text).1 with
  | error e =>
    simp only [result, hr]
    exact ⟨trivial, after⟩
  | ok t =>
    simp only [result, hr]
    exact ⟨trivial, after.store t⟩

/-- By recursion on what is left to read: a token that does not end the input shortens it. -/
theorem tokenize {s : Stream} {r : Reader} (h : s.Shows text r) :
    s.tokenize.result = (r.tokenize text).1 ∧ s.tokenize.stream.Shows text (r.tokenize text).2 := by
  obtain ⟨result, after⟩ := h.next
  cases hr : (r.next text).1 with
  | error e =>
    rw [Stream.tokenize_of_error (result.trans hr), Reader.tokenize_of_error hr]
    exact ⟨rfl, after⟩
  | ok t =>
    by_cases ht : t.symbol = .eof
    · rw [Stream.tokenize_of_eof (result.trans hr) ht, Reader.tokenize_of_eof hr ht]
      exact ⟨rfl, after.store t⟩
    · have := Reader.remaining_next hr ht
      obtain ⟨results, left⟩ := after.tokenize
      rw [Stream.tokenize_of_more (result.trans hr) ht, Reader.tokenize_of_more hr ht]
      exact ⟨congrArg (Except.map (t :: ·)) results, left⟩
termination_by r.remaining text

/-- The reply to a call is the machine's, and what is shown afterwards too. -/
theorem answer (h : s.Shows text r) (call : Call) :
    (s.answer call).1 = (r.answer text call).1 ∧
      (s.answer call).2.1.Shows text (r.answer text call).2 := by
  cases call with
  | next => exact ⟨congrArg (Reply.ofResult .token) h.next.1, h.next.2⟩
  | peek => exact ⟨congrArg (Reply.ofResult .token) h.peek.1, h.peek.2⟩
  | tokenize => exact ⟨congrArg (Reply.ofResult .tokens) h.tokenize.1, h.tokenize.2⟩
  | putBack t =>
    simp only [Stream.answer, Reader.answer, Stream.putBack?, Reader.putBack?, h.buffer]
    cases r.buffer with
    | none => exact ⟨rfl, h.store t⟩
    | some t' => exact ⟨rfl, h⟩

theorem answers : ∀ (calls : List Call) {s : Stream} {r : Reader}, s.Shows text r →
    (s.answers calls).map Prod.fst = r.answers text calls
  | [], _, _, _ => rfl
  | call :: calls, _, _, h => by
    obtain ⟨reply, after⟩ := h.answer call
    exact congr (congrArg List.cons reply) (answers calls after)

end Stream.Shows

/-- Whatever calls are made on a stream over a text, failed ones included, the replies are
    those of a machine that keeps one token and one index into the text. -/
theorem replies_eq_reader (text : String) (calls : List Stream.Call) :
    ((Stream.ofText text).answers calls).map Prod.fst = Reader.start.answers text.toList calls :=
  Stream.Shows.answers calls (Stream.Shows.ofText text)

/-- A character that begins no word is passed over, an unfinished word is not. -/
example : Reader.start.answers "?<p".toList [.next, .next, .next] =
    [.failed (.badToken '?' 0), .failed (.badToken '<' 1), .failed (.badToken '<' 1)] := by
  decide +kernel

end Propositional
