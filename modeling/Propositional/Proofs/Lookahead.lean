import Propositional.Proofs.Reader

/- Looking ahead in a stream of tokens. What a call that reads gives depends on nothing but
   what the next reading gives and leaves (`Reader.answers_congr`). A look at a token leaves
   that as it was, also where it fails at an unfinished word, which is put back whole
   (`Reader.next_peek_of_beginsWord`). Only a look that fails at a character that begins no
   word changes anything: the character is passed over, as it is in a reading
   (`Reader.next_peek_of_not_beginsWord`). So a look goes unnoticed by all later readings
   exactly if it does not fail in this way (`peek_passes_only_unknown`). -/
namespace Propositional

namespace Stream

/-- The stream as a list of calls leaves it. -/
def after (s : Stream) (calls : List Call) : Stream :=
  calls.foldl (fun s call => (s.answer call).2.1) s

/-- What a list of calls gives, without the notes. -/
def replies (s : Stream) (calls : List Call) : List Reply := (s.answers calls).map Prod.fst

/-- Whether the call reads from the stream and puts nothing back of its own. -/
def Call.reads : Call → Bool
  | putBack _ => false
  | _ => true

end Stream

/-! What later readings depend on. -/

namespace Reader
variable {text : List Char} {r r' : Reader}

theorem peek_congr (h : r.next text = r'.next text) : r.peek text = r'.peek text := by
  simp only [peek, h]

theorem tokenize_congr (h : r.next text = r'.next text) : r.tokenize text = r'.tokenize text := by
  cases hr : (r'.next text).1 with
  | error e => rw [tokenize_of_error hr, tokenize_of_error (h ▸ hr), h]
  | ok t =>
    by_cases ht : t.symbol = .eof
    · rw [tokenize_of_eof hr ht, tokenize_of_eof (h ▸ hr) ht, h]
    · rw [tokenize_of_more hr ht, tokenize_of_more (h ▸ hr) ht, h]

theorem answer_congr (h : r.next text = r'.next text) {call : Stream.Call}
    (reads : call.reads = true) : r.answer text call = r'.answer text call := by
  cases call with
  | next => simp only [answer, h]
  | peek => simp only [answer, peek_congr h]
  | putBack t => cases reads
  | tokenize => simp only [answer, tokenize_congr h]

/-- Machines with the same next reading are one machine after any first call. -/
theorem answers_congr (h : r.next text = r'.next text) : ∀ {calls : List Stream.Call},
    (∀ call ∈ calls, call.reads = true) → r.answers text calls = r'.answers text calls
  | [], _ => rfl
  | call :: calls, reads => by
    have same := answer_congr h (reads call List.mem_cons_self)
    rw [answers, answers, same]

/-! What a look leaves. -/

theorem skip_skip (k : Nat) : skip text (skip text k) = skip text k := by
  have stop := isSeparator_head?_dropWhile (text.drop k)
  rw [← drop_skip] at stop
  have none : (text.drop (skip text k)).takeWhile isSeparator = [] := by
    cases rest : text.drop (skip text k) with
    | nil => rfl
    | cons ch cs =>
      rw [rest] at stop
      exact List.takeWhile_cons_of_neg (Bool.not_eq_true _ ▸ stop ch rfl)
  rw [skip, none, List.length_nil, Nat.add_zero]

theorem token_skip (k : Nat) : token text (skip text k) = token text k := by
  rw [token, token, skip_skip]

theorem read_of_error {i k : Nat} {rest : List Char} {ch : Char}
    (h : (read i rest).1 = .error (.badToken ch k)) :
    k = i ∧ (read i rest).2 = if Symbol.beginsWord ch then 0 else 1 := by
  cases rest with
  | nil => cases h
  | cons c rest =>
    simp only [read] at h ⊢
    cases hb : constantOf? c with
    | some b => simp [hb] at h
    | none =>
      cases hw : Symbol.longest? (c :: rest) with
      | some e => simp [hb, hw] at h
      | none =>
        simp only [hb, hw] at h ⊢
        cases h
        exact ⟨rfl, rfl⟩

theorem next_of_empty (empty : r.buffer = none) :
    r.next text = ((token text r.index).1, ⟨none, (token text r.index).2⟩) := by
  simp only [next, empty]

theorem buffer_of_error {e : LexError} (h : (r.next text).1 = .error e) : r.buffer = none := by
  unfold next at h
  split at h
  · cases h
  · next empty => exact empty

theorem peek_of_error {e : LexError} (h : (r.next text).1 = .error e) :
    r.peek text = r.next text := by
  simp only [peek, h]
  rw [← h]

/-- A failed reading is one of a character of the text, and says which. It goes no further
    than that character, and past it only if no word begins with it. -/
theorem next_of_error {ch : Char} {k : Nat} (h : (r.next text).1 = .error (.badToken ch k)) :
    k = skip text r.index ∧
      (r.next text).2 = ⟨none, if Symbol.beginsWord ch then k else k + 1⟩ := by
  have empty : r.buffer = none := buffer_of_error h
  rw [next_of_empty empty] at h ⊢
  obtain ⟨rfl, taken⟩ := read_of_error h
  refine ⟨rfl, ?_⟩
  show (⟨none, skip text r.index + _⟩ : Reader) = _
  rw [taken]
  split <;> rfl

/-- An unfinished word is put back, and is met again. -/
theorem next_peek_of_beginsWord {ch : Char} {k : Nat}
    (h : (r.next text).1 = .error (.badToken ch k)) (known : Symbol.beginsWord ch = true) :
    (r.peek text).2.next text = r.next text := by
  obtain ⟨rfl, left⟩ := next_of_error h
  rw [peek_of_error h, left, if_pos known, next_of_empty rfl, token_skip,
    next_of_empty (buffer_of_error h)]

/-- A character that begins no word is left behind, and is not met again. -/
theorem next_peek_of_not_beginsWord {ch : Char} {k : Nat}
    (h : (r.next text).1 = .error (.badToken ch k)) (unknown : Symbol.beginsWord ch = false) :
    ((r.peek text).2.next text).1 ≠ (r.next text).1 := by
  obtain ⟨-, left⟩ := next_of_error h
  rw [peek_of_error h, left, h]
  intro again
  have place := (next_of_error again).1
  have ahead : k + 1 ≤ skip text (k + 1) := Nat.le_add_right _ _
  simp only [unknown, Bool.false_eq_true, if_false] at place
  omega

/-- After a look that does not fail at a character that begins no word, the next reading gives
    and leaves what it would have without the look. -/
theorem next_peek_of_known
    (known : ∀ ch k, (r.next text).1 = .error (.badToken ch k) → Symbol.beginsWord ch = true) :
    (r.peek text).2.next text = r.next text := by
  cases hr : (r.next text).1 with
  | ok t =>
    have looked : (r.peek text).1 = .ok t := by simp only [peek, hr]
    rw [(next_peek looked).2, ← hr]
  | error e =>
    obtain ⟨ch, k⟩ := e
    exact next_peek_of_beginsWord hr (known ch k hr)

end Reader

/-! Looks at the tokens of a stream. -/

namespace Stream
variable {text : List Char} {s : Stream} {r : Reader}

theorem Reply.ofResult_token_inj {a b : Except LexError Token} :
    Reply.ofResult Reply.token a = Reply.ofResult Reply.token b ↔ a = b := by
  cases a <;> cases b <;> simp [ofResult]

theorem Reply.ofResult_token_eq_failed {a : Except LexError Token} {e : LexError} :
    Reply.ofResult Reply.token a = .failed e ↔ a = .error e := by
  cases a <;> simp [ofResult]

theorem result_peek (s : Stream) : s.peek.result = s.next.result := by
  unfold peek
  dsimp only
  split <;> rfl

theorem peek_of_error {e : LexError} (h : s.next.result = .error e) : s.peek = s.next := by
  unfold peek
  simp only [h]

theorem replies_peek (s : Stream) (calls : List Call) : s.replies (.peek :: calls) =
    (s.answer .next).1 :: s.peek.stream.replies calls := by
  show Reply.ofResult .token s.peek.result :: s.peek.stream.replies calls = _
  rw [result_peek]
  rfl

namespace Shows

theorem after : ∀ (calls : List Call) {s : Stream} {r : Reader}, s.Shows text r →
    ∃ r', (s.after calls).Shows text r'
  | [], _, r, h => ⟨r, h⟩
  | call :: calls, _, _, h => after calls (h.answer call).2

/-- The look makes no difference to any list of readings, or it does to a single one. -/
theorem replies_peek_iff (h : s.Shows text r) :
    (∀ calls, (∀ call ∈ calls, call.reads = true) →
        s.replies (.peek :: calls) = (s.answer .next).1 :: s.replies calls) ↔
      ∀ ch k, (r.next text).1 = .error (.badToken ch k) → Symbol.beginsWord ch = true := by
  have looked : s.peek.stream.Shows text (r.peek text).2 := h.peek.2
  refine ⟨?_, ?_⟩
  · intro unnoticed ch k failed
    have once := unnoticed [.next] (List.forall_mem_singleton.mpr rfl)
    rw [replies_peek] at once
    injection once with _ same
    injection same with same
    replace same : s.peek.stream.next.result = s.next.result := Reply.ofResult_token_inj.mp same
    rw [looked.next.1, h.next.1] at same
    by_contra unknown
    exact Reader.next_peek_of_not_beginsWord failed (Bool.not_eq_true _ ▸ unknown) same
  · intro known calls reads
    have same : s.peek.stream.replies calls = s.replies calls := by
      calc s.peek.stream.replies calls
          = (r.peek text).2.answers text calls := looked.answers calls
        _ = r.answers text calls := Reader.answers_congr (Reader.next_peek_of_known known) reads
        _ = s.replies calls := (h.answers calls).symm
    rw [replies_peek, same]

end Shows

end Stream

/-- A look at a token shows what reading it would give. It goes unnoticed, whatever is read
    later and however a list of calls may have left the stream, unless it fails at a character
    that begins no word: such a look, like any that fails, leaves what a reading leaves, and
    that is the text behind the character. -/
theorem peek_passes_only_unknown (text : String) (past : List Stream.Call) :
    let s := (Stream.ofText text).after past
    (s.answer .peek).1 = (s.answer .next).1 ∧
    ((∀ calls, (∀ call ∈ calls, call.reads = true) →
        s.replies (.peek :: calls) = (s.answer .next).1 :: s.replies calls) ↔
      ∀ ch k, (s.answer .next).1 = .failed (.badToken ch k) → Symbol.beginsWord ch = true) ∧
    ∀ e, (s.answer .next).1 = .failed e →
      ∀ calls, s.replies (.peek :: calls) = s.replies (.next :: calls) := by
  intro s
  obtain ⟨r, shows⟩ := (Stream.Shows.ofText text).after past
  refine ⟨congrArg (Stream.Reply.ofResult .token) s.result_peek, ?_, ?_⟩
  · rw [shows.replies_peek_iff]
    refine forall₂_congr (fun ch k => imp_congr_left ?_)
    show _ ↔ Stream.Reply.ofResult .token s.next.result = _
    rw [Stream.Reply.ofResult_token_eq_failed, shows.next.1]
  · intro e failed calls
    rw [Stream.replies_peek, Stream.peek_of_error (Stream.Reply.ofResult_token_eq_failed.mp failed)]
    rfl

/-- A look at an unfinished word fails and is not noticed. -/
theorem peek_passes_only_unknown_unfinished :
    let s := (Stream.ofText "p <- q").after [.next]
    (∀ call ∈ [Stream.Call.peek, .tokenize, .next], call.reads = true) ∧
      (s.answer .next).1 = .failed (.badToken '<' 2) ∧ Symbol.beginsWord '<' = true ∧
      s.replies [.peek, .peek, .tokenize, .next] =
        .failed (.badToken '<' 2) :: s.replies [.peek, .tokenize, .next] := by
  intro s
  have reads : ∀ call ∈ [Stream.Call.peek, .tokenize, .next], call.reads = true := by
    simp [Stream.Call.reads]
  have failed : (s.answer .next).1 = .failed (.badToken '<' 2) := by decide +kernel
  have begins : Symbol.beginsWord '<' = true := by decide
  obtain ⟨-, unnoticed, -⟩ := peek_passes_only_unknown "p <- q" [.next]
  refine ⟨reads, failed, begins, ?_⟩
  rw [← failed]
  refine unnoticed.mpr (fun ch k h => ?_) _ reads
  obtain ⟨rfl, rfl⟩ : '<' = ch ∧ 2 = k := by simpa [s, failed] using h
  exact begins

/-- No word begins with `#`: the reading fails, but after a look, which fails in the same way,
    it gives the token behind the character. -/
theorem peek_passes_unknown_character :
    let s := (Stream.ofText "#p").after []
    s.replies [.next] = [.failed (.badToken '#' 0)] ∧
      s.replies [.peek, .next] = [.failed (.badToken '#' 0), .token ⟨.var, .literal "p"⟩] ∧
      s.replies [.peek, .next] ≠ (s.answer .next).1 :: s.replies [.next] := by
  decide +kernel

end Propositional
