import Propositional.Token.Scan

/- A stream of tokens over one line of text, with room for one token that was put
   back. `peek` reads a token and puts it back; `tokenize` reads all tokens before
   the next end of input, which stays in the buffer. A failed call leaves a stream
   that goes on working. `Stream.answers` runs a whole list of calls. -/
namespace Propositional

structure Stream where
  cursor : Cursor
  /-- The token that was put back. -/
  buffer : Option Token

/-- What a call on a stream gives: its result, the stream after it, and the notes. -/
structure Stream.Read (α : Type) where
  result : Except LexError α
  stream : Stream
  notes : List ScanNote

namespace Stream

def ofText (text : String) : Stream := ⟨Cursor.ofText text, none⟩

/-- The number of characters and tokens that may still be read. -/
def remaining (s : Stream) : Nat := s.cursor.remaining + s.buffer.toList.length

/-- The next token. -/
def next (s : Stream) : Read Token :=
  match s.buffer with
  | some t => ⟨.ok t, { s with buffer := none }, []⟩
  | none =>
    let scanned := s.cursor.token
    ⟨scanned.result, { s with cursor := scanned.cursor }, scanned.notes⟩

/-- Puts a token back, if there is room for it. -/
def putBack? (s : Stream) (t : Token) : Option Stream :=
  if s.buffer.isSome then none else some { s with buffer := some t }

/-- The next token, which stays in the stream. -/
def peek (s : Stream) : Read Token :=
  let read := s.next
  match read.result with
  | .error _ => read
  | .ok t => { read with stream := { read.stream with buffer := some t } }

theorem remaining_next {s : Stream} {t : Token} (h : s.next.result = .ok t)
    (more : t.symbol ≠ .eof) : s.next.stream.remaining < s.remaining := by
  unfold next at h ⊢
  split at h
  · next _ e => simp [remaining, e]
  · next e =>
    have := Cursor.remaining_token h more
    simpa [remaining, e] using this

/-- All tokens before the next end of input, and the token that ends the input. -/
def tokenize (s : Stream) : Read (List Token) :=
  match h : s.next.result with
  | .error e => ⟨.error e, s.next.stream, s.next.notes⟩
  | .ok t =>
    if more : t.symbol = .eof then
      ⟨.ok [Token.eof], { s.next.stream with buffer := some t }, s.next.notes⟩
    else
      have := remaining_next h more
      let rest := tokenize s.next.stream
      ⟨rest.result.map (t :: ·), rest.stream, s.next.notes ++ rest.notes⟩
termination_by s.remaining

/-! Calls and replies. -/

inductive Call where
  | next
  | peek
  | putBack (t : Token)
  | tokenize

inductive Reply where
  | token (t : Token)
  | tokens (ts : List Token)
  | done
  | failed (e : LexError)
  /-- The buffer was full, and the token was not put back. -/
  | refused (t : Token)
deriving DecidableEq

/-- What is said when a token is refused. -/
def refusal (t : Token) : String := "token buffer is full: cannot put back " ++ t.describe

def Reply.ofResult {α : Type} (reply : α → Reply) : Except LexError α → Reply
  | .ok a => reply a
  | .error e => .failed e

/-- The reply to one call, the stream after it, and the notes. -/
def answer (s : Stream) : Call → Reply × Stream × List ScanNote
  | .next => (.ofResult .token s.next.result, s.next.stream, s.next.notes)
  | .peek => (.ofResult .token s.peek.result, s.peek.stream, s.peek.notes)
  | .putBack t =>
    match s.putBack? t with
    | some s => (.done, s, [])
    | none => (.refused t, s, [])
  | .tokenize => (.ofResult .tokens s.tokenize.result, s.tokenize.stream, s.tokenize.notes)

/-- The replies to a list of calls, each made on the stream the last one left. -/
def answers : Stream → List Call → List (Reply × List ScanNote)
  | _, [] => []
  | s, call :: calls =>
    let (reply, s, notes) := s.answer call
    (reply, notes) :: s.answers calls

end Stream

end Propositional
