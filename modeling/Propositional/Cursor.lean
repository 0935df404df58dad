import Propositional.Text.Blank

/- A place in a text from which characters are read one by one. Separators are
   passed over by `next`, while `adjacent` reads only what directly follows.
   Characters may be put back, and are then read again before anything else.
   `Cursor.answers` runs a whole list of calls. -/
namespace Propositional

structure Cursor where
  /-- The characters that were put back, the one to be read next first. -/
  pending : List Char
  /-- What was never read. -/
  rest : List Char
  /-- How many characters of the text precede `rest`. -/
  passed : Nat
deriving DecidableEq

namespace Cursor

def ofText (text : String) : Cursor := ⟨[], text.toList, 0⟩

/-- Passes over the separators in front of the unread text. -/
def skip (c : Cursor) : Cursor :=
  ⟨c.pending, c.rest.dropWhile isSeparator, c.passed + (c.rest.takeWhile isSeparator).length⟩

/-- Takes the first character of the unread text, whatever it is. -/
def take (c : Cursor) : Option Char × Cursor :=
  match c.rest with
  | [] => (none, c)
  | ch :: rest => (some ch, ⟨c.pending, rest, c.passed + 1⟩)

/-- The next character that is no separator. -/
def next (c : Cursor) : Option Char × Cursor :=
  match c.pending with
  | ch :: pending => (some ch, { c with pending })
  | [] => c.skip.take

/-- The next character, unless a separator or the end of the text comes first. -/
def adjacent (c : Cursor) : Option Char × Cursor :=
  match c.pending with
  | ch :: pending => (some ch, { c with pending })
  | [] =>
    match c.rest with
    | [] => (none, c)
    | ch :: _ => if isSeparator ch then (none, c) else c.take

def putBack (c : Cursor) (ch : Char) : Cursor := { c with pending := ch :: c.pending }

/-- Puts a run of characters back, so that its first one is read next. -/
def putBackAll (c : Cursor) (run : List Char) : Cursor := { c with pending := run ++ c.pending }

/-- The index in the text of the character to be read next. -/
def position (c : Cursor) : Nat :=
  match c.pending with
  | [] => c.skip.passed
  | _ :: _ => c.passed - c.pending.length

/-- Whether no character but separators is left. -/
def isEmpty (c : Cursor) : Bool := c.pending.isEmpty && c.rest.all isSeparator

/-- The number of characters that may still be read. -/
def remaining (c : Cursor) : Nat := c.pending.length + c.rest.length

/-! Calls and replies. -/

inductive Call where
  | next
  | adjacent
  | putBack (ch : Char)
  | putBackAll (run : List Char)
  | position
  | isEmpty

inductive Reply where
  | char (ch : Option Char)
  | index (n : Nat)
  | truth (b : Bool)
  | done
deriving DecidableEq

/-- The reply to one call and the cursor after it. -/
def answer (c : Cursor) : Call → Reply × Cursor
  | .next => (.char c.next.1, c.next.2)
  | .adjacent => (.char c.adjacent.1, c.adjacent.2)
  | .putBack ch => (.done, c.putBack ch)
  | .putBackAll run => (.done, c.putBackAll run)
  | .position => (.index c.position, c)
  | .isEmpty => (.truth c.isEmpty, c)

/-- The replies to a list of calls, each made on the cursor the last one left. -/
def answers : Cursor → List Call → List Reply
  | _, [] => []
  | c, call :: calls => (c.answer call).1 :: (c.answer call).2.answers calls

/-! How reading shortens what is left. -/

theorem remaining_skip_le (c : Cursor) : c.skip.remaining ≤ c.remaining := by
  have h := congrArg List.length (List.takeWhile_append_dropWhile (p := isSeparator) (l := c.rest))
  simp only [List.length_append] at h
  simp only [remaining, skip]
  omega

theorem remaining_take {c : Cursor} {ch : Char} (h : c.take.1 = some ch) :
    c.take.2.remaining + 1 = c.remaining := by
  unfold take at h ⊢
  split at h
  · simp at h
  · next _ rest e => simp only [remaining, e, List.length_cons]; omega

theorem remaining_next {c : Cursor} {ch : Char} (h : c.next.1 = some ch) :
    c.next.2.remaining < c.remaining := by
  unfold next at h ⊢
  split at h
  · next _ pending e => simp only [remaining, e, List.length_cons]; omega
  · have := remaining_take h
    have := remaining_skip_le c
    omega

theorem remaining_adjacent {c : Cursor} {ch : Char} (h : c.adjacent.1 = some ch) :
    c.adjacent.2.remaining + 1 = c.remaining := by
  unfold adjacent at h ⊢
  split at h
  · next _ pending e => simp only [remaining, e, List.length_cons]; omega
  · split at h
    · simp at h
    · next sep _ _ =>
      split at h
      · simp at h
      · next hs => simp only [hs]; exact remaining_take h

theorem adjacent_eq_self {c : Cursor} (h : c.adjacent.1 = none) : c.adjacent.2 = c := by
  unfold adjacent at h ⊢
  split at h
  · simp at h
  · split at h
    · rfl
    · next sep rest e =>
      split at h
      · next hs => rw [if_pos hs]
      · simp [take, e] at h

theorem remaining_putBack (c : Cursor) (ch : Char) : (c.putBack ch).remaining = c.remaining + 1 := by
  simp only [remaining, putBack, List.length_cons]; omega

theorem remaining_putBackAll (c : Cursor) (run : List Char) :
    (c.putBackAll run).remaining = c.remaining + run.length := by
  simp only [remaining, putBackAll, List.length_append]; omega

end Cursor

end Propositional
