import Propositional.Cursor
import Propositional.PrefixTree
import Propositional.Symbol.Spelling
import Propositional.Token

/- Reading one token. The characters are followed through the tree of all words
   (`Cursor.follow`) for as long as they go on without a separator. Of the run
   read that way the longest beginning that is a word gives the token
   (`longestWord?`), and what was read beyond it is put back. A run that begins
   with no word is put back whole, while a character that begins no word at all
   is consumed. Reading a token shortens what is left to read
   (`Cursor.remaining_token`). -/
namespace Propositional

inductive LexError where
  /-- No word begins with the character, or none is complete. -/
  | badToken (found : Char) (position : Nat)
deriving DecidableEq

def LexError.message : LexError → String
  | .badToken found position =>
    "bad token `" ++ String.singleton found ++ "` at position " ++ Nat.repr position

/-- What is noted while tokens are read. -/
inductive ScanNote where
  /-- A run was followed through the tree; the longest word it begins with, if any. -/
  | followed (run : List Char) (best : Option (Nat × Symbol))
  | constant (value : Bool)
  | word (symbol : Symbol) (text : String)
deriving DecidableEq

/-- The tree of every word. -/
def wordTree : PrefixTree := PrefixTree.ofWords Symbol.words

/-- The longest word that the run begins with, of at most the given length. -/
def longestWithin? (run : List Char) : Nat → Option (Nat × Symbol)
  | 0 => none
  | n + 1 =>
    match Symbol.ofSpelling? (String.ofList (run.take (n + 1))) with
    | some s => some (n + 1, s)
    | none => longestWithin? run n

/-- The length and the symbol of the longest word that the run begins with. -/
def longestWord? (run : List Char) : Option (Nat × Symbol) := longestWithin? run run.length

/-- A token or the reason why there is none, the cursor after it, and the notes. -/
structure Scanned where
  result : Except LexError Token
  cursor : Cursor
  notes : List ScanNote

namespace Cursor

/-- Follows `ch`, which was just read, and the characters after it through the
    tree, and puts the first character that does not fit back. -/
def follow : PrefixTree → Char → Cursor → List Char × Cursor
  | .leaf, ch, cur => ([], cur.putBack ch)
  | .branch d below others, ch, cur =>
    if ch = d then
      match cur.adjacent with
      | (none, cur) => ([ch], cur)
      | (some next, cur) =>
        let (run, cur) := follow below next cur
        (ch :: run, cur)
    else follow others ch cur

/-- Reads one token, which is a constant or a word of the tree. -/
def tokenIn (tree : PrefixTree) (c : Cursor) : Scanned :=
  match c.next with
  | (none, cur) => ⟨.ok Token.eof, cur, []⟩
  | (some ch, cur) =>
    let bad : LexError := .badToken ch c.position
    match constantOf? ch with
    | some b => ⟨.ok (Token.constant b), cur, [.constant b]⟩
    | none =>
      if (tree.child? ch).isNone then ⟨.error bad, cur, []⟩
      else
        let (run, cur) := follow tree ch cur
        match longestWord? run with
        | none => ⟨.error bad, cur.putBackAll run, [.followed run none]⟩
        | some (n, s) =>
          let text := String.ofList (run.take n)
          ⟨.ok ⟨s, .literal text⟩, cur.putBackAll (run.drop n),
            [.followed run (some (n, s)), .word s text]⟩

/-- Reads one token. -/
def token (c : Cursor) : Scanned := c.tokenIn wordTree

theorem longestWithin?_pos {run : List Char} : ∀ {n k : Nat} {s : Symbol},
    longestWithin? run n = some (k, s) → 0 < k ∧ k ≤ n
  | 0, _, _, h => by simp [longestWithin?] at h
  | n + 1, k, s, h => by
    unfold longestWithin? at h
    split at h
    · simp only [Option.some.injEq, Prod.mk.injEq] at h
      omega
    · have := longestWithin?_pos h
      omega

theorem remaining_follow : ∀ (t : PrefixTree) (ch : Char) (cur : Cursor),
    (follow t ch cur).2.remaining + (follow t ch cur).1.length = cur.remaining + 1
  | .leaf, ch, cur => by simp [follow, remaining_putBack]
  | .branch d below others, ch, cur => by
    unfold follow
    split
    · split
      · next c e =>
        have same : cur.adjacent.2 = cur := adjacent_eq_self (congrArg Prod.fst e)
        rw [e] at same
        exact congrArg (fun c : Cursor => c.remaining + 1) same
      · next next c e =>
        have shorter : cur.adjacent.2.remaining + 1 = cur.remaining :=
          remaining_adjacent (congrArg Prod.fst e)
        have ih := remaining_follow below next c
        rw [e] at shorter
        simp only [List.length_cons] at shorter ⊢
        omega
    · exact remaining_follow others ch cur

/-- A token other than the end of the input takes at least one character away. -/
theorem remaining_token {c : Cursor} {t : Token} (h : c.token.result = .ok t)
    (more : t.symbol ≠ .eof) : c.token.cursor.remaining < c.remaining := by
  unfold token tokenIn at h ⊢
  split at h
  · simp only [Except.ok.injEq] at h
    exact absurd (h ▸ rfl) more
  · next ch cur e =>
    have shorter : c.next.2.remaining < c.remaining := remaining_next (congrArg Prod.fst e)
    rw [e] at shorter
    dsimp only at h ⊢ shorter
    split at h
    · exact shorter
    · split at h
      · simp at h
      · next known =>
        rw [if_neg known]
        split at h
        · simp at h
        · next n s best =>
          have ⟨pos, le⟩ := longestWithin?_pos best
          have total := remaining_follow wordTree ch cur
          simp only [remaining_putBackAll, List.length_drop]
          omega

end Cursor

end Propositional
