/- A tree of words. Each node stands for the characters on the way to it from the
   root, so the nodes are the beginnings of the words that were added. A node is
   the list of its branches: `branch c below others` has a child for `c`, whose
   node is `below`, and the further children in `others`. Whether a node ends a
   word is not recorded. -/
namespace Propositional

inductive PrefixTree where
  | leaf
  | branch (c : Char) (below others : PrefixTree)
deriving DecidableEq

namespace PrefixTree

/-- The node that the character leads to. -/
def child? : PrefixTree → Char → Option PrefixTree
  | .leaf, _ => none
  | .branch d below others, c => if c = d then some below else others.child? c

def isLeaf : PrefixTree → Bool
  | .leaf => true
  | .branch .. => false

/-- The tree of one word. -/
def ofWord : List Char → PrefixTree
  | [] => .leaf
  | c :: cs => .branch c (ofWord cs) .leaf

/-- The tree with the word's characters as a path from the root. -/
def add : PrefixTree → List Char → PrefixTree
  | .leaf, w => ofWord w
  | .branch d below others, [] => .branch d below others
  | .branch d below others, c :: cs =>
    if c = d then .branch d (below.add cs) others else .branch d below (others.add (c :: cs))

/-- The tree of a list of words. -/
def ofWords (ws : List String) : PrefixTree := ws.foldl (fun t w => t.add w.toList) .leaf

/-- Follows the word from the root until a character has no child: how many
    characters were followed, and the node they lead to. -/
def walk : PrefixTree → List Char → Nat × PrefixTree
  | t, [] => (0, t)
  | t, c :: cs =>
    match t.child? c with
    | none => (0, t)
    | some below => let (n, node) := below.walk cs; (n + 1, node)

/-- Whether the word is a path from the root. -/
def contains : PrefixTree → List Char → Bool
  | _, [] => true
  | t, c :: cs =>
    match t.child? c with
    | none => false
    | some below => below.contains cs

/-- The number of nodes below the root. -/
def descendants : PrefixTree → Nat
  | .leaf => 0
  | .branch _ below others => 1 + below.descendants + others.descendants

/-- The number of nodes, the root included. -/
def size (t : PrefixTree) : Nat := 1 + t.descendants

end PrefixTree

end Propositional
