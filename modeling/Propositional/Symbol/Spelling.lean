import Propositional.Symbol

/- The words each symbol may be written with. `Symbol.ofSpelling?` reads a word
   back; no word is listed twice (`Symbol.nodup_words`), so it finds exactly the
   symbol that lists the word (`Symbol.ofSpelling?_eq_some`). The three words of
   a constant are single letters, and `constantOf?` gives their truth values. -/
namespace Propositional

/-- The letters that name variables in a text. -/
def variableWords : List String :=
  ["a", "b", "c", "d", "e", "f", "g", "h", "i", "j", "k", "l", "m",
   "n", "o", "p", "q", "r", "s", "t", "u", "v", "w", "x", "y", "z"]

namespace Symbol

/-- The words that stand for the symbol; none stands for the end of input. -/
def spellings : Symbol → List String
  | .eof => []
  | .connective (.derived .equivalent) => ["EQUAL", "<->", "⟷", "≡", "==", "⇔"]
  | .connective (.derived .implies) => ["IMPLIES", "->", "→", "⇒"]
  | .connective (.junction .or) => ["OR", "||", "|", "+", "∨"]
  | .connective (.derived .nor) => ["NOR", "↓"]
  | .connective (.derived .xor) => ["XOR", "⊻", "⊕"]
  | .connective (.junction .and) => ["AND", "&&", "&", ".", "∧", "^"]
  | .connective (.derived .nand) => ["NAND", "↑"]
  | .not => ["NOT", "!", "~", "¬"]
  | .closing => [")"]
  | .opening => ["("]
  | .var => variableWords
  | .constant => ["V", "T", "F"]

/-- Every word that stands for a symbol. -/
def words : List String := all.flatMap spellings

/-- The symbol a word stands for. -/
def ofSpelling? (word : String) : Option Symbol := all.find? (fun s => s.spellings.contains word)

theorem nodup_words : words.Nodup := by decide

theorem ofSpelling?_of_mem {s : Symbol} {w : String} (h : w ∈ s.spellings) :
    ofSpelling? w = some s := by
  have listed : ∀ s ∈ all, ∀ w ∈ s.spellings, ofSpelling? w = some s := by decide
  exact listed s (mem_all s) w h

theorem ofSpelling?_eq_some {s : Symbol} {w : String} :
    ofSpelling? w = some s ↔ w ∈ s.spellings := by
  refine ⟨fun h => ?_, ofSpelling?_of_mem⟩
  simpa using List.find?_some h

end Symbol

/-- The truth value that a letter stands for. -/
def constantOf? (c : Char) : Option Bool :=
  if c = 'V' ∨ c = 'T' then some true else if c = 'F' then some false else none

end Propositional
