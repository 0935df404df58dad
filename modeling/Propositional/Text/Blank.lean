/- Two classes of blank characters. A separator may stand between the words of a
   formula. White space, in the sense of the Unicode property, is cut from both
   ends of an input line; every separator is white space. -/
namespace Propositional

/-- The characters that separate words. -/
def isSeparator (c : Char) : Bool := c = ' ' ∨ c = '\t' ∨ c = '\n' ∨ c = '\r'

/-- The characters with the property White_Space. -/
def isWhite (c : Char) : Bool :=
  let n := c.toNat
  (9 ≤ n && n ≤ 13) || n = 0x20 || n = 0x85 || n = 0xA0 || n = 0x1680 ||
    (0x2000 ≤ n && n ≤ 0x200A) || n = 0x2028 || n = 0x2029 || n = 0x202F || n = 0x205F || n = 0x3000

theorem isWhite_of_isSeparator (c : Char) (h : isSeparator c = true) : isWhite c = true := by
  simp only [isSeparator, decide_eq_true_eq] at h
  rcases h with rfl | rfl | rfl | rfl <;> decide

/-- What is left when separators are dropped does not start with one. -/
theorem isSeparator_head?_dropWhile (text : List Char) :
    ∀ ch ∈ (text.dropWhile isSeparator).head?, isSeparator ch = false := by
  intro ch hch
  have stop := List.head?_dropWhile_not isSeparator text
  rw [Option.mem_def.mp hch] at stop
  exact stop

/-- The text without the white space at its two ends. -/
def trimmed (text : String) : String :=
  String.ofList ((text.toList.dropWhile isWhite).reverse.dropWhile isWhite).reverse

end Propositional
