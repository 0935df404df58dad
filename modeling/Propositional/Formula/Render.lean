import Propositional.Formula

/- Formulas as text: every connective in infix position, every compound formula in
   parentheses. A variable may be shown under another name. -/
namespace Propositional.Formula

/-- The formula as text, with the variables shown as `names` says, or by their own
    name where it says nothing. -/
def renderWith (names : String → Option String) : Formula → String
  | const b => truthLetter b
  | var x => (names x).getD x
  | not a => "(¬" ++ a.renderWith names ++ ")"
  | binary c l r =>
    "(" ++ l.renderWith names ++ " " ++ c.glyph ++ " " ++ r.renderWith names ++ ")"

/-- The formula as text. -/
def render (f : Formula) : String := f.renderWith (fun _ => none)

end Propositional.Formula
