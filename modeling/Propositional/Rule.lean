import Propositional.Pattern

/- Rules of simplification. A rule replaces a formula that its pattern matches by what its
   replacement describes. A set of rules has a list for negations and one for each
   junction, in order of priority; the first rule that applies is the one used.
   The standard rules for ∧ and for ∨ are one list of laws, stated once for both
   (`junctionRules`). -/
namespace Propositional

structure Rule where
  name : String
  pattern : Pattern
  replacement : Pattern
  /-- From a wildcard no formula is built, so that the rule would never apply. -/
  noWildcard : replacement.hasWildcard = false := by rfl

namespace Rule

/-- The rule with these parts, unless its replacement has a wildcard. -/
def ofParts? (name : String) (pattern replacement : Pattern) : Except PatternError Rule :=
  if h : replacement.hasWildcard = false then .ok ⟨name, pattern, replacement, h⟩
  else .error (.wildcardInReplacement name replacement)

/-- The formula that the rule makes of another one at its root, if it applies. -/
def apply (rule : Rule) (f : Formula) : Option Formula := do
  let b ← rule.pattern.match? f
  rule.replacement.build b

/-- The rule as text. -/
def render (rule : Rule) : String :=
  rule.name ++ ": " ++ rule.pattern.render ++ " => " ++ rule.replacement.render

end Rule

structure RuleSet where
  forNot : List Rule
  forJunction : Junction → List Rule

namespace RuleSet

/-- The rules that may apply at the root of the formula, in order of priority. -/
def rulesFor (rules : RuleSet) : Formula → List Rule
  | .not _ => rules.forNot
  | .join j _ _ => rules.forJunction j
  | _ => []

/-- The first rule that applies at the root of the formula, and what it makes of it. -/
def firstApplying? (rules : RuleSet) (f : Formula) : Option (Rule × Formula) :=
  (rules.rulesFor f).findSome? (fun rule => (rule.apply f).map (fun g => (rule, g)))

end RuleSet

/-! The standard rules. -/

/-- The word for a junction in the names of rules. -/
def Junction.word : Junction → String
  | .and => "and"
  | .or => "or"

open Pattern in
/-- The standard rules for negations. -/
def negationRules : List Rule :=
  [{ name := "double negation", pattern := not (not (slot 0)), replacement := slot 0 },
   { name := "negate true", pattern := not (const true), replacement := const false },
   { name := "negate false", pattern := not (const false), replacement := const true }]

open Pattern in
/-- The standard rules for a junction. -/
def junctionRules (j : Junction) : List Rule :=
  let a := slot 0
  [{ name := j.word ++ " idempotence", pattern := join j a a, replacement := a },
   { name := j.word ++ " identity", pattern := join j a (const j.unit), replacement := a },
   { name := j.word ++ " annihilation", pattern := join j any (const j.dual.unit),
     replacement := const j.dual.unit },
   { name := j.word ++ " complement", pattern := join j a (not a),
     replacement := const j.dual.unit },
   { name := j.word ++ " nested complement", pattern := join j a (join j (not a) any),
     replacement := const j.dual.unit },
   { name := j.word ++ " nested complement", pattern := join j (not a) (join j a any),
     replacement := const j.dual.unit },
   { name := j.word ++ " absorption", pattern := join j a (join j.dual a any), replacement := a },
   { name := j.word ++ " regrouping", pattern := join j a (join j a (slot 1)),
     replacement := join j a (slot 1) }]

/-- The standard rules. -/
def RuleSet.standard : RuleSet := ⟨negationRules, junctionRules⟩

end Propositional
