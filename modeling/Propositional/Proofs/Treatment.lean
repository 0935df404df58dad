import Propositional.Proofs.RoundTrip
import Propositional.Proofs.Soundness
import Propositional.Proofs.Tables
import Propositional.Proofs.Variables

/- What the options change about a line, and what they do not. Whether a line is rejected,
   and the tokens and the formula that it is read as, do not depend on the options
   (`readLine_cases`). What a formula is made into by its treatment keeps its values and
   brings in no variable (`Formula.Keeps`, `Options.keeps_treat`), so that it is always
   true, or always false, exactly if the formula is (`Formula.Keeps.always_iff`), and the
   rows of its table agree with those of the formula's (`options_keep_meaning`). The variables
   that come with it are its own, though they are not always looked for again
   (`Options.vars_treat_eq`). -/
namespace Propositional

namespace Formula

/-- The second formula has every value that the first one has, and no other variables. -/
structure Keeps (f g : Formula) : Prop where
  value : ∀ {s : Assignment} {b : Bool}, f.eval s = .ok b → g.eval s = .ok b
  occurrences : g.occurrences ⊆ f.occurrences

namespace Keeps
variable {f g h : Formula}

theorem refl (f : Formula) : f.Keeps f := ⟨id, List.Subset.refl _⟩

theorem trans (hg : f.Keeps g) (hh : g.Keeps h) : f.Keeps h :=
  ⟨hh.value ∘ hg.value, List.Subset.trans hh.occurrences hg.occurrences⟩

theorem vars (hg : f.Keeps g) : g.vars ⊆ f.vars := RuleSet.vars_subset_of_occurrences hg.occurrences

theorem truth_eq (hg : f.Keeps g) {s : Assignment} (hs : s.Covers f.vars) : g.truth s = f.truth s :=
  Formula.truth_eq (hg.value (eval_eq_truth hs))

theorem always_iff (hg : f.Keeps g) {b : Bool} : g.Always b ↔ f.Always b := by
  refine ⟨?_, ?_⟩
  · intro always s covered
    have value : g.eval s = .ok b := always s (fun x hx => covered x (hg.vars hx))
    rw [eval_eq_truth covered, ← hg.truth_eq covered, Formula.truth_eq value]
  · intro always s covered
    -- a variable that only the first formula has may have any value
    let t : Assignment := fun x => some ((s x).getD true)
    have everywhere : t.Covers f.vars := fun _ _ => ⟨_, rfl⟩
    have agree : ∀ x ∈ g.occurrences, s x = t x := by
      intro x hx
      obtain ⟨c, hc⟩ := covers_vars.mp covered x hx
      simp only [t, hc, Option.getD_some]
    rw [eval_congr agree]
    exact hg.value (always t everywhere)

end Keeps

theorem keeps_normalize (f : Formula) : f.Keeps f.normalize where
  value h := (RuleSet.standard_valid.carries _).normalize f _ h
  occurrences := RuleSet.standard.carries_occurrences.normalize f

theorem keeps_simplify (maxSteps : Nat) (f : Formula) :
    f.Keeps (RuleSet.standard.simplify maxSteps f).formula where
  value h := (RuleSet.standard_valid.carries _).simplify maxSteps f _ h
  occurrences := RuleSet.standard.carries_occurrences.simplify maxSteps f

end Formula

/-! Treatment. -/

namespace Options
variable (o : Options) (tokens : List Token) (parsed : Parsed)

theorem tokens_treat : (o.treat tokens parsed).1.tokens = tokens := by
  unfold treat
  cases o.simplify <;> rfl

theorem vars_treat : (o.treat tokens parsed).1.vars =
    if o.simplify then (o.treat tokens parsed).1.formula.vars else parsed.vars := by
  unfold treat
  cases o.simplify <;> rfl

theorem formula_treat : (o.treat tokens parsed).1.formula =
    let normal := if o.normalize then parsed.formula.normalize else parsed.formula
    if o.simplify then (RuleSet.standard.simplify o.maxSteps normal).formula else normal := by
  unfold treat
  cases o.simplify <;> rfl

theorem keeps_treat : parsed.formula.Keeps (o.treat tokens parsed).1.formula := by
  have normal : parsed.formula.Keeps
      (if o.normalize then parsed.formula.normalize else parsed.formula) := by
    split
    · exact parsed.formula.keeps_normalize
    · exact .refl _
  rw [formula_treat]
  cases o.simplify with
  | false => exact normal
  | true => exact normal.trans (Formula.keeps_simplify _ _)

variable {parsed} (own : parsed.vars = parsed.formula.vars)
include own

/-- Where the variables are not looked for again, the formula was at most normalized. -/
theorem vars_treat_eq : (o.treat tokens parsed).1.vars = (o.treat tokens parsed).1.formula.vars := by
  rw [vars_treat]
  split
  · rfl
  · next unsimplified =>
    rw [formula_treat, if_neg unsimplified, own]
    split
    · exact parsed.formula.vars_normalize.symm
    · rfl

theorem vars_treat_subset : (o.treat tokens parsed).1.vars ⊆ parsed.vars := by
  rw [o.vars_treat_eq tokens own, own]
  exact (o.keeps_treat tokens parsed).vars

theorem occurrences_treat_subset :
    (o.treat tokens parsed).1.formula.occurrences ⊆ (o.treat tokens parsed).1.vars := by
  rw [o.vars_treat_eq tokens own]
  exact Formula.occurrences_subset_vars _

theorem exists_truthTable_treat : ∃ t, (o.treat tokens parsed).1.truthTable = .ok t :=
  ⟨_, Formula.tableOver_eq (o.occurrences_treat_subset tokens own)⟩

section
variable {o tokens} {t : TruthTable} (ht : (o.treat tokens parsed).1.truthTable = .ok t)
include ht

theorem isTautology_treat : t.isTautology = true ↔ parsed.formula.Always true :=
  (TruthTable.isTautology_iff (o.occurrences_treat_subset tokens own) ht).trans
    (o.keeps_treat tokens parsed).always_iff

theorem isContradiction_treat : t.isContradiction = true ↔ parsed.formula.Always false :=
  (TruthTable.isContradiction_iff (o.occurrences_treat_subset tokens own) ht).trans
    (o.keeps_treat tokens parsed).always_iff

end

end Options

/-! Lines. -/

/-- Whether a line can be read, and as what, is settled before the options matter. -/
theorem readLine_cases (line : String) :
    (∃ e, ∀ o, (readLine o line).1 = .error e) ∨
    ∃ tokens parsed, parsed.vars = parsed.formula.vars ∧
      ∀ o, (readLine o line).1 = .ok (Options.treat o tokens parsed).1 := by
  cases scanned : (Stream.ofText line).tokenize.result with
  | error e => exact .inl ⟨.lex e, fun o => by simp only [readLine, readLineBy, scanned]⟩
  | ok tokens =>
    cases parsed : Formula.parse tokens with
    | error failure =>
      exact .inl ⟨.parse failure.error, fun o => by simp only [readLine, readLineBy, scanned, parsed]⟩
    | ok p =>
      refine .inr ⟨tokens, p, vars_of_parse parsed, fun o => ?_⟩
      simp only [readLine, readLineBy, scanned, parsed]

/-- A line that can be read with some options can be read with any. -/
theorem exists_treat_of_readLine {o : Options} {line : String} {r : Reading}
    (h : (readLine o line).1 = .ok r) : ∃ tokens parsed, parsed.vars = parsed.formula.vars ∧
      ∀ o', (readLine o' line).1 = .ok (Options.treat o' tokens parsed).1 := by
  obtain ⟨e, rejected⟩ | accepted := readLine_cases line
  · rw [rejected] at h
    cases h
  · exact accepted

/-- The options never change what a line means. With any options it is rejected for the same
    reason, or read as the same tokens. Then the formulas have the same value under every
    assignment that covers the variables of the formula that was written, and their tables
    are both tautologies or neither, and both contradictions or neither. Each row in the
    table of a formula that was not simplified has its like in the other table, a row with
    the same values of the variables that are left there, and its result is the same. -/
theorem options_keep_meaning (line : String) (o o' : Options) :
    (∃ e, (readLine o line).1 = .error e ∧ (readLine o' line).1 = .error e) ∨
    ∃ plain r r' : Reading, (readLine {} line).1 = .ok plain ∧
      (readLine o line).1 = .ok r ∧ (readLine o' line).1 = .ok r' ∧
      r.tokens = r'.tokens ∧ r.isCanonical = r'.isCanonical ∧
      (∀ s : Assignment, s.Covers plain.formula.vars →
        ∃ b, r.formula.eval s = .ok b ∧ r'.formula.eval s = .ok b) ∧
      ∃ t t', r.truthTable = .ok t ∧ r'.truthTable = .ok t' ∧
        t.isTautology = t'.isTautology ∧ t.isContradiction = t'.isContradiction ∧
        (o.simplify = false → r'.vars ⊆ r.vars ∧ ∀ row ∈ t.rows,
          (∃ row' ∈ t'.rows, ∀ x ∈ r'.vars, t'.cell? row' x = t.cell? row x) ∧
          ∀ row' ∈ t'.rows, (∀ x ∈ r'.vars, t'.cell? row' x = t.cell? row x) →
            row'.getLast? = row.getLast?) := by
  obtain ⟨e, rejected⟩ | ⟨tokens, parsed, own, accepted⟩ := readLine_cases line
  · exact .inl ⟨e, rejected o, rejected o'⟩
  have keeps := o.keeps_treat tokens parsed
  have keeps' := o'.keeps_treat tokens parsed
  have tokens_eq := (o.tokens_treat tokens parsed).trans (o'.tokens_treat tokens parsed).symm
  obtain ⟨t, ht⟩ := o.exists_truthTable_treat tokens own
  obtain ⟨t', ht'⟩ := o'.exists_truthTable_treat tokens own
  refine .inr ⟨_, _, _, accepted {}, accepted o, accepted o', tokens_eq, ?_, ?_,
    t, t', ht, ht', ?_, ?_, ?_⟩
  · rw [Reading.isCanonical, Reading.isCanonical, tokens_eq]
  · intro s covered
    have written : parsed.formula.eval s = .ok (parsed.formula.truth s) :=
      Formula.eval_eq_truth covered
    exact ⟨_, keeps.value written, keeps'.value written⟩
  · rw [Bool.eq_iff_iff, Options.isTautology_treat own ht, Options.isTautology_treat own ht']
  · rw [Bool.eq_iff_iff, Options.isContradiction_treat own ht,
      Options.isContradiction_treat own ht']
  · intro unsimplified
    have all : (o.treat tokens parsed).1.vars = parsed.vars := by
      rw [Options.vars_treat, unsimplified]
      rfl
    have sub : (o'.treat tokens parsed).1.vars ⊆ (o.treat tokens parsed).1.vars := by
      rw [all]
      exact o'.vars_treat_subset tokens own
    refine ⟨sub, TruthTable.result_of_like_row (o.occurrences_treat_subset tokens own)
      (o'.occurrences_treat_subset tokens own) sub (fun s covered => ?_) ht ht'⟩
    rw [all, own] at covered
    rw [keeps.truth_eq covered, keeps'.truth_eq covered]

/-- A line with a variable that simplification drops. -/
theorem options_keep_meaning_dropped_variable :
    let f : Formula := .or (.var "q") (.and (.var "p") (.not (.var "p")))
    let o : Options := { simplify := true }
    ({} : Options).simplify = false ∧ ∃ (r r' : Reading) (t t' : TruthTable),
      (readLine {} f.render).1 = .ok r ∧ (readLine o f.render).1 = .ok r' ∧
      r.truthTable = .ok t ∧ r'.truthTable = .ok t' ∧
      ∀ row ∈ t.rows, ∃ row' ∈ t'.rows, row'.getLast? = row.getLast? := by
  intro f o
  have letters : ∀ x ∈ f.vars, (none : Option String).getD x ∈ variableWords := by decide
  have read : (readLine {} f.render).1 = .ok _ := readLine_render letters
  obtain ⟨e, rejected, -⟩ | ⟨-, r, r', -, hr, hr', -, -, -, t, t', ht, ht', -, -, rows⟩ :=
    options_keep_meaning f.render {} o
  · rw [read] at rejected
    cases rejected
  · refine ⟨rfl, r, r', t, t', hr, hr', ht, ht', fun row hrow => ?_⟩
    obtain ⟨⟨row', hrow', like⟩, same⟩ := (rows rfl).2 row hrow
    exact ⟨row', hrow', same row' hrow' like⟩

end Propositional
