import Propositional.Proofs.Stacks
import Propositional.Proofs.Tokenizing
import Propositional.Reading

/- Reading what was rendered. A rendered formula is in parentheses wherever it is compound,
   so that its tokens are an operand (`Formula.derives_tokens`), and every sign that it is
   rendered with is a word that no longer word begins with, so that the tokens are read
   whatever follows (`Formula.tokenizes_render`). Hence a rendered formula reads back as
   itself, under the names that its variables were shown by (`render_reads_back`). -/
namespace Propositional

namespace Symbol

theorem letter_opening : opening.Letter '(' := by decide +kernel

theorem letter_closing : closing.Letter ')' := by decide +kernel

theorem letter_not : not.Letter '¬' := by decide +kernel

theorem letter_glyph (c : Connective) :
    ∃ ch, c.glyph = String.singleton ch ∧ (connective c).Letter ch := by
  cases c with
  | junction j =>
    cases j with
    | and => exact ⟨'∧', rfl, by decide +kernel⟩
    | or => exact ⟨'∨', rfl, by decide +kernel⟩
  | derived d =>
    cases d with
    | equivalent => exact ⟨'⟷', rfl, by decide +kernel⟩
    | implies => exact ⟨'→', rfl, by decide +kernel⟩
    | nor => exact ⟨'↓', rfl, by decide +kernel⟩
    | xor => exact ⟨'⊻', rfl, by decide +kernel⟩
    | nand => exact ⟨'↑', rfl, by decide +kernel⟩

theorem letter_variable {x : String} (h : x ∈ variableWords) :
    ∃ ch, x = String.singleton ch ∧ var.Letter ch := by
  have single : variableWords.all (fun y =>
      y.toList.any fun ch => y = String.singleton ch ∧ var.Letter ch) = true := by decide +kernel
  obtain ⟨ch, _, found⟩ := List.any_eq_true.mp (List.all_eq_true.mp single x h)
  exact ⟨ch, of_decide_eq_true found⟩

end Symbol

theorem constantOf?_truthLetter (b : Bool) : ∃ ch, truthLetter b = String.singleton ch ∧
    constantOf? ch = some b ∧ isSeparator ch = false := by
  cases b with
  | false => exact ⟨'F', rfl, rfl, rfl⟩
  | true => exact ⟨'V', rfl, rfl, rfl⟩

namespace Formula
variable {names : String → Option String}

/-- The formula with every variable under the name that it is shown by. -/
def rename (names : String → Option String) : Formula → Formula
  | const b => const b
  | var x => var ((names x).getD x)
  | not a => not (a.rename names)
  | binary c l r => binary c (l.rename names) (r.rename names)

theorem rename_none : ∀ f : Formula, f.rename (fun _ => none) = f
  | const _ | var _ => rfl
  | not a => by rw [rename, rename_none a]
  | binary c l r => by rw [rename, rename_none l, rename_none r]

theorem occurrences_rename : ∀ f : Formula,
    (f.rename names).occurrences = f.occurrences.map (fun x => (names x).getD x)
  | const _ | var _ => rfl
  | not a => occurrences_rename a
  | binary _ l r => by simp only [rename, occurrences, occurrences_rename l, occurrences_rename r,
      List.map_append]

/-- The tokens that the formula is rendered with. -/
def tokens (names : String → Option String) : Formula → List Token
  | const b => [Token.constant b]
  | var x => [⟨.var, .literal ((names x).getD x)⟩]
  | not a =>
    ⟨.opening, .literal "("⟩ :: ⟨.not, .literal "¬"⟩ :: (a.tokens names ++ [⟨.closing, .literal ")"⟩])
  | binary c l r =>
    ⟨.opening, .literal "("⟩ :: ((l.tokens names ++
      ⟨.connective c, .literal c.glyph⟩ :: r.tokens names) ++ [⟨.closing, .literal ")"⟩])

theorem derives_tokens : ∀ f : Formula, Derives operandLevel (f.tokens names) (f.rename names)
  | const _ => .const rfl rfl
  | var _ => .var rfl rfl
  | not a => by
    have negated : Derives operandLevel (⟨.not, .literal "¬"⟩ :: a.tokens names)
        (not (a.rename names)) := .negation rfl (derives_tokens a)
    exact .group rfl rfl (negated.mono (Nat.zero_le _))
  | binary c l r => by
    have left := (derives_tokens l).mono c.leftLevel_le
    have right := (derives_tokens r).mono c.rightLevel_le
    have operated : Derives c.rank (l.tokens names ++ ⟨.connective c, .literal c.glyph⟩ ::
        r.tokens names) (binary c (l.rename names) (r.rename names)) := .binary rfl left right
    exact .group rfl rfl (operated.mono (Nat.zero_le _))

/-- A rendered formula reads as its tokens, whatever follows it. -/
theorem tokenizes_render : ∀ (f : Formula) {rest : List Char} {ts : List Token},
    (∀ x ∈ f.occurrences, (names x).getD x ∈ variableWords) → Tokenizes rest ts →
      Tokenizes ((f.renderWith names).toList ++ rest) (f.tokens names ++ ts)
  | const b, rest, ts, _, h => by
    obtain ⟨ch, shown, value, separate⟩ := constantOf?_truthLetter b
    rw [renderWith, shown, String.toList_singleton]
    exact h.constant separate value
  | var x, rest, ts, hx, h => by
    obtain ⟨ch, shown, letter⟩ := Symbol.letter_variable (hx x (List.mem_singleton.mpr rfl))
    rw [renderWith, tokens, shown, String.toList_singleton]
    exact h.letter letter
  | not a, rest, ts, hx, h => by
    have closed := h.letter Symbol.letter_closing
    have operand := tokenizes_render a hx closed
    have whole := (operand.letter Symbol.letter_not).letter Symbol.letter_opening
    have text : ((not a).renderWith names).toList ++ rest =
        '(' :: '¬' :: ((a.renderWith names).toList ++ ')' :: rest) := by
      simp [renderWith, String.toList_append]
    have signs : (not a).tokens names ++ ts = ⟨.opening, .literal (String.singleton '(')⟩ ::
        ⟨.not, .literal (String.singleton '¬')⟩ ::
        (a.tokens names ++ ⟨.closing, .literal (String.singleton ')')⟩ :: ts) := by
      rw [tokens, List.cons_append, List.cons_append, List.append_assoc]
      rfl
    rw [text, signs]
    exact whole
  | binary c l r, rest, ts, hx, h => by
    obtain ⟨ch, shown, letter⟩ := Symbol.letter_glyph c
    have blank : isSeparator ' ' = true := rfl
    have left : ∀ x ∈ l.occurrences, (names x).getD x ∈ variableWords :=
      fun x hm => hx x (List.mem_append_left _ hm)
    have right : ∀ x ∈ r.occurrences, (names x).getD x ∈ variableWords :=
      fun x hm => hx x (List.mem_append_right _ hm)
    have closed := h.letter Symbol.letter_closing
    have fromRight := (tokenizes_render r right closed).separator blank
    have fromSign := (fromRight.letter letter).separator blank
    have whole := (tokenizes_render l left fromSign).letter Symbol.letter_opening
    have text : ((binary c l r).renderWith names).toList ++ rest =
        '(' :: ((l.renderWith names).toList ++ ' ' :: ch :: ' ' ::
          ((r.renderWith names).toList ++ ')' :: rest)) := by
      simp [renderWith, String.toList_append, shown]
    have signs : (binary c l r).tokens names ++ ts = ⟨.opening, .literal (String.singleton '(')⟩ ::
        (l.tokens names ++ ⟨.connective c, .literal (String.singleton ch)⟩ ::
          (r.tokens names ++ ⟨.closing, .literal (String.singleton ')')⟩ :: ts)) := by
      rw [tokens, shown, List.cons_append, List.append_assoc, List.append_assoc, List.cons_append]
      rfl
    rw [text, signs]
    exact whole

theorem isCanonical_not (a : Formula) : (not a).isCanonical = a.isCanonical := rfl

theorem isCanonical_binary (c : Connective) (l r : Formula) : (binary c l r).isCanonical =
    ((Symbol.connective c).isCanonical && (l.isCanonical && r.isCanonical)) := by
  cases c with
  | junction j =>
    simp only [isCanonical, derivedCount, Symbol.isCanonical, Bool.true_and]
    rw [Bool.eq_iff_iff]
    simp
  | derived d => simp [isCanonical, derivedCount, Symbol.isCanonical]

/-- The tokens have a derived connective exactly where the formula has one. -/
theorem areCanonical_tokens : ∀ f : Formula, areCanonical (f.tokens names) = f.isCanonical
  | const _ | var _ => rfl
  | not a => by
    rw [isCanonical_not, ← areCanonical_tokens a]
    simp [areCanonical, tokens, Symbol.isCanonical]
  | binary c l r => by
    rw [isCanonical_binary, ← areCanonical_tokens l, ← areCanonical_tokens r]
    simp only [areCanonical, tokens, Symbol.isCanonical, List.all_cons, List.all_append,
      List.all_nil, Bool.true_and, Bool.and_true]
    ac_rfl

end Formula

/-! Lines. -/

theorem beforeEnd_append_eof {ts : List Token} (h : ∀ t ∈ ts, t.symbol ≠ .eof) :
    beforeEnd (ts ++ [Token.eof]) = ts := by
  have inside : ∀ t ∈ ts, (t.symbol != .eof) = true := by
    intro t ht
    simp [h t ht]
  unfold beforeEnd
  rw [List.takeWhile_append_of_pos inside]
  simp [Token.eof]

/-- Without treatment a line is read as the formula that its tokens are parsed to. -/
theorem readLine_eq_ok_iff {line : String} {r : Reading} : (readLine {} line).1 = .ok r ↔
    (Stream.ofText line).tokenize.result = .ok r.tokens ∧
      ∃ reductions, Formula.parse r.tokens = .ok ⟨r.formula, r.vars, reductions⟩ := by
  unfold readLine readLineBy
  cases scanned : (Stream.ofText line).tokenize.result with
  | error e => simp [scanned]
  | ok tokens =>
    cases parsed : Formula.parse tokens with
    | error e =>
      simp only [scanned, parsed, Except.ok.injEq]
      refine ⟨?_, ?_⟩
      · intro h
        cases h
      · intro ⟨same, _, h⟩
        rw [← same, parsed] at h
        cases h
    | ok p =>
      simp only [scanned, parsed, Except.ok.injEq]
      refine ⟨?_, ?_⟩
      · intro h
        subst h
        exact ⟨rfl, p.reductions, parsed⟩
      · intro ⟨same, log, h⟩
        subst same
        rw [parsed] at h
        injection h with h
        subst h
        rfl

/-- A rendered formula is read, and its tokens are those it was rendered with. -/
theorem readLine_render {f : Formula} {names : String → Option String}
    (h : ∀ x ∈ f.vars, (names x).getD x ∈ variableWords) :
    (readLine {} (f.renderWith names)).1 =
      .ok ⟨f.rename names, (f.rename names).vars, f.tokens names ++ [Token.eof]⟩ := by
  rw [readLine_eq_ok_iff]
  have spelled : ∀ x ∈ f.occurrences, (names x).getD x ∈ variableWords :=
    fun x hx => h x (Formula.mem_vars.mpr hx)
  have derived : Derives operandLevel (f.tokens names) (f.rename names) := f.derives_tokens
  have inFront := beforeEnd_append_eof derived.symbol_ne_eof
  have whole : Derives 0 (beforeEnd (f.tokens names ++ [Token.eof])) (f.rename names) := by
    rw [inFront]
    exact derived.mono (Nat.zero_le _)
  have read := f.tokenizes_render spelled .nil
  rw [List.append_nil] at read
  exact ⟨read _ 0 (Cursor.awaits_ofText _), _, parse_of_derives whole⟩

/-- The variables of a line that was read are letters. -/
theorem vars_subset_of_readLine {line : String} {r : Reading} (h : (readLine {} line).1 = .ok r) :
    ∀ x ∈ r.formula.vars, x ∈ variableWords := by
  intro x hx
  obtain ⟨scanned, log, parsed⟩ := readLine_eq_ok_iff.mp h
  have derived := derives_of_parse parsed
  obtain ⟨t, ht, operand, literal⟩ := derived.exists_token x (Formula.mem_vars.mp hx)
  have spelled := Stream.spelled_tokenize rfl scanned t ((List.takeWhile_prefix _).mem ht)
  exact spelled.mem_variableWords operand literal

/-- A formula whose variables are shown as letters is read back from its rendering, with the
    shown names for its variables, and the tokens tell whether it is canonical. Hence a
    formula over letters reads back as itself, and so does whatever a line was read as. -/
theorem render_reads_back :
    (∀ (f : Formula) (names : String → Option String),
      (∀ x ∈ f.vars, (names x).getD x ∈ variableWords) →
        ∃ r : Reading, (readLine {} (f.renderWith names)).1 = .ok r ∧
          r.formula = f.rename names ∧ r.vars = (f.rename names).vars ∧
          (∀ y, y ∈ r.vars ↔ ∃ x ∈ f.vars, (names x).getD x = y) ∧
          r.isCanonical = f.isCanonical) ∧
    (∀ f : Formula, (∀ x ∈ f.vars, x ∈ variableWords) →
      ∃ r : Reading, (readLine {} f.render).1 = .ok r ∧ r.formula = f) ∧
    (∀ (line : String) (r : Reading), (readLine {} line).1 = .ok r →
      ∃ r' : Reading, (readLine {} r.formula.render).1 = .ok r' ∧ r'.formula = r.formula) := by
  have itself {f : Formula} (h : ∀ x ∈ f.vars, x ∈ variableWords) :
      ∃ r : Reading, (readLine {} f.render).1 = .ok r ∧ r.formula = f :=
    ⟨_, readLine_render h, f.rename_none⟩
  refine ⟨?_, fun f h => itself h, fun line r h => itself (vars_subset_of_readLine h)⟩
  intro f names h
  refine ⟨_, readLine_render h, rfl, rfl, ?_, ?_⟩
  · intro y
    simp only [Formula.mem_vars, Formula.occurrences_rename, List.mem_map]
  · show areCanonical (f.tokens names ++ [Token.eof]) = f.isCanonical
    have same : areCanonical (f.tokens names) = f.isCanonical := f.areCanonical_tokens
    rw [← same]
    simp [areCanonical, Token.eof, Symbol.isCanonical]

/-- A name of several letters may be shown as one. -/
theorem render_reads_back_first :
    ∃ r : Reading, (readLine {} ((Formula.implies (.not (.var "first")) (.var "q")).renderWith
        (fun x => if x = "first" then some "p" else none))).1 = .ok r ∧
      r.formula = .implies (.not (.var "p")) (.var "q") := by
  obtain ⟨r, read, formula, _⟩ := render_reads_back.1
    (.implies (.not (.var "first")) (.var "q"))
    (fun x => if x = "first" then some "p" else none) (by decide)
  exact ⟨r, read, formula⟩

end Propositional
