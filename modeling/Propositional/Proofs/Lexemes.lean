import Propositional.Proofs.RoundTrip
import Propositional.Proofs.Spacing
import Propositional.Proofs.Variables

/- What a token says, however it is written, is its lexeme. A formula that is written in
   order, each connective between its operands and no parentheses, gives back the lexemes of
   the tokens that it was derived from, parentheses left out (`Derives.lexemes`). So no token
   is lost, doubled or moved, and what is counted on the tokens of a line is what is counted
   on its formula (`reading_keeps_tokens`). -/
namespace Propositional

/-- What a token says, however it is written. -/
inductive Lexeme where
  | const (value : Bool)
  | var (name : String)
  | not
  | connective (c : Connective)
  | opening
  | closing
deriving DecidableEq

/-- The lexeme of a token. An operand says what its value is, whichever of the two symbols it
    has. The end of the input says nothing, nor does an operand without a value. -/
def Token.lexeme? (t : Token) : Option Lexeme :=
  match t.symbol with
  | .var | .constant =>
    match t.value with
    | .constant b => some (.const b)
    | .literal x => some (.var x)
    | .none => none
  | .not => some .not
  | .connective c => some (.connective c)
  | .opening => some .opening
  | .closing => some .closing
  | .eof => none

theorem Token.lexeme?_eq_some {t : Token} {i : Lexeme} : t.lexeme? = some i ↔
    match i with
    | .const b => t.symbol.isOperand ∧ t.value = .constant b
    | .var x => t.symbol.isOperand ∧ t.value = .literal x
    | .not => t.symbol = .not
    | .connective c => t.symbol = .connective c
    | .opening => t.symbol = .opening
    | .closing => t.symbol = .closing := by
  obtain ⟨s, v⟩ := t
  cases s <;> cases v <;> cases i <;> simp [lexeme?, Symbol.isOperand]

/-! Symbols that are counted. -/

namespace Symbol

def isParenthesis (s : Symbol) : Bool := s = .opening ∨ s = .closing

/-- Whether the symbol is a derived connective. -/
def isDerived : Symbol → Bool
  | connective (.derived _) => true
  | _ => false

theorem not_isParenthesis_of_isOperand {s : Symbol} (h : s.isOperand) : s.isParenthesis = false := by
  cases s with
  | var | constant => rfl
  | eof | connective | not | closing | opening => cases h

theorem isCanonical_eq (s : Symbol) : s.isCanonical = !s.isDerived := by
  cases s with
  | connective c => cases c <;> rfl
  | _ => rfl

end Symbol

/-- Whether the lexeme is a derived connective. -/
def Lexeme.isDerived : Lexeme → Bool
  | connective c => (Symbol.connective c).isDerived
  | _ => false

theorem Token.isDerived_symbol (t : Token) : t.symbol.isDerived = t.lexeme?.any Lexeme.isDerived := by
  obtain ⟨s, v⟩ := t
  cases s <;> cases v <;> rfl

/-- The tokens that are left when the parentheses are taken out. -/
def withoutParentheses (ts : List Token) : List Token := ts.filter (fun t => !t.symbol.isParenthesis)

section
variable {t : Token} {ts : List Token}

theorem withoutParentheses_append (us : List Token) :
    withoutParentheses (ts ++ us) = withoutParentheses ts ++ withoutParentheses us :=
  List.filter_append ..

theorem withoutParentheses_cons (ht : t.symbol.isParenthesis = false) :
    withoutParentheses (t :: ts) = t :: withoutParentheses ts :=
  List.filter_cons_of_pos (by simp [ht])

theorem withoutParentheses_cons_of_parenthesis (ht : t.symbol.isParenthesis) :
    withoutParentheses (t :: ts) = withoutParentheses ts :=
  List.filter_cons_of_neg (by simp [ht])

end

/-! Formulas in order. -/

namespace Formula

/-- The formula written in order: ¬ in front of its operand and a connective between its two. -/
def inOrder : Formula → List Lexeme
  | const b => [.const b]
  | var x => [.var x]
  | not a => .not :: a.inOrder
  | binary c l r => l.inOrder ++ .connective c :: r.inOrder

theorem length_inOrder : ∀ f : Formula, f.inOrder.length = f.size
  | const _ | var _ => rfl
  | not a => by rw [inOrder, List.length_cons, length_inOrder a, size, Nat.add_comm]
  | binary c l r => by
    rw [inOrder, List.length_append, List.length_cons, length_inOrder l, length_inOrder r, size]
    omega

theorem countP_inOrder : ∀ f : Formula, f.inOrder.countP Lexeme.isDerived = f.derivedCount
  | const _ | var _ => rfl
  | not a => countP_inOrder a
  | binary c l r => by
    rw [inOrder, List.countP_append, List.countP_cons, countP_inOrder l, countP_inOrder r]
    cases c with
    | junction j => rfl
    | derived d =>
      simp only [Lexeme.isDerived, Symbol.isDerived, if_true, derivedCount]
      omega

theorem mem_inOrder_var {x : String} : ∀ {f : Formula}, .var x ∈ f.inOrder ↔ x ∈ f.occurrences
  | const _ => by simp [inOrder, occurrences]
  | var y => by simp [inOrder, occurrences]
  | not a => by simp [inOrder, occurrences, mem_inOrder_var (f := a)]
  | binary c l r => by
    simp [inOrder, occurrences, mem_inOrder_var (f := l), mem_inOrder_var (f := r)]

end Formula

/-- The tokens of a formula say what the formula says in order. -/
theorem Derives.lexemes {n : Nat} {ts : List Token} {f : Formula} (h : Derives n ts f) :
    (withoutParentheses ts).map Token.lexeme? = f.inOrder.map some := by
  have leaf {t : Token} {i : Lexeme} (ht : t.symbol.isOperand) (hi : t.lexeme? = some i) :
      (withoutParentheses [t]).map Token.lexeme? = [some i] := by
    rw [withoutParentheses_cons (Symbol.not_isParenthesis_of_isOperand ht), List.map_cons, hi]
    rfl
  have between {c : Connective} {t : Token} {ls rs : List Token} {l r : Formula}
      (ht : t.symbol = .connective c)
      (hl : (withoutParentheses ls).map Token.lexeme? = l.inOrder.map some)
      (hr : (withoutParentheses rs).map Token.lexeme? = r.inOrder.map some) :
      (withoutParentheses (ls ++ t :: rs)).map Token.lexeme? =
        (Formula.binary c l r).inOrder.map some := by
    have operator : t.symbol.isParenthesis = false := by rw [ht]; rfl
    have sign : t.lexeme? = some (.connective c) := Token.lexeme?_eq_some.mpr ht
    rw [withoutParentheses_append, withoutParentheses_cons operator, List.map_append, List.map_cons,
      hl, hr, sign, Formula.inOrder, List.map_append, List.map_cons]
  induction h with
  | @var t x ht hv =>
    have name : t.lexeme? = some (.var x) := Token.lexeme?_eq_some.mpr ⟨ht, hv⟩
    exact leaf ht name
  | @const t b ht hv =>
    have value : t.lexeme? = some (.const b) := Token.lexeme?_eq_some.mpr ⟨ht, hv⟩
    exact leaf ht value
  | @negation t _ _ ht _ ih =>
    have operator : t.symbol.isParenthesis = false := by rw [ht]; rfl
    have sign : t.lexeme? = some .not := Token.lexeme?_eq_some.mpr ht
    rw [withoutParentheses_cons operator, List.map_cons, ih, sign, Formula.inOrder, List.map_cons]
  | group ho hc _ ih =>
    rw [withoutParentheses_cons_of_parenthesis (by rw [ho]; rfl), withoutParentheses_append,
      withoutParentheses_cons_of_parenthesis (by rw [hc]; rfl), List.map_append, ih]
    exact List.append_nil _
  | tighter _ ih => exact ih
  | toLeft _ _ ht _ _ ihl ihr | toRight _ _ ht _ _ ihl ihr => exact between ht ihl ihr

/-! What is counted on the tokens. -/

namespace Derives
variable {n : Nat} {ts : List Token} {f : Formula}

theorem length_withoutParentheses (h : Derives n ts f) : (withoutParentheses ts).length = f.size := by
  have lengths := congrArg List.length h.lexemes
  rwa [List.length_map, List.length_map, f.length_inOrder] at lengths

theorem countP_isDerived (h : Derives n ts f) :
    ts.countP (fun t => t.symbol.isDerived) = f.derivedCount := by
  have kept (t : Token) : (t.symbol.isDerived && !t.symbol.isParenthesis) = t.symbol.isDerived := by
    cases t.symbol <;> simp [Symbol.isDerived, Symbol.isParenthesis]
  have counted := congrArg (List.countP (Option.any Lexeme.isDerived)) h.lexemes
  rw [List.countP_map, List.countP_map] at counted
  calc ts.countP (fun t => t.symbol.isDerived)
      = (withoutParentheses ts).countP (fun t => t.symbol.isDerived) := by
        rw [withoutParentheses, List.countP_filter]
        simp only [kept]
    _ = (withoutParentheses ts).countP (Option.any Lexeme.isDerived ∘ Token.lexeme?) := by
        simp only [Token.isDerived_symbol, Function.comp_def]
    _ = f.inOrder.countP Lexeme.isDerived := counted
    _ = f.derivedCount := f.countP_inOrder

theorem mem_occurrences (h : Derives n ts f) {x : String} :
    x ∈ f.occurrences ↔ ∃ t ∈ ts, t.lexeme? = some (.var x) := by
  have written : some (.var x) ∈ (withoutParentheses ts).map Token.lexeme? ↔ x ∈ f.occurrences := by
    rw [h.lexemes, ← Formula.mem_inOrder_var]
    simp
  rw [← written, List.mem_map]
  refine ⟨fun ⟨t, ht, hx⟩ => ⟨t, List.mem_of_mem_filter ht, hx⟩, fun ⟨t, ht, hx⟩ => ⟨t, ?_, hx⟩⟩
  have ⟨operand, _⟩ := Token.lexeme?_eq_some.mp hx
  exact List.mem_filter.mpr ⟨ht, by simp [Symbol.not_isParenthesis_of_isOperand operand]⟩

end Derives

/-! Lines. -/

/-- A text is read as tokens that are written somehow, and then the end of the input. -/
theorem written_of_tokenize {line : String} {us : List Token}
    (h : (Stream.ofText line).tokenize.result = .ok us) :
    ∃ ts, us = ts ++ [Token.eof] ∧ ∀ t ∈ ts, ∃ w, t.WrittenAs w := by
  obtain ⟨_, pieces, ts, same, laid⟩ := Layout.of_tokenize (Cursor.awaits_ofText line) h
  refine ⟨ts, same, fun t ht => ?_⟩
  rw [← laid.tokens] at ht
  obtain ⟨piece, mem, rfl⟩ := List.mem_map.mp ht
  exact ⟨piece.word, (laid.proper piece mem).written⟩

/-- Only a token with the symbol of variables says a variable, by the word it was written as. -/
theorem Token.WrittenAs.lexeme?_eq_var {t : Token} {w x : String} (h : t.WrittenAs w) :
    t.lexeme? = some (.var x) ↔ t.symbol = .var ∧ t.literal? = some x := by
  cases h with
  | constant => simp [Token.lexeme?, Token.constant]
  | @word s _ _ hs => cases s <;> simp_all [Token.lexeme?, Token.literal?]

/-- No token is lost, doubled or moved on the way to a formula. What is read, written in
    order, is what the tokens in front of the first end of input say, parentheses left out.
    So for a line the size of the formula is the number of tokens other than parentheses and
    the end of the input, its derived connectives are as many as there are such tokens, it is
    canonical exactly if its tokens are, and its variables are, each once, the words of the
    tokens that stand for variables. -/
theorem reading_keeps_tokens :
    (∀ (ts : List Token) (p : Parsed), Formula.parse ts = .ok p →
      (withoutParentheses (beforeEnd ts)).map Token.lexeme? = p.formula.inOrder.map some) ∧
    (∀ (line : String) (r : Reading), (readLine {} line).1 = .ok r →
      r.formula.size = r.tokens.countP (fun t => t.symbol ∉ [.opening, .closing, .eof]) ∧
      r.formula.derivedCount = r.tokens.countP (fun t => t.symbol.isDerived) ∧
      r.isCanonical = r.formula.isCanonical ∧
      r.vars.Pairwise (· < ·) ∧
      ∀ x, x ∈ r.vars ↔ ∃ t ∈ r.tokens, t.symbol = .var ∧ t.literal? = some x) := by
  refine ⟨fun ts p h => (derives_of_parse h).lexemes, fun line r h => ?_⟩
  obtain ⟨scanned, log, parsed⟩ := readLine_eq_ok_iff.mp h
  obtain ⟨ts, whole, written⟩ := written_of_tokenize scanned
  have inside : ∀ t ∈ ts, t.symbol ≠ .eof := fun t ht => (written t ht).choose_spec.ne_eof
  have derived := derives_of_parse parsed
  have vars : r.vars = r.formula.vars := vars_of_parse parsed
  rw [whole, beforeEnd_append_eof inside] at derived
  have count : r.formula.derivedCount = r.tokens.countP (fun t => t.symbol.isDerived) := by
    rw [whole, List.countP_append, derived.countP_isDerived]
    rfl
  refine ⟨?_, count, ?_, ?_, fun x => ?_⟩
  · have kept : ∀ t ∈ ts, (decide (t.symbol ∉ [.opening, .closing, .eof]) = true ↔
        (!t.symbol.isParenthesis) = true) := by
      intro t ht
      simp [Symbol.isParenthesis, inside t ht]
    rw [whole, List.countP_append, List.countP_congr kept, List.countP_eq_length_filter,
      ← derived.length_withoutParentheses]
    rfl
  · have canonical : areCanonical r.tokens = true ↔ r.formula.derivedCount = 0 := by
      rw [areCanonical, List.all_eq_true, count, List.countP_eq_zero]
      simp only [Symbol.isCanonical_eq, Bool.not_eq_true', Bool.not_eq_true]
    rw [Reading.isCanonical, Bool.eq_iff_iff, canonical, Formula.isCanonical_eq_true_iff]
  · rw [vars]
    exact r.formula.sorted_vars
  · rw [vars, Formula.mem_vars, derived.mem_occurrences, whole]
    refine ⟨?_, ?_⟩
    · rintro ⟨t, ht, hx⟩
      obtain ⟨w, hw⟩ := written t ht
      exact ⟨t, List.mem_append_left _ ht, hw.lexeme?_eq_var.mp hx⟩
    · rintro ⟨t, ht, hx⟩
      obtain ht | ht := List.mem_append.mp ht
      · obtain ⟨w, hw⟩ := written t ht
        exact ⟨t, ht, hw.lexeme?_eq_var.mpr hx⟩
      · rw [List.mem_singleton.mp ht] at hx
        cases hx.1

/-- A negated group, with tokens behind the end of the input and then as a line. -/
theorem reading_keeps_tokens_negated_group :
    let f : Formula := .not (.implies (.var "q") (.const true))
    let ts : List Token := [⟨.not, .literal "~"⟩, ⟨.opening, .literal "("⟩, ⟨.var, .literal "q"⟩,
      ⟨.connective (.derived .implies), .literal "->"⟩, Token.constant true,
      ⟨.closing, .literal ")"⟩, Token.eof, ⟨.closing, .literal ")"⟩]
    (∃ log, Formula.parse ts = .ok ⟨f, ["q"], log⟩) ∧
      (withoutParentheses (beforeEnd ts)).map Token.lexeme? = f.inOrder.map some ∧
    ∃ r : Reading, (readLine {} f.render).1 = .ok r ∧ r.formula = f ∧
      r.tokens.countP (fun t => t.symbol ∉ [.opening, .closing, .eof]) = 4 ∧
      r.tokens.countP (fun t => t.symbol.isDerived) = 1 ∧ r.isCanonical = false ∧
      ∃ t ∈ r.tokens, t.symbol = .var ∧ t.literal? = some "q" := by
  intro f ts
  have parsed : Formula.parse ts = .ok ⟨f, ["q"], _⟩ := rfl
  have read : (readLine {} f.render).1 = .ok _ := readLine_render (by decide)
  have names : f.rename (fun _ => none) = f := f.rename_none
  obtain ⟨size, count, canonical, -, vars⟩ := reading_keeps_tokens.2 f.render _ read
  refine ⟨⟨_, parsed⟩, reading_keeps_tokens.1 ts _ parsed, _, read, names, size.symm, count.symm,
    canonical, (vars "q").mp (by decide)⟩

end Propositional
