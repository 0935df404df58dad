import Propositional.Proofs.Lexemes
import Propositional.Proofs.Nesting
import Propositional.Proofs.Treatment

/- Spellings and spacing are interchangeable. A text spells lexemes if it has a word for each
   of them, in their order, and separators between the words (`Spells`); it is read as tokens
   that say the lexemes, whichever words it has (`Spells.exists_tokenizes`). What is made of
   tokens depends on nothing but what they say: the grammar derives the same formula from
   them (`Derives.of_lexemes`), and where it derives none, the scan for the reason finds the
   same one (`Outline.scan_congr`). So two texts that spell the same lexemes are read alike
   (`spellings_are_interchangeable`). -/
namespace Propositional

/-- The words that stand for the lexeme. -/
def Lexeme.spellings : Lexeme → List String
  | const b => Symbol.constant.spellings.filter (fun w => w.toList.map constantOf? = [some b])
  | var x => Symbol.var.spellings.filter (fun w => w = x)
  | not => Symbol.not.spellings
  | connective c => (Symbol.connective c).spellings
  | opening => Symbol.opening.spellings
  | closing => Symbol.closing.spellings

example : (Lexeme.const true).spellings = ["V", "T"] := by decide

/-- The text has a word for each of the lexemes, with separators around the words, and at
    least one separator between any two of them. -/
inductive Spells : List Lexeme → List Char → Prop where
  | nil {gap : List Char} : (∀ ch ∈ gap, isSeparator ch = true) → Spells [] gap
  | cons {i : Lexeme} {is : List Lexeme} {w : String} {lead rest : List Char} :
      (∀ ch ∈ lead, isSeparator ch = true) → w ∈ i.spellings →
      (is ≠ [] → ∃ ch ∈ rest.head?, isSeparator ch = true) → Spells is rest →
      Spells (i :: is) (lead ++ (w.toList ++ rest))

theorem Lexeme.exists_writtenAs {i : Lexeme} {w : String} (h : w ∈ i.spellings) :
    ∃ t : Token, t.WrittenAs w ∧ t.lexeme? = some i := by
  cases i with
  | const b =>
    obtain ⟨listed, value⟩ := List.mem_filter.mp h
    obtain ⟨ch, letter, hb⟩ := List.map_eq_singleton_iff.mp (of_decide_eq_true value)
    obtain rfl : w = String.singleton ch := by
      rw [← String.ofList_toList (s := w), letter, String.singleton_eq_ofList]
    exact ⟨Token.constant b, .constant listed hb, rfl⟩
  | var x =>
    obtain ⟨listed, same⟩ := List.mem_filter.mp h
    obtain rfl := of_decide_eq_true same
    exact ⟨_, .word listed (by decide), rfl⟩
  | not => exact ⟨⟨.not, .literal w⟩, .word h (by decide), rfl⟩
  | connective c => exact ⟨⟨.connective c, .literal w⟩, .word h nofun, rfl⟩
  | opening => exact ⟨⟨.opening, .literal w⟩, .word h (by decide), rfl⟩
  | closing => exact ⟨⟨.closing, .literal w⟩, .word h (by decide), rfl⟩

theorem not_doubled_of_separator {w : String} {rest : List Char}
    (h : ∀ ch ∈ rest.head?, isSeparator ch = true) : ¬ Symbol.Doubled w rest := by
  rintro ⟨ch, sign, -, head⟩
  have blank := h ch head
  rw [Symbol.isSeparator_of_mem_doubling sign] at blank
  cases blank

namespace Spells
variable {i : Lexeme} {is : List Lexeme} {text : List Char}

/-- Behind a word comes a separator, or nothing. -/
theorem head (h : Spells is text) (apart : is ≠ [] → ∃ ch ∈ text.head?, isSeparator ch = true) :
    ∀ ch ∈ text.head?, isSeparator ch = true := by
  intro ch hch
  cases h with
  | nil blank => exact blank ch (List.mem_of_mem_head? hch)
  | cons =>
    obtain ⟨first, hfirst, blank⟩ := apart (List.cons_ne_nil _ _)
    obtain rfl : first = ch := Option.some.inj (hfirst.symm.trans hch)
    exact blank

theorem exists_tokenizes (h : Spells is text) :
    ∃ ts : List Token, ts.map Token.lexeme? = is.map some ∧ Tokenizes text (ts ++ [Token.eof]) := by
  induction h with
  | @nil gap blank =>
    have read : Tokenizes (gap ++ []) [Token.eof] := Tokenizes.nil.separators blank
    rw [List.append_nil] at read
    exact ⟨[], rfl, read⟩
  | @cons i is w _ _ blank hw apart rest ih =>
    obtain ⟨ts, same, read⟩ := ih
    obtain ⟨t, written, meaning⟩ := Lexeme.exists_writtenAs hw
    have single : ¬ Symbol.Doubled w _ := not_doubled_of_separator (rest.head apart)
    exact ⟨t :: ts, by rw [List.map_cons, same, meaning, List.map_cons],
      (read.word written single).separators blank⟩

end Spells

/-! Tokens that say the same. -/

/-- Tokens that say the same as others around a connective have the same connective in its
    place. -/
theorem exists_connective_of_lexemes {c : Connective} {t : Token} {ls rs us : List Token}
    (ht : t.symbol = .connective c)
    (same : us.map Token.lexeme? = (ls ++ t :: rs).map Token.lexeme?) :
    ∃ ls' u rs', us = ls' ++ u :: rs' ∧ u.symbol = .connective c ∧
      ls'.map Token.lexeme? = ls.map Token.lexeme? ∧
      rs'.map Token.lexeme? = rs.map Token.lexeme? := by
  rw [List.map_append, List.map_cons, List.map_eq_append_iff] at same
  obtain ⟨ls', us', rfl, left, same⟩ := same
  obtain ⟨u, rs', rfl, sign, right⟩ := List.map_eq_cons_iff.mp same
  have operator : t.lexeme? = some (.connective c) := Token.lexeme?_eq_some.mpr ht
  exact ⟨ls', u, rs', rfl, Token.lexeme?_eq_some.mp (sign.trans operator), left, right⟩

/-- Which formula the grammar derives depends on what the tokens say alone. -/
theorem Derives.of_lexemes {n : Nat} {ts us : List Token} {f : Formula} (h : Derives n ts f)
    (same : us.map Token.lexeme? = ts.map Token.lexeme?) : Derives n us f := by
  induction h generalizing us with
  | @var t x ht hv =>
    obtain ⟨u, rfl, name⟩ := List.map_eq_singleton_iff.mp same
    have letter : t.lexeme? = some (.var x) := Token.lexeme?_eq_some.mpr ⟨ht, hv⟩
    obtain ⟨operand, value⟩ := Token.lexeme?_eq_some.mp (name.trans letter)
    exact .var operand value
  | @const t b ht hv =>
    obtain ⟨u, rfl, truth⟩ := List.map_eq_singleton_iff.mp same
    have constant : t.lexeme? = some (.const b) := Token.lexeme?_eq_some.mpr ⟨ht, hv⟩
    obtain ⟨operand, value⟩ := Token.lexeme?_eq_some.mp (truth.trans constant)
    exact .const operand value
  | @negation t _ _ ht _ ih =>
    obtain ⟨u, us', rfl, sign, rest⟩ := List.map_eq_cons_iff.mp same
    have negates : t.lexeme? = some .not := Token.lexeme?_eq_some.mpr ht
    have ht' : u.symbol = .not := Token.lexeme?_eq_some.mp (sign.trans negates)
    exact .negation ht' (ih rest)
  | @group o c _ _ ho hc _ ih =>
    obtain ⟨o', us', rfl, front, same⟩ := List.map_eq_cons_iff.mp same
    rw [List.map_append, List.map_eq_append_iff] at same
    obtain ⟨inner, us', rfl, inside, same⟩ := same
    obtain ⟨c', rfl, back⟩ := List.map_eq_singleton_iff.mp same
    have opens : o.lexeme? = some .opening := Token.lexeme?_eq_some.mpr ho
    have closes : c.lexeme? = some .closing := Token.lexeme?_eq_some.mpr hc
    exact .group (Token.lexeme?_eq_some.mp (front.trans opens))
      (Token.lexeme?_eq_some.mp (back.trans closes)) (ih inside)
  | tighter _ ih => exact .tighter (ih same)
  | toLeft level left ht _ _ ihl ihr =>
    obtain ⟨ls', u, rs', rfl, ht', hl, hr⟩ := exists_connective_of_lexemes ht same
    exact .toLeft level left ht' (ihl hl) (ihr hr)
  | toRight level right ht _ _ ihl ihr =>
    obtain ⟨ls', u, rs', rfl, ht', hl, hr⟩ := exists_connective_of_lexemes ht same
    exact .toRight level right ht' (ihl hl) (ihr hr)

/-- The error with the token that its message names left out. -/
def ParseError.withoutToken : ParseError → ParseError
  | .missingOperand _ => .missingOperand ""
  | .expectedOperand _ => .expectedOperand ""
  | .expectedOperator _ => .expectedOperator ""
  | .nothingToNegate _ => .nothingToNegate ""
  | e => e

namespace Outline

/-- The two end alike, but for the token that an error names. -/
def SameBut {α : Type} (x y : Except ParseError α) : Prop :=
  x.mapError ParseError.withoutToken = y.mapError ParseError.withoutToken

theorem SameBut.bind {α β : Type} {x y : Except ParseError α} {g k : α → Except ParseError β}
    (h : SameBut x y) (next : ∀ a, SameBut (g a) (k a)) : SameBut (x >>= g) (y >>= k) := by
  cases x with
  | error d =>
    cases y with
    | error e =>
      have same : d.withoutToken = e.withoutToken := Except.error.inj h
      exact congrArg Except.error same
    | ok b => cases h
  | ok a =>
    cases y with
    | error e => cases h
    | ok b =>
      obtain rfl : a = b := Except.ok.inj h
      exact next a

section
variable {i : Lexeme} {t u : Token} (o : Outline)

theorem takeOperand_leaf (ht : t.symbol.isOperand) (hv : t.value ≠ .none) :
    o.takeOperand t = .ok { o with expectsOperand := false } := by
  unfold takeOperand
  cases hs : t.symbol with
  | var | constant => exact if_neg hv
  | eof | connective | not | closing | opening =>
    rw [hs] at ht
    cases ht

theorem takeOperator_leaf (ht : t.symbol.isOperand) :
    o.takeOperator t = .error (.expectedOperator t.display) := by
  unfold takeOperator
  cases hs : t.symbol with
  | var | constant | eof | not | opening => rfl
  | connective | closing =>
    rw [hs] at ht
    cases ht

variable (ht : t.lexeme? = some i) (hu : u.lexeme? = some i)
include ht hu

theorem takeOperand_congr : SameBut (o.takeOperand t) (o.takeOperand u) := by
  rw [Token.lexeme?_eq_some] at ht hu
  cases i with
  | const | var =>
    rw [o.takeOperand_leaf ht.1 (by simp [ht.2]), o.takeOperand_leaf hu.1 (by simp [hu.2])]
    rfl
  | not | connective | opening | closing =>
    simp only [takeOperand, ht, hu]
    rfl

theorem takeOperator_congr : SameBut (o.takeOperator t) (o.takeOperator u) := by
  rw [Token.lexeme?_eq_some] at ht hu
  cases i with
  | const | var =>
    rw [o.takeOperator_leaf ht.1, o.takeOperator_leaf hu.1]
    rfl
  | not | connective | opening | closing =>
    simp only [takeOperator, ht, hu]
    rfl

theorem take_congr : SameBut (o.take t) (o.take u) := by
  unfold take
  split
  · exact o.takeOperand_congr ht hu
  · exact o.takeOperator_congr ht hu

end

/-- Tokens that say the same change an outline alike. -/
theorem foldlM_take_congr : ∀ {is : List Lexeme} {ts us : List Token} (o : Outline),
    ts.map Token.lexeme? = is.map some → us.map Token.lexeme? = is.map some →
      SameBut (ts.foldlM take o) (us.foldlM take o)
  | [], ts, us, o, hts, hus => by
    rw [List.map_nil, List.map_eq_nil_iff] at hts hus
    rw [hts, hus]
    rfl
  | i :: is, ts, us, o, hts, hus => by
    obtain ⟨t, ts, rfl, ht, hts⟩ := List.map_eq_cons_iff.mp hts
    obtain ⟨u, us, rfl, hu, hus⟩ := List.map_eq_cons_iff.mp hus
    rw [List.foldlM_cons, List.foldlM_cons]
    exact (o.take_congr ht hu).bind (fun o' => foldlM_take_congr o' hts hus)

/-- So does the end of the tokens, since the last of them say the same. -/
theorem finish_congr {is : List Lexeme} {ts us : List Token} (o : Outline)
    (hts : ts.map Token.lexeme? = is.map some) (hus : us.map Token.lexeme? = is.map some) :
    SameBut (o.finish ts.getLast?) (o.finish us.getLast?) := by
  have last : ts.getLast?.map Token.lexeme? = us.getLast?.map Token.lexeme? := by
    rw [← List.getLast?_map, ← List.getLast?_map, hts, hus]
  have opening (t : Token) : t.symbol = .opening ↔ t.lexeme? = some .opening :=
    (Token.lexeme?_eq_some (i := .opening)).symm
  unfold finish
  split
  · generalize ts.getLast? = t at last ⊢
    generalize us.getLast? = u at last ⊢
    cases t with
    | none =>
      cases u with
      | none => rfl
      | some u => cases last
    | some t =>
      cases u with
      | none => cases last
      | some u =>
        have same : t.lexeme? = u.lexeme? := Option.some.inj last
        simp only [opening, same]
        split <;> rfl
  · rfl

/-- Tokens that say the same are judged alike. -/
theorem scan_congr {is : List Lexeme} {ts us : List Token}
    (hts : ts.map Token.lexeme? = is.map some) (hus : us.map Token.lexeme? = is.map some) :
    SameBut (scan ts) (scan us) :=
  (foldlM_take_congr start hts hus).bind (fun o => o.finish_congr hts hus)

end Outline

/-! Texts that spell the same. -/

theorem beforeEnd_of_lexemes {is : List Lexeme} {ts : List Token}
    (h : ts.map Token.lexeme? = is.map some) : beforeEnd (ts ++ [Token.eof]) = ts := by
  refine beforeEnd_append_eof fun t ht he => ?_
  have said : t.lexeme? ∈ is.map some := h ▸ List.mem_map_of_mem ht
  simp [Token.lexeme?, he] at said

/-- Tokens that say the same are read as the same formula, or rejected for the same reason. -/
theorem parse_congr {is : List Lexeme} {ts us : List Token}
    (hts : ts.map Token.lexeme? = is.map some) (hus : us.map Token.lexeme? = is.map some) :
    (∃ p, Formula.parse (ts ++ [Token.eof]) = .ok p ∧ Formula.parse (us ++ [Token.eof]) = .ok p) ∨
    ∃ d e, Formula.parse (ts ++ [Token.eof]) = .error d ∧
      Formula.parse (us ++ [Token.eof]) = .error e ∧
      d.error.withoutToken = e.error.withoutToken := by
  have judged (ts : List Token) : verdict (fun _ => ()) (Formula.parse ts) =
      Outline.scan (beforeEnd ts) := Parse.verdict_run [] ts
  have alike := Outline.scan_congr hts hus
  rw [← beforeEnd_of_lexemes hts, ← beforeEnd_of_lexemes hus, ← judged, ← judged] at alike
  cases left : Formula.parse (ts ++ [Token.eof]) with
  | error d =>
    cases right : Formula.parse (us ++ [Token.eof]) with
    | error e =>
      rw [left, right] at alike
      exact .inr ⟨d, e, rfl, rfl, Except.error.inj alike⟩
    | ok q =>
      rw [left, right] at alike
      cases alike
  | ok p =>
    have derived := derives_of_parse left
    have parsed := parse_of_derives derived
    rw [beforeEnd_of_lexemes hts] at derived
    have derived' := derived.of_lexemes (hus.trans hts.symm)
    rw [← beforeEnd_of_lexemes hus] at derived'
    rw [left] at parsed
    exact .inl ⟨_, parsed, parse_of_derives derived'⟩

/-- Spellings and spacing are interchangeable. Two texts that spell the same lexemes, each by
    any of its words, with any separators around the words and at least one between two of
    them, are read alike with any options: as the same formula with the same variables, or
    not at all, for the same reason, but for the token that it names. Never is it a word that
    cannot be read. -/
theorem spellings_are_interchangeable (is : List Lexeme) (text text' : String)
    (h : Spells is text.toList) (h' : Spells is text'.toList) (o : Options) :
    (∃ r r', (readLine o text).1 = .ok r ∧ (readLine o text').1 = .ok r' ∧
      r.formula = r'.formula ∧ r.vars = r'.vars) ∨
    ∃ e e', (readLine o text).1 = .error (.parse e) ∧ (readLine o text').1 = .error (.parse e') ∧
      e.withoutToken = e'.withoutToken := by
  obtain ⟨ts, hts, read⟩ := h.exists_tokenizes
  obtain ⟨us, hus, read'⟩ := h'.exists_tokenizes
  have scanned : (Stream.ofText text).tokenize.result = .ok (ts ++ [Token.eof]) :=
    read _ 0 (Cursor.awaits_ofText text)
  have scanned' : (Stream.ofText text').tokenize.result = .ok (us ++ [Token.eof]) :=
    read' _ 0 (Cursor.awaits_ofText text')
  unfold readLine readLineBy
  simp only [scanned, scanned']
  obtain ⟨p, left, right⟩ | ⟨d, e, left, right, same⟩ := parse_congr hts hus
  · simp only [left, right]
    refine .inl ⟨_, _, rfl, rfl, ?_, ?_⟩
    · rw [Options.formula_treat, Options.formula_treat]
    · rw [Options.vars_treat, Options.vars_treat, Options.formula_treat, Options.formula_treat]
  · simp only [left, right]
    exact .inr ⟨_, _, rfl, rfl, same⟩

/-- The same implication in words and in signs. -/
theorem spellings_are_interchangeable_implication :
    let is : List Lexeme := [.not, .var "p", .connective (.derived .implies), .const true]
    let o : Options := { simplify := true }
    Spells is "NOT p IMPLIES V".toList ∧ Spells is "\t~ p  -> T ".toList ∧
    ((∃ r r', (readLine o "NOT p IMPLIES V").1 = .ok r ∧ (readLine o "\t~ p  -> T ").1 = .ok r' ∧
        r.formula = r'.formula ∧ r.vars = r'.vars) ∨
      ∃ e e', (readLine o "NOT p IMPLIES V").1 = .error (.parse e) ∧
        (readLine o "\t~ p  -> T ").1 = .error (.parse e') ∧ e.withoutToken = e'.withoutToken) := by
  intro is o
  have blank (gap : List Char) (h : gap.all isSeparator = true) : ∀ ch ∈ gap, isSeparator ch = true :=
    List.all_eq_true.mp h
  have space (rest : List Char) : ∃ ch ∈ (' ' :: rest).head?, isSeparator ch = true := ⟨' ', rfl, rfl⟩
  have words : Spells is "NOT p IMPLIES V".toList :=
    .cons (w := "NOT") (blank [] rfl) (by decide) (fun _ => space _) <|
    .cons (w := "p") (blank [' '] rfl) (by decide) (fun _ => space _) <|
    .cons (w := "IMPLIES") (blank [' '] rfl) (by decide) (fun _ => space _) <|
    .cons (w := "V") (blank [' '] rfl) (by decide) (by decide) <| .nil (blank [] rfl)
  have signs : Spells is "\t~ p  -> T ".toList :=
    .cons (w := "~") (blank ['\t'] rfl) (by decide) (fun _ => space _) <|
    .cons (w := "p") (blank [' '] rfl) (by decide) (fun _ => space _) <|
    .cons (w := "->") (blank [' ', ' '] rfl) (by decide) (fun _ => space _) <|
    .cons (w := "T") (blank [' '] rfl) (by decide) (by decide) <| .nil (blank [' '] rfl)
  exact ⟨words, signs, spellings_are_interchangeable is _ _ words signs o⟩

end Propositional
