import Propositional.CommandLine
import Propositional.Proofs.Nesting
import Propositional.Proofs.Treatment

/- Lines are answered each on its own. A parser starts each line with empty stacks, whatever the
   lines before it have left there, so one parser for all lines reads what a new one for each of
   them reads (`Parse.reuse_unnoted`) and gives the same answers (`reportServed_eq`). No line ends
   the run: one that cannot be read is answered with its error, and one that can be read has a
   table (`code_reportLine`). What is written is therefore what is written for each line alone,
   one after the other, the records among the answers too (`reportLines_eq_flatMap`), and any
   console shows it so (`Outcome.output_flatMap`). Formulas come to the same lines behind `--` and
   on the standard input (`Arguments.parseFrom_append`, `linesOf_join`). -/
namespace Propositional

/-! One parser for many lines. -/

/-- The parser as the next line finds it. What it noted was written with the lines before. -/
def Parse.unnoted (p : Parse) : Parse := { p with reductions := [] }

/-- The stacks are emptied before each line, so that the parser is as good as new. -/
theorem Parse.reuse_unnoted (p : Parse) : p.unnoted.reuse = Formula.parse := rfl

/-- A line that can be read has a table. -/
theorem exists_truthTable_of_readLine {o : Options} {line : String} {r : Reading}
    (h : (readLine o line).1 = .ok r) : ∃ t, r.truthTable = .ok t := by
  obtain ⟨tokens, parsed, own, accepted⟩ := exists_treat_of_readLine h
  rw [accepted] at h
  cases h
  exact o.exists_truthTable_treat tokens own

/-! Answers. -/

namespace Outcome

/-- The outcomes one after the other, up to the first that fails. -/
def inTurn : List Outcome → Outcome
  | [] => ⟨0, []⟩
  | first :: others =>
    if first.code = 0 then ⟨(inTurn others).code, first.written ++ (inTurn others).written⟩
    else first

theorem inTurn_eq : ∀ {outcomes : List Outcome}, (∀ x ∈ outcomes, x.code = 0) →
    inTurn outcomes = ⟨0, outcomes.flatMap Outcome.written⟩
  | [], _ => rfl
  | first :: others, h => by
    obtain ⟨hf, ho⟩ := List.forall_mem_cons.mp h
    rw [inTurn, if_pos hf, inTurn_eq ho, List.flatMap_cons]

/-- What is written one after the other is shown one after the other. -/
theorem output_flatMap {α : Type} (write : α → List Written) (code : Nat) (console : Console) :
    ∀ xs : List α, (Outcome.mk code (xs.flatMap write)).output console =
      String.join (xs.map fun x => (Outcome.mk code (write x)).output console)
  | [] => rfl
  | x :: xs => by
    have rest := output_flatMap write code console xs
    simp only [output] at rest ⊢
    rw [List.flatMap_cons, List.map_append, String.join_append, rest, List.map_cons,
      String.join_cons]

end Outcome

theorem reportLines_eq (a : Arguments) : ∀ lines : List String,
    reportLines a lines = Outcome.inTurn (lines.map (reportLine a))
  | [] => rfl
  | line :: lines => by
    rw [reportLines, reportLines_eq a lines]
    rfl

theorem reportLine_of_blank (a : Arguments) {line : String} (h : trimmed line = "") :
    reportLine a line = ⟨0, []⟩ := if_pos h

theorem code_reportFormula {a : Arguments} {r : Reading} {t : TruthTable} (h : r.truthTable = .ok t) :
    (reportFormula a r).code = 0 := by
  unfold reportFormula
  dsimp only
  split
  · rfl
  · rw [h]

theorem code_reportText {a : Arguments} {text : String}
    {read : Except LineError Reading × List Record}
    (h : ∀ r, read.1 = .ok r → ∃ t, r.truthTable = .ok t) : (reportText a text read).code = 0 := by
  unfold reportText
  dsimp only
  cases result : read.1 with
  | error e => rfl
  | ok r =>
    obtain ⟨t, ht⟩ := h r result
    exact code_reportFormula ht

/-- Every line is answered, whether or not it can be read. -/
theorem code_reportLine (a : Arguments) (line : String) : (reportLine a line).code = 0 := by
  by_cases blank : trimmed line = ""
  · rw [reportLine_of_blank a blank]
  · rw [reportLine, if_neg blank]
    exact code_reportText fun r => exists_truthTable_of_readLine

/-- The answers are those to each line, and none of them ends the run. -/
theorem reportLines_eq_flatMap (a : Arguments) (lines : List String) :
    reportLines a lines = ⟨0, lines.flatMap fun line => (reportLine a line).written⟩ := by
  have answered : ∀ x ∈ lines.map (reportLine a), x.code = 0 :=
    List.forall_mem_map.mpr fun line _ => code_reportLine a line
  rw [reportLines_eq, Outcome.inTurn_eq answered, List.flatMap_map]

/-- The answer to a line that is read with a parser in the given state. -/
def reportLineWith (p : Parse) (a : Arguments) (line : String) : Outcome :=
  let text := trimmed line
  if text = "" then ⟨0, []⟩
  else reportText a text (readLineBy p.unnoted.reuse a.options text)

theorem reportLineWith_eq (p : Parse) (a : Arguments) (line : String) :
    reportLineWith p a line = reportLine a line := by
  rw [reportLineWith, Parse.reuse_unnoted]
  rfl

/-- The answers to lines that one parser serves. With each line comes the state that the parser
    is in by then, whatever the lines before it have left. -/
def reportServed (a : Arguments) (served : List (Parse × String)) : Outcome :=
  Outcome.inTurn (served.map fun s => reportLineWith s.1 a s.2)

/-- One parser for all lines makes no difference to the answers. -/
theorem reportServed_eq (a : Arguments) (served : List (Parse × String)) :
    reportServed a served = reportLines a (served.map Prod.snd) := by
  rw [reportServed, reportLines_eq, List.map_map]
  simp only [reportLineWith_eq, Function.comp_def]

/-! Command lines. -/

namespace Arguments

/-- The same flags with these formulas. -/
def withFormulas (a : Arguments) (formulas : List String) : Arguments := { a with formulas }

/-- What the driver writes for one line alone. -/
theorem report_alone (a : Arguments) (line input : String) :
    report (a.withFormulas [line]) input = ⟨0, (reportLine a line).written⟩ := by
  show reportLines (a.withFormulas [line]) [line] = _
  rw [reportLines_eq_flatMap, List.flatMap_singleton]
  rfl

theorem parseFrom_cons (a : Arguments) (arg : String) (rest : List String) :
    parseFrom a (arg :: rest) =
      if arg = "--" then .ok (a.withFormulas (a.formulas ++ rest))
      else if arg = "--max-steps" then
        match rest with
        | [] => .error (.rejected (.missingValue arg))
        | value :: rest =>
          if isFlag value then .error (.rejected (.missingValue arg))
          else a.withMaxSteps value >>= fun b => parseFrom b rest
      else a.withArgument arg >>= fun b => parseFrom b rest := by
  rw [parseFrom.eq_def]
  rfl

/-- Formulas behind `--` are added to what the arguments in front of it say. -/
theorem parseFrom_append (formulas : List String) (a : Arguments) {args : List String}
    (h : "--" ∉ args) : parseFrom a (args ++ "--" :: formulas) =
      (parseFrom a args).map (fun b => b.withFormulas (b.formulas ++ formulas)) := by
  fun_induction parseFrom a args with
  | case1 a =>
    rw [List.nil_append, parseFrom_cons, if_pos rfl]
    rfl
  | case2 => exact absurd List.mem_cons_self h
  | case3 a ends =>
    -- what follows the flag without a value is no value
    rw [List.cons_append, parseFrom_cons, if_neg ends, if_pos rfl]
    rfl
  | case4 a value rest flag ends =>
    rw [List.cons_append, parseFrom_cons, if_neg ends, if_pos rfl, List.cons_append]
    exact if_pos flag
  | case5 a value rest flag ends ih =>
    have later : "--" ∉ rest := fun m => h (List.mem_cons_of_mem _ (List.mem_cons_of_mem _ m))
    rw [List.cons_append, parseFrom_cons, if_neg ends, if_pos rfl, List.cons_append]
    dsimp only
    rw [if_neg flag]
    cases a.withMaxSteps value with
    | error e => rfl
    | ok b => exact ih b later
  | case6 a arg rest ends steps ih =>
    have later : "--" ∉ rest := fun m => h (List.mem_cons_of_mem _ m)
    rw [List.cons_append, parseFrom_cons, if_neg ends, if_neg steps]
    cases a.withArgument arg with
    | error e => rfl
    | ok b => exact ih b later

end Arguments

/-! Standard input. -/

theorem linesOf_go (rest : List Char) : ∀ (cs line : List Char), '\n' ∉ cs →
    linesOf.go line (cs ++ '\n' :: rest) =
      String.ofList (line.reverse ++ cs) :: linesOf.go [] rest
  | [], line, _ => by rw [List.nil_append, linesOf.go, if_pos rfl, List.append_nil]
  | c :: cs, line, h => by
    have inside : c ≠ '\n' := fun e => h (e ▸ List.mem_cons_self)
    have later : '\n' ∉ cs := fun m => h (List.mem_cons_of_mem _ m)
    rw [List.cons_append, linesOf.go, if_neg inside, linesOf_go rest cs (c :: line) later,
      List.reverse_cons, List.append_assoc, List.singleton_append]

/-- Lines that are ended by newlines are read back. -/
theorem linesOf_join : ∀ {lines : List String}, (∀ line ∈ lines, '\n' ∉ line.toList) →
    linesOf (String.join (lines.map (· ++ "\n"))) = lines
  | [], _ => rfl
  | line :: lines, h => by
    obtain ⟨hl, hs⟩ := List.forall_mem_cons.mp h
    have rest : linesOf.go [] (String.join (lines.map (· ++ "\n"))).toList = lines := linesOf_join hs
    have text : (String.join ((line :: lines).map (· ++ "\n"))).toList =
        line.toList ++ '\n' :: (String.join (lines.map (· ++ "\n"))).toList := by
      simp [String.join_cons, String.toList_append]
    rw [linesOf, text, linesOf_go _ _ _ hl, rest, List.reverse_nil, List.nil_append,
      String.ofList_toList]

/-- The driver answers every line on its own, and never fails. Whatever command line it takes,
    the exit code is 0, and it writes what it writes for each line alone with the same flags, in
    the order of the lines, the records among the answers too; for a line that is blank that is
    nothing. Any console shows it so. And so it is if one parser serves all lines, in whatever
    state each of them finds it. Formulas without newlines get the same answer behind `--` as
    on the lines of the standard input. -/
theorem lines_are_answered_alone :
    (∀ (args : List String) (input : String) (a : Arguments), Arguments.parse args = .ok a →
      let lines := if a.formulas.isEmpty then linesOf input else a.formulas
      let alone (line : String) : Outcome := report (a.withFormulas [line]) ""
      respond args input = ⟨0, lines.flatMap fun line => (alone line).written⟩ ∧
      (∀ console, (respond args input).output console =
        String.join (lines.map fun line => (alone line).output console)) ∧
      (∀ line, (alone line).code = 0 ∧ (trimmed line = "" → (alone line).written = [])) ∧
      ∀ served : List (Parse × String), served.map Prod.snd = lines →
        reportServed a served = respond args input) ∧
    (∀ (flags : List String) (a : Arguments), Arguments.parse flags = .ok a → a.formulas = [] →
      "--" ∉ flags → ∀ (formulas : List String) (input : String), formulas ≠ [] →
        (∀ f ∈ formulas, '\n' ∉ f.toList) →
        respond (flags ++ "--" :: formulas) input =
          respond flags (String.join (formulas.map (· ++ "\n")))) := by
  refine ⟨?_, fun flags a accepted bare ends formulas input some lines => ?_⟩
  · intro args input a accepted lines alone
    have answered : respond args input = reportLines a lines := by
      rw [respond, accepted]
      rfl
    refine ⟨?written, fun console => ?shown, fun line => ?blank, fun served same => ?served⟩
    case written => simp only [answered, reportLines_eq_flatMap, alone, Arguments.report_alone]
    case shown =>
      simp only [answered, reportLines_eq_flatMap, alone, Arguments.report_alone,
        Outcome.output_flatMap]
    case blank =>
      have single : alone line = ⟨0, (reportLine a line).written⟩ := a.report_alone line ""
      rw [single]
      exact ⟨rfl, fun blank => congrArg Outcome.written (reportLine_of_blank a blank)⟩
    case served => rw [answered, reportServed_eq, same]
  · have whole : Arguments.parse (flags ++ "--" :: formulas) = .ok (a.withFormulas formulas) := by
      rw [Arguments.parse, Arguments.parseFrom_append formulas _ ends]
      show (Arguments.parse flags).map _ = _
      rw [accepted]
      simp only [Except.map, bare, List.nil_append]
    have positional : report (a.withFormulas formulas) input = reportLines a formulas := by
      have given : (a.withFormulas formulas).formulas.isEmpty = false := by
        simpa [Arguments.withFormulas] using some
      rw [report, given, reportLines_eq_flatMap, reportLines_eq_flatMap]
      rfl
    have fromInput : report a (String.join (formulas.map (· ++ "\n"))) = reportLines a formulas := by
      rw [report, bare, List.isEmpty_nil, if_pos rfl, linesOf_join lines]
    rw [respond, respond, whole, accepted]
    exact positional.trans fromInput.symm

/-- A line that ends too early and a blank one do no harm to the line behind them, on which a
    record is written: the one step that is allowed was not enough. -/
theorem lines_are_answered_alone_after_failure :
    let flags : Arguments := { simplify := true, maxSteps := some 1 }
    let formulas := ["(p &", " ", "p & (q & q)"]
    let args := "--simplify" :: "--max-steps=1" :: "--" :: formulas
    let a := flags.withFormulas formulas
    let alone (line : String) : Outcome := report (flags.withFormulas [line]) ""
    let console : Console :=
      { record := fun r => "12:00:00 [" ++ r.level.name ++ "] " ++ r.text ++ "\n" }
    -- what the first line leaves on the stacks of its parser
    let left : Parse := ⟨[⟨.connective (.junction .and), .literal "&"⟩, ⟨.opening, .literal "("⟩],
      [.var "p"], true, []⟩
    Arguments.parse args = .ok a ∧
    respond args "" = ⟨0, formulas.flatMap fun line => (alone line).written⟩ ∧
    (respond args "").output console =
      String.join (formulas.map fun line => (alone line).output console) ∧
    (alone "(p &").output console = "> (p &\ninvalid: operator `&` is missing an operand\n" ∧
    (alone "p & (q & q)").output console = "> p & (q & q)\n" ++
      "12:00:00 [WARN] simplify: step budget of 1 exhausted, stopping at (p ∧ q)\n" ++
      "valid, canonical = true\nformula = (p ∧ q)\np | q | (p ∧ q)\n" ++
      "V | V | V\nV | F | F\nF | V | F\nF | F | F\n\n" ∧
    trimmed " " = "" ∧ (alone " ").written = [] ∧
    reportServed a [(Parse.start, "(p &"), (left, " "), (left, "p & (q & q)")] =
      respond args "" ∧
    Arguments.parse ["-v"] = .ok { verbose := true } ∧ "--" ∉ ["-v"] ∧
    respond (["-v"] ++ "--" :: formulas) "" = respond ["-v"] "(p &\n \np & (q & q)\n" := by
  intro flags formulas args a alone console left
  have accepted : Arguments.parse args = .ok a := by decide +kernel
  have verbose : Arguments.parse ["-v"] = .ok { verbose := true } := rfl
  have blank : trimmed " " = "" := rfl
  obtain ⟨written, shown, single, served⟩ := lines_are_answered_alone.1 args "" a accepted
  exact ⟨accepted, written, shown console, by decide +kernel, by decide +kernel, blank,
    (single " ").2 blank, served _ rfl, verbose, by decide,
    lines_are_answered_alone.2 _ _ verbose rfl (by decide) formulas "" (by decide) (by decide)⟩

end Propositional
