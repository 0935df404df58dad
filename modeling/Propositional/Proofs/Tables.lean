import Mathlib.Algebra.Group.Nat.Defs
import Propositional.TruthTable
import Propositional.Proofs.Evaluation

/- Truth tables. What the rows of a table assign to the variables are all the ways to give
   each of them a value: `rowOf` is the number of the row with given values
   (`rowAssignment_rowOf`), and of a number only the low digits count
   (`rowAssignment_congr`). A table over variables among which are those of the formula
   can always be made, and its cells are known (`tableOver_eq`). As a value depends on
   nothing but the variables, what holds in all rows holds under every assignment that
   covers them (`truth_rows_iff_always`), so a table decides whether its formula is always
   true and whether it is always false (`table_decides_validity`). A row is found again in a
   table over fewer variables (`result_of_like_row`). -/
namespace Propositional

/-! Rows. -/

theorem rowCount_eq (vars : List String) : rowCount vars = 2 ^ vars.length := Nat.one_shiftLeft _

theorem rowCount_pos (vars : List String) : 0 < rowCount vars :=
  rowCount_eq vars ▸ Nat.two_pow_pos _

/-- The rows over fewer than 64 variables can be counted in 64 bits. -/
theorem rowCount_lt {vars : List String} (h : vars.length < 64) : rowCount vars < 2 ^ 64 :=
  rowCount_eq vars ▸ Nat.pow_lt_pow_right (by decide) h

theorem rowAssignment_eq_none {row : Nat} {x : String} : ∀ {vars : List String},
    rowAssignment vars row x = none ↔ x ∉ vars
  | [] => by simp [rowAssignment]
  | v :: vs => by
    have ih : rowAssignment vs row x = none ↔ x ∉ vs := rowAssignment_eq_none
    simp only [rowAssignment, List.mem_cons, not_or]
    split
    · next b hb => simp [← ih, hb]
    · next hb => simp [← ih, hb]

theorem mem_of_rowAssignment {vars : List String} {row : Nat} {x : String} {b : Bool}
    (h : rowAssignment vars row x = some b) : x ∈ vars := by
  refine Decidable.not_not.mp (fun absent => ?_)
  rw [rowAssignment_eq_none.mpr absent] at h
  cases h

theorem rowAssignment_covers (vars : List String) (row : Nat) :
    (rowAssignment vars row).Covers vars := by
  intro x hx
  cases h : rowAssignment vars row x with
  | none => exact absurd hx (rowAssignment_eq_none.mp h)
  | some b => exact ⟨b, rfl⟩

theorem rowAssignment_congr {row row' : Nat} : ∀ {vars : List String},
    (∀ i < vars.length, row.testBit i = row'.testBit i) →
      rowAssignment vars row = rowAssignment vars row'
  | [], _ => rfl
  | v :: vs, h => by
    have rest : rowAssignment vs row = rowAssignment vs row' :=
      rowAssignment_congr (fun i hi => h i (Nat.lt_succ_of_lt hi))
    funext x
    simp only [rowAssignment, rest, h vs.length (Nat.lt_succ_self _)]

/-- The number of the row in which each of the variables has its value in `b`. -/
def rowOf (b : String → Bool) : List String → Nat
  | [] => 0
  | v :: vs => if b v then rowOf b vs else 2 ^ vs.length + rowOf b vs

theorem rowOf_lt (b : String → Bool) : ∀ vars : List String, rowOf b vars < 2 ^ vars.length
  | [] => Nat.one_pos
  | v :: vs => by
    have ih := rowOf_lt b vs
    rw [rowOf, List.length_cons, Nat.pow_succ]
    split <;> omega

theorem testBit_rowOf_cons (b : String → Bool) (v : String) (vs : List String) :
    (rowOf b (v :: vs)).testBit vs.length = !b v := by
  have low : (rowOf b vs).testBit vs.length = false := Nat.testBit_lt_two_pow (rowOf_lt b vs)
  rw [rowOf]
  cases b v with
  | true => simp [low]
  | false => simp [Nat.testBit_two_pow_add_eq, low]

/-- A name that stands twice among the variables has the same value in both places. -/
theorem rowAssignment_rowOf (b : String → Bool) : ∀ {vars : List String} {x : String}, x ∈ vars →
    rowAssignment vars (rowOf b vars) x = some (b x)
  | v :: vs, x, hx => by
    have rest : rowAssignment vs (rowOf b (v :: vs)) = rowAssignment vs (rowOf b vs) := by
      refine rowAssignment_congr (fun i hi => ?_)
      rw [rowOf]
      split
      · rfl
      · exact Nat.testBit_two_pow_add_gt hi _
    rw [rowAssignment, rest, testBit_rowOf_cons, Bool.not_not]
    by_cases later : x ∈ vs
    · rw [rowAssignment_rowOf b later]
    · rw [rowAssignment_eq_none.mpr later]
      obtain rfl := (List.mem_cons.mp hx).resolve_right later
      simp

namespace Formula
variable {f : Formula} {vars : List String}

/-- A row of the formula's table over variables that include its own. -/
def cells (f : Formula) (vars : List String) (row : Nat) : List Bool :=
  rowValues vars row ++ [f.truth (rowAssignment vars row)]

theorem getLast?_cells (row : Nat) :
    (f.cells vars row).getLast? = some (f.truth (rowAssignment vars row)) := List.getLast?_concat

theorem length_cells (row : Nat) : (f.cells vars row).length = vars.length + 1 := by
  simp [cells, rowValues]

theorem eval_rowAssignment (h : f.occurrences ⊆ vars) (row : Nat) :
    f.eval (rowAssignment vars row) = .ok (f.truth (rowAssignment vars row)) :=
  eval_eq_truth (covers_vars.mpr (fun x hx => rowAssignment_covers vars row x (h hx)))

theorem tableRows_eq (h : f.occurrences ⊆ vars) : ∀ (left row : Nat) (before : List (List Bool)),
    f.tableRows vars left row before =
      .ok (before.reverse ++ (List.range' row left).map (f.cells vars))
  | 0, _, before => by simp [tableRows]
  | left + 1, row, before => by
    have made : f.tableRow vars row = .ok (f.cells vars row) := by
      rw [tableRow, eval_rowAssignment h row]
      rfl
    rw [tableRows, made]
    show f.tableRows vars left (row + 1) (f.cells vars row :: before) = _
    rw [tableRows_eq h left (row + 1), List.range'_succ]
    simp

theorem tableOver_eq (h : f.occurrences ⊆ vars) : f.tableOver vars =
    .ok ⟨vars ++ [f.render], (List.range (rowCount vars)).map (f.cells vars)⟩ := by
  rw [tableOver, tableRows_eq h, List.range_eq_range']
  rfl

/-- The table can be made, with a row for every way to give values to the variables and a cell
    under every heading. -/
theorem exists_tableOver (h : f.occurrences ⊆ vars) : ∃ t, f.tableOver vars = .ok t ∧
    t.header = vars ++ [f.render] ∧ t.rows.length = 2 ^ vars.length ∧
    ∀ row ∈ t.rows, row.length = vars.length + 1 := by
  refine ⟨_, tableOver_eq h, rfl, ?_, ?_⟩
  · simp only [List.length_map, List.length_range, rowCount_eq]
  · intro row hrow
    obtain ⟨i, -, rfl⟩ := List.mem_map.mp hrow
    exact length_cells i

/-- Each way to give values to the variables has a row. -/
theorem truth_rows_iff_always (h : f.occurrences ⊆ vars) {b : Bool} :
    (∀ row < rowCount vars, f.truth (rowAssignment vars row) = b) ↔ f.Always b := by
  refine ⟨?_, ?_⟩
  · intro rows s covered
    let value (x : String) : Bool := (s x).getD false
    have lt : rowOf value vars < rowCount vars := rowCount_eq vars ▸ rowOf_lt value vars
    have agree : ∀ x ∈ f.occurrences, s x = rowAssignment vars (rowOf value vars) x := by
      intro x hx
      obtain ⟨b, hb⟩ := covers_vars.mp covered x hx
      simp only [rowAssignment_rowOf value (h hx), value, hb, Option.getD_some]
    rw [eval_congr agree, eval_rowAssignment h, rows _ lt]
  · intro always row _
    refine truth_eq (always _ ?_)
    exact fun x hx => rowAssignment_covers vars row x (h (mem_vars.mp hx))

end Formula

namespace TruthTable
variable {f : Formula} {vars : List String} {t : TruthTable}

theorem results_tableOver (h : f.occurrences ⊆ vars) (ht : f.tableOver vars = .ok t) :
    t.results = (List.range (rowCount vars)).map (fun row => f.truth (rowAssignment vars row)) := by
  rw [Formula.tableOver_eq h] at ht
  cases ht
  have last : List.getLast? ∘ f.cells vars = some ∘ (fun row => f.truth (rowAssignment vars row)) :=
    funext f.getLast?_cells
  rw [results, List.filterMap_map, last, List.filterMap_eq_map]

theorem isTautology_iff (h : f.occurrences ⊆ vars) (ht : f.tableOver vars = .ok t) :
    t.isTautology = true ↔ f.Always true := by
  rw [isTautology, results_tableOver h ht, ← Formula.truth_rows_iff_always h]
  simp

theorem isContradiction_iff (h : f.occurrences ⊆ vars) (ht : f.tableOver vars = .ok t) :
    t.isContradiction = true ↔ f.Always false := by
  rw [isContradiction, results_tableOver h ht, ← Formula.truth_rows_iff_always h]
  simp

/-! Rows of different tables. -/

/-- What stands in the row under the first such heading. -/
def cell? (t : TruthTable) (row : List Bool) (heading : String) : Option Bool :=
  (t.header.zip row).lookup heading

theorem lookup_zip_map {value : String → Bool} {x : String} {hs : List String} {bs : List Bool} :
    ∀ {xs : List String}, x ∈ xs →
      ((xs ++ hs).zip (xs.map value ++ bs)).lookup x = some (value x)
  | y :: ys, hx => by
    by_cases e : x = y
    · simp [e]
    · have later : x ∈ ys := (List.mem_cons.mp hx).resolve_left e
      have other : (x == y) = false := beq_eq_false_iff_ne.mpr e
      simp only [List.cons_append, List.map_cons, List.zip_cons_cons, List.lookup_cons, other]
      exact lookup_zip_map later

theorem cell?_cells {rows : List (List Bool)} {heading x : String} (row : Nat) (hx : x ∈ vars) :
    cell? ⟨vars ++ [heading], rows⟩ (f.cells vars row) x = rowAssignment vars row x := by
  obtain ⟨b, hb⟩ := rowAssignment_covers vars row x hx
  rw [cell?, Formula.cells, rowValues, lookup_zip_map hx, hb]
  rfl

/-- Two formulas may have tables over different variables. If the second has the value of the
    first under every assignment that covers the variables of the first table, then every
    row of the first table has its like in the second, and all such rows have its result. -/
theorem result_of_like_row {g : Formula} {others : List String} {u : TruthTable}
    (hf : f.occurrences ⊆ vars) (hg : g.occurrences ⊆ others) (hsub : others ⊆ vars)
    (same : ∀ s : Assignment, s.Covers vars → f.truth s = g.truth s)
    (ht : f.tableOver vars = .ok t) (hu : g.tableOver others = .ok u) :
    ∀ row ∈ t.rows, (∃ row' ∈ u.rows, ∀ x ∈ others, u.cell? row' x = t.cell? row x) ∧
      ∀ row' ∈ u.rows, (∀ x ∈ others, u.cell? row' x = t.cell? row x) →
        row'.getLast? = row.getLast? := by
  rw [Formula.tableOver_eq hf] at ht
  rw [Formula.tableOver_eq hg] at hu
  cases ht
  cases hu
  intro row hrow
  obtain ⟨i, -, rfl⟩ := List.mem_map.mp hrow
  refine ⟨?_, ?_⟩
  · let value (x : String) : Bool := (rowAssignment vars i x).getD false
    have lt : rowOf value others < rowCount others := rowCount_eq others ▸ rowOf_lt value others
    refine ⟨g.cells others (rowOf value others), List.mem_map.mpr ⟨_, List.mem_range.mpr lt, rfl⟩, ?_⟩
    intro x hx
    obtain ⟨b, hb⟩ := rowAssignment_covers vars i x (hsub hx)
    rw [cell?_cells _ hx, cell?_cells _ (hsub hx), rowAssignment_rowOf value hx, hb]
    simp only [value, hb, Option.getD_some]
  · intro row' hrow' like
    obtain ⟨j, -, rfl⟩ := List.mem_map.mp hrow'
    have agree : ∀ x ∈ g.occurrences, rowAssignment others j x = rowAssignment vars i x := by
      intro x hx
      have cells := like x (hg hx)
      rwa [cell?_cells _ (hg hx), cell?_cells _ (hsub (hg hx))] at cells
    rw [Formula.getLast?_cells, Formula.getLast?_cells, Formula.truth_congr agree,
      same _ (rowAssignment_covers vars i)]

/-- A truth table decides validity. For a formula with fewer than 64 variables the rows can be
    counted in 64 bits, the table can be made, and it is marked a tautology exactly if every
    assignment that covers the variables makes the formula true, a contradiction exactly if
    every one makes it false, and never both. -/
theorem table_decides_validity (f : Formula) (h : f.vars.length < 64) :
    rowCount f.vars < 2 ^ 64 ∧ ∃ t, f.table = .ok t ∧
      (t.isTautology = true ↔ f.Always true) ∧ (t.isContradiction = true ↔ f.Always false) ∧
      ¬ (t.isTautology = true ∧ t.isContradiction = true) := by
  have own : f.occurrences ⊆ f.vars := fun _ hx => Formula.mem_vars.mpr hx
  obtain ⟨t, ht⟩ : ∃ t, f.table = .ok t := ⟨_, Formula.tableOver_eq own⟩
  have taut := isTautology_iff own ht
  have contra := isContradiction_iff own ht
  refine ⟨rowCount_lt h, t, ht, taut, contra, ?_⟩
  intro ⟨always, never⟩
  have same := (taut.mp always).unique (contra.mp never)
  cases same

/-- Contraposition, of which the table has four rows. -/
theorem table_decides_validity_contraposition :
    let f : Formula := .equivalent (.implies (.var "p") (.var "q"))
      (.implies (.not (.var "q")) (.not (.var "p")))
    f.vars.length < 64 ∧ f.Always true := by
  intro f
  have few : f.vars.length < 64 := by decide
  obtain ⟨-, t, ht, taut, -⟩ := table_decides_validity f few
  refine ⟨few, taut.mp ?_⟩
  cases ht
  rfl

end TruthTable

end Propositional
