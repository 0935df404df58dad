import Mathlib.Data.Set.Function
import Propositional.Proofs.Unassigned

/- The rows of a truth table as an enumeration. The binary digits of a row's number are the
   values of the variables, the digit 0 for true, and a name that stands twice goes by its last
   place (`rowAssignment_of_last`). If no name stands twice, a greater number stands for a
   lexicographically smaller row (`rowValues_lt`), so that no two numbers stand for the same
   row, and every way to give values to the variables has its number (`bijOn_rowAssignment`).
   `rows_enumerate_assignments` says this of the rows of a table as it is made. -/
namespace Propositional

/-- The assignments that have values for these names and for no others. -/
def assignmentsOver (vars : List String) : Set Assignment :=
  {s | ∀ x, (∃ b, s x = some b) ↔ x ∈ vars}

theorem rowAssignment_mem_assignmentsOver (vars : List String) (row : Nat) :
    rowAssignment vars row ∈ assignmentsOver vars :=
  fun x => ⟨fun ⟨_, hb⟩ => mem_of_rowAssignment hb, rowAssignment_covers vars row x⟩

/-! The digits of a row's number. -/

/-- Of the places of a name the last one counts, and it has the digit of its place. -/
theorem rowAssignment_of_last {row : Nat} {x : String} : ∀ {vars : List String} {j : Nat},
    vars[j]? = some x → x ∉ vars.drop (j + 1) →
      rowAssignment vars row x = some (!row.testBit (vars.length - 1 - j))
  | v :: vs, 0, here, last => by
    obtain rfl : v = x := Option.some.inj here
    replace last : v ∉ vs := last
    rw [rowAssignment, rowAssignment_eq_none.mpr last]
    simp
  | v :: vs, j + 1, there, last => by
    have digit : rowAssignment vs row x = some (!row.testBit (vs.length - 1 - j)) :=
      rowAssignment_of_last there last
    have place : (v :: vs).length - 1 - (j + 1) = vs.length - 1 - j := by
      rw [List.length_cons]
      omega
    rw [rowAssignment, digit, place]

theorem rowAssignment_of_digits {row : Nat} {b : Bool} {x : String} : ∀ {vars : List String},
    (∀ i < vars.length, row.testBit i = !b) → x ∈ vars → rowAssignment vars row x = some b
  | v :: vs, digits, hx => by
    rw [rowAssignment]
    by_cases later : x ∈ vs
    · rw [rowAssignment_of_digits (fun i hi => digits i (Nat.lt_succ_of_lt hi)) later]
    · obtain rfl := (List.mem_cons.mp hx).resolve_right later
      rw [rowAssignment_eq_none.mpr later, digits vs.length (Nat.lt_succ_self _)]
      simp

/-- Only the low digits count. -/
theorem rowAssignment_mod (vars : List String) (row : Nat) :
    rowAssignment vars (row % rowCount vars) = rowAssignment vars row := by
  refine rowAssignment_congr (fun i hi => ?_)
  rw [rowCount_eq, Nat.testBit_mod_two_pow, decide_eq_true hi, Bool.true_and]

/-! The values in a row. -/

theorem getElem?_rowValues {vars : List String} {i : Nat} {x : String} (row : Nat)
    (hx : vars[i]? = some x) : (rowValues vars row)[i]? = rowAssignment vars row x := by
  obtain ⟨b, hb⟩ := rowAssignment_covers vars row x (List.mem_of_getElem? hx)
  rw [rowValues, List.getElem?_map, hx, hb]
  show some ((rowAssignment vars row x).getD false) = some b
  rw [hb]
  rfl

theorem rowValues_cons {v : String} {vs : List String} (new : v ∉ vs) (row : Nat) :
    rowValues (v :: vs) row = (!row.testBit vs.length) :: rowValues vs row := by
  have head : rowAssignment (v :: vs) row v = some (!row.testBit vs.length) := by
    rw [rowAssignment, rowAssignment_eq_none.mpr new]
    simp
  have tail : ∀ x ∈ vs, rowAssignment (v :: vs) row x = rowAssignment vs row x := by
    intro x hx
    obtain ⟨b, hb⟩ := rowAssignment_covers vs row x hx
    rw [rowAssignment, hb]
  rw [rowValues, List.map_cons, head, rowValues]
  exact congrArg _ (List.map_congr_left (fun x hx => by rw [tail x hx]))

theorem rowValues_of_digits {vars : List String} {row : Nat} {b : Bool}
    (digits : ∀ i < vars.length, row.testBit i = !b) :
    rowValues vars row = List.replicate vars.length b := by
  refine List.eq_replicate_iff.mpr ⟨List.length_map _, ?_⟩
  intro c hc
  obtain ⟨x, hx, rfl⟩ := List.mem_map.mp hc
  rw [rowAssignment_of_digits digits hx]
  rfl

/-- The first digit in which two numbers differ is the first place in which the rows do, and
    the number with a 0 there is the smaller one and has true there. -/
theorem rowValues_lt : ∀ {vars : List String}, vars.Nodup → ∀ {i k : Nat},
    i % 2 ^ vars.length < k % 2 ^ vars.length → rowValues vars k < rowValues vars i
  | [], _, i, k, h => by simp [Nat.mod_one] at h
  | v :: vs, distinct, i, k, h => by
    obtain ⟨new, others⟩ := List.nodup_cons.mp distinct
    rw [rowValues_cons new, rowValues_cons new, List.cons_lt_cons_iff]
    rw [List.length_cons, Nat.mod_pow_succ, Nat.mod_pow_succ, ← Nat.toNat_testBit,
      ← Nat.toNat_testBit] at h
    have bound : k % 2 ^ vs.length < 2 ^ vs.length := Nat.mod_lt k (Nat.two_pow_pos _)
    cases first : i.testBit vs.length <;> cases second : k.testBit vs.length <;>
      rw [first, second] at h
    case false.false => exact .inr ⟨rfl, rowValues_lt others (by simpa using h)⟩
    case false.true => exact .inl (by decide)
    case true.false =>
      simp only [Bool.toNat_true, Bool.toNat_false] at h
      omega
    case true.true => exact .inr ⟨rfl, rowValues_lt others (by simpa using h)⟩

theorem rowValues_lt_of_lt {vars : List String} (distinct : vars.Nodup) {i k : Nat} (h : i < k)
    (hk : k < rowCount vars) : rowValues vars k < rowValues vars i := by
  have hi : i < rowCount vars := Nat.lt_trans h hk
  rw [rowCount_eq] at hi hk
  exact rowValues_lt distinct (by rwa [Nat.mod_eq_of_lt hi, Nat.mod_eq_of_lt hk])

/-- The rows are numbered without gaps and without repetitions. -/
theorem bijOn_rowAssignment {vars : List String} (distinct : vars.Nodup) :
    Set.BijOn (rowAssignment vars) {row | row < rowCount vars} (assignmentsOver vars) := by
  refine ⟨fun row _ => rowAssignment_mem_assignmentsOver vars row, ?_, ?_⟩
  · intro i hi k hk same
    have values : rowValues vars i = rowValues vars k := by rw [rowValues, rowValues, same]
    obtain h | h | h := Nat.lt_trichotomy i k
    · exact absurd (rowValues_lt_of_lt distinct h hk) (values ▸ List.lt_irrefl _)
    · exact h
    · exact absurd (rowValues_lt_of_lt distinct h hi) (values ▸ List.lt_irrefl _)
  · intro s hs
    let value (x : String) : Bool := (s x).getD false
    refine ⟨rowOf value vars, rowCount_eq vars ▸ rowOf_lt value vars, ?_⟩
    funext x
    by_cases hx : x ∈ vars
    · obtain ⟨b, hb⟩ := (hs x).mpr hx
      rw [rowAssignment_rowOf value hx]
      simp only [value, hb, Option.getD_some]
    · have none : s x = none := Option.eq_none_iff_forall_ne_some.mpr
        (fun b hb => hx ((hs x).mp ⟨b, hb⟩))
      rw [rowAssignment_eq_none.mpr hx, none]

/-! The rows of a table. -/

namespace TruthTable
variable {f : Formula} {vars : List String} {t : TruthTable}

theorem rows_eq (ht : f.tableOver vars = .ok t) :
    f.occurrences ⊆ vars ∧ t.rows = (List.range (rowCount vars)).map (f.cells vars) := by
  have covered : f.occurrences ⊆ vars := Formula.exists_tableOver_iff.mp ⟨t, ht⟩
  rw [Formula.tableOver_eq covered] at ht
  cases ht
  exact ⟨covered, rfl⟩

theorem dropLast_cells (row : Nat) : (f.cells vars row).dropLast = rowValues vars row :=
  List.dropLast_concat

/-- From the first row to the last the values of the variables go down. -/
theorem pairwise_rows (distinct : vars.Nodup) (ht : f.tableOver vars = .ok t) :
    t.rows.Pairwise (fun above below => below.dropLast < above.dropLast) := by
  rw [(rows_eq ht).2, List.pairwise_map]
  refine List.pairwise_lt_range.imp_of_mem ?_
  intro i k _ hk h
  rw [dropLast_cells, dropLast_cells]
  exact rowValues_lt_of_lt distinct h (List.mem_range.mp hk)

theorem head?_rows (ht : f.tableOver vars = .ok t) :
    t.rows.head?.map List.dropLast = some (List.replicate vars.length true) := by
  have digits : ∀ i < vars.length, Nat.testBit 0 i = !true := fun i _ => Nat.zero_testBit i
  rw [(rows_eq ht).2, List.head?_map, List.head?_range,
    if_neg (Nat.ne_of_gt (rowCount_pos vars))]
  exact congrArg some ((dropLast_cells 0).trans (rowValues_of_digits digits))

theorem getLast?_rows (ht : f.tableOver vars = .ok t) :
    t.rows.getLast?.map List.dropLast = some (List.replicate vars.length false) := by
  have digits : ∀ i < vars.length, (rowCount vars - 1).testBit i = !false := by
    intro i hi
    rw [rowCount_eq, Nat.testBit_two_pow_sub_one, decide_eq_true hi]
    rfl
  rw [(rows_eq ht).2, List.getLast?_map, List.getLast?_range,
    if_neg (Nat.ne_of_gt (rowCount_pos vars))]
  exact congrArg some ((dropLast_cells _).trans (rowValues_of_digits digits))

/-- A row has a cell for every variable, in its place, and one for the formula. -/
theorem cells_of_row {row : Nat} {cells : List Bool} (ht : f.tableOver vars = .ok t)
    (hrow : t.rows[row]? = some cells) : cells.length = vars.length + 1 ∧
      (∀ (i : Nat) (x : String), vars[i]? = some x → cells[i]? = rowAssignment vars row x) ∧
      ∃ b, cells.getLast? = some b ∧ f.eval (rowAssignment vars row) = .ok b := by
  obtain ⟨covered, rows⟩ := rows_eq ht
  rw [rows, List.getElem?_map] at hrow
  obtain ⟨i, hi, rfl⟩ := Option.map_eq_some_iff.mp hrow
  obtain ⟨_, rfl⟩ := List.getElem?_eq_some_iff.mp hi
  rw [List.getElem_range]
  refine ⟨Formula.length_cells row, ?_, _, Formula.getLast?_cells row,
    Formula.eval_rowAssignment covered row⟩
  intro k x hx
  obtain ⟨lt, -⟩ := List.getElem?_eq_some_iff.mp hx
  have inside : k < (rowValues vars row).length := by rwa [rowValues, List.length_map]
  rw [Formula.cells, List.getElem?_append_left inside, getElem?_rowValues row hx]

end TruthTable

/-- The rows of a table over fewer than 64 variables enumerate the assignments of these names
    once and in order. If no name stands twice, the row numbers below 2 to the number of names
    stand for all assignments of exactly these names, each for another one, and the values in
    the rows of a table go down lexicographically, from true to false and the first name first;
    they begin with all true and end with all false, also where names stand twice. Such a name
    goes by its last place: it is true exactly if the digit of that place in the row number is
    0. Of a number past the last row only the low digits count. In a row that is made every
    variable has its value in all of its places, and the last cell is the formula's value. -/
theorem rows_enumerate_assignments (f : Formula) (vars : List String) (few : vars.length < 64) :
    rowCount vars = 2 ^ vars.length ∧ rowCount vars < 2 ^ 64 ∧
    (vars.Nodup →
      Set.BijOn (rowAssignment vars) {row | row < rowCount vars} (assignmentsOver vars)) ∧
    (∀ (row j : Nat) (x : String), vars[j]? = some x → x ∉ vars.drop (j + 1) →
      rowAssignment vars row x = some (!row.testBit (vars.length - 1 - j))) ∧
    (∀ row, rowAssignment vars (row % rowCount vars) = rowAssignment vars row) ∧
    ∀ t, f.tableOver vars = .ok t → t.rows.length = rowCount vars ∧
      (vars.Nodup → t.rows.Pairwise (fun above below => below.dropLast < above.dropLast)) ∧
      t.rows.head?.map List.dropLast = some (List.replicate vars.length true) ∧
      t.rows.getLast?.map List.dropLast = some (List.replicate vars.length false) ∧
      ∀ row cells, t.rows[row]? = some cells → cells.length = vars.length + 1 ∧
        (∀ (i : Nat) (x : String), vars[i]? = some x → cells[i]? = rowAssignment vars row x) ∧
        ∃ b, cells.getLast? = some b ∧ f.eval (rowAssignment vars row) = .ok b := by
  refine ⟨rowCount_eq vars, rowCount_lt few, bijOn_rowAssignment,
    fun _ _ _ => rowAssignment_of_last, rowAssignment_mod vars, ?_⟩
  intro t ht
  refine ⟨?_, fun distinct => TruthTable.pairwise_rows distinct ht, TruthTable.head?_rows ht,
    TruthTable.getLast?_rows ht, fun row cells => TruthTable.cells_of_row ht⟩
  rw [(TruthTable.rows_eq ht).2, List.length_map, List.length_range]

/-- Four rows over two names, and a name whose first place has another digit than its last. -/
theorem rows_enumerate_assignments_repeated_name :
    let f : Formula := .and (.var "p") (.not (.var "q"))
    ["q", "p"].length < 64 ∧ ["q", "p"].Nodup ∧
      (∃ t, f.tableOver ["q", "p"] = .ok t ∧
        t.rows.Pairwise (fun above below => below.dropLast < above.dropLast)) ∧
      ["p", "q", "p"].length < 64 ∧ rowAssignment ["p", "q", "p"] 4 "p" = some true := by
  intro f
  have few : ["q", "p"].length < 64 := by decide
  have few' : ["p", "q", "p"].length < 64 := by decide
  have distinct : ["q", "p"].Nodup := by decide
  obtain ⟨-, -, -, -, -, rows⟩ := rows_enumerate_assignments f ["q", "p"] few
  obtain ⟨-, -, -, last, -⟩ := rows_enumerate_assignments f ["p", "q", "p"] few'
  exact ⟨few, distinct, ⟨_, rfl, (rows _ rfl).2.1 distinct⟩, few', last 4 2 "p" rfl (by decide)⟩

end Propositional
