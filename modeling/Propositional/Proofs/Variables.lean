import Mathlib.Data.List.Sort
import Propositional.Symbol.Spelling
import Propositional.Proofs.Evaluation

/- The variables of a formula as a list. It is in alphabetical order and holds each name once
   (`Formula.sorted_vars`), so it is known by its members (`Formula.vars_eq_of_mem_iff`), and
   no definition of a derived connective changes it (`Formula.vars_normalize`). The names
   that can stand in a text are the 26 letters from a to z (`exists_letter`,
   `length_le_of_letters`). -/
namespace Propositional

theorem sorted_insertName {x : String} : ∀ {ys : List String}, ys.Pairwise (· < ·) →
    (insertName x ys).Pairwise (· < ·)
  | [], _ => List.pairwise_singleton _ _
  | y :: ys, h => by
    obtain ⟨least, sorted⟩ := List.pairwise_cons.mp h
    unfold insertName
    split
    · next lt =>
      refine List.pairwise_cons.mpr ⟨fun z hz => ?_, h⟩
      obtain rfl | hz := List.mem_cons.mp hz
      · exact lt
      · exact String.lt_trans lt (least z hz)
    · next ge =>
      split
      · exact h
      · next ne =>
        have above : y < x :=
          String.not_le.mp (fun le => ne (String.le_antisymm le (String.not_lt.mp ge)))
        refine List.pairwise_cons.mpr ⟨fun z hz => ?_, sorted_insertName sorted⟩
        obtain rfl | hz := mem_insertName.mp hz
        · exact above
        · exact least z hz

namespace Formula
variable {f g : Formula}

theorem occurrences_subset_vars (f : Formula) : f.occurrences ⊆ f.vars :=
  fun _ hx => mem_vars.mpr hx

theorem sorted_vars (f : Formula) : f.vars.Pairwise (· < ·) := by
  unfold vars
  induction f.occurrences with
  | nil => exact .nil
  | cons x xs ih => exact sorted_insertName ih

theorem vars_eq_of_mem_iff (h : ∀ x, x ∈ f.vars ↔ x ∈ g.vars) : f.vars = g.vars :=
  List.Pairwise.eq_of_mem_iff f.sorted_vars g.sorted_vars h

theorem mem_occurrences_normalize {x : String} : ∀ {f : Formula},
    x ∈ f.normalize.occurrences ↔ x ∈ f.occurrences
  | const _ | var _ => Iff.rfl
  | not a => mem_occurrences_normalize (f := a)
  | join _ l r => by
    simp only [normalize, occurrences, List.mem_append, mem_occurrences_normalize]
  | derived _ l r => by
    simp only [normalize, occurrences, List.mem_append, mem_occurrences_expand,
      mem_occurrences_normalize]

theorem vars_normalize (f : Formula) : f.normalize.vars = f.vars :=
  vars_eq_of_mem_iff (fun x => by rw [mem_vars, mem_vars, mem_occurrences_normalize])

end Formula

/-! Letters. -/

theorem exists_letter {x : String} (h : x ∈ variableWords) :
    ∃ c : Char, 'a' ≤ c ∧ c ≤ 'z' ∧ x = String.singleton c := by
  have listed : variableWords.all (fun y => y.toList.any (fun c =>
      'a' ≤ c && c ≤ 'z' && y = String.singleton c)) = true := by decide
  obtain ⟨c, -, letter⟩ := List.any_eq_true.mp (List.all_eq_true.mp listed x h)
  simp only [Bool.and_eq_true, decide_eq_true_eq, and_assoc] at letter
  exact ⟨c, letter⟩

/-- There are no more names in order than letters, if all of them are letters. -/
theorem length_le_of_letters {xs : List String} (sorted : xs.Pairwise (· < ·))
    (h : xs ⊆ variableWords) : xs.length ≤ 26 :=
  (List.subperm_of_subset sorted.nodup h).length_le

end Propositional
