import Mathlib.Data.List.Sort
import Mathlib.Order.Bounds.Defs

/-!
# Order statistics

The entries of a sorted list against the number of entries up to a value: the
entry at `i` is the least one with more than `i` entries up to it. Sorting a list
does not change how many entries are up to a value.
-/

namespace OrderStats

section
variable {α : Type} [LE α] [DecidableLE α]

def upTo (l : List α) (x : α) : ℕ := l.countP (· ≤ x)

def sorted (l : List α) : List α := l.insertionSort (· ≤ ·)

theorem upTo_cons (x : α) (l : List α) (y : α) : upTo (x :: l) y = upTo l y + if x ≤ y then 1 else 0 := by
  simp only [upTo, List.countP_cons, decide_eq_true_eq]

theorem sorted_perm (l : List α) : (sorted l).Perm l := List.perm_insertionSort _ l

theorem length_sorted (l : List α) : (sorted l).length = l.length := (sorted_perm l).length_eq

theorem upTo_sorted (l : List α) (x : α) : upTo (sorted l) x = upTo l x := (sorted_perm l).countP_eq _

variable [Std.IsLinearOrder α]

theorem pairwise_sorted (l : List α) : (sorted l).Pairwise (· ≤ ·) := by
  have : IsTrans α (· ≤ ·) := ⟨fun _ _ _ => Std.le_trans⟩
  exact List.pairwise_insertionSort _ l

theorem sorted_eq_of_perm {l l' : List α} (h : l.Perm l') : sorted l = sorted l' :=
  List.Perm.eq_of_pairwise (fun _ _ _ _ => Std.le_antisymm) (pairwise_sorted l) (pairwise_sorted l')
    ((sorted_perm l).trans (h.trans (sorted_perm l').symm))

theorem sorted_mono (l : List α) {i j : ℕ} (hij : i ≤ j) (hj : j < (sorted l).length) :
    (sorted l)[i] ≤ (sorted l)[j] := by
  rcases Nat.eq_or_lt_of_le hij with rfl | hlt
  · exact Std.le_refl _
  · exact List.pairwise_iff_getElem.mp (pairwise_sorted l) i j _ hj hlt

theorem lt_upTo_getElem {l : List α} (h : l.Pairwise (· ≤ ·)) {i : ℕ} (hi : i < l.length) : i < upTo l l[i] := by
  induction l generalizing i with
  | nil => exact absurd hi (Nat.not_lt_zero i)
  | cons x l ih =>
    obtain ⟨hx, hl⟩ := List.pairwise_cons.mp h
    cases i with
    | zero =>
      rw [List.getElem_cons_zero, upTo_cons, if_pos (Std.le_refl x)]
      exact Nat.succ_pos _
    | succ i =>
      have hi' : i < l.length := Nat.lt_of_succ_lt_succ hi
      rw [List.getElem_cons_succ, upTo_cons, if_pos (hx _ (List.getElem_mem hi'))]
      exact Nat.succ_lt_succ (ih hl hi')

theorem upTo_le_of_not_le {l : List α} (h : l.Pairwise (· ≤ ·)) {i : ℕ} (hi : i < l.length) {y : α} (hy : ¬ l[i] ≤ y) :
    upTo l y ≤ i := by
  induction l generalizing i with
  | nil => exact absurd hi (Nat.not_lt_zero i)
  | cons x l ih =>
    obtain ⟨hx, hl⟩ := List.pairwise_cons.mp h
    cases i with
    | zero =>
      -- the first entry is above `y`, so all of them are
      rw [List.getElem_cons_zero] at hy
      refine Nat.le_of_eq (List.countP_eq_zero.mpr fun z hz hzy => hy ?_)
      rcases List.mem_cons.mp hz with rfl | hz
      · exact of_decide_eq_true hzy
      · exact Std.le_trans (hx z hz) (of_decide_eq_true hzy)
    | succ i =>
      have hrest := ih hl (Nat.lt_of_succ_lt_succ hi) (by rwa [List.getElem_cons_succ] at hy)
      rw [upTo_cons]
      split <;> omega

/-- The entry at `i` of the sorted list, by counting alone. -/
theorem isLeast_sorted (l : List α) {i : ℕ} (hi : i < (sorted l).length) :
    IsLeast {x | x ∈ l ∧ i < upTo l x} (sorted l)[i] := by
  have hsorted := pairwise_sorted l
  constructor
  · refine ⟨(sorted_perm l).mem_iff.mp (List.getElem_mem hi), ?_⟩
    rw [← upTo_sorted]
    exact lt_upTo_getElem hsorted hi
  · rintro y ⟨-, hy⟩
    rw [← upTo_sorted] at hy
    by_contra hle
    exact absurd (upTo_le_of_not_le hsorted hi hle) (Nat.not_le_of_gt hy)

end

end OrderStats
