import Mathlib.Data.List.GetD
import OpenTams.OrderStats
import OpenTams.Slices

/-!
# Latency percentiles

`P99` and `Summarize` of `internal/perftest`. `P99` sorts the samples it is given,
`Summarize` a copy of them. A slice of durations is far too short for the product
`pct*n` to leave `int`, so the index is computed with natural numbers.
-/

namespace OpenTams.Perftest

open OrderStats Slices

abbrev Duration := Int64

def sort (m : List Duration) (s : Slice) : List Duration := write m s (sorted (read m s))

def quantileByPctSorted (sorted : List Duration) (pct : ℕ) : Duration :=
  let n := sorted.length
  if n = 0 then 0
  else
    -- the difference of natural numbers is the `max(.., 0)` of the source
    let idx := (pct * n + 99) / 100 - 1
    let idx := if n ≤ idx then n - 1 else idx
    sorted.getD idx 0

def p99 (m : List Duration) (samples : Slice) : Duration × List Duration :=
  if samples.len = 0 then (0, m)
  else
    let m := sort m samples
    (quantileByPctSorted (read m samples) 99, m)

structure Stats where
  count : ℕ := 0
  min : Duration := 0
  p50 : Duration := 0
  p95 : Duration := 0
  p99 : Duration := 0
  max : Duration := 0
  deriving DecidableEq

def statsSorted (sorted : List Duration) : Stats where
  count := sorted.length
  min := sorted.getD 0 0
  p50 := quantileByPctSorted sorted 50
  p95 := quantileByPctSorted sorted 95
  p99 := quantileByPctSorted sorted 99
  max := sorted.getD (sorted.length - 1) 0

def summarize (m : List Duration) (samples : Slice) : Stats × List Duration :=
  if samples.len = 0 then ({}, m)
  else
    let made := make m 0 samples.len
    let m := copy made.2 made.1 samples
    let m := sort m made.1
    (statsSorted (read m made.1), m)

/-! ## The index of a percentile -/

/-- The nearest rank: the least number of samples that is `pct` percent of `n` or more. -/
def nearestRank (pct n : ℕ) : ℕ := (pct * n + 99) / 100

theorem nearestRank_le {pct n r : ℕ} : nearestRank pct n ≤ r ↔ pct * n ≤ 100 * r := by
  rw [nearestRank]
  omega

theorem nearestRank_mono {pct pct' : ℕ} (h : pct ≤ pct') (n : ℕ) : nearestRank pct n ≤ nearestRank pct' n := by
  rw [nearestRank_le]
  exact Nat.le_trans (Nat.mul_le_mul_right n h) (nearestRank_le.mp (Nat.le_refl _))

theorem nearestRank_le_length {pct : ℕ} (h : pct ≤ 100) (n : ℕ) : nearestRank pct n ≤ n :=
  nearestRank_le.mpr (Nat.mul_le_mul_right n h)

theorem nearestRank_pos {pct n : ℕ} (h : 0 < pct) (hn : 0 < n) : 0 < nearestRank pct n := by
  have hprod := Nat.mul_pos h hn
  rw [nearestRank]
  omega

section
variable {samples : List Duration}

theorem quantile_eq {pct : ℕ} (hpct : 0 < pct) (hle : pct ≤ 100) (hne : samples ≠ []) :
    ∃ h : nearestRank pct samples.length - 1 < (sorted samples).length,
      quantileByPctSorted (sorted samples) pct = (sorted samples)[nearestRank pct samples.length - 1] := by
  have hpos := List.length_pos_iff.mpr hne
  have hrank := nearestRank_pos hpct hpos
  have hlen := nearestRank_le_length hle samples.length
  have hlt : nearestRank pct samples.length - 1 < (sorted samples).length := by
    rw [length_sorted]
    omega
  have hidx : ¬ samples.length ≤ nearestRank pct samples.length - 1 := by omega
  refine ⟨hlt, ?_⟩
  rw [quantileByPctSorted, length_sorted]
  dsimp only
  rw [← nearestRank, if_neg (Nat.ne_of_gt hpos), if_neg hidx, List.getD_eq_getElem]

/-- A percentile is the least sample with enough samples up to it. -/
theorem quantile_isLeast {pct : ℕ} (hpct : 0 < pct) (hle : pct ≤ 100) (hne : samples ≠ []) :
    IsLeast {x | x ∈ samples ∧ pct * samples.length ≤ 100 * upTo samples x}
      (quantileByPctSorted (sorted samples) pct) := by
  obtain ⟨h, heq⟩ := quantile_eq hpct hle hne
  have hrank := nearestRank_pos hpct (List.length_pos_iff.mpr hne)
  have hset : {x | x ∈ samples ∧ pct * samples.length ≤ 100 * upTo samples x} =
      {x | x ∈ samples ∧ nearestRank pct samples.length - 1 < upTo samples x} := by
    ext x
    rw [Set.mem_ofPred_eq, Set.mem_ofPred_eq, ← nearestRank_le]
    exact and_congr_right fun _ => by omega
  rw [heq, hset]
  exact isLeast_sorted samples h

theorem quantile_mono {pct pct' : ℕ} (hpct : 0 < pct) (hle : pct ≤ pct') (hle' : pct' ≤ 100) (hne : samples ≠ []) :
    quantileByPctSorted (sorted samples) pct ≤ quantileByPctSorted (sorted samples) pct' := by
  obtain ⟨h, heq⟩ := quantile_eq hpct (Nat.le_trans hle hle') hne
  obtain ⟨h', heq'⟩ := quantile_eq (Nat.lt_of_lt_of_le hpct hle) hle' hne
  rw [heq, heq']
  exact sorted_mono samples (Nat.sub_le_sub_right (nearestRank_mono hle _) 1) h'

end

/-! ## The summary -/

structure Summarizes (samples : List Duration) (st : Stats) : Prop where
  count : st.count = samples.length
  min : IsLeast {x | x ∈ samples} st.min
  p50 : IsLeast {x | x ∈ samples ∧ 50 * samples.length ≤ 100 * upTo samples x} st.p50
  p95 : IsLeast {x | x ∈ samples ∧ 95 * samples.length ≤ 100 * upTo samples x} st.p95
  p99 : IsLeast {x | x ∈ samples ∧ 99 * samples.length ≤ 100 * upTo samples x} st.p99
  max : IsGreatest {x | x ∈ samples} st.max
  ordered : st.min ≤ st.p50 ∧ st.p50 ≤ st.p95 ∧ st.p95 ≤ st.p99 ∧ st.p99 ≤ st.max

section
variable {samples : List Duration}

theorem min_isLeast (hne : samples ≠ []) : IsLeast {x | x ∈ samples} ((sorted samples).getD 0 0) := by
  have hlt : 0 < (sorted samples).length := by
    rw [length_sorted]
    exact List.length_pos_iff.mpr hne
  obtain ⟨⟨hmem, -⟩, hleast⟩ := isLeast_sorted samples hlt
  rw [List.getD_eq_getElem _ _ hlt]
  exact ⟨hmem, fun y hy => hleast ⟨hy, List.countP_pos_iff.mpr ⟨y, hy, decide_eq_true (Std.le_refl y)⟩⟩⟩

theorem max_isGreatest (hne : samples ≠ []) :
    IsGreatest {x | x ∈ samples} ((sorted samples).getD ((sorted samples).length - 1) 0) := by
  have hpos := List.length_pos_iff.mpr hne
  have hlt : (sorted samples).length - 1 < (sorted samples).length := by
    rw [length_sorted]
    omega
  rw [List.getD_eq_getElem _ _ hlt]
  refine ⟨(sorted_perm samples).mem_iff.mp (List.getElem_mem hlt), fun y hy => ?_⟩
  obtain ⟨i, hi, rfl⟩ := List.getElem_of_mem ((sorted_perm samples).mem_iff.mpr hy)
  exact sorted_mono samples (by omega) hlt

theorem statsSorted_summarizes (hne : samples ≠ []) : Summarizes samples (statsSorted (sorted samples)) where
  count := length_sorted samples
  min := min_isLeast hne
  p50 := quantile_isLeast (by decide) (by decide) hne
  p95 := quantile_isLeast (by decide) (by decide) hne
  p99 := quantile_isLeast (by decide) (by decide) hne
  max := max_isGreatest hne
  ordered :=
    ⟨(min_isLeast hne).2 (quantile_isLeast (by decide) (by decide) hne).1.1,
      quantile_mono (by decide) (by decide) (by decide) hne,
      quantile_mono (by decide) (by decide) (by decide) hne,
      (max_isGreatest hne).2 (quantile_isLeast (by decide) (by decide) hne).1.1⟩

end

section
variable {m : List Duration} {samples : Slice}

theorem summarize_eq (h : samples.In m) (hne : samples.len ≠ 0) : summarize m samples =
    (statsSorted (sorted (read m samples)), m ++ sorted (read m samples)) := by
  have hread : read (m ++ read m samples) ⟨m.length, samples.len⟩ = read m samples := read_new m (length_read h)
  have hsorted : (sorted (read m samples)).length = samples.len := by rw [length_sorted, length_read h]
  have hsort : sort (m ++ read m samples) ⟨m.length, samples.len⟩ = m ++ sorted (read m samples) := by
    rw [sort, hread, write_new m (length_read h)]
  rw [summarize, if_neg hne]
  dsimp only
  rw [copy_make h]
  dsimp only [make]
  rw [hsort, read_new m hsorted]

theorem p99_eq (h : samples.In m) (hne : samples.len ≠ 0) :
    p99 m samples = (quantileByPctSorted (sorted (read m samples)) 99, sort m samples) := by
  have hsorted : (sorted (read m samples)).length = samples.len := by rw [length_sorted, length_read h]
  rw [p99, if_neg hne]
  dsimp only
  rw [sort, read_write h hsorted]

end

/-- `Summarize` answers with the nearest ranks of the samples, in whatever order they are, and with the `P99` of them;
the memory is as before, with the copy at its end. -/
theorem summarize_nearestRank (m : List Duration) (samples : Slice) (h : samples.In m) (hne : read m samples ≠ []) :
    Summarizes (read m samples) (summarize m samples).1 ∧
      (∀ (m' : List Duration) (samples' : Slice), samples'.In m' → (read m' samples').Perm (read m samples) →
        (summarize m' samples').1 = (summarize m samples).1) ∧
      (p99 m samples).1 = (summarize m samples).1.p99 ∧
      ∀ s : Slice, s.In m → read (summarize m samples).2 s = read m s := by
  have hlen {m' : List Duration} {samples' : Slice} (h' : samples'.In m') (hne' : read m' samples' ≠ []) :
      samples'.len ≠ 0 := by
    rw [← length_read h']
    exact List.length_eq_zero_iff.not.mpr hne'
  rw [p99_eq h (hlen h hne), summarize_eq h (hlen h hne)]
  refine ⟨statsSorted_summarizes hne, ?_, rfl, fun s hs => read_append hs _⟩
  intro m' samples' h' hperm
  have hne' : read m' samples' ≠ [] := fun e => hne (List.perm_nil.mp (e ▸ hperm.symm))
  rw [summarize_eq h' (hlen h' hne'), sorted_eq_of_perm hperm]

theorem fiveSamples_nearestRank :
    Summarizes [5, 1, 3, 2, 4] (summarize [9, 5, 1, 3, 2, 4, 7] ⟨1, 5⟩).1 ∧
      (summarize [9, 5, 1, 3, 2, 4, 7] ⟨1, 5⟩).1 = ⟨5, 1, 3, 5, 5, 5⟩ :=
  ⟨(summarize_nearestRank [9, 5, 1, 3, 2, 4, 7] ⟨1, 5⟩ (by decide) (by decide)).1, by decide⟩

end OpenTams.Perftest
