import Mathlib.Data.List.Nodup

/-!
# Tables and strides

The positions of a table whose rows have different lengths, numbered row by row,
and the rows that are `w`, `w + n`, `w + 2 * n` and so on. The strides from each
`w` below `n` share the rows out.
-/

namespace Strides

/-! ## Lists of pairs -/

section
variable {α β : Type}

/-- The positions of a table with rows of the given lengths, row by row. -/
def positions (rows : List ℕ) (depth : ℕ → ℕ) : List (ℕ × ℕ) :=
  rows.flatMap fun f => (List.range (depth f)).map (f, ·)

theorem mem_positions {rows : List ℕ} {depth : ℕ → ℕ} {p : ℕ × ℕ} :
    p ∈ positions rows depth ↔ p.1 ∈ rows ∧ p.2 < depth p.1 := by
  simp only [positions, List.mem_flatMap, List.mem_map, List.mem_range]
  constructor
  · rintro ⟨f, hf, j, hj, rfl⟩
    exact ⟨hf, hj⟩
  · rintro ⟨hf, hj⟩
    exact ⟨p.1, hf, p.2, hj, rfl⟩

theorem positions_map (rows : List ℕ) (depth : ℕ → ℕ) (f : ℕ × ℕ → α) :
    (positions rows depth).map f = rows.flatMap fun r => (List.range (depth r)).map fun j => f (r, j) := by
  rw [positions, List.map_flatMap]
  simp only [List.map_map, Function.comp_def]

theorem flatMap_of_unique {l : List α} {x : α} {f : α → List β} (hl : l.Nodup) (hx : x ∈ l)
    (h : ∀ y ∈ l, y ≠ x → f y = []) : l.flatMap f = f x := by
  induction l with
  | nil => cases hx
  | cons y l ih =>
    obtain ⟨hy, hl⟩ := List.nodup_cons.mp hl
    rw [List.flatMap_cons]
    by_cases hyx : y = x
    · subst hyx
      have hrest : l.flatMap f = [] := by
        rw [List.flatMap_eq_nil_iff]
        exact fun z hz => h z (List.mem_cons_of_mem _ hz) fun e => hy (e ▸ hz)
      rw [hrest, List.append_nil]
    · rw [h y List.mem_cons_self hyx, List.nil_append]
      exact ih hl ((List.mem_cons.mp hx).resolve_left fun e => hyx e.symm)
        fun z hz => h z (List.mem_cons_of_mem _ hz)

/-- The positions of one row. -/
theorem filter_positions {rows : List ℕ} {depth : ℕ → ℕ} {x : ℕ} {p : ℕ × ℕ → Bool} (hrows : rows.Nodup) (hx : x ∈ rows)
    (h : ∀ q ∈ positions rows depth, p q = true ↔ q.1 = x) :
    (positions rows depth).filter p = (List.range (depth x)).map (x, ·) := by
  have hrow (y : ℕ) (hy : y ∈ rows) : ∀ q ∈ (List.range (depth y)).map (y, ·), p q = true ↔ y = x := by
    intro q hq
    obtain ⟨j, hj, rfl⟩ := List.mem_map.mp hq
    exact h (y, j) (mem_positions.mpr ⟨hy, List.mem_range.mp hj⟩)
  rw [positions, List.filter_flatMap, flatMap_of_unique hrows hx]
  · rw [List.filter_eq_self]
    exact fun q hq => (hrow x hx q hq).mpr rfl
  · intro y hy hne
    rw [List.filter_eq_nil_iff]
    exact fun q hq hp => hne ((hrow y hy q hq).mp hp)

/-- Rows that start where those before them end have the positions 0, 1, 2 and so on. -/
theorem map_positions (offset : ℕ → ℕ) {depth : ℕ → ℕ} {n : ℕ} (hzero : offset 0 = 0)
    (hsucc : ∀ f < n, offset (f + 1) = offset f + depth f) :
    (positions (List.range n) depth).map (fun p => offset p.1 + p.2) = List.range (offset n) := by
  induction n with
  | zero => rw [hzero]; rfl
  | succ n ih =>
    have hlast : (positions [n] depth).map (fun p => offset p.1 + p.2) =
        (List.range (depth n)).map (offset n + ·) := by
      simp [positions, Function.comp_def]
    have happend : positions (List.range (n + 1)) depth = positions (List.range n) depth ++ positions [n] depth := by
      rw [List.range_succ, positions, List.flatMap_append]
      rfl
    rw [happend, List.map_append, ih fun f hf => hsucc f (by omega), hlast, hsucc n (by omega), List.range_add]

end

/-! ## Every N-th flow -/

section
variable {w n total i f : ℕ}

def strideCount (w n total : ℕ) : ℕ := (total - w + n - 1) / n

def strided (w n total : ℕ) : List ℕ := (List.range (strideCount w n total)).map fun i => w + i * n

theorem lt_strideCount (hn : 0 < n) : i < strideCount w n total ↔ w + i * n < total := by
  rw [strideCount, ← Nat.succ_le_iff, Nat.le_div_iff_mul_le hn, Nat.succ_mul]
  omega

theorem mem_strided (hn : 0 < n) (hw : w < n) : f ∈ strided w n total ↔ f < total ∧ f % n = w := by
  simp only [strided, List.mem_map, List.mem_range, lt_strideCount hn]
  constructor
  · rintro ⟨i, hi, rfl⟩
    exact ⟨hi, by rw [Nat.add_mul_mod_self_right, Nat.mod_eq_of_lt hw]⟩
  · rintro ⟨hf, rfl⟩
    have hdiv := Nat.mod_add_div f n
    rw [Nat.mul_comm] at hdiv
    exact ⟨f / n, by omega, hdiv⟩

theorem nodup_strided (hn : 0 < n) : (strided w n total).Nodup := by
  refine List.Nodup.map (fun i j h => ?_) List.nodup_range
  exact Nat.eq_of_mul_eq_mul_right hn (by simpa using h)

/-- The workers share the flows out among them. -/
theorem strided_perm (hn : 0 < n) :
    ((List.range n).flatMap fun w => strided w n total).Perm (List.range total) := by
  refine (List.perm_ext_iff_of_nodup ?_ List.nodup_range).mpr fun f => ?_
  · rw [List.nodup_flatMap]
    refine ⟨fun w _ => nodup_strided hn, List.nodup_range.imp_of_mem fun {w w'} hw hw' hne f hf hf' => hne ?_⟩
    rw [List.mem_range] at hw hw'
    exact ((mem_strided hn hw).mp hf).2.symm.trans ((mem_strided hn hw').mp hf').2
  · simp only [List.mem_flatMap, List.mem_range]
    constructor
    · rintro ⟨w, hw, hf⟩
      exact ((mem_strided hn hw).mp hf).1
    · intro hf
      exact ⟨f % n, Nat.mod_lt f hn, (mem_strided hn (Nat.mod_lt f hn)).mpr ⟨hf, rfl⟩⟩

theorem positions_perm (hn : 0 < n) (total : ℕ) (depth : ℕ → ℕ) :
    ((List.range n).flatMap fun w => positions (strided w n total) depth).Perm
      (positions (List.range total) depth) := by
  simp only [positions]
  rw [← List.flatMap_assoc]
  exact (strided_perm hn).flatMap_right _

end

end Strides
