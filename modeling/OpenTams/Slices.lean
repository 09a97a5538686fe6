import Mathlib.Data.List.Basic

/-!
# Slices of a memory

A memory is the list of its cells and a slice is a window of it. New cells are put
at the end, so what is allocated later never meets a slice that is there already.
-/

namespace Slices

structure Slice where
  base : ℕ
  len : ℕ
  deriving DecidableEq

section
variable {α : Type}

def Slice.In (s : Slice) (m : List α) : Prop := s.base + s.len ≤ m.length

instance (s : Slice) (m : List α) : Decidable (s.In m) := inferInstanceAs (Decidable (_ ≤ _))

def read (m : List α) (s : Slice) : List α := (m.drop s.base).take s.len

def write (m : List α) (s : Slice) (xs : List α) : List α := m.take s.base ++ (xs ++ m.drop (s.base + s.len))

def make (m : List α) (zero : α) (n : ℕ) : Slice × List α := (⟨m.length, n⟩, m ++ List.replicate n zero)

def copy (m : List α) (dst src : Slice) : List α :=
  let n := min dst.len src.len
  write m ⟨dst.base, n⟩ (read m ⟨src.base, n⟩)

theorem length_read {m : List α} {s : Slice} (h : s.In m) : (read m s).length = s.len := by
  rw [Slice.In] at h
  rw [read, List.length_take, List.length_drop]
  omega

theorem read_write {m xs : List α} {s : Slice} (h : s.In m) (hxs : xs.length = s.len) : read (write m s xs) s = xs := by
  have hbase : (m.take s.base).length = s.base := by
    rw [Slice.In] at h
    rw [List.length_take]
    omega
  rw [read, write, List.drop_left' hbase, List.take_left' hxs]

/-- A slice of the old cells does not see the new ones. -/
theorem read_append {m : List α} {s : Slice} (h : s.In m) (xs : List α) : read (m ++ xs) s = read m s := by
  have hlen := length_read h
  rw [Slice.In] at h
  rw [read, List.drop_append_of_le_length (by omega), List.take_append_of_le_length, read]
  rw [List.length_drop]
  omega

theorem read_new (m : List α) {xs : List α} {n : ℕ} (h : xs.length = n) : read (m ++ xs) ⟨m.length, n⟩ = xs := by
  rw [read, List.drop_left, List.take_of_length_le (Nat.le_of_eq h)]

theorem write_new (m : List α) {xs : List α} {n : ℕ} (h : xs.length = n) (ys : List α) :
    write (m ++ xs) ⟨m.length, n⟩ ys = m ++ ys := by
  have hend : (m ++ xs).length = m.length + n := by rw [List.length_append, h]
  rw [write, List.take_left, List.drop_of_length_le (Nat.le_of_eq hend), List.append_nil]

/-- A copy of a slice. -/
theorem copy_make {m : List α} {s : Slice} (h : s.In m) (zero : α) :
    copy (make m zero s.len).2 (make m zero s.len).1 s = m ++ read m s := by
  rw [copy, make, Nat.min_self, read_append h]
  exact write_new m List.length_replicate _

end

end Slices
