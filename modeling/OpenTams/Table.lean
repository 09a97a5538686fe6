import Mathlib.Data.List.Nodup

/-!
# Keyed tables

A table is a list of rows with pairwise distinct primary keys. Writing a row
replaces the version with the same key and moves it to the end, the way an
update makes a new tuple; a query without an order reads the rows in list order.
-/

namespace Sql

structure Table (κ ρ : Type) (key : ρ → κ) where
  rows : List ρ
  nodup : (rows.map key).Nodup

namespace Table

variable {κ ρ : Type} {key : ρ → κ}

def empty : Table κ ρ key := ⟨[], List.nodup_nil⟩

@[ext] theorem ext {t u : Table κ ρ key} (h : t.rows = u.rows) : t = u := by
  cases t; cases u; cases h; rfl

instance [DecidableEq ρ] : DecidableEq (Table κ ρ key) := fun t u =>
  decidable_of_iff (t.rows = u.rows) ⟨ext, fun h => h ▸ rfl⟩

@[simp] theorem rows_empty : (empty : Table κ ρ key).rows = [] := rfl

theorem eq_of_mem {t : Table κ ρ key} {r r' : ρ} (h : r ∈ t.rows) (h' : r' ∈ t.rows) (hk : key r = key r') :
    r = r' :=
  List.inj_on_of_nodup_map t.nodup h h' hk

variable [DecidableEq κ]

def get (t : Table κ ρ key) (k : κ) : Option ρ :=
  t.rows.find? fun r => key r = k

def del (t : Table κ ρ key) (k : κ) : Table κ ρ key where
  rows := t.rows.filter fun r => key r ≠ k
  nodup := t.nodup.sublist (List.filter_sublist.map key)

def put (t : Table κ ρ key) (r : ρ) : Table κ ρ key where
  rows := (t.del (key r)).rows ++ [r]
  nodup := by
    rw [List.map_append, List.nodup_append]
    refine ⟨(t.del (key r)).nodup, by simp, ?_⟩
    intro a ha b hb
    obtain ⟨x, hx, rfl⟩ := List.mem_map.mp ha
    simp only [List.map_cons, List.map_nil, List.mem_singleton] at hb
    subst hb
    simpa using (List.mem_filter.mp hx).2

@[simp] theorem get_empty (k : κ) : (empty : Table κ ρ key).get k = none := rfl

/-! ## Rows and lookups -/

theorem key_of_get {t : Table κ ρ key} {k : κ} {r : ρ} (h : t.get k = some r) : key r = k := by
  simpa using List.find?_some h

theorem mem_of_get {t : Table κ ρ key} {k : κ} {r : ρ} (h : t.get k = some r) : r ∈ t.rows :=
  List.mem_of_find?_eq_some h

theorem get_of_mem {t : Table κ ρ key} {r : ρ} (h : r ∈ t.rows) : t.get (key r) = some r := by
  cases hg : t.get (key r) with
  | some x => rw [eq_of_mem (mem_of_get hg) h (key_of_get hg)]
  | none => simpa using List.find?_eq_none.mp hg r h

theorem get_eq_none {t : Table κ ρ key} {k : κ} : t.get k = none ↔ ∀ r ∈ t.rows, key r ≠ k := by
  simp [get]

/-! ## Writing -/

theorem mem_del {t : Table κ ρ key} {k : κ} {r : ρ} : r ∈ (t.del k).rows ↔ r ∈ t.rows ∧ key r ≠ k := by
  simp [del]

theorem get_del (t : Table κ ρ key) (k k' : κ) : (t.del k).get k' = if k = k' then none else t.get k' := by
  unfold get del
  simp only [List.find?_filter]
  split
  · rename_i h; subst h
    rw [List.find?_eq_none]
    intro x _; simp
  · rename_i h
    congr 1; funext r
    by_cases hr : key r = k'
    · subst hr; simp [Ne.symm h]
    · simp [hr]

theorem get_put (t : Table κ ρ key) (r : ρ) (k : κ) :
    (t.put r).get k = if key r = k then some r else t.get k := by
  have hd := get_del t (key r) k
  unfold get at hd ⊢
  simp only [put, List.find?_append, hd]
  by_cases h : key r = k
  · simp [h]
  · simp [h]

@[simp] theorem get_put_self (t : Table κ ρ key) (r : ρ) : (t.put r).get (key r) = some r := by
  simp [get_put]

theorem get_put_ne (t : Table κ ρ key) {r : ρ} {k : κ} (h : key r ≠ k) : (t.put r).get k = t.get k := by
  simp [get_put, h]

@[simp] theorem get_del_self (t : Table κ ρ key) (k : κ) : (t.del k).get k = none := by
  simp [get_del]

theorem get_del_ne (t : Table κ ρ key) {k k' : κ} (h : k ≠ k') : (t.del k).get k' = t.get k' := by
  simp [get_del, h]

theorem filter_del (t : Table κ ρ key) (k : κ) (p : ρ → Bool) :
    (t.del k).rows.filter p = (t.rows.filter p).filter fun r => key r ≠ k := by
  simp only [del, List.filter_filter, Bool.and_comm]

theorem filter_put (t : Table κ ρ key) (r : ρ) (p : ρ → Bool) :
    (t.put r).rows.filter p = ((t.rows.filter p).filter fun x => key x ≠ key r) ++ [r].filter p := by
  simp only [put, List.filter_append, filter_del]

theorem rows_put_new {t : Table κ ρ key} {r : ρ} (h : t.get (key r) = none) : (t.put r).rows = t.rows ++ [r] := by
  have : (t.rows.filter fun x => key x ≠ key r) = t.rows := by
    rw [List.filter_eq_self]
    intro x hx
    simpa using get_eq_none.mp h x hx
  simp only [put, del, this]

theorem filter_ne_key {t : Table κ ρ key} {k : κ} {p : ρ → Bool} (h : ∀ r ∈ t.rows, key r = k → p r = false) :
    ((t.rows.filter p).filter fun r => key r ≠ k) = t.rows.filter p := by
  rw [List.filter_eq_self]
  intro r hr
  obtain ⟨hm, hp⟩ := List.mem_filter.mp hr
  refine decide_eq_true fun e => ?_
  rw [h r hm e] at hp
  cases hp

/-- Putting a row does not change a class to which no row with its key belongs. -/
theorem filter_put_of_not (t : Table κ ρ key) {r : ρ} {p : ρ → Bool} (h : ∀ x, key x = key r → p x = false) :
    (t.put r).rows.filter p = t.rows.filter p := by
  have hr : [r].filter p = [] := List.filter_cons_of_neg (by rw [h r rfl]; exact Bool.false_ne_true)
  rw [filter_put, filter_ne_key fun x _ hk => h x hk, hr, List.append_nil]

/-! ## Deleting many rows -/

def delAll (t : Table κ ρ key) (ks : List κ) : Table κ ρ key := ks.foldl del t

@[simp] theorem delAll_nil (t : Table κ ρ key) : t.delAll [] = t := rfl

theorem delAll_cons (t : Table κ ρ key) (k : κ) (ks : List κ) : t.delAll (k :: ks) = (t.del k).delAll ks := rfl

theorem get_delAll_ne (t : Table κ ρ key) {k : κ} {ks : List κ} (h : k ∉ ks) : (t.delAll ks).get k = t.get k := by
  induction ks generalizing t with
  | nil => rfl
  | cons k' ks ih =>
    rw [List.mem_cons, not_or] at h
    rw [delAll_cons, ih _ h.2, get_del_ne t (Ne.symm h.1)]

theorem rows_delAll (t : Table κ ρ key) (ks : List κ) : (t.delAll ks).rows = t.rows.filter fun r => key r ∉ ks := by
  induction ks generalizing t with
  | nil => simp
  | cons k ks ih =>
    rw [delAll_cons, ih]
    simp [del, List.filter_filter, Bool.and_comm]

theorem rows_delAll_filter (t : Table κ ρ key) (p : ρ → Bool) :
    (t.delAll ((t.rows.filter p).map key)).rows = t.rows.filter fun r => !p r := by
  rw [rows_delAll]
  refine List.filter_congr fun r hr => ?_
  have hiff : key r ∈ (t.rows.filter p).map key ↔ p r = true := by
    rw [List.mem_map]
    constructor
    · rintro ⟨x, hx, hk⟩
      obtain ⟨hm, hp⟩ := List.mem_filter.mp hx
      rwa [eq_of_mem hm hr hk] at hp
    · intro hp
      exact ⟨r, List.mem_filter.mpr ⟨hr, hp⟩, rfl⟩
  rw [Bool.eq_iff_iff, decide_eq_true_iff, hiff]
  simp

end Table

end Sql
