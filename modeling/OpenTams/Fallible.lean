import Mathlib.Data.List.Forall2

/-!
# Fallible computations

Sequences of computations that may fail: when one succeeds and when it fails,
and the same for a computation on every element of a list.
-/

namespace Fallible

variable {ε α β : Type}

theorem bind_ok {x : Except ε α} {f : α → Except ε β} {b : β} :
    (x >>= f) = .ok b ↔ ∃ a, x = .ok a ∧ f a = .ok b := by
  cases x <;> simp [Bind.bind, Except.bind]

theorem bind_error {x : Except ε α} {f : α → Except ε β} {e : ε} :
    (x >>= f) = .error e ↔ x = .error e ∨ ∃ a, x = .ok a ∧ f a = .error e := by
  cases x <;> simp [Bind.bind, Except.bind]

theorem mapError_ok {ε' : Type} {x : Except ε' α} {g : ε' → ε} {a : α} : x.mapError g = .ok a ↔ x = .ok a := by
  cases x <;> simp [Except.mapError]

/-- A field that may be absent, with the error of its parser wrapped. -/
theorem optional_ok {ε' : Type} {f : α → Except ε' β} {g : α → ε' → ε} {F : Option α → Except ε (Option β)}
    (hnone : F none = .ok none) (hsome : ∀ s, F (some s) = ((f s).mapError (g s)).map some) {o : Option α}
    {b : Option β} : F o = .ok b ↔ o.map f = b.map .ok := by
  cases o with
  | none => cases b <;> simp [hnone]
  | some s =>
    rw [hsome]
    cases hf : f s with
    | error e => cases b <;> simp [Except.map, Except.mapError, hf]
    | ok x => cases b <;> simp [Except.map, Except.mapError, hf]

/-- A field and what it was parsed to are there together. -/
theorem optional_cases {f : α → Except ε β} {o : Option α} {b : Option β} (h : o.map f = b.map .ok) :
    (o = none ∧ b = none) ∨ ∃ s x, o = some s ∧ b = some x ∧ f s = .ok x := by
  cases o with
  | none =>
    cases b with
    | none => exact Or.inl ⟨rfl, rfl⟩
    | some x => cases h
  | some s =>
    cases b with
    | none => cases h
    | some x => exact Or.inr ⟨s, x, rfl, rfl, Option.some.inj h⟩

theorem exists_of_forall₂ {R : α → β → Prop} {xs : List α} {ys : List β} (h : List.Forall₂ R xs ys) {y : β}
    (hy : y ∈ ys) : ∃ x ∈ xs, R x y := by
  induction h with
  | nil => cases hy
  | @cons x y' xs ys hxy _ ih =>
    rcases List.mem_cons.mp hy with rfl | hy
    · exact ⟨x, List.mem_cons_self, hxy⟩
    · obtain ⟨x', hx', hr⟩ := ih hy
      exact ⟨x', List.mem_cons_of_mem x hx', hr⟩

variable {f : α → Except ε β} {xs : List α}

theorem mapM_ok {ys : List β} : xs.mapM f = .ok ys ↔ List.Forall₂ (fun x y => f x = .ok y) xs ys := by
  induction xs generalizing ys with
  | nil =>
    rw [List.mapM_nil, List.forall₂_nil_left_iff]
    exact ⟨fun h => (by cases h; rfl), fun h => h ▸ rfl⟩
  | cons x xs ih =>
    rw [List.mapM_cons, bind_ok, List.forall₂_cons_left_iff]
    constructor
    · rintro ⟨y, hy, h⟩
      obtain ⟨ys', hys, h⟩ := bind_ok.mp h
      cases h
      exact ⟨y, ys', hy, ih.mp hys, rfl⟩
    · rintro ⟨y, ys', hy, hys, rfl⟩
      exact ⟨y, hy, bind_ok.mpr ⟨ys', ih.mpr hys, rfl⟩⟩

theorem mapM_some (h : ∀ x ∈ xs, ∃ y, f x = .ok y) : ∃ ys, xs.mapM f = .ok ys := by
  induction xs with
  | nil => exact ⟨[], rfl⟩
  | cons x xs ih =>
    obtain ⟨⟨y, hy⟩, hxs⟩ := List.forall_mem_cons.mp h
    obtain ⟨ys, hys⟩ := ih hxs
    exact ⟨y :: ys, mapM_ok.mpr (.cons hy (mapM_ok.mp hys))⟩

theorem mapM_error {e : ε} (h : xs.mapM f = .error e) : ∃ x ∈ xs, f x = .error e := by
  induction xs with
  | nil => cases h
  | cons x xs ih =>
    rw [List.mapM_cons] at h
    rcases bind_error.mp h with hx | ⟨y, -, h⟩
    · exact ⟨x, List.mem_cons_self, hx⟩
    rcases bind_error.mp h with hxs | ⟨ys, -, h⟩
    · obtain ⟨x', hx', he⟩ := ih hxs
      exact ⟨x', List.mem_cons_of_mem x hx', he⟩
    · cases h

theorem mapM_eq_some {f : α → Option β} {ys : List β} :
    xs.mapM f = some ys ↔ List.Forall₂ (fun x y => f x = some y) xs ys := by
  induction xs generalizing ys with
  | nil =>
    rw [List.mapM_nil, List.forall₂_nil_left_iff]
    exact ⟨fun h => (by cases h; rfl), fun h => h ▸ rfl⟩
  | cons x xs ih =>
    rw [List.mapM_cons, List.forall₂_cons_left_iff]
    simp only [Option.bind_eq_bind, Option.bind_eq_some_iff, ih]
    constructor
    · rintro ⟨y, hy, ys', hys, h⟩
      cases h
      exact ⟨y, ys', hy, hys, rfl⟩
    · rintro ⟨y, ys', hy, hys, rfl⟩
      exact ⟨y, hy, ys', hys, rfl⟩

end Fallible
