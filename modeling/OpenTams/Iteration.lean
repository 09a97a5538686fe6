import Mathlib.Data.List.Basic

/-!
# Iterators

An iterator whose `Next` is a loop: a turn of the loop stops, goes on with another
state, or yields a state. `drain` calls `Next` until it answers false; what it
yields is an inductive relation, so that runs can be put together piece by piece.
-/

namespace Iteration

inductive Turn (σ : Type) where
  | stop
  | skip (s : σ)
  | yield (s : σ)

section
variable {σ : Type} (turn : σ → Turn σ)

/-- `Next`: the state it leaves and its answer, or `none` if the fuel does not suffice. -/
def next : Nat → σ → Option (σ × Bool)
  | 0, _ => none
  | fuel + 1, s => match turn s with
    | .stop => some (s, false)
    | .skip s' => next fuel s'
    | .yield s' => some (s', true)

/-- The states after each call that answered true, up to the first that did not. -/
def drain : Nat → σ → Option (List σ)
  | 0, _ => none
  | fuel + 1, s => match next turn (fuel + 1) s with
    | none => none
    | some (_, false) => some []
    | some (s', true) => (drain fuel s').map (s' :: ·)

def Drains (s : σ) (out : List σ) : Prop := ∃ fuel, drain turn fuel s = some out

inductive Emits : σ → List σ → Prop
  | stop {s : σ} (h : turn s = .stop) : Emits s []
  | skip {s s' : σ} {out : List σ} (h : turn s = .skip s') (hrest : Emits s' out) : Emits s out
  | yield {s s' : σ} {out : List σ} (h : turn s = .yield s') (hrest : Emits s' out) : Emits s (s' :: out)

inductive Runs : σ → List σ → σ → Prop
  | refl {s : σ} : Runs s [] s
  | skip {s s' t : σ} {out : List σ} (h : turn s = .skip s') (hrest : Runs s' out t) : Runs s out t
  | yield {s s' t : σ} {out : List σ} (h : turn s = .yield s') (hrest : Runs s' out t) : Runs s (s' :: out) t

end

section
variable {σ : Type} {turn : σ → Turn σ} {s t u : σ} {out out' : List σ} {fuel : Nat}

/-! ## Fuel -/

theorem next_mono {r : σ × Bool} (h : next turn fuel s = some r) (k : Nat) : next turn (fuel + k) s = some r := by
  induction fuel generalizing s with
  | zero => cases h
  | succ fuel ih =>
    rw [Nat.succ_add]
    rw [next] at h ⊢
    cases hturn : turn s with
    | stop =>
      rw [hturn] at h
      exact h
    | skip s' =>
      rw [hturn] at h
      exact ih h
    | yield s' =>
      rw [hturn] at h
      exact h

theorem drain_mono (h : drain turn fuel s = some out) (k : Nat) : drain turn (fuel + k) s = some out := by
  induction fuel generalizing s out with
  | zero => cases h
  | succ fuel ih =>
    rw [drain] at h
    rw [Nat.succ_add, drain]
    cases hnext : next turn (fuel + 1) s with
    | none =>
      rw [hnext] at h
      cases h
    | some r =>
      obtain ⟨s', b⟩ := r
      rw [hnext] at h
      have hmore := next_mono hnext k
      rw [Nat.succ_add] at hmore
      rw [hmore]
      cases b with
      | false => exact h
      | true =>
        obtain ⟨rest, hrest, rfl⟩ := Option.map_eq_some_iff.mp h
        dsimp only
        rw [ih hrest, Option.map_some]

/-- A turn that goes on costs one unit of fuel. -/
theorem drain_skip (hturn : turn s = .skip t) (h : drain turn fuel t = some out) :
    drain turn (fuel + 1) s = some out := by
  cases fuel with
  | zero => cases h
  | succ fuel =>
    rw [drain] at h ⊢
    rw [next, hturn]
    dsimp only
    cases hnext : next turn (fuel + 1) t with
    | none =>
      rw [hnext] at h
      cases h
    | some r =>
      obtain ⟨s', b⟩ := r
      rw [hnext] at h
      cases b with
      | false => exact h
      | true =>
        obtain ⟨rest, hrest, rfl⟩ := Option.map_eq_some_iff.mp h
        dsimp only
        rw [drain_mono hrest 1, Option.map_some]

theorem Emits.drain (h : Emits turn s out) : Drains turn s out := by
  induction h with
  | stop h => exact ⟨1, by rw [Iteration.drain, next, h]⟩
  | skip h _ ih =>
    obtain ⟨fuel, hfuel⟩ := ih
    exact ⟨fuel + 1, drain_skip h hfuel⟩
  | yield h _ ih =>
    obtain ⟨fuel, hfuel⟩ := ih
    refine ⟨fuel + 1, ?_⟩
    rw [Iteration.drain, next, h]
    dsimp only
    rw [hfuel, Option.map_some]

/-- What `Next` did before it answered. -/
theorem emits_of_next {b : Bool} (h : next turn fuel s = some (t, b)) :
    (b = false → Emits turn s []) ∧ (b = true → ∀ out, Emits turn t out → Emits turn s (t :: out)) := by
  induction fuel generalizing s with
  | zero => cases h
  | succ fuel ih =>
    rw [next] at h
    cases hturn : turn s with
    | stop =>
      rw [hturn] at h
      cases h
      exact ⟨fun _ => .stop hturn, fun hb => by cases hb⟩
    | skip s' =>
      rw [hturn] at h
      obtain ⟨hfalse, htrue⟩ := ih h
      exact ⟨fun hb => .skip hturn (hfalse hb), fun hb out hout => .skip hturn (htrue hb out hout)⟩
    | yield s' =>
      rw [hturn] at h
      cases h
      exact ⟨fun hb => (by cases hb), fun _ _ hout => .yield hturn hout⟩

theorem emits_of_drain (h : drain turn fuel s = some out) : Emits turn s out := by
  induction fuel generalizing s out with
  | zero => cases h
  | succ fuel ih =>
    rw [drain] at h
    cases hnext : next turn (fuel + 1) s with
    | none =>
      rw [hnext] at h
      cases h
    | some r =>
      obtain ⟨s', b⟩ := r
      rw [hnext] at h
      cases b with
      | false =>
        cases h
        exact (emits_of_next hnext).1 rfl
      | true =>
        obtain ⟨rest, hrest, rfl⟩ := Option.map_eq_some_iff.mp h
        exact (emits_of_next hnext).2 rfl rest (ih hrest)

theorem drains_iff : Drains turn s out ↔ Emits turn s out := by
  constructor
  · rintro ⟨fuel, h⟩
    exact emits_of_drain h
  · exact Emits.drain

/-! ## Pieces of a run -/

theorem Emits.unique (h : Emits turn s out) (h' : Emits turn s out') : out = out' := by
  induction h generalizing out' with
  | stop h =>
    cases h' with
    | stop => rfl
    | skip h' => cases h.symm.trans h'
    | yield h' => cases h.symm.trans h'
  | skip h _ ih =>
    cases h' with
    | stop h' => cases h.symm.trans h'
    | skip h' hrest' =>
      cases h.symm.trans h'
      exact ih hrest'
    | yield h' => cases h.symm.trans h'
  | yield h _ ih =>
    cases h' with
    | stop h' => cases h.symm.trans h'
    | skip h' => cases h.symm.trans h'
    | yield h' hrest' =>
      cases h.symm.trans h'
      rw [ih hrest']

theorem Runs.trans (h : Runs turn s out t) (h' : Runs turn t out' u) : Runs turn s (out ++ out') u := by
  induction h with
  | refl => exact h'
  | skip h _ ih => exact .skip h (ih h')
  | yield h _ ih => exact .yield h (ih h')

theorem Runs.emits (h : Runs turn s out t) (h' : Emits turn t out') : Emits turn s (out ++ out') := by
  induction h with
  | refl => exact h'
  | skip h _ ih => exact .skip h (ih h')
  | yield h _ ih => exact .yield h (ih h')

/-- An inner loop: it yields up to the position `d` and then goes on. -/
theorem runs_range (pos : ℕ → σ) {d : ℕ} (hyield : ∀ j < d, turn (pos j) = .yield (pos (j + 1)))
    (hskip : turn (pos d) = .skip t) : Runs turn (pos 0) ((List.range d).map fun j => pos (j + 1)) t := by
  have hfrom : ∀ n j, j + n = d → Runs turn (pos j) ((List.range' j n).map fun j => pos (j + 1)) t := by
    intro n
    induction n with
    | zero =>
      rintro j rfl
      exact .skip hskip .refl
    | succ n ih =>
      intro j hj
      exact .yield (hyield j (by omega)) (ih (j + 1) (by omega))
  rw [List.range_eq_range']
  exact hfrom d 0 (Nat.zero_add d)

/-- An outer loop, of which a round yields `round i`. -/
theorem runs_rounds (start : ℕ → σ → Prop) (round : ℕ → List σ) {n : ℕ}
    (h : ∀ i < n, ∀ s, start i s → ∃ t, start (i + 1) t ∧ Runs turn s (round i) t) (hs : start 0 s) :
    ∃ t, start n t ∧ Runs turn s ((List.range n).flatMap round) t := by
  induction n with
  | zero => exact ⟨s, hs, .refl⟩
  | succ n ih =>
    obtain ⟨t, ht, hrun⟩ := ih fun i hi => h i (by omega)
    obtain ⟨u, hu, hlast⟩ := h n (by omega) t ht
    refine ⟨u, hu, ?_⟩
    rw [List.range_succ, List.flatMap_append, List.flatMap_singleton]
    exact hrun.trans hlast

/-- A complete run goes on from where a part of it ends. -/
theorem Runs.rest (h : Runs turn s out t) {all : List σ} (hall : Emits turn s all) :
    ∃ out', all = out ++ out' ∧ Emits turn t out' := by
  induction h generalizing all with
  | refl => exact ⟨all, rfl, hall⟩
  | skip h _ ih =>
    cases hall with
    | stop h' => cases h.symm.trans h'
    | skip h' hrest' =>
      cases h.symm.trans h'
      exact ih hrest'
    | yield h' => cases h.symm.trans h'
  | yield h _ ih =>
    cases hall with
    | stop h' => cases h.symm.trans h'
    | skip h' => cases h.symm.trans h'
    | yield h' hrest' =>
      cases h.symm.trans h'
      obtain ⟨out', rfl, hout⟩ := ih hrest'
      exact ⟨out', rfl, hout⟩

end

end Iteration
