import Mathlib.Algebra.GroupWithZero.Nat
import Mathlib.Data.List.Basic
import Mathlib.Data.Nat.Init

/-!
# Runs of a machine

A machine is a function that answers the state after an action, or `none` where the
action is not possible. A run may be restricted to leave only states that satisfy a
condition. An infinite run is fair to a thread if the thread goes on whenever it
always can.
-/

namespace FairRun

section
variable {σ α : Type}

/-- The states that are reached from `init` when every state that is left satisfies `ok`. -/
inductive Reach (step : σ → α → Option σ) (ok : σ → Prop) (init : σ) : σ → Prop
  | refl : Reach step ok init init
  | step {s s' : σ} {a : α} (h : Reach step ok init s) (hok : ok s) (hstep : step s a = some s') :
    Reach step ok init s'

variable {step : σ → α → Option σ} {ok : σ → Prop} {init s : σ}

theorem Reach.invariant {I : σ → Prop} (h : Reach step ok init s) (hinit : I init)
    (hstep : ∀ s a s', I s → ok s → step s a = some s' → I s') : I s := by
  induction h with
  | refl => exact hinit
  | step _ hok hs ih => exact hstep _ _ _ ih hok hs

def exec (step : σ → α → Option σ) : List α → σ → Option σ
  | [], s => some s
  | a :: as, s => (step s a).bind (exec step as)

end

/-! ## Fair runs -/

section
variable {σ α : Type}

/-- An infinite run; where there is no action, nothing happens. -/
structure Execution (step : σ → α → Option σ) (init : σ) (run : ℕ → σ) (act : ℕ → Option α) : Prop where
  start : run 0 = init
  next : ∀ n, (act n = none ∧ run (n + 1) = run n) ∨ ∃ a, act n = some a ∧ step (run n) a = some (run (n + 1))

/-- A thread, given by its actions, goes on if from some time on it always can. -/
def WeakFair (step : σ → α → Option σ) (thread : α → Prop) (run : ℕ → σ) (act : ℕ → Option α) : Prop :=
  ∀ n, (∀ k, n ≤ k → ∃ a, thread a ∧ (step (run k) a).isSome) → ∃ k, n ≤ k ∧ ∃ a, thread a ∧ act k = some a

variable {step : σ → α → Option σ} {init : σ} {run : ℕ → σ} {act : ℕ → Option α}

theorem Execution.invariant (h : Execution step init run act) {I : σ → Prop} (hinit : I init)
    (hstep : ∀ n a, act n = some a → step (run n) a = some (run (n + 1)) → I (run n) → I (run (n + 1))) (n : ℕ) :
    I (run n) := by
  induction n with
  | zero =>
    rw [h.start]
    exact hinit
  | succ n ih =>
    rcases h.next n with ⟨-, heq⟩ | ⟨a, hact, hs⟩
    · rw [heq]
      exact ih
    · exact hstep n a hact hs ih

/-- What no action changes holds from then on. -/
theorem Execution.stable (h : Execution step init run act) {I : σ → Prop}
    (hstep : ∀ s a s', step s a = some s' → I s → I s') {n m : ℕ} (hnm : n ≤ m) (hn : I (run n)) : I (run m) := by
  induction m, hnm using Nat.le_induction with
  | base => exact hn
  | succ m _ ih =>
    rcases h.next m with ⟨-, heq⟩ | ⟨a, -, hs⟩
    · rw [heq]
      exact ih
    · exact hstep _ a _ hs ih

/-- A thread that can go on as long as `P` holds, and whose actions lower a rank that no action raises, ends `P`. -/
theorem Execution.leadsTo (h : Execution step init run act) {thread : α → Prop} (hfair : WeakFair step thread run act)
    {P Q : σ → Prop} (rank : σ → ℕ) (henabled : ∀ k, P (run k) → ∃ a, thread a ∧ (step (run k) a).isSome)
    (hstep : ∀ k a, act k = some a → step (run k) a = some (run (k + 1)) → P (run k) →
      Q (run (k + 1)) ∨ P (run (k + 1)) ∧ rank (run (k + 1)) ≤ rank (run k) ∧
        (thread a → rank (run (k + 1)) < rank (run k)))
    {n : ℕ} (hn : P (run n)) : ∃ m, n ≤ m ∧ Q (run m) := by
  induction hr : rank (run n) using Nat.strong_induction_on generalizing n with
  | _ r ih =>
    by_contra hnever
    -- without `Q`, `P` goes on and the rank does not rise
    have hkeep : ∀ k, n ≤ k → P (run k) ∧ rank (run k) ≤ r := by
      intro k hk
      induction k, hk using Nat.le_induction with
      | base => exact ⟨hn, Nat.le_of_eq hr⟩
      | succ k hk ihk =>
        rcases h.next k with ⟨-, heq⟩ | ⟨a, hact, hs⟩
        · rw [heq]
          exact ihk
        · rcases hstep k a hact hs ihk.1 with hQ | ⟨hP, hle, -⟩
          · exact absurd ⟨k + 1, by omega, hQ⟩ hnever
          · exact ⟨hP, Nat.le_trans hle ihk.2⟩
    obtain ⟨k, hk, a, ha, hact⟩ := hfair n fun k hk => henabled k (hkeep k hk).1
    obtain ⟨hP, hle⟩ := hkeep k hk
    rcases h.next k with ⟨hnone, -⟩ | ⟨a', hact', hs⟩
    · cases hact.symm.trans hnone
    · cases hact.symm.trans hact'
      rcases hstep k a hact hs hP with hQ | ⟨hP', -, hlt⟩
      · exact hnever ⟨k + 1, by omega, hQ⟩
      · obtain ⟨m, hm, hQ⟩ := ih _ (Nat.lt_of_lt_of_le (hlt ha) hle) hP' rfl
        exact hnever ⟨m, by omega, hQ⟩

/-- A thread that can go on as long as `P` holds, and whose first action ends `P`. -/
theorem Execution.leadsTo_next (h : Execution step init run act) {thread : α → Prop}
    (hfair : WeakFair step thread run act) {P Q : σ → Prop}
    (henabled : ∀ k, P (run k) → ∃ a, thread a ∧ (step (run k) a).isSome)
    (hstep : ∀ k a, step (run k) a = some (run (k + 1)) → P (run k) → Q (run (k + 1)) ∨ ¬ thread a ∧ P (run (k + 1)))
    {n : ℕ} (hn : P (run n)) : ∃ m, n ≤ m ∧ Q (run m) := by
  refine h.leadsTo hfair (fun _ => 0) henabled (fun k a _ hs hP => ?_) hn
  rcases hstep k a hs hP with hQ | ⟨ha, hP'⟩
  · exact Or.inl hQ
  · exact Or.inr ⟨hP', Nat.le_refl 0, fun hthread => absurd hthread ha⟩

def path (step : σ → α → Option σ) : List α → σ → ℕ → σ
  | [], s, _ => s
  | _ :: _, s, 0 => s
  | a :: as, s, n + 1 => path step as ((step s a).getD s) n

theorem path_execution {as : List α} {s t : σ} (h : exec step as s = some t) :
    Execution step s (path step as s) fun n => as[n]? := by
  refine ⟨by cases as <;> rfl, ?_⟩
  intro n
  induction as generalizing s n with
  | nil => exact Or.inl ⟨rfl, rfl⟩
  | cons a as ih =>
    obtain ⟨s', hs, hrest⟩ := Option.bind_eq_some_iff.mp h
    cases n with
    | zero =>
      refine Or.inr ⟨a, rfl, ?_⟩
      rw [path, path, hs, Option.getD_some]
      cases as <;> rfl
    | succ n =>
      rw [path, path, hs, Option.getD_some]
      exact ih hrest n

theorem path_end {as : List α} {s t : σ} (h : exec step as s = some t) {n : ℕ} (hn : as.length ≤ n) :
    path step as s n = t := by
  induction as generalizing s n with
  | nil =>
    cases h
    rfl
  | cons a as ih =>
    obtain ⟨s', hs, hrest⟩ := Option.bind_eq_some_iff.mp h
    cases n with
    | zero => cases hn
    | succ n =>
      rw [path, hs, Option.getD_some]
      exact ih hrest (Nat.le_of_succ_le_succ hn)

/-- A run that ends where a thread cannot go on is fair to it. -/
theorem path_fair {as : List α} {s t : σ} (h : exec step as s = some t) {thread : α → Prop}
    (hend : ∀ a, thread a → step t a = none) : WeakFair step thread (path step as s) fun n => as[n]? := by
  intro n henabled
  obtain ⟨a, ha, hsome⟩ := henabled (max n as.length) (Nat.le_max_left _ _)
  rw [path_end h (Nat.le_max_right _ _), hend a ha] at hsome
  cases hsome

end

/-! ## Lists of threads -/

section
variable {τ : Type} {l : List τ} {i : ℕ} {x : τ}

/-- A thread takes a step. -/
theorem sum_map_set (f : τ → ℕ) (h : l[i]? = some x) (y : τ) :
    ((l.set i y).map f).sum + f x = (l.map f).sum + f y := by
  induction l generalizing i with
  | nil => cases h
  | cons z l ih =>
    cases i with
    | zero =>
      cases h
      simp only [List.set_cons_zero, List.map_cons, List.sum_cons]
      omega
    | succ i =>
      have := ih h
      simp only [List.set_cons_succ, List.map_cons, List.sum_cons]
      omega

/-- A thread ends. -/
theorem sum_map_eraseIdx (f : τ → ℕ) (h : l[i]? = some x) : ((l.eraseIdx i).map f).sum + f x = (l.map f).sum := by
  induction l generalizing i with
  | nil => cases h
  | cons z l ih =>
    cases i with
    | zero =>
      cases h
      simp only [List.eraseIdx_cons_zero, List.map_cons, List.sum_cons]
      omega
    | succ i =>
      have := ih h
      simp only [List.eraseIdx_cons_succ, List.map_cons, List.sum_cons]
      omega

end

end FairRun
