import OpenTams.Errors
import OpenTams.FairRun

/-!
# The pool of presigned URLs

`urlPool` of `tools/opentamspub`: the goroutine that refills the pool, the consumer
that takes from it, and the cancellation of the context that both share. Only the
consumer keeps the mutex over more than one action: between the look at the empty
pool and `Wait` it reads the context, which can be cancelled at any moment. The
refiller returns on a cancellation without a broadcast.
-/

namespace OpenTams.UrlPool

open FairRun

inductive TakeError where
  | context
  | closed

inductive Refiller (α : Type) where
  | lock
  | parked
  | alloc (need : ℤ)
  | failed
  | sleep
  | append (batch : List α)
  | gone

/-- Where the consumer is: `idle` and `finished` are not in `take`. -/
inductive Consumer where
  | idle
  | lock
  | tested
  | committed
  | parked
  | finished
  deriving DecidableEq

structure State (α : Type) where
  urls : List α
  closed : Bool
  cancelled : Bool
  refiller : Refiller α
  consumer : Consumer
  answer : Option (Except TakeError α)

/-- What the refiller meets: the answer of `AllocateStorage`, or the case of its `select`. -/
inductive Reply (α : Type) where
  | go
  | ok (batch : List α)
  | error
  | done
  | timer

inductive Act (α : Type) where
  | cancel
  | close
  | call
  | finish
  | take
  | refill (r : Reply α)

/-- The batch of `runLiveMode`. -/
def liveBatch (batch : ℤ) : ℤ :=
  let batch := if batch < 1 then 16 else batch
  if 1024 < batch then 1024 else batch

def urlPoolRefillRatio : ℤ := 4

section
variable {α : Type} (target : ℤ)

def newURLPool : State α := ⟨[], false, false, .lock, .idle, none⟩

def Refiller.wake : Refiller α → Refiller α
  | .parked => .lock
  | r => r

def Consumer.wake : Consumer → Consumer
  | .parked => .lock
  | c => c

def State.broadcast (s : State α) : State α := { s with refiller := s.refiller.wake, consumer := s.consumer.wake }

def Consumer.holds : Consumer → Bool
  | .tested | .committed => true
  | _ => false

def test (s : State α) : State α :=
  if !s.closed && decide (target.tdiv urlPoolRefillRatio < s.urls.length) then { s with refiller := .parked }
  else if s.closed then { s with refiller := .gone }
  else
    let need := target - s.urls.length
    if need ≤ 0 then { s with refiller := .lock } else { s with refiller := .alloc need }

def refill (s : State α) (r : Reply α) : Option (State α) :=
  match s.refiller, r with
  | .lock, .go => if s.consumer.holds then none else some (test target s)
  | .alloc _, .ok batch => if s.cancelled then none else some { s with refiller := .append batch }
  | .alloc _, .error => some { s with refiller := .failed }
  | .failed, .go => if s.cancelled then some { s with refiller := .gone } else some { s with refiller := .sleep }
  | .sleep, .done => if s.cancelled then some { s with refiller := .gone } else none
  | .sleep, .timer => some { s with refiller := .lock }
  | .append batch, .go =>
    if s.consumer.holds then none
    else some { s with urls := s.urls ++ batch, refiller := .lock }.broadcast
  | _, _ => none

def take (s : State α) : Option (State α) :=
  match s.consumer with
  | .lock => match s.urls with
    | [] => some { s with consumer := .tested }
    | u :: rest => some { s with urls := rest, consumer := .idle, answer := some (.ok u) }.broadcast
  | .tested =>
    if s.cancelled then some { s with consumer := .idle, answer := some (.error .context) }
    else some { s with consumer := .committed }
  | .committed =>
    if s.closed then some { s with consumer := .idle, answer := some (.error .closed) }
    else some { s with consumer := .parked }
  | _ => none

/-- `close` is only called when the consumer has returned. -/
def step (s : State α) : Act α → Option (State α)
  | .cancel => some { s with cancelled := true }
  | .close => if s.consumer = .finished then some { s with closed := true }.broadcast else none
  | .call => if s.consumer = .idle then some { s with consumer := .lock, answer := none } else none
  | .finish => if s.consumer = .idle then some { s with consumer := .finished } else none
  | .take => take s
  | .refill r => refill target s r

end

/-! ## What an action does -/

inductive Stepped {α : Type} (target : ℤ) (s : State α) : Act α → State α → Prop
  | cancels : Stepped target s .cancel { s with cancelled := true }
  | closes (h : s.consumer = .finished) : Stepped target s .close { s with closed := true }.broadcast
  | calls (h : s.consumer = .idle) : Stepped target s .call { s with consumer := .lock, answer := none }
  | finishes (h : s.consumer = .idle) : Stepped target s .finish { s with consumer := .finished }
  | finds (h : s.consumer = .lock) (hempty : s.urls = []) : Stepped target s .take { s with consumer := .tested }
  | takes {u : α} {rest : List α} (h : s.consumer = .lock) (hurls : s.urls = u :: rest) :
    Stepped target s .take { s with urls := rest, consumer := .idle, answer := some (.ok u) }.broadcast
  | quits (h : s.consumer = .tested) (hcancelled : s.cancelled = true) :
    Stepped target s .take { s with consumer := .idle, answer := some (.error .context) }
  | commits (h : s.consumer = .tested) (hlive : s.cancelled = false) :
    Stepped target s .take { s with consumer := .committed }
  | refused (h : s.consumer = .committed) (hclosed : s.closed = true) :
    Stepped target s .take { s with consumer := .idle, answer := some (.error .closed) }
  | parks (h : s.consumer = .committed) (hopen : s.closed = false) :
    Stepped target s .take { s with consumer := .parked }
  | fills (h : s.refiller = .lock) (hfull : target.tdiv urlPoolRefillRatio < s.urls.length) :
    Stepped target s (.refill .go) { s with refiller := .parked }
  | ends (h : s.refiller = .lock) (hclosed : s.closed = true) :
    Stepped target s (.refill .go) { s with refiller := .gone }
  | spins (h : s.refiller = .lock) (hneed : target ≤ s.urls.length) :
    Stepped target s (.refill .go) { s with refiller := .lock }
  | asks (h : s.refiller = .lock) : Stepped target s (.refill .go) { s with refiller := .alloc (target - s.urls.length) }
  | allocates {need : ℤ} {batch : List α} (h : s.refiller = .alloc need) (hlive : s.cancelled = false) :
    Stepped target s (.refill (.ok batch)) { s with refiller := .append batch }
  | fails {need : ℤ} (h : s.refiller = .alloc need) : Stepped target s (.refill .error) { s with refiller := .failed }
  | rests (h : s.refiller = .failed) (hlive : s.cancelled = false) :
    Stepped target s (.refill .go) { s with refiller := .sleep }
  | leaves {r : Reply α} (h : s.refiller = .failed ∨ s.refiller = .sleep) (hcancelled : s.cancelled = true) :
    Stepped target s (.refill r) { s with refiller := .gone }
  | retries (h : s.refiller = .sleep) : Stepped target s (.refill .timer) { s with refiller := .lock }
  | appends {batch : List α} (h : s.refiller = .append batch) (hfree : s.consumer.holds = false) :
    Stepped target s (.refill .go) { s with urls := s.urls ++ batch, refiller := .lock }.broadcast

section
variable {α : Type} {target : ℤ} {s s' : State α}

theorem test_cases (h : s.refiller = .lock) : Stepped target s (.refill .go) (test target s) := by
  unfold test
  split
  · rename_i hfull
    obtain ⟨-, hfull⟩ := Bool.and_eq_true_iff.mp hfull
    exact .fills h (of_decide_eq_true hfull)
  · split
    · exact .ends h ‹_›
    · dsimp only
      split
      · exact .spins h (by omega)
      · exact .asks h

theorem refill_cases {r : Reply α} (h : refill target s r = some s') : Stepped target s (.refill r) s' := by
  unfold refill at h
  split at h
  · rename_i hpc
    split at h
    · cases h
    · cases h
      exact test_cases hpc
  · rename_i hpc
    split at h
    · cases h
    · cases h
      exact .allocates hpc (Bool.eq_false_iff.mpr ‹_›)
  · rename_i hpc
    cases h
    exact .fails hpc
  · rename_i hpc
    split at h
    · cases h
      exact .leaves (Or.inl hpc) ‹_›
    · cases h
      exact .rests hpc (Bool.eq_false_iff.mpr ‹_›)
  · rename_i hpc
    split at h
    · cases h
      exact .leaves (Or.inr hpc) ‹_›
    · cases h
  · rename_i hpc
    cases h
    exact .retries hpc
  · rename_i hpc
    split at h
    · cases h
    · cases h
      exact .appends hpc (Bool.eq_false_iff.mpr ‹_›)
  · cases h

theorem take_cases (h : take s = some s') : Stepped target s .take s' := by
  unfold take at h
  split at h
  · rename_i hpc
    split at h
    · rename_i hurls
      cases h
      exact .finds hpc hurls
    · rename_i hurls
      cases h
      exact .takes hpc hurls
  · rename_i hpc
    split at h
    · cases h
      exact .quits hpc ‹_›
    · cases h
      exact .commits hpc (Bool.eq_false_iff.mpr ‹_›)
  · rename_i hpc
    split at h
    · cases h
      exact .refused hpc ‹_›
    · cases h
      exact .parks hpc (Bool.eq_false_iff.mpr ‹_›)
  · cases h

theorem step_cases {a : Act α} (h : step target s a = some s') : Stepped target s a s' := by
  cases a with
  | cancel =>
    cases h
    exact .cancels
  | close =>
    obtain ⟨hpc, heq⟩ := Option.ite_none_right_eq_some.mp h
    cases heq
    exact .closes hpc
  | call =>
    obtain ⟨hpc, heq⟩ := Option.ite_none_right_eq_some.mp h
    cases heq
    exact .calls hpc
  | finish =>
    obtain ⟨hpc, heq⟩ := Option.ite_none_right_eq_some.mp h
    cases heq
    exact .finishes hpc
  | take => exact take_cases h
  | refill r => exact refill_cases h

end

/-! ## Invariants -/

def Consumer.waits : Consumer → Bool
  | .tested | .committed | .parked => true
  | _ => false

structure Inv {α : Type} (s : State α) : Prop where
  closed : s.closed = true → s.consumer = .finished
  empty : s.consumer.waits = true → s.urls = []
  parked : s.refiller = .parked → s.urls ≠ []
  gone : s.refiller = .gone → s.cancelled = true ∨ s.closed = true

section
variable {α : Type} {target : ℤ} {s s' : State α} {a : Act α}

@[simp] theorem refiller_wake_ne_parked (r : Refiller α) : r.wake ≠ .parked := by cases r <;> nofun

theorem wake_gone {r : Refiller α} (h : r.wake = .gone) : r = .gone := by
  cases r with
  | gone => rfl
  | _ => cases h

theorem Inv.step (h : Inv s) (htarget : 0 ≤ target) (hs : Stepped target s a s') : Inv s' := by
  have hopen : s.consumer ≠ .finished → s.closed = false := fun hne =>
    Bool.eq_false_iff.mpr fun hc => hne (h.closed hc)
  cases hs with
  | cancels => exact ⟨h.closed, h.empty, h.parked, fun _ => Or.inl rfl⟩
  | closes hpc =>
    refine ⟨fun _ => ?_, ?_, fun hr => absurd hr (refiller_wake_ne_parked _), fun _ => Or.inr rfl⟩
    · dsimp only [State.broadcast]
      rw [hpc]
      rfl
    · dsimp only [State.broadcast]
      rw [hpc]
      nofun
  | calls hpc =>
    have hc := hopen (by rw [hpc]; nofun)
    exact ⟨fun hclosed => absurd hclosed (by rw [hc]; nofun), nofun, h.parked, h.gone⟩
  | finishes hpc => exact ⟨fun _ => rfl, nofun, h.parked, h.gone⟩
  | finds hpc hempty =>
    have hc := hopen (by rw [hpc]; nofun)
    exact ⟨fun hclosed => absurd hclosed (by rw [hc]; nofun), fun _ => hempty, h.parked, h.gone⟩
  | takes hpc hurls =>
    have hc := hopen (by rw [hpc]; nofun)
    exact ⟨fun hclosed => absurd hclosed (by dsimp only [State.broadcast]; rw [hc]; nofun), nofun,
      fun hr => absurd hr (refiller_wake_ne_parked _), fun hr => h.gone (wake_gone hr)⟩
  | quits hpc hcancelled =>
    have hc := hopen (by rw [hpc]; nofun)
    exact ⟨fun hclosed => absurd hclosed (by rw [hc]; nofun), nofun, h.parked, h.gone⟩
  | commits hpc hlive =>
    have hc := hopen (by rw [hpc]; nofun)
    exact ⟨fun hclosed => absurd hclosed (by rw [hc]; nofun), fun _ => h.empty (by rw [hpc]; rfl), h.parked, h.gone⟩
  | refused hpc hclosed =>
    have hc := hopen (by rw [hpc]; nofun)
    exact ⟨fun hclosed => absurd hclosed (by rw [hc]; nofun), nofun, h.parked, h.gone⟩
  | parks hpc hc =>
    exact ⟨fun hclosed => absurd hclosed (by rw [hc]; nofun), fun _ => h.empty (by rw [hpc]; rfl), h.parked, h.gone⟩
  | fills hpc hfull =>
    refine ⟨h.closed, h.empty, fun _ hnil => ?_, nofun⟩
    have hquarter : 0 ≤ target.tdiv urlPoolRefillRatio := Int.tdiv_nonneg htarget (by decide)
    dsimp only at hnil
    rw [hnil, List.length_nil] at hfull
    omega
  | ends hpc hclosed => exact ⟨h.closed, h.empty, nofun, fun _ => Or.inr hclosed⟩
  | spins => exact ⟨h.closed, h.empty, nofun, nofun⟩
  | asks => exact ⟨h.closed, h.empty, nofun, nofun⟩
  | allocates => exact ⟨h.closed, h.empty, nofun, nofun⟩
  | fails => exact ⟨h.closed, h.empty, nofun, nofun⟩
  | rests => exact ⟨h.closed, h.empty, nofun, nofun⟩
  | leaves _ hcancelled => exact ⟨h.closed, h.empty, nofun, fun _ => Or.inl hcancelled⟩
  | retries => exact ⟨h.closed, h.empty, nofun, nofun⟩
  | appends hpc hfree =>
    refine ⟨fun hclosed => ?_, fun hwaits => ?_, nofun, nofun⟩
    · dsimp only [State.broadcast]
      rw [h.closed hclosed]
      rfl
    · -- the consumer does not hold the mutex, and does not sleep any more
      dsimp only [State.broadcast] at hwaits
      cases hpc' : s.consumer with
      | tested =>
        rw [hpc'] at hfree
        cases hfree
      | committed =>
        rw [hpc'] at hfree
        cases hfree
      | _ =>
        rw [hpc'] at hwaits
        cases hwaits

end

/-! ## Fair runs -/

def Consumer.inTake : Consumer → Bool
  | .lock | .tested | .committed | .parked => true
  | _ => false

structure FairPool {α : Type} (target : ℤ) (run : ℕ → State α) (act : ℕ → Option (Act α)) : Prop where
  exec : Execution (step target) newURLPool run act
  consumer : WeakFair (step target) (· = .take) run act
  refiller : WeakFair (step target) (fun a => ∃ r, a = .refill r) run act

/-- A call of `take` that is not over when the context is cancelled, or that comes later, returns. -/
def TakesReturn {α : Type} (run : ℕ → State α) : Prop :=
  ∀ n, (run n).cancelled = true → (run n).consumer.inTake = true → ∃ m, n ≤ m ∧ (run m).consumer = .idle

def State.Awaits {α : Type} (s : State α) : Prop := s.consumer = .committed ∨ s.consumer = .parked

def Deserts {α : Type} (target : ℤ) (s : State α) (a : Act α) : Prop :=
  s.Awaits ∧ s.refiller ≠ .gone ∧ ∃ s', step target s a = some s' ∧ s'.refiller = .gone

theorem one_le_liveBatch (batch : ℤ) : 1 ≤ liveBatch batch := by
  unfold liveBatch
  dsimp only
  split <;> split <;> omega

section
variable {α : Type} {target : ℤ} {s s' : State α} {a : Act α} {run : ℕ → State α} {act : ℕ → Option (Act α)}

theorem inv_run (h : FairPool target run act) (htarget : 0 ≤ target) (n : ℕ) : Inv (run n) :=
  h.exec.invariant ⟨nofun, nofun, nofun, nofun⟩ (fun _ _ _ hs hi => hi.step htarget (step_cases hs)) n

theorem cancelled_step (hs : Stepped target s a s') (h : s.cancelled = true) : s'.cancelled = true := by
  cases hs with
  | cancels => rfl
  | _ => exact h

/-! ## A consumer that was deserted -/

def State.Deserted {α : Type} (s : State α) : Prop := s.refiller = .gone ∧ s.Awaits ∧ s.closed = false

theorem deserted_step (h : s.Deserted) (hs : Stepped target s a s') : s'.Deserted := by
  obtain ⟨hgone, hawaits, hopen⟩ := h
  have hpc (c : Consumer) (hc : s.consumer = c) (hne : c ≠ .committed ∧ c ≠ .parked) : False := by
    rcases hawaits with h | h
    · exact hne.1 (hc.symm.trans h)
    · exact hne.2 (hc.symm.trans h)
  have hrefiller (r : Refiller α) (hr : s.refiller = r) (hne : r ≠ .gone) : False := hne (hr.symm.trans hgone)
  cases hs with
  | cancels => exact ⟨hgone, hawaits, hopen⟩
  | closes h => exact (hpc _ h ⟨nofun, nofun⟩).elim
  | calls h => exact (hpc _ h ⟨nofun, nofun⟩).elim
  | finishes h => exact (hpc _ h ⟨nofun, nofun⟩).elim
  | finds h => exact (hpc _ h ⟨nofun, nofun⟩).elim
  | takes h => exact (hpc _ h ⟨nofun, nofun⟩).elim
  | quits h => exact (hpc _ h ⟨nofun, nofun⟩).elim
  | commits h => exact (hpc _ h ⟨nofun, nofun⟩).elim
  | refused _ hclosed => cases hopen.symm.trans hclosed
  | parks => exact ⟨hgone, Or.inr rfl, hopen⟩
  | fills h => exact (hrefiller _ h nofun).elim
  | ends h => exact (hrefiller _ h nofun).elim
  | spins h => exact (hrefiller _ h nofun).elim
  | asks h => exact (hrefiller _ h nofun).elim
  | allocates h => exact (hrefiller _ h nofun).elim
  | fails h => exact (hrefiller _ h nofun).elim
  | rests h => exact (hrefiller _ h nofun).elim
  | leaves => exact ⟨rfl, hawaits, hopen⟩
  | retries h => exact (hrefiller _ h nofun).elim
  | appends h => exact (hrefiller _ h nofun).elim

/-- The refiller leaves only a cancelled or a closed pool. -/
theorem Deserts.deserted (hi : Inv s) (h : Deserts target s a) (hs : step target s a = some s') :
    s'.Deserted ∧ s'.cancelled = true := by
  obtain ⟨hawaits, hne, t, ht, hgone⟩ := h
  cases hs.symm.trans ht
  have hopen : s.closed = false := by
    refine Bool.eq_false_iff.mpr fun hclosed => ?_
    have hfinished := hi.closed hclosed
    rcases hawaits with h | h
    · cases h.symm.trans hfinished
    · cases h.symm.trans hfinished
  cases step_cases hs with
  | leaves _ hcancelled => exact ⟨⟨rfl, hawaits, hopen⟩, hcancelled⟩
  | ends _ hclosed => cases hopen.symm.trans hclosed
  | cancels => exact absurd hgone hne
  | closes => exact absurd (wake_gone hgone) hne
  | calls => exact absurd hgone hne
  | finishes => exact absurd hgone hne
  | finds => exact absurd hgone hne
  | takes => exact absurd (wake_gone hgone) hne
  | quits => exact absurd hgone hne
  | commits => exact absurd hgone hne
  | refused => exact absurd hgone hne
  | parks => exact absurd hgone hne
  | fills => cases hgone
  | spins => cases hgone
  | asks => cases hgone
  | allocates => cases hgone
  | fails => cases hgone
  | rests => cases hgone
  | retries => cases hgone
  | appends => cases hgone

/-- A consumer that was deserted never returns. -/
theorem not_takesReturn (h : FairPool target run act) (htarget : 0 ≤ target) {n : ℕ} (hact : act n = some a)
    (hdeserts : Deserts target (run n) a) : ¬ TakesReturn run := by
  intro hreturn
  rcases h.exec.next n with ⟨hnone, -⟩ | ⟨a', hact', hs⟩
  · cases hact.symm.trans hnone
  cases hact.symm.trans hact'
  obtain ⟨hdeserted, hcancelled⟩ := hdeserts.deserted (inv_run h htarget n) hs
  have hin : (run (n + 1)).consumer.inTake = true := by
    rcases hdeserted.2.1 with hpc | hpc
    · rw [hpc]
      rfl
    · rw [hpc]
      rfl
  obtain ⟨m, hm, hidle⟩ := hreturn (n + 1) hcancelled hin
  have hstill : (run m).Deserted := h.exec.stable (fun _ _ _ hs hd => deserted_step hd (step_cases hs)) hm hdeserted
  rcases hstill.2.1 with hpc | hpc
  · cases hpc.symm.trans hidle
  · cases hpc.symm.trans hidle

/-! ## A consumer that was not deserted -/

theorem awaits_step (hs : Stepped target s a s') (h : s'.Awaits) :
    s.Awaits ∨ s.consumer = .tested ∧ s.cancelled = false ∧ s'.refiller = s.refiller := by
  have hwake : ∀ c : Consumer, c.wake = .committed ∨ c.wake = .parked → c = .committed := by
    intro c hc
    cases c with
    | committed => rfl
    | _ => rcases hc with hc | hc <;> cases hc
  cases hs with
  | closes => exact Or.inl (Or.inl (hwake _ h))
  | appends => exact Or.inl (Or.inl (hwake _ h))
  | takes => rcases h with h | h <;> cases h
  | calls => rcases h with h | h <;> cases h
  | finishes => rcases h with h | h <;> cases h
  | finds => rcases h with h | h <;> cases h
  | quits => rcases h with h | h <;> cases h
  | refused => rcases h with h | h <;> cases h
  | commits hpc hlive => exact Or.inr ⟨hpc, hlive, rfl⟩
  | parks hpc => exact Or.inl (Or.inl hpc)
  | _ => exact Or.inl h

section
variable (h : FairPool target run act) (htarget : 1 ≤ target) (hstay : ∀ n a, act n = some a → ¬ Deserts target (run n) a)
include h htarget hstay

theorem refiller_stays (n : ℕ) (hgone : (run n).refiller = .gone) : ¬ (run n).Awaits := by
  refine h.exec.invariant (I := fun s => s.refiller = .gone → ¬ s.Awaits) (fun hr => by cases hr) ?_ n hgone
  intro n a hact hs ih hgone hawaits
  have hinv := inv_run h (by omega) n
  rcases awaits_step (step_cases hs) hawaits with hbefore | ⟨hpc, hlive, hsame⟩
  · by_cases hr : (run n).refiller = .gone
    · exact ih hr hbefore
    · exact hstay n a hact ⟨hbefore, hr, _, hs, hgone⟩
  · rcases hinv.gone (hsame.symm.trans hgone) with hcancelled | hclosed
    · cases hlive.symm.trans hcancelled
    · cases hpc.symm.trans (hinv.closed hclosed)

end

/-- Only its own actions move a consumer that is awake. -/
theorem consumer_step (hs : Stepped target s a s') (hne : a ≠ .take)
    (hpc : s.consumer = .lock ∨ s.consumer = .tested ∨ s.consumer = .committed) : s'.consumer = s.consumer := by
  have hwake : s.consumer.wake = s.consumer := by
    rcases hpc with hpc | hpc | hpc <;> rw [hpc] <;> rfl
  cases hs with
  | closes h => exact hwake
  | appends h => exact hwake
  | calls h => rw [h] at hpc; rcases hpc with hpc | hpc | hpc <;> cases hpc
  | finishes h => rw [h] at hpc; rcases hpc with hpc | hpc | hpc <;> cases hpc
  | finds => exact absurd rfl hne
  | takes => exact absurd rfl hne
  | quits => exact absurd rfl hne
  | commits => exact absurd rfl hne
  | refused => exact absurd rfl hne
  | parks => exact absurd rfl hne
  | _ => rfl

/-- The actions of the consumer, by where it is. -/
theorem take_step (hs : Stepped target s .take s') :
    (s.consumer = .lock → s'.consumer = .idle ∨ s'.consumer = .tested) ∧
      (s.consumer = .tested → s.cancelled = true → s'.consumer = .idle) ∧
      (s.consumer = .committed → s'.consumer = .idle ∨ s'.consumer = .parked) := by
  cases hs with
  | finds h =>
    refine ⟨fun _ => Or.inr rfl, fun hpc => ?_, fun hpc => ?_⟩
    · cases h.symm.trans hpc
    · cases h.symm.trans hpc
  | takes h =>
    refine ⟨fun _ => Or.inl rfl, fun hpc => ?_, fun hpc => ?_⟩
    · cases h.symm.trans hpc
    · cases h.symm.trans hpc
  | quits h => exact ⟨fun _ => Or.inl rfl, fun _ _ => rfl, fun _ => Or.inl rfl⟩
  | commits h hlive =>
    refine ⟨fun hpc => ?_, fun _ hcancelled => ?_, fun hpc => ?_⟩
    · cases h.symm.trans hpc
    · cases hlive.symm.trans hcancelled
    · cases h.symm.trans hpc
  | refused h => exact ⟨fun _ => Or.inl rfl, fun _ _ => rfl, fun _ => Or.inl rfl⟩
  | parks h =>
    refine ⟨fun hpc => ?_, fun hpc => ?_, fun _ => Or.inr rfl⟩
    · cases h.symm.trans hpc
    · cases h.symm.trans hpc

/-- The consumer is never kept from going on while it is awake. -/
theorem take_enabled (hpc : s.consumer = .lock ∨ s.consumer = .tested ∨ s.consumer = .committed) :
    ∃ a, a = .take ∧ (step target s a).isSome := by
  refine ⟨.take, rfl, ?_⟩
  dsimp only [step]
  unfold take
  rcases hpc with hpc | hpc | hpc
  · rw [hpc]
    dsimp only
    split <;> rfl
  · rw [hpc]
    dsimp only
    split <;> rfl
  · rw [hpc]
    dsimp only
    split <;> rfl

theorem lock_leadsTo (h : FairPool target run act) {n : ℕ} (hpc : (run n).consumer = .lock) :
    ∃ m, n ≤ m ∧ ((run m).consumer = .idle ∨ (run m).consumer = .tested) := by
  refine h.exec.leadsTo_next h.consumer (P := fun s => s.consumer = .lock)
    (Q := fun s => s.consumer = .idle ∨ s.consumer = .tested) (fun k hpc => take_enabled (Or.inl hpc)) ?_ hpc
  intro k a hs hpc
  by_cases ha : a = .take
  · subst ha
    exact Or.inl ((take_step (step_cases hs)).1 hpc)
  · exact Or.inr ⟨ha, (consumer_step (step_cases hs) ha (Or.inl hpc)).trans hpc⟩

theorem tested_leadsTo (h : FairPool target run act) {n : ℕ} (hcancelled : (run n).cancelled = true)
    (hpc : (run n).consumer = .tested) : ∃ m, n ≤ m ∧ (run m).consumer = .idle := by
  refine h.exec.leadsTo_next h.consumer (P := fun s => s.cancelled = true ∧ s.consumer = .tested)
    (Q := fun s => s.consumer = .idle) (fun k hP => take_enabled (Or.inr (Or.inl hP.2))) ?_ ⟨hcancelled, hpc⟩
  rintro k a hs ⟨hcancelled, hpc⟩
  by_cases ha : a = .take
  · subst ha
    exact Or.inl ((take_step (step_cases hs)).2.1 hpc hcancelled)
  · exact Or.inr ⟨ha, cancelled_step (step_cases hs) hcancelled,
      (consumer_step (step_cases hs) ha (Or.inr (Or.inl hpc))).trans hpc⟩

theorem committed_leadsTo (h : FairPool target run act) {n : ℕ} (hpc : (run n).consumer = .committed) :
    ∃ m, n ≤ m ∧ ((run m).consumer = .idle ∨ (run m).consumer = .parked) := by
  refine h.exec.leadsTo_next h.consumer (P := fun s => s.consumer = .committed)
    (Q := fun s => s.consumer = .idle ∨ s.consumer = .parked) (fun k hpc => take_enabled (Or.inr (Or.inr hpc))) ?_ hpc
  intro k a hs hpc
  by_cases ha : a = .take
  · subst ha
    exact Or.inl ((take_step (step_cases hs)).2.2 hpc)
  · exact Or.inr ⟨ha, (consumer_step (step_cases hs) ha (Or.inr (Or.inr hpc))).trans hpc⟩

/-! ## The wake-up -/

def Refiller.rank : Refiller α → ℕ
  | .sleep => 3
  | .lock => 2
  | .alloc _ => 1
  | _ => 0

/-- What the refiller does while the consumer sleeps: it wakes it, it returns, or it comes nearer to its end. -/
theorem parked_step (hi : Inv s) (htarget : 1 ≤ target) (hcancelled : s.cancelled = true)
    (hpc : s.consumer = .parked) (hs : Stepped target s a s') :
    s'.consumer = .lock ∨ (s'.refiller = .gone ∧ s'.consumer = .parked) ∨
      s'.consumer = .parked ∧ s'.refiller.rank ≤ s.refiller.rank ∧
        ((∃ r, a = .refill r) → s'.refiller.rank < s.refiller.rank) := by
  have hempty : s.urls = [] := hi.empty (by rw [hpc]; rfl)
  have hopen : s.closed = false := by
    refine Bool.eq_false_iff.mpr fun hclosed => ?_
    cases hpc.symm.trans (hi.closed hclosed)
  cases hs with
  | cancels => exact Or.inr (Or.inr ⟨hpc, Nat.le_refl _, by rintro ⟨r, hr⟩; cases hr⟩)
  | closes h => cases hpc.symm.trans h
  | calls h => cases hpc.symm.trans h
  | finishes h => cases hpc.symm.trans h
  | finds h => cases hpc.symm.trans h
  | takes h => cases hpc.symm.trans h
  | quits h => cases hpc.symm.trans h
  | commits h => cases hpc.symm.trans h
  | refused h => cases hpc.symm.trans h
  | parks h => cases hpc.symm.trans h
  | fills _ hfull =>
    rw [hempty, List.length_nil] at hfull
    have hquarter : 0 ≤ target.tdiv urlPoolRefillRatio := Int.tdiv_nonneg (by omega) (by decide)
    omega
  | ends _ hclosed => cases hopen.symm.trans hclosed
  | spins _ hneed =>
    rw [hempty, List.length_nil] at hneed
    omega
  | asks h =>
    rw [h]
    exact Or.inr (Or.inr ⟨hpc, Nat.le_succ _, fun _ => Nat.lt_succ_self _⟩)
  | allocates _ hlive => cases hcancelled.symm.trans hlive
  | fails h =>
    rw [h]
    exact Or.inr (Or.inr ⟨hpc, Nat.zero_le _, fun _ => Nat.zero_lt_one⟩)
  | rests _ hlive => cases hcancelled.symm.trans hlive
  | leaves => exact Or.inr (Or.inl ⟨rfl, hpc⟩)
  | retries h =>
    rw [h]
    exact Or.inr (Or.inr ⟨hpc, Nat.le_succ _, fun _ => Nat.lt_succ_self _⟩)
  | appends h =>
    refine Or.inl ?_
    dsimp only [State.broadcast]
    rw [hpc]
    rfl

theorem refill_enabled (hi : Inv s) (hcancelled : s.cancelled = true) (hpc : s.consumer = .parked)
    (hgone : s.refiller ≠ .gone) : ∃ a, (∃ r, a = .refill r) ∧ (step target s a).isSome := by
  have hfree : s.consumer.holds = false := by rw [hpc]; rfl
  have hsome (r : Reply α) (hr : (refill target s r).isSome) : ∃ a, (∃ r, a = .refill r) ∧ (step target s a).isSome :=
    ⟨.refill r, ⟨r, rfl⟩, hr⟩
  cases hr : s.refiller with
  | lock =>
    refine hsome .go ?_
    unfold refill
    rw [hr]
    dsimp only
    rw [hfree]
    rfl
  | parked => exact absurd (hi.empty (by rw [hpc]; rfl)) (hi.parked hr)
  | alloc need =>
    refine hsome .error ?_
    unfold refill
    rw [hr]
    rfl
  | failed =>
    refine hsome .go ?_
    unfold refill
    rw [hr]
    dsimp only
    rw [if_pos hcancelled]
    rfl
  | sleep =>
    refine hsome .timer ?_
    unfold refill
    rw [hr]
    rfl
  | append batch =>
    refine hsome .go ?_
    unfold refill
    rw [hr]
    dsimp only
    rw [hfree]
    rfl
  | gone => exact absurd hr hgone

section
variable (h : FairPool target run act) (htarget : 1 ≤ target) (hstay : ∀ n a, act n = some a → ¬ Deserts target (run n) a)
include h htarget hstay

theorem parked_leadsTo {n : ℕ} (hcancelled : (run n).cancelled = true) (hpc : (run n).consumer = .parked) :
    ∃ m, n ≤ m ∧ (run m).consumer = .lock := by
  refine h.exec.leadsTo h.refiller (P := fun s => s.cancelled = true ∧ s.consumer = .parked)
    (Q := fun s => s.consumer = .lock) (fun s => s.refiller.rank) ?_ ?_ ⟨hcancelled, hpc⟩
  · rintro k ⟨hcancelled, hpc⟩
    refine refill_enabled (inv_run h (by omega) k) hcancelled hpc fun hgone => ?_
    exact refiller_stays h htarget hstay k hgone (Or.inr hpc)
  · rintro k a - hs ⟨hcancelled, hpc⟩
    have hcancelled' := cancelled_step (step_cases hs) hcancelled
    rcases parked_step (inv_run h (by omega) k) htarget hcancelled hpc (step_cases hs) with
      hlock | ⟨hgone, hpc'⟩ | ⟨hpc', hrank⟩
    · exact Or.inl hlock
    · exact absurd (Or.inr hpc') (refiller_stays h htarget hstay (k + 1) hgone)
    · exact Or.inr ⟨⟨hcancelled', hpc'⟩, hrank⟩

theorem takesReturn : TakesReturn run := by
  intro n hcancelled hin
  have hstable {m : ℕ} (hm : n ≤ m) : (run m).cancelled = true :=
    h.exec.stable (fun _ _ _ hs => cancelled_step (step_cases hs)) hm hcancelled
  -- from the back: awake, asleep, and about to sleep
  have hawake {m : ℕ} (hm : n ≤ m) (hpc : (run m).consumer = .lock) : ∃ k, n ≤ k ∧ (run k).consumer = .idle := by
    obtain ⟨k, hk, hidle | htested⟩ := lock_leadsTo h hpc
    · exact ⟨k, by omega, hidle⟩
    · obtain ⟨j, hj, hidle⟩ := tested_leadsTo h (hstable (by omega)) htested
      exact ⟨j, by omega, hidle⟩
  have hasleep {m : ℕ} (hm : n ≤ m) (hpc : (run m).consumer = .parked) : ∃ k, n ≤ k ∧ (run k).consumer = .idle := by
    obtain ⟨k, hk, hlock⟩ := parked_leadsTo h htarget hstay (hstable hm) hpc
    exact hawake (by omega) hlock
  cases hpc : (run n).consumer with
  | lock => exact hawake (Nat.le_refl n) hpc
  | tested => exact tested_leadsTo h hcancelled hpc
  | committed =>
    obtain ⟨k, hk, hidle | hparked⟩ := committed_leadsTo h hpc
    · exact ⟨k, hk, hidle⟩
    · exact hasleep hk hparked
  | parked => exact hasleep (Nat.le_refl n) hpc
  | idle =>
    rw [hpc] at hin
    cases hin
  | finished =>
    rw [hpc] at hin
    cases hin

end

/-- After a cancellation every `take` returns if and only if the refiller never leaves a consumer that waits. -/
theorem takes_return_iff {batch : ℤ} (h : FairPool (liveBatch batch) run act) :
    TakesReturn run ↔ ∀ n a, act n = some a → ¬ Deserts (liveBatch batch) (run n) a := by
  have htarget := one_le_liveBatch batch
  constructor
  · intro hreturn n a hact hdeserts
    exact not_takesReturn h (by omega) hact hdeserts hreturn
  · exact takesReturn h htarget

end

def savedActs : List (Act Unit) :=
  [.call, .take, .take, .take, .refill .go, .refill (.ok [()]), .cancel, .refill .go, .take, .refill .go, .refill .error,
    .refill .go]

theorem savedActs_return : FairPool (liveBatch 1) (path (step (liveBatch 1)) savedActs newURLPool) (savedActs[·]?) ∧
    TakesReturn (path (step (liveBatch 1)) savedActs newURLPool) := by
  have hexec : exec (step (liveBatch 1)) savedActs newURLPool = some ⟨[], false, true, .gone, .idle, some (.ok ())⟩ := rfl
  have hfair : FairPool (liveBatch 1) (path (step (liveBatch 1)) savedActs newURLPool) (savedActs[·]?) := by
    refine ⟨path_execution hexec, path_fair hexec ?_, path_fair hexec ?_⟩
    · rintro _ rfl
      rfl
    · rintro _ ⟨r, rfl⟩
      cases r <;> rfl
  refine ⟨hfair, (takes_return_iff hfair).mpr fun n a hact hdeserts => ?_⟩
  rcases hfair.exec.next n with ⟨hnone, -⟩ | ⟨a', hact', hs⟩
  · cases hact.symm.trans hnone
  cases hact.symm.trans hact'
  have hdeserted := (hdeserts.deserted (inv_run hfair (by decide) n) hs).1
  have hstill := hfair.exec.stable (fun _ _ _ hs hd => deserted_step hd (step_cases hs))
    (Nat.le_max_left (n + 1) savedActs.length) hdeserted
  rw [path_end hexec (Nat.le_max_right _ _)] at hstill
  rcases hstill.2.1 with hpc | hpc
  · cases hpc
  · cases hpc

/-- The context is cancelled during `AllocateStorage`, while the consumer sleeps. -/
def desertedActs : List (Act Unit) :=
  [.call, .take, .take, .take, .refill .go, .cancel, .refill .error, .refill .go]

theorem desertedActs_hang :
    FairPool (liveBatch 16) (path (step (liveBatch 16)) desertedActs newURLPool) (desertedActs[·]?) ∧
      ¬ TakesReturn (path (step (liveBatch 16)) desertedActs newURLPool) := by
  have hexec : exec (step (liveBatch 16)) desertedActs newURLPool = some ⟨[], false, true, .gone, .parked, none⟩ := rfl
  refine ⟨⟨path_execution hexec, path_fair hexec ?_, path_fair hexec ?_⟩, fun hreturn => ?_⟩
  · rintro _ rfl
    rfl
  · rintro _ ⟨r, rfl⟩
    cases r <;> rfl
  · obtain ⟨m, hm, hidle⟩ := hreturn desertedActs.length rfl rfl
    rw [path_end hexec hm] at hidle
    cases hidle

end OpenTams.UrlPool
