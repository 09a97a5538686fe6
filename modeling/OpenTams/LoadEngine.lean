import Mathlib.Algebra.Order.BigOperators.Group.List
import OpenTams.Errors
import OpenTams.FairRun
import OpenTams.TimerangeSound

/-!
# The engine of the load generator

`runEngine` of `tools/scaletest/loadgen`: the dispatch loop, its goroutines and the
atomic counters they share. An action of the machine is one read or write of what is
shared, a clock that goes on, or the cancellation. What the jitter makes of the
elapsed time is an argument. `sent` is not in the source: it lists the instants at which
the loop has dispatched an operation.
-/

namespace OpenTams.LoadEngine

open FairRun

structure EngineConfig where
  warmup : Int64
  measure : Int64
  maxInflight : Int64
  /-- The interval to the next dispatch at an elapsed time. -/
  interval : ℤ → ℤ

structure EngineStats where
  attempted : Int64
  shed : Int64
  completed : Int64
  maxInflight : Int64
  measureDur : Int64
  deriving DecidableEq

inductive Pc where
  | top
  | sleep
  | woke
  | stamp
  | offer (measuring : Bool)
  | enter (measuring : Bool)
  | load (measuring : Bool) (cur : Int64)
  | swap (measuring : Bool) (cur old : Int64)
  | spawn (measuring : Bool)
  | wait
  | returned (st : EngineStats)
  deriving DecidableEq

inductive Worker where
  | ready (measuring : Bool)
  | running (measuring : Bool)
  | ran (measuring responded : Bool)
  | leaving
  | releasing
  | ending
  deriving DecidableEq

structure State where
  clock : ℤ
  cancelled : Bool
  start : ℤ
  next : ℤ
  pc : Pc
  sem : ℕ
  attempted : Int64
  shed : Int64
  completed : Int64
  curInflight : Int64
  maxInflightSeen : Int64
  wg : ℕ
  workers : List Worker
  sent : List ℤ
  deriving DecidableEq

inductive Act where
  | tick (now : ℤ)
  | cancel
  | dispatch
  | worker (i : ℕ) (responded : Bool)

section
variable (cfg : EngineConfig)

def EngineConfig.maxIF : ℕ := (max cfg.maxInflight.toInt 1).toNat

def EngineConfig.warmupEnd (start : ℤ) : ℤ := start + cfg.warmup.toInt

def EngineConfig.measureEnd (start : ℤ) : ℤ := cfg.warmupEnd start + cfg.measure.toInt

def init (now : ℤ) : State where
  clock := now
  cancelled := false
  start := now
  next := now
  pc := .top
  sem := 0
  attempted := 0
  shed := 0
  completed := 0
  curInflight := 0
  maxInflightSeen := 0
  wg := 0
  workers := []
  sent := []

def dispatch (s : State) : Option State :=
  match s.pc with
  | .top =>
    if cfg.measureEnd s.start ≤ s.clock || s.cancelled then some { s with pc := .wait }
    else some { s with next := s.next + cfg.interval (s.clock - s.start), pc := .sleep }
  | .sleep => if s.next ≤ s.clock || s.cancelled then some { s with pc := .woke } else none
  | .woke => if s.cancelled then some { s with pc := .wait } else some { s with pc := .stamp }
  | .stamp =>
    if cfg.warmupEnd s.start ≤ s.clock then some { s with attempted := s.attempted + 1, pc := .offer true }
    else some { s with pc := .offer false }
  | .offer measuring =>
    if s.sem < cfg.maxIF then
      some { s with
        sem := s.sem + 1
        sent := s.sent ++ [s.clock]
        pc := .enter measuring }
    else some { s with shed := if measuring then s.shed + 1 else s.shed, pc := .top }
  | .enter measuring =>
    some { s with curInflight := s.curInflight + 1, pc := .load measuring (s.curInflight + 1) }
  | .load measuring cur =>
    if cur ≤ s.maxInflightSeen then some { s with pc := .spawn measuring }
    else some { s with pc := .swap measuring cur s.maxInflightSeen }
  | .swap measuring cur old =>
    if s.maxInflightSeen = old then some { s with maxInflightSeen := cur, pc := .spawn measuring }
    else some { s with pc := .load measuring cur }
  | .spawn measuring =>
    some { s with wg := s.wg + 1, workers := s.workers ++ [.ready measuring], pc := .top }
  | .wait =>
    if s.wg = 0 then
      some { s with pc := .returned ⟨s.attempted, s.shed, s.completed, s.maxInflightSeen, cfg.measure⟩ }
    else none
  | .returned _ => none

/-- A goroutine goes on; `responded` is what `runOne` answers when it returns. -/
def advance (s : State) (i : ℕ) (responded : Bool) : Worker → Option State
  | .ready measuring => some { s with workers := s.workers.set i (.running measuring) }
  | .running measuring => some { s with workers := s.workers.set i (.ran measuring responded) }
  | .ran measuring responded =>
    some { s with
      completed := if measuring && responded then s.completed + 1 else s.completed
      workers := s.workers.set i .leaving }
  | .leaving => some { s with curInflight := s.curInflight - 1, workers := s.workers.set i .releasing }
  | .releasing => if s.sem = 0 then none else some { s with sem := s.sem - 1, workers := s.workers.set i .ending }
  | .ending => some { s with wg := s.wg - 1, workers := s.workers.eraseIdx i }

def step (s : State) : Act → Option State
  | .tick now => if s.clock ≤ now then some { s with clock := now } else none
  | .cancel => some { s with cancelled := true }
  | .dispatch => dispatch cfg s
  | .worker i responded => s.workers[i]?.bind (advance s i responded)

end

inductive Dispatched (cfg : EngineConfig) (s : State) : State → Prop
  | leaves (hpc : s.pc = .top ∨ s.pc = .woke) : Dispatched cfg s { s with pc := .wait }
  | paces (hpc : s.pc = .top) :
    Dispatched cfg s { s with next := s.next + cfg.interval (s.clock - s.start), pc := .sleep }
  | wakes (hpc : s.pc = .sleep) : Dispatched cfg s { s with pc := .woke }
  | goes (hpc : s.pc = .woke) : Dispatched cfg s { s with pc := .stamp }
  | attempts (hpc : s.pc = .stamp) : Dispatched cfg s { s with attempted := s.attempted + 1, pc := .offer true }
  | warms (hpc : s.pc = .stamp) : Dispatched cfg s { s with pc := .offer false }
  | takes {measuring : Bool} (hpc : s.pc = .offer measuring) (hfree : s.sem < cfg.maxIF) :
    Dispatched cfg s { s with sem := s.sem + 1, sent := s.sent ++ [s.clock], pc := .enter measuring }
  | sheds {measuring : Bool} (hpc : s.pc = .offer measuring) (hfull : ¬ s.sem < cfg.maxIF) :
    Dispatched cfg s { s with shed := if measuring then s.shed + 1 else s.shed, pc := .top }
  | enters {measuring : Bool} (hpc : s.pc = .enter measuring) :
    Dispatched cfg s { s with curInflight := s.curInflight + 1, pc := .load measuring (s.curInflight + 1) }
  | keeps {measuring : Bool} {cur : Int64} (hpc : s.pc = .load measuring cur) :
    Dispatched cfg s { s with pc := .spawn measuring }
  | loads {measuring : Bool} {cur : Int64} (hpc : s.pc = .load measuring cur) :
    Dispatched cfg s { s with pc := .swap measuring cur s.maxInflightSeen }
  | raises {measuring : Bool} {cur old : Int64} (hpc : s.pc = .swap measuring cur old) :
    Dispatched cfg s { s with maxInflightSeen := cur, pc := .spawn measuring }
  | retries {measuring : Bool} {cur old : Int64} (hpc : s.pc = .swap measuring cur old) :
    Dispatched cfg s { s with pc := .load measuring cur }
  | spawns {measuring : Bool} (hpc : s.pc = .spawn measuring) :
    Dispatched cfg s { s with wg := s.wg + 1, workers := s.workers ++ [.ready measuring], pc := .top }
  | returns (hpc : s.pc = .wait) (hwg : s.wg = 0) :
    Dispatched cfg s { s with
      pc := .returned ⟨s.attempted, s.shed, s.completed, s.maxInflightSeen, cfg.measure⟩ }

theorem dispatch_cases {cfg : EngineConfig} {s s' : State} (h : dispatch cfg s = some s') : Dispatched cfg s s' := by
  unfold dispatch at h
  cases hpc : s.pc with
  | top =>
    rw [hpc] at h
    dsimp only at h
    split at h
    · cases h
      exact .leaves (Or.inl hpc)
    · cases h
      exact .paces hpc
  | sleep =>
    rw [hpc] at h
    dsimp only at h
    split at h
    · cases h
      exact .wakes hpc
    · cases h
  | woke =>
    rw [hpc] at h
    dsimp only at h
    split at h
    · cases h
      exact .leaves (Or.inr hpc)
    · cases h
      exact .goes hpc
  | stamp =>
    rw [hpc] at h
    dsimp only at h
    split at h
    · cases h
      exact .attempts hpc
    · cases h
      exact .warms hpc
  | offer measuring =>
    rw [hpc] at h
    dsimp only at h
    split at h
    · cases h
      exact .takes hpc ‹_›
    · cases h
      exact .sheds hpc ‹_›
  | enter measuring =>
    rw [hpc] at h
    cases h
    exact .enters hpc
  | load measuring cur =>
    rw [hpc] at h
    dsimp only at h
    split at h
    · cases h
      exact .keeps hpc
    · cases h
      exact .loads hpc
  | swap measuring cur old =>
    rw [hpc] at h
    dsimp only at h
    split at h
    · cases h
      exact .raises hpc
    · cases h
      exact .retries hpc
  | spawn measuring =>
    rw [hpc] at h
    cases h
    exact .spawns hpc
  | wait =>
    rw [hpc] at h
    dsimp only at h
    split at h
    · cases h
      exact .returns hpc ‹_›
    · cases h
  | returned st =>
    rw [hpc] at h
    cases h

/-! ## What is counted -/

def Pc.slots : Pc → ℕ
  | .enter _ | .load _ _ | .swap _ _ _ | .spawn _ => 1
  | _ => 0

/-- The loop has counted an operation that has no goroutine yet. -/
def Pc.inflight : Pc → ℕ
  | .load _ _ | .swap _ _ _ | .spawn _ => 1
  | _ => 0

def Pc.measured : Pc → ℕ
  | .enter true | .load true _ | .swap true _ _ | .spawn true => 1
  | _ => 0

/-- The loop has counted an attempt that is neither dispatched nor shed. -/
def Pc.undecided : Pc → ℕ
  | .offer true => 1
  | _ => 0

def Worker.slots : Worker → ℕ
  | .ending => 0
  | _ => 1

def Worker.inflight : Worker → ℕ
  | .releasing | .ending => 0
  | _ => 1

/-- A measured operation that has not been counted as completed. -/
def Worker.measured : Worker → ℕ
  | .ready true | .running true | .ran true _ => 1
  | _ => 0

def Worker.runs : Worker → ℕ
  | .running _ => 1
  | _ => 0

def State.running (s : State) : ℕ := (s.workers.map Worker.runs).sum

structure Inv (cfg : EngineConfig) (s : State) : Prop where
  slots : s.sem = s.pc.slots + (s.workers.map Worker.slots).sum
  capacity : s.sem ≤ cfg.maxIF
  inflight : s.curInflight = .ofNat (s.pc.inflight + (s.workers.map Worker.inflight).sum)
  seen : s.maxInflightSeen.toInt ≤ cfg.maxIF
  cur : ∀ measuring cur, (s.pc = .load measuring cur ∨ ∃ old, s.pc = .swap measuring cur old) → cur.toInt ≤ cfg.maxIF
  group : s.wg = s.workers.length
  stats : ∀ st, s.pc = .returned st →
    st = ⟨s.attempted, s.shed, s.completed, s.maxInflightSeen, cfg.measure⟩ ∧ s.workers = []

theorem maxIF_eq (cfg : EngineConfig) : (cfg.maxIF : ℤ) = max cfg.maxInflight.toInt 1 := by
  unfold EngineConfig.maxIF
  omega

theorem ofNat_succ (n : ℕ) : Int64.ofNat n + 1 = .ofNat (n + 1) := (Int64.ofNat_add n 1).symm

section
variable {cfg : EngineConfig} {s s' : State}

theorem inflight_le_slots (ws : List Worker) : (ws.map Worker.inflight).sum ≤ (ws.map Worker.slots).sum := by
  refine List.sum_le_sum fun w _ => ?_
  cases w <;> exact Nat.le_of_ble_eq_true rfl

/-- What is held at a place of the loop. -/
theorem Inv.held (h : Inv cfg s) {pc : Pc} (hpc : s.pc = pc) :
    s.sem = pc.slots + (s.workers.map Worker.slots).sum ∧
      s.curInflight = .ofNat (pc.inflight + (s.workers.map Worker.inflight).sum) := by
  subst hpc
  exact ⟨h.slots, h.inflight⟩

/-- A step that takes and counts no slot: the loop goes to a place that holds the same. -/
theorem Inv.moves (h : Inv cfg s) (next : ℤ) (attempted shed : Int64) {pc : Pc}
    (hpc : pc.slots = s.pc.slots ∧ pc.inflight = s.pc.inflight)
    (hcur : ∀ measuring cur, (pc = .load measuring cur ∨ ∃ old, pc = .swap measuring cur old) → cur.toInt ≤ cfg.maxIF)
    (hstats : ∀ st, pc ≠ .returned st) : Inv cfg { s with next, attempted, shed, pc } := by
  obtain ⟨hslots, hinflight⟩ := hpc
  refine ⟨?_, h.capacity, ?_, h.seen, hcur, h.group, fun st hst => absurd hst (hstats st)⟩
  · rw [hslots]
    exact h.slots
  · rw [hinflight]
    exact h.inflight

theorem Inv.takes (h : Inv cfg s) {measuring : Bool} (hpc : s.pc = .offer measuring) (hfree : s.sem < cfg.maxIF) :
    Inv cfg { s with sem := s.sem + 1, sent := s.sent ++ [s.clock], pc := .enter measuring } := by
  obtain ⟨hslots, hinflight⟩ := h.held hpc
  refine ⟨?_, hfree, hinflight, h.seen, nofun, h.group, nofun⟩
  dsimp only [Pc.slots] at hslots ⊢
  omega

theorem Inv.enters (h : Inv cfg s) {measuring : Bool} (hpc : s.pc = .enter measuring) :
    Inv cfg { s with curInflight := s.curInflight + 1, pc := .load measuring (s.curInflight + 1) } := by
  obtain ⟨hslots, hinflight⟩ := h.held hpc
  have hcap := h.capacity
  have hmax := maxIF_eq cfg
  have hlt := cfg.maxInflight.toInt_lt
  have hle := inflight_le_slots s.workers
  dsimp only [Pc.slots, Pc.inflight] at hslots hinflight
  rw [Nat.zero_add] at hinflight
  have hcount : s.curInflight + 1 = .ofNat ((s.workers.map Worker.inflight).sum + 1) := by
    rw [hinflight, ofNat_succ]
  refine ⟨hslots, hcap, ?_, h.seen, ?_, h.group, nofun⟩
  · dsimp only [Pc.inflight]
    rw [hcount, Nat.add_comm]
  · rintro _ _ (heq | ⟨old, heq⟩)
    · cases heq
      rw [hcount, Int64.toInt_ofNat_of_lt (by omega)]
      omega
    · cases heq

theorem Inv.raises (h : Inv cfg s) {measuring : Bool} {cur old : Int64} (hpc : s.pc = .swap measuring cur old) :
    Inv cfg { s with maxInflightSeen := cur, pc := .spawn measuring } := by
  obtain ⟨hslots, hinflight⟩ := h.held hpc
  exact ⟨hslots, h.capacity, hinflight, h.cur measuring cur (Or.inr ⟨old, hpc⟩), nofun, h.group, nofun⟩

theorem Inv.spawns (h : Inv cfg s) {measuring : Bool} (hpc : s.pc = .spawn measuring) :
    Inv cfg { s with wg := s.wg + 1, workers := s.workers ++ [.ready measuring], pc := .top } := by
  obtain ⟨hslots, hinflight⟩ := h.held hpc
  dsimp only [Pc.slots, Pc.inflight] at hslots hinflight
  refine ⟨?_, h.capacity, ?_, h.seen, nofun, ?_, nofun⟩
  · dsimp only [Pc.slots]
    rw [List.map_append, List.sum_append, hslots]
    simp [Worker.slots, Nat.add_comm]
  · dsimp only [Pc.inflight]
    rw [List.map_append, List.sum_append, hinflight]
    simp [Worker.inflight, Nat.add_comm]
  · dsimp only
    rw [h.group, List.length_append, List.length_singleton]

theorem Inv.returns (h : Inv cfg s) (hpc : s.pc = .wait) (hwg : s.wg = 0) :
    Inv cfg { s with pc := .returned ⟨s.attempted, s.shed, s.completed, s.maxInflightSeen, cfg.measure⟩ } := by
  obtain ⟨hslots, hinflight⟩ := h.held hpc
  refine ⟨hslots, h.capacity, hinflight, h.seen, nofun, h.group, ?_⟩
  rintro st hst
  cases hst
  exact ⟨rfl, List.length_eq_zero_iff.mp (h.group.symm.trans hwg)⟩

theorem Inv.dispatched (h : Inv cfg s) (hs : Dispatched cfg s s') : Inv cfg s' := by
  cases hs with
  | leaves hpc =>
    exact h.moves s.next _ _ (by rcases hpc with hpc | hpc <;> rw [hpc] <;> exact ⟨rfl, rfl⟩) nofun nofun
  | paces hpc => exact h.moves _ _ _ (by rw [hpc]; exact ⟨rfl, rfl⟩) nofun nofun
  | wakes hpc => exact h.moves s.next _ _ (by rw [hpc]; exact ⟨rfl, rfl⟩) nofun nofun
  | goes hpc => exact h.moves s.next _ _ (by rw [hpc]; exact ⟨rfl, rfl⟩) nofun nofun
  | attempts hpc => exact h.moves s.next _ _ (by rw [hpc]; exact ⟨rfl, rfl⟩) nofun nofun
  | warms hpc => exact h.moves s.next _ _ (by rw [hpc]; exact ⟨rfl, rfl⟩) nofun nofun
  | takes hpc hfree => exact h.takes hpc hfree
  | sheds hpc => exact h.moves s.next _ _ (by rw [hpc]; exact ⟨rfl, rfl⟩) nofun nofun
  | enters hpc => exact h.enters hpc
  | keeps hpc => exact h.moves s.next _ _ (by rw [hpc]; exact ⟨rfl, rfl⟩) nofun nofun
  | @loads measuring cur hpc =>
    refine h.moves s.next _ _ (by rw [hpc]; exact ⟨rfl, rfl⟩) ?_ nofun
    rintro _ _ (heq | ⟨old, heq⟩)
    · cases heq
    · cases heq
      exact h.cur measuring cur (Or.inl hpc)
  | raises hpc => exact h.raises hpc
  | @retries measuring cur old hpc =>
    refine h.moves s.next _ _ (by rw [hpc]; exact ⟨rfl, rfl⟩) ?_ nofun
    rintro _ _ (heq | ⟨old', heq⟩)
    · cases heq
      exact h.cur measuring cur (Or.inr ⟨old, hpc⟩)
    · cases heq
  | spawns hpc => exact h.spawns hpc
  | returns hpc hwg => exact h.returns hpc hwg

/-! ## Goroutines -/

/-- A goroutine goes on and changes what it holds. -/
theorem Inv.replaces (h : Inv cfg s) {i : ℕ} {w w' : Worker} (hw : s.workers[i]? = some w) {sem : ℕ}
    {completed curInflight : Int64} (hsem : sem + w.slots = s.sem + w'.slots) (hle : w'.slots ≤ w.slots)
    (hcur : curInflight + .ofNat w.inflight = s.curInflight + .ofNat w'.inflight) :
    Inv cfg { s with sem, completed, curInflight, workers := s.workers.set i w' } := by
  have hslots := h.slots
  have hcap := h.capacity
  have hsumSlots := sum_map_set Worker.slots hw w'
  have hsumInflight := sum_map_set Worker.inflight hw w'
  refine ⟨?_, ?_, ?_, h.seen, h.cur, ?_, ?_⟩
  · dsimp only
    omega
  · dsimp only
    omega
  · have hsum : curInflight + .ofNat w.inflight =
        .ofNat (s.pc.inflight + ((s.workers.set i w').map Worker.inflight).sum) + .ofNat w.inflight := by
      rw [hcur, h.inflight, ← Int64.ofNat_add, ← Int64.ofNat_add, Nat.add_assoc, Nat.add_assoc, hsumInflight]
    exact (Int64.add_left_inj _).mp hsum
  · dsimp only
    rw [List.length_set]
    exact h.group
  · intro st hst
    have hnone := (h.stats st hst).2
    rw [hnone] at hw
    cases hw

theorem Inv.ends (h : Inv cfg s) {i : ℕ} (hw : s.workers[i]? = some .ending) :
    Inv cfg { s with wg := s.wg - 1, workers := s.workers.eraseIdx i } := by
  have hsumSlots := sum_map_eraseIdx Worker.slots hw
  have hsumInflight := sum_map_eraseIdx Worker.inflight hw
  obtain ⟨hi, -⟩ := List.getElem?_eq_some_iff.mp hw
  refine ⟨?_, h.capacity, ?_, h.seen, h.cur, ?_, ?_⟩
  · rw [show ((s.workers.eraseIdx i).map Worker.slots).sum = (s.workers.map Worker.slots).sum from hsumSlots]
    exact h.slots
  · rw [show ((s.workers.eraseIdx i).map Worker.inflight).sum = (s.workers.map Worker.inflight).sum from hsumInflight]
    exact h.inflight
  · dsimp only
    rw [h.group, List.length_eraseIdx_of_lt hi]
  · intro st hst
    have hnone := (h.stats st hst).2
    rw [hnone] at hw
    cases hw

theorem Inv.advance (h : Inv cfg s) {i : ℕ} {responded : Bool} {w : Worker} (hw : s.workers[i]? = some w)
    (hs : advance s i responded w = some s') : Inv cfg s' := by
  cases w with
  | ready measuring =>
    cases hs
    exact h.replaces hw rfl le_rfl rfl
  | running measuring =>
    cases hs
    exact h.replaces hw rfl le_rfl rfl
  | ran measuring responded =>
    cases hs
    exact h.replaces hw rfl le_rfl rfl
  | leaving =>
    cases hs
    exact h.replaces hw rfl le_rfl ((Int64.sub_add_cancel _ _).trans (Int64.add_zero _).symm)
  | releasing =>
    dsimp only [LoadEngine.advance] at hs
    split at hs
    · cases hs
    · cases hs
      refine h.replaces hw ?_ (Nat.zero_le _) rfl
      dsimp only [Worker.slots]
      omega
  | ending =>
    cases hs
    exact h.ends hw

theorem Inv.step {a : Act} (h : Inv cfg s) (hs : step cfg s a = some s') : Inv cfg s' := by
  cases a with
  | tick now =>
    dsimp only [LoadEngine.step] at hs
    split at hs
    · cases hs
      exact ⟨h.slots, h.capacity, h.inflight, h.seen, h.cur, h.group, h.stats⟩
    · cases hs
  | cancel =>
    cases hs
    exact ⟨h.slots, h.capacity, h.inflight, h.seen, h.cur, h.group, h.stats⟩
  | dispatch => exact h.dispatched (dispatch_cases hs)
  | worker i responded =>
    obtain ⟨w, hw, hs⟩ := Option.bind_eq_some_iff.mp hs
    exact h.advance hw hs

/-- `runOne` is running only in goroutines that hold a slot. -/
theorem Inv.running_le (h : Inv cfg s) : s.running ≤ cfg.maxIF := by
  have hsum : s.running ≤ (s.workers.map Worker.slots).sum := by
    refine List.sum_le_sum fun w _ => ?_
    cases w <;> exact Nat.le_of_ble_eq_true rfl
  have hslots := h.slots
  have hcap := h.capacity
  omega

end

/-! ## The window -/

def EngineConfig.inWindow (cfg : EngineConfig) (start t : ℤ) : Bool :=
  cfg.warmupEnd start ≤ t && t < cfg.measureEnd start

/-- The number of operations dispatched in the measurement window. -/
def EngineConfig.window (cfg : EngineConfig) (start : ℤ) (sent : List ℤ) : ℕ :=
  (sent.filter (cfg.inWindow start)).length

/-- The action dispatches nothing, or an operation that is measured exactly if it is dispatched in the window. -/
def Act.timely (cfg : EngineConfig) (s : State) : Act → Bool
  | .dispatch => match s.pc with
    | .offer measuring => cfg.maxIF ≤ s.sem || measuring == cfg.inWindow s.start s.clock
    | _ => true
  | _ => true

/-- The machine without the dispatches that are not timely. -/
def timelyStep (cfg : EngineConfig) (s : State) (a : Act) : Option State :=
  if a.timely cfg s then step cfg s a else none

/-- The counters are ahead of the window by `e`. -/
structure Counts (cfg : EngineConfig) (e : ℤ) (s : State) : Prop where
  attempted : s.attempted = s.shed + .ofInt (cfg.window s.start s.sent + s.pc.undecided + e)
  completed : e = 0 → ∃ c, s.completed = .ofNat c ∧
    c + s.pc.measured + (s.workers.map Worker.measured).sum ≤ cfg.window s.start s.sent

section
variable {cfg : EngineConfig} {s s' : State} {e : ℤ}

theorem window_append (start : ℤ) (sent : List ℤ) (t : ℤ) :
    cfg.window start (sent ++ [t]) = cfg.window start sent + (cfg.inWindow start t).toNat := by
  unfold EngineConfig.window
  rw [List.filter_append, List.length_append]
  cases hin : cfg.inWindow start t <;> simp [hin]

/-- A step that counts nothing. -/
theorem Counts.moves (h : Counts cfg e s) (hattempted : s'.attempted = s.attempted) (hshed : s'.shed = s.shed)
    (hcompleted : s'.completed = s.completed) (hstart : s'.start = s.start) (hsent : s'.sent = s.sent)
    (hworkers : (s'.workers.map Worker.measured).sum = (s.workers.map Worker.measured).sum)
    (hpc : s'.pc.undecided = s.pc.undecided ∧ s'.pc.measured = s.pc.measured) : Counts cfg e s' := by
  refine ⟨?_, ?_⟩
  · rw [hattempted, hshed, hstart, hsent, hpc.1]
    exact h.attempted
  · rw [hcompleted, hstart, hsent, hworkers, hpc.2]
    exact h.completed

theorem Counts.attempts (h : Counts cfg e s) (hpc : s.pc = .stamp) :
    Counts cfg e { s with attempted := s.attempted + 1, pc := .offer true } := by
  have hattempted := h.attempted
  have hcompleted := h.completed
  rw [hpc] at hattempted hcompleted
  refine ⟨?_, hcompleted⟩
  dsimp only [Pc.undecided] at hattempted ⊢
  rw [hattempted, Int64.add_assoc, show (1 : Int64) = .ofInt 1 from rfl, ← Int64.ofInt_add]
  congr 2
  omega

/-- An operation that is measured and not in the window puts the counters ahead, one that is in the window and not
measured puts them behind. -/
theorem Counts.takes (h : Counts cfg e s) {measuring : Bool} (hpc : s.pc = .offer measuring) {e' : ℤ}
    (he : e' + (cfg.inWindow s.start s.clock).toNat = e + measuring.toNat)
    (hzero : e' = 0 → e = 0 ∧ measuring.toNat ≤ (cfg.inWindow s.start s.clock).toNat) :
    Counts cfg e' { s with sem := s.sem + 1, sent := s.sent ++ [s.clock], pc := .enter measuring } := by
  have hattempted := h.attempted
  have hcompleted := h.completed
  rw [hpc] at hattempted hcompleted
  have hundecided : (Pc.offer measuring).undecided = measuring.toNat := by cases measuring <;> rfl
  have hmeasured : (Pc.enter measuring).measured = measuring.toNat := by cases measuring <;> rfl
  refine ⟨?_, fun hz => ?_⟩
  · dsimp only
    rw [hattempted, window_append, hundecided]
    congr 2
    dsimp only [Pc.undecided]
    omega
  · obtain ⟨he, hle⟩ := hzero hz
    obtain ⟨c, hc, hsum⟩ := hcompleted he
    refine ⟨c, hc, ?_⟩
    dsimp only [Pc.measured] at hsum
    dsimp only
    rw [window_append, hmeasured]
    omega

theorem Counts.sheds (h : Counts cfg e s) {measuring : Bool} (hpc : s.pc = .offer measuring) :
    Counts cfg e { s with shed := if measuring then s.shed + 1 else s.shed, pc := .top } := by
  have hattempted := h.attempted
  have hcompleted := h.completed
  rw [hpc] at hattempted hcompleted
  refine ⟨?_, hcompleted⟩
  cases measuring with
  | false => exact hattempted
  | true =>
    dsimp only [Pc.undecided] at hattempted ⊢
    rw [if_pos rfl, hattempted, Int64.add_assoc, show (1 : Int64) = .ofInt 1 from rfl, ← Int64.ofInt_add]
    congr 2
    omega

theorem Counts.spawns (h : Counts cfg e s) {measuring : Bool} (hpc : s.pc = .spawn measuring) :
    Counts cfg e { s with wg := s.wg + 1, workers := s.workers ++ [.ready measuring], pc := .top } := by
  have hattempted := h.attempted
  have hcompleted := h.completed
  rw [hpc] at hattempted hcompleted
  refine ⟨hattempted, fun hz => ?_⟩
  obtain ⟨c, hc, hsum⟩ := hcompleted hz
  refine ⟨c, hc, ?_⟩
  have hready : ([Worker.ready measuring].map Worker.measured).sum = (Pc.spawn measuring).measured := by
    cases measuring <;> rfl
  dsimp only [Pc.measured]
  rw [List.map_append, List.sum_append, hready]
  dsimp only [Pc.measured] at hsum ⊢
  omega

theorem Counts.dispatched (h : Counts cfg e s) (hs : Dispatched cfg s s')
    (htimely : Act.timely cfg s .dispatch = true) : Counts cfg e s' := by
  cases hs with
  | leaves hpc =>
    exact h.moves rfl rfl rfl rfl rfl rfl (by rcases hpc with hpc | hpc <;> rw [hpc] <;> exact ⟨rfl, rfl⟩)
  | paces hpc => exact h.moves rfl rfl rfl rfl rfl rfl (by rw [hpc]; exact ⟨rfl, rfl⟩)
  | wakes hpc => exact h.moves rfl rfl rfl rfl rfl rfl (by rw [hpc]; exact ⟨rfl, rfl⟩)
  | goes hpc => exact h.moves rfl rfl rfl rfl rfl rfl (by rw [hpc]; exact ⟨rfl, rfl⟩)
  | attempts hpc => exact h.attempts hpc
  | warms hpc => exact h.moves rfl rfl rfl rfl rfl rfl (by rw [hpc]; exact ⟨rfl, rfl⟩)
  | @takes measuring hpc hfree =>
    have heq : measuring = cfg.inWindow s.start s.clock := by
      rw [Act.timely, hpc] at htimely
      simpa [Nat.not_le.mpr hfree] using htimely
    refine h.takes hpc (by rw [heq]) fun hz => ⟨hz, ?_⟩
    rw [heq]
  | sheds hpc => exact h.sheds hpc
  | @enters measuring hpc =>
    exact h.moves rfl rfl rfl rfl rfl rfl (by rw [hpc]; cases measuring <;> exact ⟨rfl, rfl⟩)
  | @keeps measuring cur hpc =>
    exact h.moves rfl rfl rfl rfl rfl rfl (by rw [hpc]; cases measuring <;> exact ⟨rfl, rfl⟩)
  | @loads measuring cur hpc =>
    exact h.moves rfl rfl rfl rfl rfl rfl (by rw [hpc]; cases measuring <;> exact ⟨rfl, rfl⟩)
  | @raises measuring cur old hpc =>
    exact h.moves rfl rfl rfl rfl rfl rfl (by rw [hpc]; cases measuring <;> exact ⟨rfl, rfl⟩)
  | @retries measuring cur old hpc =>
    exact h.moves rfl rfl rfl rfl rfl rfl (by rw [hpc]; cases measuring <;> exact ⟨rfl, rfl⟩)
  | spawns hpc => exact h.spawns hpc
  | returns hpc => exact h.moves rfl rfl rfl rfl rfl rfl (by rw [hpc]; exact ⟨rfl, rfl⟩)

/-- A goroutine goes on and changes what it counts for. -/
theorem Counts.replaces (h : Counts cfg e s) {i : ℕ} {w w' : Worker} (hw : s.workers[i]? = some w) {sem : ℕ}
    {completed curInflight : Int64}
    (hcompleted : ∃ d, completed = s.completed + .ofNat d ∧ d + w'.measured ≤ w.measured) :
    Counts cfg e { s with sem, completed, curInflight, workers := s.workers.set i w' } := by
  refine ⟨h.attempted, fun hz => ?_⟩
  have hsum := sum_map_set Worker.measured hw w'
  obtain ⟨c, hc, hle⟩ := h.completed hz
  obtain ⟨d, hd, hdle⟩ := hcompleted
  refine ⟨c + d, ?_, ?_⟩
  · dsimp only
    rw [hd, hc, Int64.ofNat_add]
  · dsimp only
    omega

theorem Counts.advance (h : Counts cfg e s) {i : ℕ} {responded : Bool} {w : Worker} (hw : s.workers[i]? = some w)
    (hs : advance s i responded w = some s') : Counts cfg e s' := by
  cases w with
  | ready measuring =>
    cases hs
    refine h.replaces hw ⟨0, (Int64.add_zero _).symm, ?_⟩
    cases measuring <;> exact Nat.le_of_ble_eq_true rfl
  | running measuring =>
    cases hs
    refine h.replaces hw ⟨0, (Int64.add_zero _).symm, ?_⟩
    cases measuring <;> exact Nat.le_of_ble_eq_true rfl
  | ran measuring responded =>
    cases hs
    refine h.replaces hw ⟨if measuring && responded then 1 else 0, ?_, ?_⟩
    · split
      · rfl
      · exact (Int64.add_zero _).symm
    · cases measuring <;> cases responded <;> exact Nat.le_of_ble_eq_true rfl
  | leaving =>
    cases hs
    exact h.replaces hw ⟨0, (Int64.add_zero _).symm, le_rfl⟩
  | releasing =>
    dsimp only [LoadEngine.advance] at hs
    split at hs
    · cases hs
    · cases hs
      exact h.replaces hw ⟨0, (Int64.add_zero _).symm, le_rfl⟩
  | ending =>
    cases hs
    exact h.moves rfl rfl rfl rfl rfl (sum_map_eraseIdx Worker.measured hw) ⟨rfl, rfl⟩

theorem Counts.step {a : Act} (h : Counts cfg e s) (hs : timelyStep cfg s a = some s') : Counts cfg e s' := by
  unfold timelyStep at hs
  split at hs
  · rename_i htimely
    cases a with
    | tick now =>
      dsimp only [LoadEngine.step] at hs
      split at hs
      · cases hs
        exact h.moves rfl rfl rfl rfl rfl rfl ⟨rfl, rfl⟩
      · cases hs
    | cancel =>
      cases hs
      exact h.moves rfl rfl rfl rfl rfl rfl ⟨rfl, rfl⟩
    | dispatch => exact h.dispatched (dispatch_cases hs) htimely
    | worker i responded =>
      obtain ⟨w, hw, hs⟩ := Option.bind_eq_some_iff.mp hs
      exact h.advance hw hs
  · cases hs

end

/-! ## The counters -/

/-- At most `max(maxInflight, 1)` operations run, and no more are reported. -/
structure Bounded (cfg : EngineConfig) (s : State) : Prop where
  running : (s.running : ℤ) ≤ max cfg.maxInflight.toInt 1
  seen : s.maxInflightSeen.toInt ≤ max cfg.maxInflight.toInt 1
  reported : ∀ st, s.pc = .returned st → st.maxInflight.toInt ≤ max cfg.maxInflight.toInt 1

structure Consistent (cfg : EngineConfig) (s : State) : Prop extends Bounded cfg s where
  sent : ∀ st, s.pc = .returned st → st.attempted - st.shed = .ofNat (cfg.window s.start s.sent)
  completed : ∀ st, s.pc = .returned st → ∃ c ≤ cfg.window s.start s.sent, st.completed = .ofNat c

section
variable {cfg : EngineConfig} {s s' : State} {now : ℤ}

theorem Inv.bounded (h : Inv cfg s) : Bounded cfg s := by
  have hmax := maxIF_eq cfg
  have hrunning := h.running_le
  have hseen := h.seen
  refine ⟨by omega, by omega, fun st hpc => ?_⟩
  rw [(h.stats st hpc).1]
  dsimp only
  omega

end

end OpenTams.LoadEngine
