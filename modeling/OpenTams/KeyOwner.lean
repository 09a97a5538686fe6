import OpenTams.KeyStages
import OpenTams.RefCount

/-!
# Who owns an idempotency row

`Complete` and `Release` address a row by its key. The row may have been
deleted by then, as expired or as stale, and its key acquired by another
execution, whose row they change. As long as no row of a running execution is
deleted in this way, every execution finalises the row it inserted, and there
is at most one running execution for a key.
-/

namespace OpenTams

open Sql

abbrev Server (n : Nat) := Sys DB Write Lock Stmt Err Reply n

/-! ## Executions -/

def ServerCall.slot : ServerCall → Option (Str × Str)
  | .post _ req => match checkPost req with
    | .ok x => match validateKey x.key with
      | .ok _ => some (x.key, x.bodyHash)
      | .error _ => none
    | .error _ => none
  | _ => none

def ServerCall.key (x : ServerCall) : Option Str := x.slot.map Prod.fst

structure Acquires (c : Constraints) (storageId : Str) (call : ServerCall) (x : AcqCall Reply) : Prop where
  prog : call.prog c storageId = x.prog
  slot : call.slot = some (x.key, x.bodyHash)
  acquired : Finalising x.key false (x.next { status := .statusAcquired })
  other : ∀ acq, acq.status ≠ .statusAcquired → ∃ a, x.next acq = .ret a

def IsSweep (p : Tx Reply) : Prop :=
  ∃ name which, (name = .prune ∨ name = .reapStale) ∧ p = (deleteKeys name which).map .count

theorem Acquires.key {c : Constraints} {storageId : Str} {call : ServerCall} {x : AcqCall Reply}
    (h : Acquires c storageId call x) : call.key = some x.key := by
  rw [ServerCall.key, h.slot]
  rfl

theorem acquires_post {c : Constraints} {storageId : Str} {env : PostEnv} {req : PostRequest} {x : Post}
    (hx : checkPost req = .ok x) (hk : validateKey x.key = .ok ()) :
    Acquires c storageId (.post env req)
      ⟨x.key, x.bodyHash, env.expiresAt, fun acq => (postAcquired c storageId env x acq).map .response⟩ where
  prog := by
    simp only [ServerCall.prog, postFlowSegments, hx, postChecked, Prog.map_bind, acquire, hk]
    rfl
  slot := by simp only [ServerCall.slot, hx, hk]
  acquired := by
    obtain ⟨hs, he⟩ := registerBatch_spares c storageId env.nextval x.params
    simp only [postAcquired, Prog.map_bind]
    exact hs.attempt.until he.attempt fun r => finalising_postRegistered hk r
  other acq hacq := by
    simp only [postAcquired]
    cases h : acq.status with
    | statusAcquired => exact absurd h hacq
    | _ => exact ⟨_, rfl⟩

theorem slot_eq_some {call : ServerCall} {k h : Str} (hslot : call.slot = some (k, h)) :
    ∃ env req x, call = .post env req ∧ checkPost req = .ok x ∧ validateKey x.key = .ok () ∧ x.key = k ∧
      x.bodyHash = h := by
  cases call with
  | prune => cases hslot
  | reapStale configured => cases hslot
  | post env req =>
    simp only [ServerCall.slot] at hslot
    split at hslot
    · rename_i x hx
      split at hslot
      · rename_i hk
        cases hslot
        exact ⟨env, req, x, rfl, hx, hk, rfl, rfl⟩
      · cases hslot
    · cases hslot

theorem call_cases (c : Constraints) (storageId : Str) (call : ServerCall) :
    (∃ x, Acquires c storageId call x) ∨
      call.slot = none ∧ ((call.prog c storageId).Quiet ∨ IsSweep (call.prog c storageId)) := by
  cases call with
  | prune => exact Or.inr ⟨rfl, Or.inr ⟨_, _, Or.inl rfl, rfl⟩⟩
  | reapStale configured => exact Or.inr ⟨rfl, Or.inr ⟨_, _, Or.inr rfl, rfl⟩⟩
  | post env req =>
    cases hx : checkPost req with
    | error r =>
      refine Or.inr ⟨by simp only [ServerCall.slot, hx], Or.inl ?_⟩
      simp only [ServerCall.prog, postFlowSegments, hx]
      cases r <;> trivial
    | ok x =>
      cases hk : validateKey x.key with
      | ok u => exact Or.inl ⟨_, acquires_post hx hk⟩
      | error e =>
        refine Or.inr ⟨by simp only [ServerCall.slot, hx, hk], Or.inl ?_⟩
        simp only [ServerCall.prog, postFlowSegments, hx, postChecked, acquire, hk]
        trivial

/-! ## Running executions -/

section
variable {n : Nat}

/-- The execution has acquired its key and has not finalised it or returned. -/
def Running (s : Server n) (p : Fin n) : Prop := s.ran p .acquireCommit = true ∧ ¬ (s.procs p).prog.Quiet

instance (s : Server n) (p : Fin n) : Decidable (Running s p) :=
  inferInstanceAs (Decidable (_ ∧ ¬ _))

def sweptBy (s : Server n) (q : Fin n) : List Write :=
  match (s.procs q).prog with
  | .step name _ act _ =>
    if name = .acquireDeleteExpired ∨ name = .prune ∨ name = .reapStale then
      (act ((s.conn q).now s.clock) (s.conn q).view).writes
    else []
  | _ => []

variable (calls : Fin n → ServerCall)

def Claimed (s : Server n) (k : Str) : Prop := ∃ q, (calls q).key = some k ∧ Running s q

/-- The execution that inserted the row of `k`: the last whose `Acquire` committed. -/
def lastAcquire (s : Server n) (k : Str) : Option (Fin n) :=
  ((s.trace.filter fun e => e.name = .acquireCommit ∧ (calls e.proc).key = some k).getLast?).map (·.proc)

def SparesRunning (s : Server n) (a : Act n) : Prop :=
  ∀ p q, a = .go q → Running s p → ∀ k ∈ (calls p).key, .delKey k ∉ sweptBy s q

instance (s : Server n) (a : Act n) : Decidable (SparesRunning calls s a) := by
  unfold SparesRunning
  infer_instance

/-- The `Acquire` of `p` has deleted the row of `k` and is not committed. -/
def Clearing (s : Server n) (p : Fin n) (k : Str) : Prop :=
  s.ran p .acquireCommit = false ∧ ∃ y, (s.procs p).sess = some y ∧ .delKey k ∈ y.pending

def Sweeps (s : Server n) (a : Act n) (k : Str) : Prop :=
  ∃ p, a = .go p ∧ (.delKey k ∈ sweptBy s p ∨ (s.procs p).prog.name? = some .acquireCommit ∧ Clearing s p k)

variable {calls} {s : Server n} {a : Act n} {p q : Fin n} {prog : Tx Reply} {cn : Conn DB Write Lock}
  {es : List (Event n Stmt)} {k : Str}

theorem lastAcquire_log (hes : ∀ e ∈ es, e.name ≠ .acquireCommit) :
    lastAcquire calls ((s.set p prog cn).log es) k = lastAcquire calls s k := by
  have hnil : es.filter (fun e => e.name = .acquireCommit ∧ (calls e.proc).key = some k) = [] := by
    simp only [List.filter_eq_nil_iff, decide_eq_true_eq, not_and]
    exact fun e he hn => absurd hn (hes e he)
  simp only [lastAcquire, Sys.log, Sys.set, List.filter_append, hnil, List.append_nil]

theorem lastAcquire_commit {b : Bool} : lastAcquire calls ((s.set p prog cn).log [⟨p, .acquireCommit, b⟩]) k =
    if (calls p).key = some k then some p else lastAcquire calls s k := by
  simp only [lastAcquire, Sys.log, Sys.set, List.filter_append]
  by_cases h : (calls p).key = some k
  · simp [h]
  · simp [h]

/-! ## Stages -/

structure Unsettled (s : Server n) (p : Fin n) (acquired : Bool) : Prop where
  acquire : s.ran p .acquireCommit = acquired
  complete : s.ran p .complete = false
  release : s.ran p .release = false

def Keeps (s : Server n) (p : Fin n) : Prop := s.ran p .acquireCommit = true ∧ s.ran p .release = false

instance (s : Server n) (p : Fin n) : Decidable (Keeps s p) := inferInstanceAs (Decidable (_ ∧ _))

variable (calls) in
/-- Where an execution stands, and what it knows about its key there. -/
inductive KeyStage (x : AcqCall Reply) (s : Server n) (p : Fin n) : Prop
  | start : s.procs p = ⟨x.prog, none⟩ → Unsettled s p false → KeyStage x s p
  | opened {now : Time} : s.procs p = ⟨x.opened, some { now }⟩ → Unsettled s p false → KeyStage x s p
  | cleared {y : Sess Write Lock} : s.procs p = ⟨x.cleared, some y⟩ → Unsettled s p false → x.Cleared y →
      (y.pending ≠ [] → ¬ Claimed calls s x.key) → KeyStage x s p
  | unclaimed {y : Sess Write Lock} : s.procs p = ⟨x.unclaimed, some y⟩ → Unsettled s p false → x.Cleared y →
      (y.pending ≠ [] → ¬ Claimed calls s x.key) → KeyStage x s p
  | inserted {y : Sess Write Lock} : s.procs p = ⟨x.inserted, some (x.insert y)⟩ → Unsettled s p false → x.Cleared y →
      ¬ Claimed calls s x.key → (y.pending ≠ [] ∨ s.db.idempotencyKeys.get x.key = none) → KeyStage x s p
  | holding {r : KeyRow} : (s.procs p).Until DB.idempotencyKeys Lock.IsKey Stmt.OnKeys (Finalises x.key) →
      Unsettled s p true → s.db.idempotencyKeys.get x.key = some r → r.inFlight = true → r.bodyHash = x.bodyHash →
      lastAcquire calls s x.key = some p → KeyStage x s p
  | finished : (s.procs p).prog.Quiet → (s.ran p .complete = true → Keeps s p) → KeyStage x s p

variable (calls) in
structure KeyStep (s : Server n) (a : Act n) (p : Fin n) (s' : Server n) : Prop where
  claim : ∀ k, Claimed calls s' k → Claimed calls s k ∨ .key k ∈ (s.conn p).held
  other : ∀ k, (calls p).key ≠ some k → ¬ Sweeps s a k → s'.db.idempotencyKeys.get k = s.db.idempotencyKeys.get k
  row : ∀ k q, lastAcquire calls s k = some q → q ≠ p → (s.db.idempotencyKeys.get k).isSome → ¬ Sweeps s a k →
    s'.db.idempotencyKeys.get k = s.db.idempotencyKeys.get k
  absent : ∀ k, s.db.idempotencyKeys.get k = none → s'.db.idempotencyKeys.get k = none ∨ .key k ∈ (s.conn p).held
  owner : ∀ k, lastAcquire calls s' k = lastAcquire calls s k ∨
    ¬ Claimed calls s k ∧ (Sweeps s a k ∨ s.db.idempotencyKeys.get k = none)

theorem held_insert {x : AcqCall Reply} {y : Sess Write Lock} (hp : s.procs p = ⟨x.inserted, some (x.insert y)⟩) :
    .key x.key ∈ (s.conn p).held := by
  simp only [Sys.conn, Conn.held, hp, AcqCall.insert, Sess.run_held]
  exact List.mem_append_right _ (List.mem_singleton_self _)

theorem Unsettled.of_ran {s' : Server n} {b : Bool} (h : Unsettled s p b) (hran : ∀ y, s'.ran p y = s.ran p y) :
    Unsettled s' p b :=
  ⟨(hran _).trans h.acquire, (hran _).trans h.complete, (hran _).trans h.release⟩

theorem KeyStage.other {x : AcqCall Reply} {s' : Server n} (h : KeyStage calls x s q)
    (hkey : (calls q).key = some x.key)
    (hstep : KeyStep calls s a p s') (hspares : ∀ k, Claimed calls s k → ¬ Sweeps s a k) (hex : s.Exclusive)
    (hqp : q ≠ p) (hproc : s'.procs q = s.procs q) (hran : ∀ y, s'.ran q y = s.ran q y) : KeyStage calls x s' q := by
  have hclaim : .key x.key ∈ (s.conn q).held → ¬ Claimed calls s x.key → ¬ Claimed calls s' x.key := by
    intro hheld hno hc
    rcases hstep.claim _ hc with hc | hp
    · exact hno hc
    · exact hex q p hqp _ hheld hp
  have hover : (s.ran q .complete = true → Keeps s q) → s'.ran q .complete = true → Keeps s' q := by
    intro h hc
    rw [hran] at hc
    exact ⟨(hran _).trans (h hc).1, (hran _).trans (h hc).2⟩
  cases h with
  | start hp hr => exact .start (hproc.trans hp) (hr.of_ran hran)
  | opened hp hr => exact .opened (hproc.trans hp) (hr.of_ran hran)
  | cleared hp hr hy hno =>
    refine .cleared (hproc.trans hp) (hr.of_ran hran) hy fun hne => hclaim ?_ (hno hne)
    simpa only [Sys.conn, Conn.held, hp] using hy.locked hne
  | unclaimed hp hr hy hno =>
    refine .unclaimed (hproc.trans hp) (hr.of_ran hran) hy fun hne => hclaim ?_ (hno hne)
    simpa only [Sys.conn, Conn.held, hp] using hy.locked hne
  | inserted hp hr hy hno hrow =>
    refine .inserted (hproc.trans hp) (hr.of_ran hran) hy (hclaim (held_insert hp) hno) (hrow.imp_right fun hn => ?_)
    exact (hstep.absent _ hn).resolve_right fun h => hex q p hqp _ (held_insert hp) h
  | holding hu hr hrow hin hhash howner =>
    by_cases hquiet : (s.procs q).prog.Quiet
    · refine .finished (by rwa [hproc]) (hover fun hc => ?_)
      rw [hr.complete] at hc
      cases hc
    have hc : Claimed calls s x.key := ⟨q, hkey, hr.acquire, hquiet⟩
    have hkeep := hstep.row _ q howner hqp (by rw [hrow]; rfl) (hspares _ hc)
    refine .holding (by rwa [hproc]) (hr.of_ran hran) (hkeep.trans hrow) hin hhash ?_
    exact ((hstep.owner _).resolve_right fun h => h.1 hc).trans howner
  | finished hq hc => exact .finished (by rwa [hproc]) (hover hc)

variable (calls) in
/-- `r` is the row of `p`, completed with the response that `p` returns. -/
def Completed (s : Server n) (p : Fin n) (r : KeyRow) : Prop :=
  ∃ resp : Response, (calls p).slot = some (r.key, r.bodyHash) ∧ lastAcquire calls s r.key = some p ∧
    s.ran p .complete = true ∧ (s.procs p).prog = .ret (.response resp) ∧
    r.responseStatus = resp.status ∧ r.responseBody = resp.body

variable (calls) in
def DoneStep (s : Server n) (p : Fin n) (s' : Server n) : Prop :=
  ∀ k r, s'.db.idempotencyKeys.get k = some r → r.inFlight = false →
    s.db.idempotencyKeys.get k = some r ∧ lastAcquire calls s' k = lastAcquire calls s k ∨ Completed calls s' p r

/-! ## Moves that leave the key table alone -/

theorem ran_silent {y : Stmt} (hes : ∀ e ∈ es, e.name ≠ y) :
    ((s.set p prog cn).log es).ran q y = s.ran q y := by
  rw [Bool.eq_iff_iff, ran_log_iff]
  exact ⟨fun h => h.resolve_right fun ⟨e, he, _, hn⟩ => hes e he hn, Or.inl⟩

theorem ran_other {y : Stmt} (hqp : q ≠ p) (hes : ∀ e ∈ es, e.proc = p) :
    ((s.set p prog cn).log es).ran q y = s.ran q y := by
  rw [Bool.eq_iff_iff, ran_log_iff]
  exact ⟨fun h => h.resolve_right fun ⟨e, he, hq, _⟩ => hqp (hq.symm.trans (hes e he)), Or.inl⟩

theorem event_proc (hm : s.Moves a p prog cn es) : ∀ e ∈ es, e.proc = p := by
  intro e he
  cases hm with
  | go _ _ => exact (mem_event he).1
  | err _ => cases he

theorem claimed_silent (hm : s.Moves a p prog cn es) (hes : ∀ e ∈ es, e.name ≠ .acquireCommit)
    (h : Claimed calls ((s.set p prog cn).log es) k) : Claimed calls s k := by
  obtain ⟨q, hk, hran, hquiet⟩ := h
  rw [ran_silent hes] at hran
  refine ⟨q, hk, hran, fun hq => hquiet ?_⟩
  by_cases hqp : q = p
  · subst hqp
    rw [procs_moved]
    exact (hq.move hm).1
  · rwa [procs_other s hqp]

theorem silent_move (hm : s.Moves a p prog cn es) (hdb : cn.db.idempotencyKeys = s.db.idempotencyKeys)
    (hes : ∀ e ∈ es, e.name ≠ .acquireCommit) :
    KeyStep calls s a p ((s.set p prog cn).log es) ∧ DoneStep calls s p ((s.set p prog cn).log es) := by
  have hkeys : ((s.set p prog cn).log es).db.idempotencyKeys = s.db.idempotencyKeys := hdb
  refine ⟨⟨fun k h => Or.inl (claimed_silent hm hes h), fun k _ _ => ?_, fun k q _ _ _ _ => ?_, fun k h => Or.inl ?_,
    fun k => Or.inl ?_⟩, ?_⟩
  · rw [hkeys]
  · rw [hkeys]
  · rwa [hkeys]
  · exact lastAcquire_log hes
  · intro k r hr _
    rw [hkeys] at hr
    exact Or.inl ⟨hr, lastAcquire_log hes⟩

/-! ## Moves of an execution -/

variable (calls) in
structure RowOf (s : Server n) (p : Fin n) (k h : Str) (r : KeyRow) : Prop where
  row : s.db.idempotencyKeys.get k = some r
  hash : r.bodyHash = h
  owner : lastAcquire calls s k = some p
  flight : r.inFlight = !s.ran p .complete
  response : s.ran p .complete = true → ∃ resp : Response, (s.procs p).prog = .ret (.response resp) ∧
    r.responseStatus = resp.status ∧ r.responseBody = resp.body

variable (calls) in
structure KeyMove (x : AcqCall Reply) (s : Server n) (a : Act n) (p : Fin n) (s' : Server n) : Prop where
  step : KeyStep calls s a p s'
  stage : KeyStage calls x s' p
  done : DoneStep calls s p s'
  deletes : ∀ k, Clearing s' p k → Clearing s p k ∨ Sweeps s a k
  keeps : Keeps s' p → (∃ r, RowOf calls s' p x.key x.bodyHash r) ∨
    Keeps s p ∧ ∀ r, RowOf calls s p x.key x.bodyHash r → RowOf calls s' p x.key x.bodyHash r

theorem not_clearing (hsess : cn.sess = none) (h : Clearing ((s.set p prog cn).log es) p k) : False := by
  obtain ⟨-, y, hy, -⟩ := h
  rw [procs_moved, hsess] at hy
  cases hy

theorem Unsettled.not_keeps {s' : Server n} (h : Unsettled s' p false) : ¬ Keeps s' p := by
  intro hk
  cases h.acquire.symm.trans hk.1

theorem Unsettled.silent {b : Bool} (h : Unsettled s p b)
    (hes : ∀ e ∈ es, e.name ≠ .acquireCommit ∧ e.name ≠ .complete ∧ e.name ≠ .release) :
    Unsettled ((s.set p prog cn).log es) p b :=
  ⟨(ran_silent fun e he => (hes e he).1).trans h.acquire, (ran_silent fun e he => (hes e he).2.1).trans h.complete,
    (ran_silent fun e he => (hes e he).2.2).trans h.release⟩

theorem quiet_silent (hq : (s.procs p).prog.Quiet) (hm : s.Moves a p prog cn es) :
    (KeyStep calls s a p ((s.set p prog cn).log es) ∧ DoneStep calls s p ((s.set p prog cn).log es)) ∧
      prog.Quiet ∧ cn.db = s.db ∧ cn.sess = none ∧ es = [] := by
  obtain ⟨hq', hdb⟩ := hq.move hm
  have hes : es = [] := by
    cases hm with
    | err _ => rfl
    | go _ _ => simp [Sys.event, hq.name?_eq_none]
  refine ⟨silent_move hm (by rw [hdb]) fun e he => ?_, hq', hdb, ?_, hes⟩
  · rw [hes] at he
    cases he
  · cases hm with
    | err _ => rfl
    | go hsm _ =>
      cases hp : (s.procs p).prog with
      | ret a => rw [hp] at hsm; cases hsm
      | fail e => rw [hp] at hsm; cases hsm
      | rollback next => rw [hp] at hsm; cases hsm; rfl
      | _ => rw [hp] at hq; cases hq

theorem ret_stuck {r : Reply} (hp : (s.procs p).prog = .ret r) (hm : s.Moves a p prog cn es) : False := by
  cases hm with
  | go hsm _ => rw [hp] at hsm; cases hsm
  | err herr => rw [hp] at herr; cases herr

section
variable {x : AcqCall Reply} {y : Sess Write Lock} {ls : List Lock}

theorem quiet_move (hq : (s.procs p).prog.Quiet) (hc : s.ran p .complete = true → Keeps s p)
    (hm : s.Moves a p prog cn es) : KeyMove calls x s a p ((s.set p prog cn).log es) := by
  obtain ⟨⟨h1, h2⟩, hq', hdb, hsess, rfl⟩ : (KeyStep calls s a p _ ∧ DoneStep calls s p _) ∧ _ := quiet_silent hq hm
  have hran : ∀ y, ((s.set p prog cn).log []).ran p y = s.ran p y := fun y => ran_silent fun e he => by cases he
  refine ⟨h1, .finished (by rwa [procs_moved]) fun h => ?_, h2, fun k h => (not_clearing hsess h).elim,
    fun hk => Or.inr ⟨?_, ?_⟩⟩
  · rw [hran] at h
    exact ⟨(hran _).trans (hc h).1, (hran _).trans (hc h).2⟩
  · exact ⟨(hran _).symm.trans hk.1, (hran _).symm.trans hk.2⟩
  · intro r hr
    refine ⟨?_, hr.hash, (lastAcquire_log fun e he => by cases he).trans hr.owner, by rw [hran]; exact hr.flight,
      fun h => ?_⟩
    · show cn.db.idempotencyKeys.get x.key = some r
      rw [hdb, hr.row]
    · rw [hran] at h
      obtain ⟨resp, hret, -⟩ := hr.response h
      exact (ret_stuck hret hm).elim

theorem failed_move {err : Tx Reply} (hran : Unsettled s p false) (herr : (s.procs p).prog.onError = some err)
    (hq : err.Quiet) : KeyMove calls x s (.err p) p ((s.set p err ⟨s.db, none⟩).log []) := by
  obtain ⟨h1, h2⟩ : KeyStep calls s (.err p) p _ ∧ DoneStep calls s p _ :=
    silent_move (.err herr) rfl fun e he => by cases he
  have hran' : Unsettled ((s.set p err ⟨s.db, none⟩).log []) p false := hran.silent fun e he => by cases he
  refine ⟨h1, .finished (by rwa [procs_moved]) fun h => ?_, h2, fun k h => (not_clearing rfl h).elim,
    fun h => (hran'.not_keeps h).elim⟩
  rw [hran'.complete] at h
  cases h

structure Prelude (calls : Fin n → ServerCall) (s : Server n) (p : Fin n) (s' : Server n) : Prop where
  step : KeyStep calls s (.go p) p s'
  done : DoneStep calls s p s'
  claim : ∀ k, Claimed calls s' k → Claimed calls s k
  unsettled : Unsettled s' p false

theorem prelude (hran : Unsettled s p false) (hfree : s.Free p ls)
    (hsm : (s.procs p).prog.small s.clock (s.conn p) = some (ls, prog, cn)) (hdb : cn.db = s.db)
    (hname : ∀ y ∈ (s.procs p).prog.name?, y ≠ .acquireCommit ∧ y ≠ .complete ∧ y ≠ .release) :
    Prelude calls s p ((s.set p prog cn).log (s.event p)) := by
  have hes : ∀ e ∈ s.event p, e.name ≠ .acquireCommit ∧ e.name ≠ .complete ∧ e.name ≠ .release :=
    fun e he => hname _ (mem_event he).2.1
  have hm : s.Moves (.go p) p prog cn (s.event p) := .go hsm hfree
  obtain ⟨h1, h2⟩ := silent_move hm (by rw [hdb]) fun e he => (hes e he).1
  exact ⟨h1, h2, fun k => claimed_silent hm fun e he => (hes e he).1, hran.silent hes⟩

theorem clearing_kept {z : Sess Write Lock} (hp : (s.procs p).sess = some y) (hran : Unsettled s p false)
    (hz : cn.sess = some z) (hsub : .delKey k ∈ z.pending → .delKey k ∈ y.pending)
    (h : Clearing ((s.set p prog cn).log es) p k) : Clearing s p k := by
  obtain ⟨-, z', hz', hk⟩ := h
  rw [procs_moved, hz] at hz'
  cases hz'
  exact ⟨hran.acquire, y, hp, hsub hk⟩

theorem Prelude.finished {s' : Server n} (h : Prelude calls s p s') (hq : (s'.procs p).prog.Quiet)
    (hdel : ∀ k, Clearing s' p k → Clearing s p k) : KeyMove calls x s (.go p) p s' := by
  refine ⟨h.step, .finished hq fun hc => ?_, h.done, fun k hk => Or.inl (hdel k hk),
    fun hk => (h.unsettled.not_keeps hk).elim⟩
  rw [h.unsettled.complete] at hc
  cases hc

theorem start_move (hp : s.procs p = ⟨x.prog, none⟩) (hran : Unsettled s p false) (hfree : s.Free p ls)
    (hsm : (s.procs p).prog.small s.clock (s.conn p) = some (ls, prog, cn)) :
    KeyMove calls x s (.go p) p ((s.set p prog cn).log (s.event p)) := by
  have hsm' := hsm
  simp only [Sys.conn, hp, AcqCall.small_prog, Option.some.injEq, Prod.mk.injEq] at hsm'
  obtain ⟨-, rfl, rfl⟩ := hsm'
  have hpre : Prelude calls s p _ := prelude hran hfree hsm rfl (by rw [hp]; exact fun y hy => by cases hy)
  refine ⟨hpre.step, .opened (procs_moved ..) hpre.unsettled, hpre.done, fun k h => ?_,
    fun h => (hpre.unsettled.not_keeps h).elim⟩
  obtain ⟨-, y, hy, hk⟩ := h
  rw [procs_moved] at hy
  cases hy
  cases hk

theorem sweptBy_opened {now : Time} (hp : s.procs p = ⟨x.opened, some { now }⟩) :
    sweptBy s p = (x.clear { now } s.db).pending := by
  simp only [sweptBy, Sys.conn, hp]
  rfl

theorem opened_move {now : Time} (hp : s.procs p = ⟨x.opened, some { now }⟩) (hran : Unsettled s p false)
    (hC : SparesRunning calls s (.go p)) (hfree : s.Free p ls)
    (hsm : (s.procs p).prog.small s.clock (s.conn p) = some (ls, prog, cn)) :
    KeyMove calls x s (.go p) p ((s.set p prog cn).log (s.event p)) := by
  have hsm' := hsm
  simp only [Sys.conn, hp, AcqCall.small_opened, Option.some.injEq, Prod.mk.injEq, writeAll_nil] at hsm'
  obtain ⟨-, rfl, rfl⟩ := hsm'
  have hpre : Prelude calls s p _ := prelude hran hfree hsm rfl (by rw [hp]; exact fun y hy => by cases hy; decide)
  refine ⟨hpre.step, .cleared (procs_moved ..) hpre.unsettled (AcqCall.cleared_clear rfl rfl _) fun hne hc => ?_,
    hpre.done, fun k h => ?_, fun h => (hpre.unsettled.not_keeps h).elim⟩
  · -- a row of the key is deleted, so by the condition nobody is running with it
    obtain ⟨q, hq, hrun⟩ := hpre.claim _ hc
    refine hC q p rfl hrun x.key hq ?_
    obtain ⟨w, hw⟩ := List.exists_mem_of_ne_nil _ hne
    rw [sweptBy_opened hp, ← (AcqCall.cleared_clear rfl rfl s.db).writes w hw]
    exact hw
  · obtain ⟨-, y, hy, hk⟩ := h
    rw [procs_moved] at hy
    cases hy
    exact Or.inr ⟨p, rfl, Or.inl (by rwa [sweptBy_opened hp])⟩

theorem cleared_move (hother : ∀ acq, acq.status ≠ .statusAcquired → ∃ a, x.next acq = .ret a)
    (hp : s.procs p = ⟨x.cleared, some y⟩) (hran : Unsettled s p false) (hy : x.Cleared y)
    (hno : y.pending ≠ [] → ¬ Claimed calls s x.key) (hfree : s.Free p ls)
    (hsm : (s.procs p).prog.small s.clock (s.conn p) = some (ls, prog, cn)) :
    KeyMove calls x s (.go p) p ((s.set p prog cn).log (s.event p)) := by
  have hname : ∀ z ∈ (s.procs p).prog.name?, z ≠ .acquireCommit ∧ z ≠ .complete ∧ z ≠ .release := by
    rw [hp]
    exact fun z hz => by cases hz; decide
  have hsess : (s.procs p).sess = some y := by rw [hp]
  have hsm' := hsm
  simp only [Sys.conn, hp] at hsm'
  cases hrow : (writeAll y.pending s.db).idempotencyKeys.get x.key with
  | none =>
    rw [AcqCall.small_cleared_none hrow] at hsm'
    cases hsm'
    have hpre : Prelude calls s p _ := prelude hran hfree hsm rfl hname
    exact ⟨hpre.step, .unclaimed (procs_moved ..) hpre.unsettled hy fun hne hc => hno hne (hpre.claim _ hc), hpre.done,
      fun k h => Or.inl (clearing_kept hsess hran rfl id h), fun h => (hpre.unsettled.not_keeps h).elim⟩
  | some r =>
    rw [AcqCall.small_cleared_some hrow] at hsm'
    cases hsm'
    have hpre : Prelude calls s p _ := prelude hran hfree hsm rfl hname
    refine hpre.finished ?_ fun k h => clearing_kept hsess hran rfl (fun hk => ?_) h
    · obtain ⟨a, ha⟩ := hother _ (acquireAnswer_status x.bodyHash r)
      rw [procs_moved, ha]
      trivial
    · simpa only [Sess.run, List.append_nil] using hk

theorem unclaimed_move (hrow : ∀ k, Claimed calls s k → (s.db.idempotencyKeys.get k).isSome)
    (hp : s.procs p = ⟨x.unclaimed, some y⟩) (hran : Unsettled s p false) (hy : x.Cleared y)
    (hno : y.pending ≠ [] → ¬ Claimed calls s x.key) (hfree : s.Free p ls)
    (hsm : (s.procs p).prog.small s.clock (s.conn p) = some (ls, prog, cn)) :
    KeyMove calls x s (.go p) p ((s.set p prog cn).log (s.event p)) := by
  have hname : ∀ z ∈ (s.procs p).prog.name?, z ≠ .acquireCommit ∧ z ≠ .complete ∧ z ≠ .release := by
    rw [hp]
    exact fun z hz => by cases hz; decide
  have hsess : (s.procs p).sess = some y := by rw [hp]
  have hsm' := hsm
  simp only [Sys.conn, hp] at hsm'
  cases hview : (writeAll y.pending s.db).idempotencyKeys.get x.key with
  | some r =>
    rw [AcqCall.small_unclaimed_some (by rw [hview]; rfl)] at hsm'
    cases hsm'
    have hpre : Prelude calls s p _ := prelude hran hfree hsm rfl hname
    refine hpre.finished ?_ fun k h => clearing_kept hsess hran rfl (fun hk => ?_) h
    · rw [procs_moved]
      trivial
    · simpa only [Sess.run, List.append_nil] using hk
  | none =>
    rw [AcqCall.small_unclaimed_none hview] at hsm'
    cases hsm'
    have hpre : Prelude calls s p _ := prelude hran hfree hsm rfl hname
    -- either an expired row has been deleted, or there is none
    have habsent : y.pending ≠ [] ∨ s.db.idempotencyKeys.get x.key = none := by
      by_cases hne : y.pending = []
      · rw [hne] at hview
        exact Or.inr hview
      · exact Or.inl hne
    refine ⟨hpre.step, .inserted (procs_moved ..) hpre.unsettled hy (fun hc => ?_) habsent, hpre.done,
      fun k h => Or.inl (clearing_kept hsess hran rfl (fun hk => ?_) h), fun h => (hpre.unsettled.not_keeps h).elim⟩
    · rcases habsent with hne | hnone
      · exact hno hne (hpre.claim _ hc)
      · have := hrow _ (hpre.claim _ hc)
        rw [hnone] at this
        cases this
    · simpa [AcqCall.insert, Sess.run] using hk

theorem sweeps_inserted (hp : s.procs p = ⟨x.inserted, some (x.insert y)⟩) (hran : Unsettled s p false)
    (hy : x.Cleared y) (habsent : y.pending ≠ [] ∨ s.db.idempotencyKeys.get x.key = none) :
    Sweeps s (.go p) x.key ∨ s.db.idempotencyKeys.get x.key = none := by
  refine habsent.imp_left fun hne => ?_
  obtain ⟨w, hw⟩ := List.exists_mem_of_ne_nil _ hne
  refine ⟨p, rfl, Or.inr ⟨by rw [hp]; rfl, hran.acquire, _, by rw [hp], ?_⟩⟩
  rw [hy.writes w hw] at hw
  exact List.mem_append_left _ hw

theorem inserted_move (hkey : (calls p).key = some x.key)
    (hacq : Finalising x.key false (x.next { status := .statusAcquired }))
    (hp : s.procs p = ⟨x.inserted, some (x.insert y)⟩) (hran : Unsettled s p false) (hy : x.Cleared y)
    (hno : ¬ Claimed calls s x.key) (habsent : y.pending ≠ [] ∨ s.db.idempotencyKeys.get x.key = none)
    (hsm : (s.procs p).prog.small s.clock (s.conn p) = some (ls, prog, cn)) :
    KeyMove calls x s (.go p) p ((s.set p prog cn).log (s.event p)) := by
  have hev : s.event p = [⟨p, .acquireCommit, true⟩] := by
    simp only [Sys.event, Sys.commitsNow, hp]
    rfl
  have hfound := sweeps_inserted hp hran hy habsent
  rw [hev]
  simp only [Sys.conn, hp, AcqCall.small_inserted, Option.some.injEq, Prod.mk.injEq] at hsm
  obtain ⟨-, rfl, rfl⟩ := hsm
  have hlast : ∀ k, x.key ≠ k → lastAcquire calls ((s.set p (.rollback (x.next { status := .statusAcquired }))
      ⟨writeAll (x.insert y).pending s.db, none⟩).log [⟨p, .acquireCommit, true⟩]) k = lastAcquire calls s k := by
    intro k hk
    rw [lastAcquire_commit, if_neg]
    rw [hkey, Option.some.injEq]
    exact hk
  have hran' : Unsettled ((s.set p (.rollback (x.next { status := .statusAcquired }))
      ⟨writeAll (x.insert y).pending s.db, none⟩).log [⟨p, .acquireCommit, true⟩]) p true := by
    refine ⟨ran_log_iff.mpr (Or.inr ⟨_, List.mem_singleton_self _, rfl, rfl⟩), ?_, ?_⟩
    · exact (ran_silent (List.forall_mem_singleton.mpr fun h => by cases h)).trans hran.complete
    · exact (ran_silent (List.forall_mem_singleton.mpr fun h => by cases h)).trans hran.release
  have hown : lastAcquire calls ((s.set p (.rollback (x.next { status := .statusAcquired }))
      ⟨writeAll (x.insert y).pending s.db, none⟩).log [⟨p, .acquireCommit, true⟩]) x.key = some p := by
    rw [lastAcquire_commit, if_pos hkey]
  refine ⟨⟨fun k hc => ?_, fun k hk _ => ?_, fun k q _ _ hsome hsw => ?_, fun k hnone => ?_, fun k => ?_⟩,
    .holding ⟨?_, fun z hz => ?_⟩ hran' (AcqCall.get_insert y s.db) rfl rfl hown, fun k r hr hin => ?_,
    fun k h => (not_clearing rfl h).elim, fun _ => Or.inl ⟨_, AcqCall.get_insert y s.db, rfl, hown, ?_, fun h => ?_⟩⟩
  · obtain ⟨q, hq, hran, hquiet⟩ := hc
    by_cases hqp : q = p
    · subst hqp
      rw [hkey, Option.some.injEq] at hq
      exact Or.inr (hq ▸ held_insert hp)
    · left
      rw [ran_other hqp (fun e he => by rw [List.mem_singleton.mp he])] at hran
      rw [procs_other s hqp] at hquiet
      exact ⟨q, hq, hran, hquiet⟩
  · exact hy.get_insert_other (fun h : x.key = k => hk (h ▸ hkey)) s.db
  · have hk : x.key ≠ k := by
      rintro rfl
      rw [hfound.resolve_left hsw] at hsome
      cases hsome
    exact hy.get_insert_other hk s.db
  · by_cases hk : x.key = k
    · exact Or.inr (hk ▸ held_insert hp)
    · exact Or.inl ((hy.get_insert_other hk s.db).trans hnone)
  · by_cases hk : x.key = k
    · exact Or.inr (hk ▸ ⟨hno, hfound⟩)
    · exact Or.inl (hlast k hk)
  · rw [procs_moved]
    exact hacq
  · rw [procs_moved] at hz
    cases hz
  · left
    have hk : x.key ≠ k := by
      rintro rfl
      have hrow : _ = some r := (AcqCall.get_insert y s.db).symm.trans hr
      cases hrow
      cases hin
    exact ⟨(hy.get_insert_other hk s.db).symm.trans hr, hlast k hk⟩
  · rw [hran'.complete]
    rfl
  · rw [hran'.complete] at h
    cases h

theorem final_step {d : DB} (hkey : (calls p).key = some x.key) (howner : lastAcquire calls s x.key = some p)
    (hsome : (s.db.idempotencyKeys.get x.key).isSome) (hm : s.Moves a p prog ⟨d, none⟩ es)
    (hes : ∀ e ∈ es, e.name ≠ .acquireCommit)
    (hother : ∀ k, x.key ≠ k → d.idempotencyKeys.get k = s.db.idempotencyKeys.get k) :
    KeyStep calls s a p ((s.set p prog ⟨d, none⟩).log es) where
  claim k hc := Or.inl (claimed_silent hm hes hc)
  other k hk _ := hother k fun h => hk (h ▸ hkey)
  row k q hq hqp _ _ := by
    refine hother k fun hk => hqp ?_
    rw [← hk, howner] at hq
    exact (Option.some.inj hq).symm
  absent k hnone := by
    refine Or.inl ((hother k fun hk => ?_).trans hnone)
    rw [hk, hnone] at hsome
    cases hsome
  owner k := Or.inl (lastAcquire_log hes)

theorem complete_move {r : KeyRow} {resp : Response} (hslot : (calls p).slot = some (x.key, x.bodyHash))
    (hran : Unsettled s p true) (hrow : s.db.idempotencyKeys.get x.key = some r) (hhash : r.bodyHash = x.bodyHash)
    (howner : lastAcquire calls s x.key = some p)
    (hm : s.Moves a p (.ret (.response resp)) ⟨s.db.write (.putKey (completedRow resp.status resp.body r)), none⟩
      [⟨p, .complete, true⟩]) :
    KeyMove calls x s a p ((s.set p (.ret (.response resp))
      ⟨s.db.write (.putKey (completedRow resp.status resp.body r)), none⟩).log [⟨p, .complete, true⟩]) := by
  have hes : ∀ e ∈ [(⟨p, .complete, true⟩ : Event n Stmt)], e.name ≠ .acquireCommit :=
    List.forall_mem_singleton.mpr fun h => by cases h
  have hkey : r.key = x.key := Table.key_of_get hrow
  have hcall : (calls p).key = some x.key := by rw [ServerCall.key, hslot]; rfl
  have hother : ∀ k, x.key ≠ k → (s.db.idempotencyKeys.put (completedRow resp.status resp.body r)).get k =
      s.db.idempotencyKeys.get k := fun k hk => Table.get_put_ne _ (hkey ▸ hk)
  have hput : (s.db.idempotencyKeys.put (completedRow resp.status resp.body r)).get x.key =
      some (completedRow resp.status resp.body r) := by
    have h := Table.get_put_self s.db.idempotencyKeys (completedRow resp.status resp.body r)
    rwa [show (completedRow resp.status resp.body r).key = x.key from hkey] at h
  have hdone : ((s.set p (.ret (.response resp)) 
      ⟨s.db.write (.putKey (completedRow resp.status resp.body r)), none⟩).log
      [⟨p, .complete, true⟩]).ran p .complete = true :=
    ran_log_iff.mpr (Or.inr ⟨_, List.mem_singleton_self _, rfl, rfl⟩)
  have hkeep : Keeps ((s.set p (.ret (.response resp)) 
      ⟨s.db.write (.putKey (completedRow resp.status resp.body r)), none⟩).log
      [⟨p, .complete, true⟩]) p :=
    ⟨ran_log_iff.mpr (Or.inl hran.acquire),
      (ran_silent (List.forall_mem_singleton.mpr fun h => by cases h)).trans hran.release⟩
  refine ⟨final_step hcall howner (by rw [hrow]; rfl) hm hes hother,
    .finished (by rw [procs_moved]; trivial) fun _ => hkeep,
    fun k r' hr hd => ?_, fun k h => (not_clearing rfl h).elim,
    fun _ => Or.inl ⟨_, hput, hhash, (lastAcquire_log hes).trans howner, by rw [hdone]; rfl, fun _ => ?_⟩⟩
  · by_cases hk : x.key = k
    · right
      subst hk
      cases hput.symm.trans hr
      refine ⟨resp, ?_, ?_, hdone, by rw [procs_moved], rfl, rfl⟩
      · show _ = some (r.key, r.bodyHash)
        rw [hslot, hkey, hhash]
      · exact (lastAcquire_log hes).trans ((congrArg (lastAcquire calls s) hkey).trans howner)
    · exact Or.inl ⟨(hother k hk).symm.trans hr, lastAcquire_log hes⟩
  · exact ⟨resp, by rw [procs_moved], rfl, rfl⟩

theorem release_move (hcall : (calls p).key = some x.key) (hran : Unsettled s p true)
    (hsome : (s.db.idempotencyKeys.get x.key).isSome) (howner : lastAcquire calls s x.key = some p) (hq : prog.Quiet)
    (hm : s.Moves a p prog
      ⟨writeAll ((s.db.idempotencyKeys.rows.filter fun r => r.key = x.key).map (Write.delKey ·.key)) s.db, none⟩
      [⟨p, .release, true⟩]) :
    KeyMove calls x s a p ((s.set p prog
      ⟨writeAll ((s.db.idempotencyKeys.rows.filter fun r => r.key = x.key).map (Write.delKey ·.key)) s.db, none⟩).log
      [⟨p, .release, true⟩]) := by
  have hes : ∀ e ∈ [(⟨p, .release, true⟩ : Event n Stmt)], e.name ≠ .acquireCommit :=
    List.forall_mem_singleton.mpr fun h => by cases h
  refine ⟨final_step hcall howner hsome hm hes fun k hk => get_deleted_other fun r' hr' => ?_,
    .finished (by rwa [procs_moved]) fun h => ?_, fun k r' hr _ => Or.inl ⟨(get_deleted.mp hr).1, lastAcquire_log hes⟩,
    fun k h => (not_clearing rfl h).elim, fun h => ?_⟩
  · rw [decide_eq_false_iff_not, show r'.key = k from Table.key_of_get hr']
    exact fun h => hk h.symm
  · rw [ran_silent (List.forall_mem_singleton.mpr fun h => by cases h), hran.complete] at h
    cases h
  · have := h.2
    rw [ran_log_iff.mpr (Or.inr ⟨_, List.mem_singleton_self _, rfl, rfl⟩)] at this
    cases this

theorem holding_move {r : KeyRow} (hslot : (calls p).slot = some (x.key, x.bodyHash))
    (hu : (s.procs p).Until DB.idempotencyKeys Lock.IsKey Stmt.OnKeys (Finalises x.key)) (hran : Unsettled s p true)
    (hrow : s.db.idempotencyKeys.get x.key = some r) (hin : r.inFlight = true) (hhash : r.bodyHash = x.bodyHash)
    (howner : lastAcquire calls s x.key = some p) (hm : s.Moves a p prog cn es) :
    KeyMove calls x s a p ((s.set p prog cn).log es) := by
  rcases hu.move hm with ⟨hdb, hu', hes⟩ | ⟨name, err, act, next, hp, hlast, hprog, hquiet, rfl, rfl⟩
  · have hes' : ∀ e ∈ es, e.name ≠ .acquireCommit ∧ e.name ≠ .complete ∧ e.name ≠ .release := by
      intro e he
      exact ⟨fun hn => hes e he (hn ▸ by decide), fun hn => hes e he (hn ▸ by decide),
        fun hn => hes e he (hn ▸ by decide)⟩
    obtain ⟨h1, h2⟩ : KeyStep calls s a p _ ∧ DoneStep calls s p _ := silent_move hm hdb fun e he => (hes' e he).1
    have hran' : Unsettled ((s.set p prog cn).log es) p true := hran.silent hes'
    have hrow' : ((s.set p prog cn).log es).db.idempotencyKeys.get x.key = some r := by
      show cn.db.idempotencyKeys.get x.key = some r
      rw [hdb, hrow]
    have hown' : lastAcquire calls ((s.set p prog cn).log es) x.key = some p :=
      (lastAcquire_log fun e he => (hes' e he).1).trans howner
    refine ⟨h1, .holding (by rwa [procs_moved]) hran' hrow' hin hhash hown', h2, fun k h => ?_,
      fun _ => Or.inl ⟨r, hrow', hhash, hown', by rw [hran'.complete]; exact hin, fun h => ?_⟩⟩
    · cases hran'.acquire.symm.trans h.1
    · rw [hran'.complete] at h
      cases h
  · cases hlast with
    | complete hwrites hnext =>
      rw [hwrites, hrow] at hm ⊢
      rw [hnext] at hprog
      subst hprog
      exact complete_move hslot hran hrow hhash howner hm
    | release hwrites =>
      rw [hwrites] at hm ⊢
      exact release_move (by rw [ServerCall.key, hslot]; rfl) hran (by rw [hrow]; rfl) howner hquiet hm

/-- **Step rule for executions.** -/
theorem KeyStage.move {c : Constraints} {storageId : Str} (hx : Acquires c storageId (calls p) x)
    (h : KeyStage calls x s p) (hC : SparesRunning calls s a)
    (hrow : ∀ k, Claimed calls s k → (s.db.idempotencyKeys.get k).isSome) (hm : s.Moves a p prog cn es) :
    KeyMove calls x s a p ((s.set p prog cn).log es) := by
  cases h with
  | holding hu hran hr hin hhash howner => exact holding_move hx.slot hu hran hr hin hhash howner hm
  | finished hq hc => exact quiet_move hq hc hm
  | start hp hran =>
    cases hm with
    | err herr => exact failed_move hran herr (by rw [hp] at herr; cases herr; trivial)
    | go hsm hfree => exact start_move hp hran hfree hsm
  | opened hp hran =>
    cases hm with
    | err herr => exact failed_move hran herr (by rw [hp] at herr; cases herr; trivial)
    | go hsm hfree => exact opened_move hp hran hC hfree hsm
  | cleared hp hran hy hno =>
    cases hm with
    | err herr => exact failed_move hran herr (by rw [hp] at herr; cases herr; trivial)
    | go hsm hfree => exact cleared_move hx.other hp hran hy hno hfree hsm
  | unclaimed hp hran hy hno =>
    cases hm with
    | err herr => exact failed_move hran herr (by rw [hp] at herr; cases herr; trivial)
    | go hsm hfree => exact unclaimed_move hrow hp hran hy hno hfree hsm
  | inserted hp hran hy hno habsent =>
    cases hm with
    | err herr => exact failed_move hran herr (by rw [hp] at herr; cases herr; trivial)
    | go hsm hfree => exact inserted_move hx.key hx.acquired hp hran hy hno habsent hsm

end

/-! ## Moves of the background deletes -/

theorem sweptBy_sweep {name : Stmt} {which : Time → KeyRow → Bool} (hname : name = .prune ∨ name = .reapStale)
    (hp : (s.procs p).prog = (deleteKeys name which).map .count) (hsess : (s.procs p).sess = none) :
    sweptBy s p = (s.db.idempotencyKeys.rows.filter (which s.clock)).map (.delKey ·.key) := by
  rcases hname with rfl | rfl <;> simp only [sweptBy, hp, Sys.conn, hsess] <;> rfl

theorem sweep_move (hsweep : IsSweep (s.procs p).prog) (hsess : (s.procs p).sess = none)
    (hm : s.Moves a p prog cn es) :
    (KeyStep calls s a p ((s.set p prog cn).log es) ∧ DoneStep calls s p ((s.set p prog cn).log es)) ∧
      prog.Quiet ∧ cn.sess = none := by
  obtain ⟨name, which, hname, hp⟩ := hsweep
  have hcommit : name ≠ .acquireCommit := by rcases hname with rfl | rfl <;> exact fun h => by cases h
  cases hm with
  | err herr =>
    rw [hp] at herr
    cases herr
    exact ⟨silent_move (.err (by rw [hp]; rfl)) rfl (fun e he => by cases he), trivial, rfl⟩
  | @go _ ls _ _ hsm hfree =>
    have hm : s.Moves (.go p) p prog cn (s.event p) := .go hsm hfree
    have hes : ∀ e ∈ s.event p, e.name ≠ .acquireCommit := by
      intro e he hn
      have := (mem_event he).2.1
      rw [hp, hn] at this
      exact hcommit (Option.some.inj this)
    simp only [Sys.conn, hp, hsess] at hsm
    obtain ⟨-, rfl, rfl⟩ := hsm
    have hkept : ∀ k, ¬ Sweeps s (.go p) k →
        (writeAll ((s.db.idempotencyKeys.rows.filter (which s.clock)).map
          (Write.delKey ·.key)) s.db).idempotencyKeys.get k =
          s.db.idempotencyKeys.get k := by
      intro k hsw
      refine get_deleted_other fun r hr => Bool.eq_false_iff.mpr fun hwhich => hsw ⟨p, rfl, Or.inl ?_⟩
      rw [sweptBy_sweep hname hp hsess, ← show r.key = k from Table.key_of_get hr]
      exact List.mem_map_of_mem (List.mem_filter.mpr ⟨Table.mem_of_get hr, hwhich⟩)
    refine ⟨⟨⟨fun k hc => Or.inl (claimed_silent hm hes hc), fun k _ => hkept k, fun k q _ _ _ => hkept k,
      fun k hnone => ?_, fun k => Or.inl (lastAcquire_log hes)⟩, fun k r hr _ => ?_⟩, trivial, rfl⟩
    · exact Or.inl (get_deleted_none hnone)
    · exact Or.inl ⟨(get_deleted.mp hr).1, lastAcquire_log hes⟩

/-! ## Runs -/

section
variable (c : Constraints) (storageId : Str)

variable (calls) in
structure KeyInv (s : Server n) : Prop where
  excl : s.Exclusive
  stage : ∀ p x, Acquires c storageId (calls p) x → KeyStage calls x s p
  idle : ∀ p, (calls p).slot = none → (s.procs p).prog.Quiet ∨ IsSweep (s.procs p).prog ∧ (s.procs p).sess = none

variable {c storageId}

theorem keyInv_start (t : Time) (d : DB) :
    KeyInv calls c storageId (.start t d fun p => (calls p).prog c storageId) where
  excl := exclusive_start _ _ _
  stage p x hx := .start (by rw [← hx.prog]; rfl) ⟨rfl, rfl, rfl⟩
  idle p hslot := by
    rcases call_cases c storageId (calls p) with ⟨x, hx⟩ | ⟨-, hq | hsw⟩
    · rw [hx.slot] at hslot
      cases hslot
    · exact Or.inl hq
    · exact Or.inr ⟨hsw, rfl⟩

theorem KeyInv.cases (h : KeyInv calls c storageId s) (p : Fin n) :
    (∃ x, Acquires c storageId (calls p) x ∧ KeyStage calls x s p) ∨
      (calls p).slot = none ∧ ((s.procs p).prog.Quiet ∨ IsSweep (s.procs p).prog ∧ (s.procs p).sess = none) := by
  rcases call_cases c storageId (calls p) with ⟨x, hx⟩ | ⟨hslot, -⟩
  · exact Or.inl ⟨x, hx, h.stage p x hx⟩
  · exact Or.inr ⟨hslot, h.idle p hslot⟩

theorem KeyStage.tick {x : AcqCall Reply} {dt : Time} (h : KeyStage calls x s p) :
    KeyStage calls x { s with clock := s.clock + dt } p := by
  cases h with
  | start hp hr => exact .start hp ⟨hr.1, hr.2, hr.3⟩
  | opened hp hr => exact .opened hp ⟨hr.1, hr.2, hr.3⟩
  | cleared hp hr hy hno => exact .cleared hp ⟨hr.1, hr.2, hr.3⟩ hy hno
  | unclaimed hp hr hy hno => exact .unclaimed hp ⟨hr.1, hr.2, hr.3⟩ hy hno
  | inserted hp hr hy hno habsent => exact .inserted hp ⟨hr.1, hr.2, hr.3⟩ hy hno habsent
  | holding hu hr hrow hin hhash howner => exact .holding hu ⟨hr.1, hr.2, hr.3⟩ hrow hin hhash howner
  | finished hq hc => exact .finished hq hc

theorem KeyInv.tick (h : KeyInv calls c storageId s) (dt : Time) :
    KeyInv calls c storageId { s with clock := s.clock + dt } :=
  ⟨h.excl, fun p x hx => (h.stage p x hx).tick, h.idle⟩

theorem KeyInv.holds (h : KeyInv calls c storageId s) (hkey : (calls p).key = some k) (hrun : Running s p) :
    ∃ r, s.db.idempotencyKeys.get k = some r ∧ lastAcquire calls s k = some p := by
  rcases h.cases p with ⟨x, hx, hst⟩ | ⟨hslot, -⟩
  · have hk : x.key = k := Option.some.inj (hx.key.symm.trans hkey)
    obtain ⟨hran, hquiet⟩ := hrun
    cases hst with
    | holding _ _ hrow _ _ howner => exact ⟨_, hk ▸ hrow, hk ▸ howner⟩
    | finished hq => exact absurd hq hquiet
    | start _ hr | opened _ hr | cleared _ hr | unclaimed _ hr | inserted _ hr =>
      cases hr.acquire.symm.trans hran
  · rw [ServerCall.key, hslot] at hkey
    cases hkey

theorem KeyInv.keeps (h : KeyInv calls c storageId s) (hkey : (calls p).key = some k) (hc : s.ran p .complete = true) :
    Keeps s p := by
  rcases h.cases p with ⟨x, hx, hst⟩ | ⟨hnone, -⟩
  · cases hst with
    | finished _ hkeep => exact hkeep hc
    | start _ hr | opened _ hr | cleared _ hr | unclaimed _ hr | inserted _ hr | holding _ hr =>
      cases hr.complete.symm.trans hc
  · rw [ServerCall.key, hnone] at hkey
    cases hkey

theorem KeyInv.spares (h : KeyInv calls c storageId s) (hC : SparesRunning calls s a) (hc : Claimed calls s k) :
    ¬ Sweeps s a k := by
  rintro ⟨q, rfl, hsw | ⟨hname, hran, y, hsess, hdel⟩⟩
  · obtain ⟨p, hp, hrun⟩ := hc
    exact hC p q rfl hrun k hp hsw
  · rcases h.cases q with ⟨x, hx, hst⟩ | ⟨-, hq | ⟨⟨name, which, hnm, hp⟩, -⟩⟩
    · cases hst with
      | start hp | opened hp | cleared hp | unclaimed hp => rw [hp] at hname; cases hname
      | @inserted z hp _ hz hno _ =>
        rw [hp] at hsess
        cases hsess
        have hmem : Write.delKey k ∈ z.pending := by simpa [AcqCall.insert, Sess.run] using hdel
        have hk : k = x.key := by injection hz.writes _ hmem
        exact hno (hk ▸ hc)
      | holding _ hr => cases hr.acquire.symm.trans hran
      | finished hq => rw [hq.name?_eq_none] at hname; cases hname
    · rw [hq.name?_eq_none] at hname
      cases hname
    · rw [hp] at hname
      rcases hnm with rfl | rfl <;> cases hname

/-- What a move of an execution does to the key table, and where it leaves the execution. -/
theorem KeyInv.mover (h : KeyInv calls c storageId s) (hC : SparesRunning calls s a) (hm : s.Moves a p prog cn es)
    {x : AcqCall Reply} (hx : Acquires c storageId (calls p) x) : KeyMove calls x s a p ((s.set p prog cn).log es) := by
  refine (h.stage p x hx).move hx hC (fun k hc => ?_) hm
  obtain ⟨q, hq, hrun⟩ := hc
  obtain ⟨r, hr, -⟩ := h.holds hq hrun
  rw [hr]
  rfl

theorem KeyInv.idle_move (h : KeyInv calls c storageId s) (hm : s.Moves a p prog cn es)
    (hslot : (calls p).slot = none) :
    (KeyStep calls s a p ((s.set p prog cn).log es) ∧ DoneStep calls s p ((s.set p prog cn).log es)) ∧
      prog.Quiet ∧ cn.sess = none := by
  rcases h.idle p hslot with hq | ⟨hsw, hsess⟩
  · obtain ⟨h12, hq', -, hsess, -⟩ := quiet_silent hq hm
    exact ⟨h12, hq', hsess⟩
  · exact sweep_move hsw hsess hm

theorem KeyInv.step (h : KeyInv calls c storageId s) (hC : SparesRunning calls s a) (hm : s.Moves a p prog cn es) :
    KeyStep calls s a p ((s.set p prog cn).log es) ∧ DoneStep calls s p ((s.set p prog cn).log es) := by
  rcases h.cases p with ⟨x, hx, -⟩ | ⟨hslot, -⟩
  · exact ⟨(h.mover hC hm hx).step, (h.mover hC hm hx).done⟩
  · exact (h.idle_move hm hslot).1

theorem KeyInv.move (h : KeyInv calls c storageId s) (hC : SparesRunning calls s a) (hm : s.Moves a p prog cn es) :
    KeyInv calls c storageId ((s.set p prog cn).log es) where
  excl := h.excl.move hm
  stage q x hx := by
    by_cases hqp : q = p
    · subst hqp
      exact (h.mover hC hm hx).stage
    · exact (h.stage q x hx).other hx.key (h.step hC hm).1 (fun k => h.spares hC) h.excl hqp (procs_other s hqp ..)
        fun y => ran_other hqp (event_proc hm)
  idle q hslot := by
    by_cases hqp : q = p
    · subst hqp
      rw [procs_moved]
      exact Or.inl (h.idle_move hm hslot).2.1
    · rw [procs_other s hqp]
      exact h.idle q hslot

def RowsDone (calls : Fin n → ServerCall) (s : Server n) : Prop :=
  ∀ k r, s.db.idempotencyKeys.get k = some r → r.inFlight = false → ∃ p, Completed calls s p r

theorem RowsDone.move (hd : RowsDone calls s) (h : KeyInv calls c storageId s) (hC : SparesRunning calls s a)
    (hm : s.Moves a p prog cn es) : RowsDone calls ((s.set p prog cn).log es) := by
  intro k r hr hin
  rcases (h.step hC hm).2 k r hr hin with ⟨hr', hlast⟩ | hp
  · have hk : r.key = k := Table.key_of_get hr'
    obtain ⟨q, resp, hslot, howner, hran, hret, hstatus⟩ := hd k r hr' hin
    refine ⟨q, resp, hslot, ?_, ran_log_iff.mpr (Or.inl hran), ?_, hstatus⟩
    · rw [hk, hlast, ← hk, howner]
    · by_cases hqp : q = p
      · subst hqp
        exact (ret_stuck hret hm).elim
      · rwa [procs_other s hqp]
  · exact ⟨p, hp⟩

/-- **Run rule for the key table.** -/
theorem keyInv_runs {t : Time} {d : DB} {as : List (Act n)}
    (hC : (Sys.start t d fun p => (calls p).prog c storageId).Along (fun s a _ => SparesRunning calls s a) as)
    (hr : (Sys.start t d fun p => (calls p).prog c storageId).runs as = some s) : KeyInv calls c storageId s :=
  Sys.runs_moves (P := KeyInv calls c storageId) (fun _ dt h => h.tick dt) (fun _ _ _ _ _ _ h hC hm => h.move hC hm)
    (keyInv_start t d) hC hr

theorem rowsDone_runs {t : Time} {d : DB} {as : List (Act n)} (hempty : d.idempotencyKeys = .empty)
    (hC : (Sys.start t d fun p => (calls p).prog c storageId).Along (fun s a _ => SparesRunning calls s a) as)
    (hr : (Sys.start t d fun p => (calls p).prog c storageId).runs as = some s) : RowsDone calls s := by
  refine (Sys.runs_moves (P := fun s => KeyInv calls c storageId s ∧ RowsDone calls s)
    (fun _ dt h => ⟨h.1.tick dt, h.2⟩)
    (fun _ _ _ _ _ _ h hC hm => ⟨h.1.move hC hm, h.2.move h.1 hC hm⟩) ⟨keyInv_start t d, fun k r hr => ?_⟩ hC hr).2
  have hr' : d.idempotencyKeys.get k = some r := hr
  rw [hempty] at hr'
  cases hr'

theorem sweptBy_finalise
    (hname : (s.procs p).prog.name? = some .complete ∨ (s.procs p).prog.name? = some .release) : sweptBy s p = [] := by
  unfold sweptBy
  cases hp : (s.procs p).prog with
  | step name err act next =>
    rw [hp] at hname
    rcases hname with hname | hname <;> cases hname <;> rfl
  | _ => rfl

theorem KeyInv.finalise (h : KeyInv calls c storageId s) {s' : Server n}
    (hname : (s.procs p).prog.name? = some .complete ∨ (s.procs p).prog.name? = some .release) (hgo : s.go p = some s')
    (hk : s'.db.idempotencyKeys.get k ≠ s.db.idempotencyKeys.get k) :
    (calls p).key = some k ∧ lastAcquire calls s k = some p := by
  obtain ⟨ls, prog, cn, hsm, hfree, rfl⟩ := go_eq_some hgo
  have hswept := sweptBy_finalise hname
  have hC : SparesRunning calls s (.go p) := by
    intro q p' hp _ k _
    cases hp
    rw [hswept]
    exact List.not_mem_nil
  have hnosweep : ¬ Sweeps s (.go p) k := by
    rintro ⟨q, hq, hsw | ⟨hcommit, -⟩⟩
    · cases hq
      rw [hswept] at hsw
      cases hsw
    · cases hq
      rcases hname with hname | hname <;> rw [hname] at hcommit <;> cases hcommit
  have hkey : (calls p).key = some k := by
    by_contra hne
    exact hk ((h.step hC (.go hsm hfree)).1.other k hne hnosweep)
  refine ⟨hkey, ?_⟩
  rcases h.cases p with ⟨x, hx, hst⟩ | ⟨hslot, -⟩
  · have hxk : x.key = k := Option.some.inj (hx.key.symm.trans hkey)
    cases hst with
    | holding _ _ _ _ _ howner => exact hxk ▸ howner
    | finished hq => rw [hq.name?_eq_none] at hname; rcases hname with hname | hname <;> cases hname
    | start hp | opened hp | cleared hp | unclaimed hp | inserted hp =>
      rw [hp] at hname
      rcases hname with hname | hname <;> cases hname
  · rw [ServerCall.key, hslot] at hkey
    cases hkey

/-- **Rows are finalised by their owner.** In every run from an empty key table
whose steps delete no row of a running execution as expired or stale, a
`Complete` or `Release` changes only the row that its own execution inserted,
and a completed row holds what an execution with its key and body hash returned. -/
theorem row_finalised_by_owner {t : Time} {d : DB} {as : List (Act n)} (hempty : d.idempotencyKeys = .empty)
    (hC : (Sys.start t d fun p => (calls p).prog c storageId).Along (fun s a _ => SparesRunning calls s a) as)
    (hr : (Sys.start t d fun p => (calls p).prog c storageId).runs as = some s) :
    (∀ p s' k, (s.procs p).prog.name? = some .complete ∨ (s.procs p).prog.name? = some .release → s.go p = some s' →
      s'.db.idempotencyKeys.get k ≠ s.db.idempotencyKeys.get k →
      (calls p).key = some k ∧ lastAcquire calls s k = some p) ∧
    ∀ r ∈ s.db.idempotencyKeys.rows, r.inFlight = false → ∃ p, Completed calls s p r :=
  ⟨fun _ _ _ hname hgo hk => (keyInv_runs hC hr).finalise hname hgo hk,
    fun r hmem hin => rowsDone_runs hempty hC hr r.key r (Table.get_of_mem hmem) hin⟩

end

end

/-! ## Executions whose rows are deleted under them -/

def samplePost (key hash : String) : ServerCall :=
  .post { expiresAt := 86400000000 } ⟨some 1, some ⟨.ok [sampleSegment "o" "[0:0_1:0)" 0 1], .ok (lit hash)⟩, lit key⟩

def separateCalls : Fin 3 → ServerCall
  | 0 => samplePost "k" "a"
  | 1 => samplePost "l" "b"
  | 2 => .prune

def separateSchedule : List (Act 3) := Act.turns 2 [1, 1, 1, 1, 1, 1, 1, 1, 1, 1, 2, 0, 0, 0, 0, 0, 0, 0, 0, 0]

theorem separate_rows :
    ∃ s, (Sys.start 0 DB.empty fun p => (separateCalls p).prog {} (lit "default")).runs separateSchedule =
      some s ∧ (s.procs 0).prog.name? = some .complete ∧ lastAcquire separateCalls s (lit "k") = some 0 ∧
    ∃ r ∈ s.db.idempotencyKeys.rows, r.inFlight = false ∧ ∃ p, Completed separateCalls s p r := by
  obtain ⟨s, hs⟩ := Option.isSome_iff_exists.mp (by decide +kernel :
    ((Sys.start 0 DB.empty fun p => (separateCalls p).prog {} (lit "default")).runs separateSchedule).isSome = true)
  have hfacts : ((Sys.start 0 DB.empty fun p => (separateCalls p).prog {} (lit "default")).runs separateSchedule).map
      (fun s => ((s.procs 0).prog.name?,
        (s.go 0).map fun s' => decide (s'.db.idempotencyKeys.get (lit "k") ≠ s.db.idempotencyKeys.get (lit "k")),
        s.db.idempotencyKeys.rows.any fun r => !r.inFlight)) = some (some .complete, some true, true) := by
    decide +kernel
  rw [hs, Option.map_some, Option.some.injEq, Prod.mk.injEq, Prod.mk.injEq, Option.map_eq_some_iff,
    List.any_eq_true] at hfacts
  obtain ⟨hname, ⟨s', hgo, hk⟩, r, hmem, hdone⟩ := hfacts
  have hspares : (Sys.start 0 DB.empty fun p => (separateCalls p).prog {} (lit "default")).Along
      (fun s a _ => SparesRunning separateCalls s a) separateSchedule := by decide +kernel
  obtain ⟨howner, hrows⟩ := row_finalised_by_owner rfl hspares hs
  refine ⟨s, hs, hname, (howner 0 s' _ (Or.inl hname) hgo (of_decide_eq_true hk)).2, r, hmem, ?_, ?_⟩
  · simpa using hdone
  · exact hrows r hmem (by simpa using hdone)

def takeoverCalls : Fin 3 → ServerCall
  | 0 => samplePost "k" "a"
  | 1 => samplePost "k" "b"
  | 2 => .reapStale 0

/-- The first execution acquires the key and takes a minute over its registration. Its row is reaped
and the second execution acquires the key; then the registration of the first fails, for want of the flow. -/
def takeoverSchedule : List (Act 3) :=
  Act.turns 2 [0, 0, 0, 0, 0, 0, 0] ++ .tick 60000000 :: Act.turns 2 [2, 1, 1, 1, 1, 1, 0, 0]

/-- The `Complete` of the first execution then changes the row of the second, which holds
the 404 of the first under the body hash of the second. -/
theorem row_taken_over :
    ∃ s s' r, (Sys.start 0 DB.empty fun p => (takeoverCalls p).prog {} (lit "default")).runs takeoverSchedule =
        some s ∧ (s.procs 0).prog.name? = some .complete ∧ s.go 0 = some s' ∧
      s'.db.idempotencyKeys.get (lit "k") ≠ s.db.idempotencyKeys.get (lit "k") ∧
      lastAcquire takeoverCalls s (lit "k") ≠ some 0 ∧
      r ∈ s'.db.idempotencyKeys.rows ∧ r.bodyHash = lit "b" ∧ r.inFlight = false ∧ r.responseStatus = 404 ∧
      ∀ p, ¬ Completed takeoverCalls s' p r := by
  have hfacts : ((Sys.start 0 DB.empty fun p => (takeoverCalls p).prog {} (lit "default")).runs takeoverSchedule).any
      (fun s => decide ((s.procs 0).prog.name? = some .complete) &&
        decide (lastAcquire takeoverCalls s (lit "k") ≠ some 0) && (s.go 0).any fun s' =>
          decide (s'.db.idempotencyKeys.get (lit "k") ≠ s.db.idempotencyKeys.get (lit "k")) &&
          s'.db.idempotencyKeys.rows.any fun r => decide (r.bodyHash = lit "b") && !r.inFlight &&
            decide (r.responseStatus = 404) && (lastAcquire takeoverCalls s' r.key).all fun p => !s'.ran p .complete) =
      true := by decide +kernel
  simp only [Option.any_eq_true, List.any_eq_true, Option.all_eq_true, Bool.and_eq_true, decide_eq_true_eq,
    Bool.not_eq_true'] at hfacts
  obtain ⟨s, hs, ⟨hname, hother⟩, s', hgo, hchanged, r, hr, ⟨⟨hhash, hdone⟩, hstatus⟩, hran⟩ := hfacts
  refine ⟨s, s', r, hs, hname, hgo, hchanged, hother, hr, hhash, hdone, hstatus, fun p hp => ?_⟩
  -- the row is the second execution's, and that has not completed it
  obtain ⟨_, -, hlast, hcompleted, -⟩ := hp
  cases (hran p hlast).symm.trans hcompleted

end OpenTams
