import OpenTams.Finalise
import OpenTams.KeyOwner
import OpenTams.SegmentConc
import OpenTams.Through

/-!
# Whose response a cached answer is

The row of a key holds a body hash and no flow id. An answer from the cache
therefore comes from an execution with the same body, but on any flow: the key
and the body of a request on one flow, sent to another, get the 201 of the
first. Where a key and a body hash stand for one flow, and no row of a running
execution is deleted, a cached answer comes from a request on the same flow
with the same body, and a 201 from one whose segments are committed.
-/

namespace OpenTams

open Sql

/-! ## A 201 stands behind the commit of the segments -/

theorem insertSegments_through (c : Constraints) (nextval : Nat → Nat) (batch : InsertBatch) :
    (insertSegments c nextval batch).Through .insertCommit fun _ => False := by
  unfold insertSegments
  cases checkBatch batch with
  | error e => trivial
  | ok bounds =>
    refine Prog.Through.inTx ?_
    unfold insertBody
    refine Prog.through_bind _ fun guard => Prog.through_bind _ fun _ => Prog.through_bind _ fun _ => ?_
    refine Prog.through_bind _ fun _ => Prog.through_bind _ fun _ => Prog.through_bind _ fun _ => ?_
    exact Prog.through_bind _ fun _ => Prog.through_commitThen

theorem registerBatch_through (c : Constraints) (storageId : Str) (nextval : Nat → Nat) (req : RegisterParams) :
    (registerBatch c storageId nextval req).Through .insertCommit fun res => res.outcome ≠ .outcomeAllAccepted := by
  unfold registerBatch
  split
  · trivial
  unfold registerScreened
  split
  · exact fun h => by cases h
  · refine (insertSegments_through ..).attempt.bind fun r hr => ?_
    cases r with
    | ok a => exact (hr a rfl).elim
    | error e => trivial

def NotCreated (a : Reply) : Prop :=
  ∀ resp : Response, a = .response resp → cachedPostResponse (some ⟨resp.status, resp.body⟩) ≠ .created

theorem Response.Storable.notCreated {resp : Response} (h : resp.Storable) (hne : resp ≠ .created) :
    NotCreated (.response resp) := by
  intro resp' hresp hcached
  cases hresp
  exact hne ((cachedPostResponse_stored h).symm.trans hcached)

theorem storeThen_through (x : Stmt) (key : Str) {resp : Response} (h : NotCreated (.response resp)) :
    ((storeThen key resp).map Reply.response).Through x NotCreated := by
  simp only [storeThen, Prog.map_bind]
  exact Prog.through_bind _ fun _ => Prog.through_bind _ fun _ => h

theorem postRegistered_through (x : Stmt) (key : Str) {r : Except Err RegisterResult}
    (h : ∀ res, r = .ok res → res.outcome ≠ .outcomeAllAccepted) :
    ((postRegistered key r).map Reply.response).Through x NotCreated := by
  cases r with
  | ok res =>
    have hstorable : (Response.bulkFailure (registerFailureToAPI res.failed)).Storable := trivial
    rw [postRegistered_bulk key (h res rfl)]
    exact storeThen_through x key (hstorable.notCreated (by simp))
  | error e =>
    cases hresp : registerErrorResponse e with
    | some resp =>
      have hstorable := registerErrorResponse_storable hresp
      obtain ⟨status, p, rfl, -⟩ := registerErrorResponse_problem hresp
      rw [postRegistered_error key hresp]
      exact storeThen_through x key (hstorable.notCreated (by simp))
    | none =>
      -- a panic and an error of the server are not answered at all
      cases e with
      | panic =>
        simp only [postRegistered, postFailed, Prog.map_bind]
        exact Prog.through_bind _ fun _ => trivial
      | _ =>
        simp only [postRegistered, postFailed, hresp, Prog.map_bind]
        exact Prog.through_bind _ fun _ => Prog.through_bind _ fun _ => trivial

theorem postAcquired_through (c : Constraints) (storageId : Str) (env : PostEnv) (x : Post) :
    ((postAcquired c storageId env x { status := .statusAcquired }).map Reply.response).Through .insertCommit
      NotCreated := by
  simp only [postAcquired, Prog.map_bind]
  exact (registerBatch_through ..).attempt.bind fun r hr => postRegistered_through _ _ hr

/-! ## Runs -/

def ServerCall.flowId : ServerCall → Option Uuid
  | .post _ req => req.flowId
  | _ => none

def ServerCall.body : ServerCall → Option PostBody
  | .post _ req => req.body
  | _ => none

section
variable {n : Nat} (calls : Fin n → ServerCall)

/-- Requests with one key and one body hash are about one flow. -/
def OneFlow : Prop :=
  ∀ p q, (calls p).slot.isSome → (calls p).slot = (calls q).slot → (calls p).flowId = (calls q).flowId

def NoCollision : Prop :=
  ∀ p q b b' h, (calls p).body = some b → (calls q).body = some b' → b.hash = .ok h → b'.hash = .ok h →
    b.segments = b'.segments

/-- The next statement of `q` is the select of its `Acquire`; it finds `r`, from which `q` is answered. -/
structure FindsCached (s : Server n) (q : Fin n) (r : KeyRow) : Prop where
  next : (s.procs q).prog.name? = some .acquireSelect
  found : ∃ k h, (calls q).slot = some (k, h) ∧ (s.conn q).view.idempotencyKeys.get k = some r ∧
    (acquireAnswer h r).status = .statusCached

variable {calls} {c : Constraints} {storageId : Str} {s s' : Server n} {a : Act n} {p q : Fin n} {r : KeyRow}
  {prog : Tx Reply} {cn : Conn DB Write Lock} {es : List (Event n Stmt)}

theorem KeyStage.acquired {x : AcqCall Reply} {e : Event n Stmt} (h : KeyStage calls x s p)
    (hm : s.Moves a p prog cn es) (he : e ∈ es) (hname : e.name = .acquireCommit) :
    prog = .rollback (x.next { status := .statusAcquired }) := by
  cases h with
  | holding hu _ _ _ _ _ =>
    rcases hu.move hm with ⟨-, -, hes⟩ | ⟨name, err, act, next, -, hlast, -, -, -, rfl⟩
    · exact absurd (hname ▸ by decide) (hes e he)
    · rw [List.mem_singleton.mp he] at hname
      cases hname
      cases hlast
  | finished hq _ =>
    obtain ⟨-, -, -, -, rfl⟩ : (KeyStep calls s a p _ ∧ _) ∧ _ := quiet_silent hq hm
    cases he
  | inserted hp _ =>
    cases hm with
    | err _ => cases he
    | go hsm _ =>
      simp only [Sys.conn, hp] at hsm
      rw [AcqCall.small_inserted] at hsm
      cases hsm
      rfl
  | start hp _ | opened hp _ | cleared hp _ | unclaimed hp _ =>
    cases hm with
    | err _ => cases he
    | go _ _ =>
      have hn := (mem_event he).2.1
      rw [hp, hname] at hn
      cases hn

variable (calls) in
/-- An execution that has acquired its key has committed segments or will not return a 201 without. -/
def Backed (s : Server n) : Prop :=
  ∀ p env req x, calls p = .post env req → checkPost req = .ok x → validateKey x.key = .ok () →
    s.ran p .acquireCommit = true → s.ran p .insertCommit = true ∨ (s.procs p).prog.Through .insertCommit NotCreated

theorem Backed.move (hb : Backed calls s) (h : KeyInv calls c storageId s) (hm : s.Moves a p prog cn es) :
    Backed calls ((s.set p prog cn).log es) := by
  intro q env req x hq hx hk hran
  by_cases hqp : q = p
  · subst hqp
    rw [procs_moved]
    rcases ran_log_iff.mp hran with hran | ⟨e, he, -, hname⟩
    · rcases hb q env req x hq hx hk hran with hins | hthrough
      · exact Or.inl (ran_log_iff.mpr (Or.inl hins))
      · exact (hthrough.move hm).imp_left fun he => ran_log_iff.mpr (Or.inr he)
    · right
      rw [(h.stage q _ (hq ▸ acquires_post hx hk)).acquired hm he hname]
      exact postAcquired_through c storageId env x
  · rw [procs_other s hqp, ran_other hqp (event_proc hm)]
    rw [ran_other hqp (event_proc hm)] at hran
    exact hb q env req x hq hx hk hran

theorem backed_runs {t : Time} {d : DB} {as : List (Act n)}
    (hC : (Sys.start t d fun p => (calls p).prog c storageId).Along (fun s a _ => SparesRunning calls s a) as)
    (hr : (Sys.start t d fun p => (calls p).prog c storageId).runs as = some s) : Backed calls s :=
  (Sys.runs_moves (P := fun s => KeyInv calls c storageId s ∧ Backed calls s) (fun _ dt h => ⟨h.1.tick dt, h.2⟩)
    (fun _ _ _ _ _ _ h hC hm => ⟨h.1.move hC hm, h.2.move h.1 hm⟩)
    ⟨keyInv_start t d, fun _ _ _ _ _ _ _ hran => by cases hran⟩ hC hr).2

theorem AcqCall.Cleared.get_view {x : AcqCall Reply} {y : Sess Write Lock} (h : x.Cleared y) {d : DB}
    (hr : (writeAll y.pending d).idempotencyKeys.get x.key = some r) : d.idempotencyKeys.get x.key = some r := by
  refine writeAll_rule (J := fun v : DB => v.idempotencyKeys.get x.key = some r → d.idempotencyKeys.get x.key = some r)
    (fun w hw v _ hv => ?_) id hr
  rw [h.writes w hw] at hv
  cases (Table.get_del_self v.idempotencyKeys x.key).symm.trans hv

theorem KeyStage.selects {x : AcqCall Reply} (h : KeyStage calls x s q)
    (hname : (s.procs q).prog.name? = some .acquireSelect) : ∃ y, s.procs q = ⟨x.cleared, some y⟩ ∧ x.Cleared y := by
  cases h with
  | cleared hp _ hy _ => exact ⟨_, hp, hy⟩
  | start hp _ | opened hp _ | unclaimed hp _ | inserted hp _ =>
    rw [hp] at hname
    cases hname
  | holding hu _ _ _ _ _ =>
    have hp := hu.1
    cases hprog : (s.procs q).prog with
    | step name err act next =>
      rw [hprog] at hp hname
      cases hname
      rcases hp.2 with ⟨hF, -⟩ | ⟨-, hlast, -⟩
      · exact absurd (by decide) hF
      · cases hlast
    | commit name err next =>
      rw [hprog] at hp hname
      cases hname
      exact absurd (by decide) hp.1
    | _ =>
      rw [hprog] at hname
      cases hname
  | finished hq _ =>
    rw [hq.name?_eq_none] at hname
    cases hname

theorem acquireAnswer_cached {h : Str} (hc : (acquireAnswer h r).status = .statusCached) :
    r.bodyHash = h ∧ r.inFlight = false ∧
      acquireAnswer h r = { status := .statusCached, cached := some ⟨r.responseStatus, r.responseBody⟩ } := by
  unfold acquireAnswer at hc ⊢
  by_cases hh : r.bodyHash = h
  · cases hin : r.inFlight with
    | true => simp [hh, hin] at hc
    | false => simp [hh]
  · simp [hh] at hc

theorem checkPost_ok {req : PostRequest} {x : Post} (h : checkPost req = .ok x) :
    req.flowId = some x.params.flowId ∧
      ∃ b, req.body = some b ∧ b.segments = .ok x.params.segments ∧ b.hash = .ok x.bodyHash := by
  unfold checkPost at h
  repeat' split at h
  all_goals cases h
  exact ⟨by assumption, _, by assumption, by assumption, by assumption⟩

/-- **Cached answers stay with their request.** In every run from an empty key table
whose steps delete no row of a running execution as expired or stale, in which
one key and body hash stand for one flow and equal hashes for equal bodies, an
execution that is answered from a row is answered with what an execution of a
request on the same flow with the same body has completed the row with, and with
a 201 only if that one has committed its segments. -/
theorem cached_from_same_request {t : Time} {d : DB} {as : List (Act n)} (hempty : d.idempotencyKeys = .empty)
    (hflow : OneFlow calls) (hhash : NoCollision calls)
    (hC : (Sys.start t d fun p => (calls p).prog c storageId).Along (fun s a _ => SparesRunning calls s a) as)
    (hr : (Sys.start t d fun p => (calls p).prog c storageId).runs as = some s)
    (hq : FindsCached calls s q r) (hgo : s.go q = some s') :
    (s'.procs q).prog =
        .rollback (.ret (.response (cachedPostResponse (some ⟨r.responseStatus, r.responseBody⟩)))) ∧
      ∃ p, Completed calls s p r ∧ (calls p).flowId = (calls q).flowId ∧ (calls p).body = (calls q).body ∧
        (cachedPostResponse (some ⟨r.responseStatus, r.responseBody⟩) = .created → s.ran p .insertCommit = true) := by
  obtain ⟨hname, k, h, hslot, hrow, hcached⟩ := hq
  obtain ⟨env, req, x, hcall, hx, hk, rfl, rfl⟩ := slot_eq_some hslot
  obtain ⟨hh, hin, hanswer⟩ := acquireAnswer_cached hcached
  obtain ⟨y, hp, hy⟩ := ((keyInv_runs hC hr).stage q _ (hcall ▸ acquires_post hx hk)).selects hname
  simp only [Sys.conn, hp, Conn.view_some] at hrow
  obtain ⟨ls, prog, cn, hsm, -, rfl⟩ := go_eq_some hgo
  simp only [Sys.conn, hp] at hsm
  rw [AcqCall.small_cleared_some hrow] at hsm
  cases hsm
  refine ⟨?_, ?_⟩
  · rw [procs_moved, hanswer]
    rfl
  have hdb : s.db.idempotencyKeys.get x.key = some r := hy.get_view hrow
  obtain ⟨p, hdone⟩ := rowsDone_runs hempty hC hr _ _ hdb hin
  obtain ⟨resp, hslotp, -, hran, hret, hstatus, hbody⟩ := id hdone
  have hkey : r.key = x.key := Table.key_of_get hdb
  rw [hkey, hh] at hslotp
  obtain ⟨env', req', x', hcall', hx', hk', hxk, hxh⟩ := slot_eq_some hslotp
  refine ⟨p, hdone, hflow p q (by rw [hslotp]; rfl) (hslotp.trans hslot.symm), ?_, fun hcreated => ?_⟩
  · obtain ⟨-, b, hb, -, hbh⟩ := checkPost_ok hx
    obtain ⟨-, b', hb', -, hbh'⟩ := checkPost_ok hx'
    have hbq : (calls q).body = some b := by rw [hcall]; exact hb
    have hbp : (calls p).body = some b' := by rw [hcall']; exact hb'
    have hseg := hhash p q b' b _ hbp hbq hbh' (by rw [hbh, hxh])
    rw [hbp, hbq]
    cases b
    cases b'
    simp only [Option.some.injEq, PostBody.mk.injEq]
    exact ⟨hseg, hbh'.trans (hxh ▸ hbh.symm)⟩
  · have hkeeps := (keyInv_runs hC hr).keeps (by rw [ServerCall.key, hslotp]; rfl) hran
    refine (backed_runs hC hr p env' req' x' hcall' hx' hk' hkeeps.1).resolve_right fun hthrough => ?_
    rw [hret] at hthrough
    rw [hstatus, hbody] at hcreated
    exact hthrough resp rfl hcreated

end

/-! ## One body on two flows -/

def postOn (f : Uuid) (key hash : String) : ServerCall :=
  .post { expiresAt := 86400000000 } ⟨some f, some ⟨.ok [sampleSegment "o" "[0:0_1:0)" 0 1], .ok (lit hash)⟩, lit key⟩

def sameFlowCalls : Fin 2 → ServerCall := fun _ => postOn 1 "k" "a"

def replaySchedule : List (Act 2) := Act.turns 1 [0, 0, 0, 0, 0, 0, 0, 0, 0, 0, 0, 0, 0, 0, 0, 0, 1, 1]

theorem created_replayed : ∃ s s' r,
    (Sys.start 0 twoFlows fun p => (sameFlowCalls p).prog {} (lit "default")).runs replaySchedule = some s ∧
    s.go 1 = some s' ∧ (s'.procs 1).prog = .rollback (.ret (.response .created)) ∧
    ∃ p, Completed sameFlowCalls s p r ∧ s.ran p .insertCommit = true := by
  obtain ⟨s, hs⟩ := Option.isSome_iff_exists.mp (by decide +kernel :
    ((Sys.start 0 twoFlows fun p => (sameFlowCalls p).prog {} (lit "default")).runs replaySchedule).isSome = true)
  have hfacts : ((Sys.start 0 twoFlows fun p => (sameFlowCalls p).prog {} (lit "default")).runs replaySchedule).map
      (fun s => ((s.procs 1).prog.name?, (s.go 1).isSome,
        ((s.conn 1).view.idempotencyKeys.get (lit "k")).map fun r => (acquireAnswer (lit "a") r).status,
        ((s.conn 1).view.idempotencyKeys.get (lit "k")).map fun r =>
          cachedPostResponse (some ⟨r.responseStatus, r.responseBody⟩))) =
      some (some .acquireSelect, true, some .statusCached, some .created) := by
    decide +kernel
  have hspares : (Sys.start 0 twoFlows fun p => (sameFlowCalls p).prog {} (lit "default")).Along
      (fun s a _ => SparesRunning sameFlowCalls s a) replaySchedule := by decide +kernel
  rw [hs, Option.map_some, Option.some.injEq, Prod.mk.injEq, Prod.mk.injEq, Prod.mk.injEq, Option.isSome_iff_exists,
    Option.map_eq_some_iff] at hfacts
  obtain ⟨hname, ⟨s', hgo⟩, ⟨r, hrow, hcached⟩, hresp⟩ := hfacts
  rw [hrow, Option.map_some, Option.some.injEq] at hresp
  have hone : OneFlow sameFlowCalls := fun _ _ _ _ => rfl
  have hsame : NoCollision sameFlowCalls := by
    intro p q b b' h hb hb' _ _
    cases hb
    cases hb'
    rfl
  obtain ⟨hprog, p, hdone, -, -, hcreated⟩ :=
    cached_from_same_request rfl hone hsame hspares hs ⟨hname, lit "k", lit "a", rfl, hrow, hcached⟩ hgo
  rw [hresp] at hprog hcreated
  exact ⟨s, s', r, hs, hgo, hprog, p, hdone, hcreated rfl⟩

def twoFlowCalls : Fin 2 → ServerCall
  | 0 => postOn 1 "k" "a"
  | 1 => postOn 2 "k" "a"

/-- The request on the second flow is answered with a 201, and the flow has no segment. -/
theorem created_for_other_flow :
    ((Sys.start 0 twoFlows fun p => (twoFlowCalls p).prog {} (lit "default")).runs
        (replaySchedule ++ [.go 1, .go 1])).map
      (fun s => ((s.procs 1).prog.result?.map fun r => r.toOption, (s.db.segmentsOf 1).length,
        (s.db.segmentsOf 2).length)) =
    some (some (some (.response .created)), 1, 0) := by
  decide +kernel

end OpenTams
