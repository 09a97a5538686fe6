import OpenTams.CachedReplay
import OpenTams.RegisterPartition
import OpenTams.SegmentClient

/-!
# The client's registration of segments

`RegisterSegments` of `tools/internal/opentamsclient` against the server's own
handler. The client takes every status below 300 for success, and the server
answers with 200 where it has refused some of the segments or all of them.
-/

namespace OpenTams

open Sql Prog Fallible

/-! ## The errors of the registration -/

def Err.Failing (e : Err) : Prop := 400 ≤ (errorHandler e).status

theorem Err.Failing.within {e : Err} (h : e.Failing) (m : Msg) : (e.within m).Failing := by
  cases e with
  | panic => exact h
  | _ => exact h

theorem failing_of_noApp {e : Err} (h : e.asApp = none) : e.Failing := by
  rw [Err.Failing, errorHandler, h]
  exact Nat.le_of_ble_eq_true rfl

theorem renderSpan_failing {first last : Option Str} {e : Err} (h : renderSpan first last = .error e) : e.Failing := by
  unfold renderSpan at h
  repeat' split at h
  all_goals cases h
  all_goals exact failing_of_noApp rfl

theorem checkBatch_failing {batch : InsertBatch} {e : Err} (h : checkBatch batch = .error e) : e.Failing := by
  have hbounds : ∀ i segs, segmentBounds i segs = .error e → e.Failing := by
    intro i segs
    induction segs generalizing i with
    | nil => exact nofun
    | cons seg segs ih =>
      intro h
      unfold segmentBounds at h
      repeat' split at h
      all_goals cases h
      · exact failing_of_noApp rfl
      · exact failing_of_noApp rfl
      · exact ih _ ‹_›
  unfold checkBatch at h
  repeat' split at h
  all_goals cases h
  · exact hbounds _ _ ‹_›
  · exact failing_of_noApp rfl

theorem ends_registerObject (batch : InsertBatch) (i : Nat) (seg : Segment) :
    (registerObject batch i seg).Ends Err.Failing fun _ => True := by
  unfold registerObject
  split
  · rename_i e he
    unfold objectStorage at he
    repeat' split at he
    all_goals cases he
    exact failing_of_noApp rfl
  · rename_i storageId _
    refine ends_stmtE (failing_of_noApp rfl) fun t v e he => ?_
    cases hu : upsertedObject storageId seg.objectId v with
    | ok r =>
      rw [hu] at he
      cases he
    | error e' =>
      rw [hu] at he
      cases he
      unfold upsertedObject at hu
      repeat' split at hu
      all_goals cases hu
      all_goals exact failing_of_noApp rfl

theorem ends_checkObjectTimerange (i : Nat) (seg : Segment) :
    (checkObjectTimerange i seg).Ends Err.Failing fun _ => True := by
  unfold checkObjectTimerange
  split
  · trivial
  · refine ends_stmtE (failing_of_noApp rfl) fun t v e he => ?_
    split at he
    · cases he
    · rename_i hviol
      cases he
      unfold objectTimerangeViolation at hviol
      repeat' split at hviol
      all_goals cases hviol
      · exact failing_of_noApp rfl
      · exact failing_of_noApp rfl
      · exact Nat.le_of_ble_eq_true rfl

theorem ends_insertSegments (c : Constraints) (nextval : Nat → Nat) (batch : InsertBatch) :
    (insertSegments c nextval batch).Ends Err.Failing (· = { acceptedIndices := List.range batch.segments.length }) := by
  unfold insertSegments
  split
  · exact checkBatch_failing ‹_›
  refine ⟨failing_of_noApp rfl, Ends.deferRollback ?_⟩
  refine Ends.bind (R := fun _ => True) ⟨failing_of_noApp rfl, fun _ _ => trivial⟩ fun guard _ => ?_
  refine Ends.bind (R := fun _ => True) ?_ fun _ _ => ?_
  · unfold checkGuard
    split
    · exact failing_of_noApp rfl
    · split
      · exact failing_of_noApp rfl
      · trivial
  refine Ends.bind (ends_forEach (fun i x => ends_stmtE (failing_of_noApp rfl) fun t v e he => ?_) 0 _) fun _ _ => ?_
  · split at he
    · rename_i hprobe
      cases he
      unfold overlapProbe at hprobe
      split at hprobe
      all_goals cases hprobe
      exact failing_of_noApp rfl
    · cases he
    · cases he
      exact failing_of_noApp rfl
  refine Ends.bind (ends_forEach (ends_registerObject batch) 0 _) fun _ _ => ?_
  refine Ends.bind (ends_forEach ends_checkObjectTimerange 0 _) fun _ _ => ?_
  refine Ends.bind (ends_forEach (fun i x => ends_stmtE (failing_of_noApp rfl) fun t v e he => ?_) 0 _) fun _ _ => ?_
  · split at he
    · cases he
    · rename_i err _
      cases he
      cases err <;> exact failing_of_noApp rfl
  refine Ends.bind (R := fun _ => True) (Ends.bind (ends_stmtE (failing_of_noApp rfl) fun t v e he => ?_)
    fun _ _ => ⟨failing_of_noApp rfl, fun _ _ => trivial⟩) fun _ _ => ⟨failing_of_noApp rfl, rfl⟩
  cases hr : renderSpan (spanRows v batch.flowId).1 (spanRows v batch.flowId).2 with
  | ok span =>
    rw [hr] at he
    cases he
  | error e' =>
    rw [hr] at he
    cases he
    exact (renderSpan_failing hr).within _

/-- The store takes the survivors as a whole, so what the service has refused is all that failed. -/
theorem assemble_all {segs : List Segment} :
    assemble (screen 0 segs) { acceptedIndices := List.range (screen 0 segs).survivors.length } =
      some ⟨registerOutcome (screen 0 segs).survivors (screen 0 segs).failed, (screen 0 segs).survivors,
        (screen 0 segs).failed⟩ := by
  have hlen := length_survivorIdx 0 segs
  generalize screen 0 segs = x at hlen
  have haccepted : (List.range x.survivors.length).mapM (fun i => x.survivors[i]?) = some x.survivors := by
    rw [mapM_eq_some, List.forall₂_iff_get]
    refine ⟨List.length_range, fun i hi hi' => ?_⟩
    simp
  have hnone : (x.survivorIdx.zipIdx.filter fun p => p.2 ∉ List.range x.survivors.length) = [] := by
    rw [List.filter_eq_nil_iff]
    intro p hp
    have := List.snd_lt_of_mem_zipIdx hp
    simp only [decide_eq_true_eq, not_not, List.mem_range]
    omega
  rw [assemble, haccepted]
  dsimp only
  rw [hnone]
  simp

theorem ends_registerBatch (c : Constraints) (storageId : Str) (nextval : Nat → Nat) (req : RegisterParams) :
    (registerBatch c storageId nextval req).Ends Err.Failing fun res =>
      res.failed = (screen 0 req.segments).failed ∧
      (res.outcome = .outcomeAllAccepted ↔ (screen 0 req.segments).failed = []) := by
  unfold registerBatch
  split
  · exact failing_of_noApp rfl
  rename_i hne
  unfold registerScreened
  split
  · rename_i hsurv
    refine ⟨rfl, iff_of_false nofun fun hf => hne ?_⟩
    rw [screen_nil (List.length_eq_zero_iff.mp hsurv) hf]
    rfl
  rename_i hsurv
  refine (ends_insertSegments ..).attempt.bind fun r hr => ?_
  cases r with
  | error e =>
    have he := hr.1 e rfl
    change (registerError e).Failing
    unfold registerError
    repeat' split
    · exact failing_of_noApp rfl
    · exact failing_of_noApp rfl
    · exact he
    · exact he.within _
  | ok a =>
    rw [hr.2 a rfl, finishRegister, assemble_all]
    refine ⟨rfl, (registerOutcome_iff fun h => hsurv ?_).1⟩
    omega

/-! ## The key -/

section
variable {key bodyHash : Str} {expiresAt t : Time} {d : DB}

theorem sameButKey_deleted (d : DB) {ρ : KeyRow → Bool} (h : ∀ r, ρ r = true → r.key = key) :
    SameButKey key d (writeAll ((d.idempotencyKeys.rows.filter ρ).map (Write.delKey ·.key)) d) where
  rest := by
    refine writeAll_rule (J := fun v : DB => v = { d with idempotencyKeys := v.idempotencyKeys })
      (fun w hw v hv => ?_) rfl
    obtain ⟨r, -, rfl⟩ := List.mem_map.mp hw
    rw [hv]
    rfl
  others k hne := get_deleted_other fun r hr => by
    rw [← Bool.not_eq_true]
    exact fun hρ => hne ((Table.key_of_get hr).symm.trans (h r hρ))

/-- A key without a row, or with one that has expired, is acquired. -/
theorem run_acquire_free (bodyHash : Str) (expiresAt : Time) (hk : validateKey key = .ok ())
    (h : ∀ r, d.idempotencyKeys.get key = some r → r.expiresAt ≤ t) :
    ∃ d₁, (acquire key bodyHash expiresAt).run t d = (.ok { status := .statusAcquired }, d₁) ∧ SameButKey key d d₁ := by
  have hnone : (writeAll ((d.idempotencyKeys.rows.filter (expiredKey key t)).map (Write.delKey ·.key))
      d).idempotencyKeys.get key = none := by
    rw [Option.eq_none_iff_forall_ne_some]
    intro r hr
    obtain ⟨hget, hkept⟩ := get_deleted.mp hr
    simp [expiredKey, Table.key_of_get hget, h r hget] at hkept
  simp only [acquire, hk]
  rw [run_inTx]
  simp only [acquireBody, deleteKeys, acquireSelect, stmt, bind_eq, Prog.bind, exec, Conn.now_some, Conn.view_some,
    Conn.run_some, Sess.run, writeAll_nil, List.nil_append, List.append_nil, hnone, acquireFound, acquireInsert, stmtE,
    Option.isSome_none, Bool.false_eq_true, if_false, commitThen]
  refine ⟨_, rfl, ?_⟩
  rw [writeAll_append]
  refine (sameButKey_deleted d fun r hr => ?_).trans
    (sameButKey_putKey _ (r := acquiredRow key bodyHash expiresAt t) rfl)
  simp only [expiredKey, Bool.and_eq_true, decide_eq_true_eq] at hr
  exact hr.1

/-- The registration leaves the state as it is, or inserts the survivors. -/
theorem registerBatch_inserts {P : DB → Prop} {c : Constraints} {storageId : Str} {nextval : Nat → Nat}
    {req : RegisterParams} (h : P d)
    (hins : ∀ bounds d',
      Inserted c nextval ⟨req.flowId, (screen 0 req.segments).survivors, storageId⟩ bounds t d d' → P d') :
    P ((registerBatch c storageId nextval req).run t d).2 := by
  refine registerBatch_db h ?_
  cases hr : (insertSegments c nextval ⟨req.flowId, (screen 0 req.segments).survivors, storageId⟩).run t d with
  | mk r d' =>
    cases r with
    | error e =>
      have hsame := insertSegments_refused (congrArg Prod.fst hr)
      rw [hr] at hsame
      exact hsame.symm ▸ h
    | ok a =>
      obtain ⟨bounds, hi⟩ := insertSegments_inserted hr
      exact hins bounds d' hi

theorem registerBatch_keys (c : Constraints) (storageId : Str) (nextval : Nat → Nat) (req : RegisterParams) (t : Time)
    (d : DB) : ((registerBatch c storageId nextval req).run t d).2.idempotencyKeys = d.idempotencyKeys :=
  registerBatch_inserts (P := fun v => v.idempotencyKeys = d.idempotencyKeys) rfl fun _ _ hins => by rw [hins.others]

theorem sameButKey_released (key : Str) (d : DB) : SameButKey key d (keyReleased key d) :=
  sameButKey_deleted d fun _ hr => of_decide_eq_true hr

end

/-! ## Exchanges -/

structure Exchange where
  env : PostEnv
  flowId : Option Uuid
  body : FlowSegmentPostBody
  key : Str
  time : Time
  before : DB

section
variable (c : Constraints) (storageId : Str) (sha : FlowSegmentPostBody → Str) (e : Exchange)

def Exchange.run : Except Err Response × DB :=
  (postFlowSegments c storageId e.env ⟨e.flowId, some (postBody e.body (sha e.body)), e.key⟩).run e.time e.before

def Exchange.response : Response := clientSees (e.run c storageId sha).1

def Exchange.after : DB := (e.run c storageId sha).2

def Client.registerRequest (env : PostEnv) (newKey : Str) (flowId : Option Uuid) (segments : List FlowSegmentPost)
    (idempotencyKey : Str) (t : Time) (d : DB) : Exchange :=
  ⟨env, flowId, .array segments, if idempotencyKey = [] then newKey else idempotencyKey, t, d⟩

/-- What `RegisterSegments` returns for its request; the body of the response is not read. -/
def Client.registerSegments : Except RequestError Unit := Client.do (e.response c storageId sha).status (.ok ())

def Exchange.Registers (f : Uuid) (posts : List FlowSegmentPost) : Prop :=
  ∀ p ∈ posts, ∃ r ∈ (e.after c storageId sha).segmentsOf f, r ∉ e.before.segmentsOf f ∧ Recorded p r

structure Exchange.Valid (f : Uuid) (params : RegisterParams) : Prop where
  flow : e.flowId = some f
  body : registerParamsFromAPI e.body = .ok params
  key : validateKey e.key = .ok ()
  size : params.segments.length ≤ maxSegmentsBatch

def Exchange.Free : Prop := ∀ r, e.before.idempotencyKeys.get e.key = some r → r.expiresAt ≤ e.time

structure Exchange.Finds (r : KeyRow) : Prop where
  row : e.before.idempotencyKeys.get e.key = some r
  live : e.time < r.expiresAt
  hash : r.bodyHash = sha e.body
  done : r.inFlight = false

/-- The exchange has acquired its key and has left its response in the row `r`. -/
structure Exchange.Stored (r : KeyRow) : Prop where
  free : e.Free
  valid : ∃ f params, e.Valid f params
  hash : r.bodyHash = sha e.body
  stored : ∃ resp : Response, (e.run c storageId sha).1 = .ok resp ∧ resp.Storable ∧ r.responseStatus = resp.status ∧
    r.responseBody = resp.body

end

section
variable {c : Constraints} {storageId : Str} {sha : FlowSegmentPostBody → Str} {e : Exchange} {f : Uuid}
  {params : RegisterParams} {r : KeyRow}

theorem registerSegments_ok :
    Client.registerSegments c storageId sha e = .ok () ↔ (e.response c storageId sha).status < 300 := by
  unfold Client.registerSegments Client.do
  split
  · exact iff_of_false nofun (by omega)
  · exact iff_of_true rfl (by omega)

theorem Exchange.Valid.run_eq (h : e.Valid f params) : e.run c storageId sha =
    (postChecked c storageId e.env ⟨⟨f, params.segments⟩, e.key, sha e.body⟩).run e.time e.before := by
  rw [Exchange.run, h.flow, postFlowSegments, checkPost_eq h.body, if_neg (key_ne_nil h.key),
    if_neg (Nat.not_lt.mpr h.size)]

/-- A request that fails a check is refused. -/
theorem refused_of_invalid (h : ¬ ∃ f params, e.Valid f params) :
    400 ≤ (e.response c storageId sha).status ∧ (e.after c storageId sha) = e.before := by
  rw [Exchange.response, Exchange.after, Exchange.run, postFlowSegments]
  cases hflow : e.flowId with
  | none => exact ⟨Nat.le_of_ble_eq_true rfl, rfl⟩
  | some f =>
    by_cases hne : e.key = []
    · simp only [checkPost, hne, if_true]
      exact ⟨Nat.le_of_ble_eq_true rfl, rfl⟩
    cases hbody : registerParamsFromAPI e.body with
    | error err =>
      simp only [checkPost, hne, if_false, postBody, hbody, Except.map]
      exact ⟨Nat.le_of_ble_eq_true rfl, rfl⟩
    | ok params =>
      rw [checkPost_eq hbody, if_neg hne]
      by_cases hlen : maxSegmentsBatch < params.segments.length
      · rw [if_pos hlen]
        exact ⟨Nat.le_of_ble_eq_true rfl, rfl⟩
      rw [if_neg hlen]
      cases hk : validateKey e.key with
      | ok u => exact absurd ⟨f, params, hflow, hbody, hk, Nat.not_lt.mp hlen⟩ h
      | error err =>
        simp only [postChecked, acquire, hk]
        exact ⟨Nat.le_of_eq (validateKey_error hne hk).symm, rfl⟩

/-- The answer from a row that has not expired. -/
theorem Exchange.Valid.run_found (h : e.Valid f params) (hr : e.before.idempotencyKeys.get e.key = some r)
    (hlive : e.time < r.expiresAt) : e.run c storageId sha =
      (postAcquired c storageId e.env ⟨⟨f, params.segments⟩, e.key, sha e.body⟩ (acquireAnswer (sha e.body) r)).run e.time
        e.before := by
  have hacq := run_acquire (sha e.body) e.env.expiresAt h.key (d := e.before) (t := e.time) fun r' hr' => by
    cases hr.symm.trans hr'
    exact hlive
  rw [hr] at hacq
  rw [h.run_eq, run_postChecked storageId e.env hacq]

theorem Exchange.Finds.run_eq (c : Constraints) (storageId : Str) (hr : e.Finds sha r) (h : e.Valid f params) :
    e.run c storageId sha =
    (.ok (cachedPostResponse (some ⟨r.responseStatus, r.responseBody⟩)), e.before) := by
  rw [h.run_found hr.row hr.live, acquireAnswer, if_neg (not_not_intro hr.hash), hr.done]
  rfl

/-- A request whose key is in flight or stands for another body is refused. -/
theorem refused_of_conflict (h : e.Valid f params) (hfree : ¬ e.Free) (hno : ∀ r, ¬ e.Finds sha r) :
    400 ≤ (e.response c storageId sha).status ∧ (e.after c storageId sha) = e.before := by
  simp only [Exchange.Free, not_forall, Int.not_le] at hfree
  obtain ⟨r, hr, hlive⟩ := hfree
  rw [Exchange.response, Exchange.after, h.run_found hr hlive, acquireAnswer]
  by_cases hhash : r.bodyHash = sha e.body
  · cases hdone : r.inFlight with
    | false => exact absurd ⟨hr, hlive, hhash, hdone⟩ (hno r)
    | true =>
      rw [if_neg (not_not_intro hhash)]
      exact ⟨Nat.le_of_ble_eq_true rfl, rfl⟩
  · rw [if_pos hhash]
    exact ⟨Nat.le_of_ble_eq_true rfl, rfl⟩

/-! ## An exchange that acquires its key -/

/-- The parts of an exchange that acquires its key: the registration in the state `d₁`, and what is made of its result. -/
theorem Exchange.Valid.run_free (c : Constraints) (storageId : Str) (sha : FlowSegmentPostBody → Str)
    (h : e.Valid f params) (hfree : e.Free) :
    ∃ d₁, SameButKey e.key e.before d₁ ∧
      d₁.idempotencyKeys.get e.key = some (acquiredRow e.key (sha e.body) e.env.expiresAt e.time) ∧
      (acquire e.key (sha e.body) e.env.expiresAt).run e.time e.before = (.ok { status := .statusAcquired }, d₁) ∧
      e.run c storageId sha =
        (postRegistered e.key ((registerBatch c storageId e.env.nextval ⟨f, params.segments⟩).run e.time d₁).1).run e.time
          ((registerBatch c storageId e.env.nextval ⟨f, params.segments⟩).run e.time d₁).2 := by
  obtain ⟨d₁, hacq, hsame⟩ := run_acquire_free (sha e.body) e.env.expiresAt h.key hfree
  refine ⟨d₁, hsame, (acquire_acquired hacq).2.1, hacq, ?_⟩
  rw [h.run_eq, run_postChecked storageId e.env hacq, run_postAcquired]

/-- What the handler makes of the result of the registration. -/
theorem run_postRegistered {key : Str} (hk : validateKey key = .ok ()) {row : KeyRow} {d : DB}
    (hrow : d.idempotencyKeys.get key = some row) (t : Time) (res : Except Err RegisterResult) :
    SameButKey key d ((postRegistered key res).run t d).2 ∧
      ∀ r, ((postRegistered key res).run t d).2.idempotencyKeys.get key = some r →
        ∃ resp : Response, ((postRegistered key res).run t d).1 = .ok resp ∧ resp.Storable ∧
          r = completedRow resp.status resp.body row := by
  by_cases h : ∀ err, res = .error err → registerErrorResponse err ≠ none
  · obtain ⟨resp, hs, hprog⟩ := postRegistered_stored key h
    rw [hprog, run_storeThen hk]
    refine ⟨sameButKey_completed key _ _ d, fun r hr => ⟨resp, rfl, hs, ?_⟩⟩
    exact Option.some.inj (hr.symm.trans (get_keyCompleted _ _ hrow))
  · simp only [not_forall, not_not] at h
    obtain ⟨err, rfl, hnone⟩ := h
    rw [run_postRegistered_released hk t d hnone]
    exact ⟨sameButKey_released key d, fun r hr => by cases (get_keyReleased key d).symm.trans hr⟩

/-- An exchange that does not acquire its key leaves the state as it is. -/
theorem unchanged_or_acquires (c : Constraints) (storageId : Str) (sha : FlowSegmentPostBody → Str)
    (e : Exchange) :
    e.after c storageId sha = e.before ∨ ∃ f params, e.Valid f params ∧ e.Free := by
  by_cases hvalid : ∃ f params, e.Valid f params
  case neg => exact Or.inl (refused_of_invalid hvalid).2
  obtain ⟨f, params, h⟩ := hvalid
  by_cases hfree : e.Free
  · exact Or.inr ⟨f, params, h, hfree⟩
  left
  by_cases hfinds : ∃ r, e.Finds sha r
  · obtain ⟨r, hr⟩ := hfinds
    rw [Exchange.after, hr.run_eq c storageId h]
  · exact (refused_of_conflict h hfree (not_exists.mp hfinds)).2

/-- A completed row is from before the exchange, or holds its response. -/
theorem completed_after {k : Str} (hr : (e.after c storageId sha).idempotencyKeys.get k = some r)
    (hdone : r.inFlight = false) : e.before.idempotencyKeys.get k = some r ∨ k = e.key ∧ e.Stored c storageId sha r := by
  rcases unchanged_or_acquires c storageId sha e with hsame | ⟨f, params, h, hfree⟩
  · exact Or.inl (hsame ▸ hr)
  obtain ⟨d₁, hsame, hrow, -, hrun⟩ := h.run_free c storageId sha hfree
  have hkeys := registerBatch_keys c storageId e.env.nextval ⟨f, params.segments⟩ e.time d₁
  have hrow₂ :
      ((registerBatch c storageId e.env.nextval ⟨f, params.segments⟩).run e.time d₁).2.idempotencyKeys.get e.key =
      some (acquiredRow e.key (sha e.body) e.env.expiresAt e.time) := by rw [hkeys, hrow]
  obtain ⟨hother, hown⟩ := run_postRegistered h.key hrow₂ e.time
    ((registerBatch c storageId e.env.nextval ⟨f, params.segments⟩).run e.time d₁).1
  by_cases hk : k = e.key
  · subst hk
    right
    rw [Exchange.after, hrun] at hr
    obtain ⟨resp, hresp, hs, rfl⟩ := hown r hr
    exact ⟨rfl, hfree, ⟨f, params, h⟩, rfl, resp, by rw [hrun]; exact hresp, hs, rfl, rfl⟩
  · left
    rw [Exchange.after, hrun, hother.others k hk, hkeys, hsame.others k hk] at hr
    exact hr

theorem registerErrorResponse_failing {err : Err} {resp : Response} (h : registerErrorResponse err = some resp) :
    400 ≤ resp.status := by
  obtain ⟨status, p, rfl, hs⟩ := registerErrorResponse_problem h
  change 400 ≤ status
  omega

/-- A registration that fails is answered as a failure, and one that is made with what the service has refused. -/
theorem response_free (c : Constraints) (storageId : Str) (sha : FlowSegmentPostBody → Str)
    (h : e.Valid f params) (hfree : e.Free) :
    ∃ d₁, SameButKey e.key e.before d₁ ∧
      ((∃ err, ((registerBatch c storageId e.env.nextval ⟨f, params.segments⟩).run e.time d₁).1 = .error err ∧
          400 ≤ (e.response c storageId sha).status) ∨
        (∃ res, ((registerBatch c storageId e.env.nextval ⟨f, params.segments⟩).run e.time d₁).1 = .ok res) ∧
          (e.run c storageId sha).1 = .ok (if (screen 0 params.segments).failed = [] then .created
            else .bulkFailure (registerFailureToAPI (screen 0 params.segments).failed))) := by
  obtain ⟨d₁, hsame, -, -, hrun⟩ := h.run_free c storageId sha hfree
  refine ⟨d₁, hsame, ?_⟩
  rw [Exchange.response, hrun]
  rcases (ends_registerBatch c storageId e.env.nextval ⟨f, params.segments⟩).run e.time d₁ with
    ⟨err, herr, hfail⟩ | ⟨res, hres, hfailed, hout⟩
  · refine Or.inl ⟨err, herr, ?_⟩
    rw [herr]
    cases hresp : registerErrorResponse err with
    | none =>
      rw [run_postRegistered_released h.key _ _ hresp]
      exact hfail
    | some resp =>
      rw [postRegistered_error e.key hresp, run_storeThen h.key]
      exact registerErrorResponse_failing hresp
  · refine Or.inr ⟨⟨res, hres⟩, ?_⟩
    rw [hres]
    by_cases hnone : (screen 0 params.segments).failed = []
    · rw [if_pos hnone, postRegistered_created e.key (hout.mpr hnone), run_storeThen h.key]
    · rw [if_neg hnone, postRegistered_bulk e.key (mt hout.mp hnone), run_storeThen h.key, hfailed]

theorem registers_created (h : e.Valid f params) (hfree : e.Free) (hresp : (e.run c storageId sha).1 = .ok .created) :
    e.Registers c storageId sha f e.body.posts := by
  intro p hp
  obtain ⟨d₁, hsame, -, hacq, -⟩ := h.run_free c storageId sha hfree
  have hpost : (postFlowSegments c storageId e.env ⟨some f, some (postBody e.body (sha e.body)), e.key⟩).run e.time
      e.before = (.ok .created, e.after c storageId sha) := by
    rw [← h.flow]
    exact Prod.ext hresp rfl
  obtain ⟨res, d₂, hreg, hkey, hacc⟩ := post_registered (p := p) h.body hacq hpost trivial
  obtain ⟨⟨r, hr, hnew, hrec⟩, -⟩ := accepted_stored h.body hreg hp hacc
  refine ⟨r, ?_, ?_, hrec⟩
  · rw [hkey.rest]
    exact hr
  · rw [hsame.rest] at hnew
    exact hnew

/-- Rows are added to the flow of the request only. -/
theorem segmentsOf_after (h : e.flowId ≠ some f) : (e.after c storageId sha).segmentsOf f = e.before.segmentsOf f := by
  rcases unchanged_or_acquires c storageId sha e with hsame | ⟨f', params, hv, hfree⟩
  · rw [hsame]
  obtain ⟨d₁, hsame, hrow, -, hrun⟩ := hv.run_free c storageId sha hfree
  have hreg : ((registerBatch c storageId e.env.nextval ⟨f', params.segments⟩).run e.time d₁).2.segmentsOf f =
      d₁.segmentsOf f := by
    refine registerBatch_inserts (P := fun v => v.segmentsOf f = d₁.segmentsOf f) rfl fun _ _ hins => ?_
    rw [hins.segmentsOf, if_neg (fun he => h (hv.flow.trans (congrArg some he))), List.append_nil]
  have hkeys := registerBatch_keys c storageId e.env.nextval ⟨f', params.segments⟩ e.time d₁
  obtain ⟨hother, -⟩ := run_postRegistered hv.key (hkeys ▸ hrow) e.time
    ((registerBatch c storageId e.env.nextval ⟨f', params.segments⟩).run e.time d₁).1
  rw [Exchange.after, hrun, hother.rest]
  refine Eq.trans hreg ?_
  rw [hsame.rest]
  rfl

theorem posts_ne_nil (h : e.Valid f params) : e.body.posts ≠ [] := by
  obtain ⟨hconv, hne⟩ := registerParamsFromAPI_ok h.body
  intro he
  rw [he, List.forall₂_nil_left_iff] at hconv
  exact hne hconv

theorem not_registers {posts : List FlowSegmentPost} (hne : posts ≠ [])
    (h : (e.after c storageId sha).segmentsOf f = e.before.segmentsOf f) : ¬ e.Registers c storageId sha f posts := by
  intro hreg
  obtain ⟨p, hp⟩ := List.exists_mem_of_ne_nil posts hne
  obtain ⟨r, hr, hnew, -⟩ := hreg p hp
  exact hnew (h ▸ hr)

end

/-! ## What stands in the way of the registration -/

theorem SameButKey.symm {key : Str} {d d' : DB} (h : SameButKey key d d') : SameButKey key d' d where
  rest := by rw [h.rest]
  others k hk := (h.others k hk).symm

/-- The store does not look at the keys. -/
theorem Refused.sameButKey {nextval : Nat → Nat} {batch : InsertBatch} {key : Str} {d d' : DB} {k : Refusal}
    (hr : Refused nextval batch d k) (h : SameButKey key d d') : Refused nextval batch d' k := by
  rw [h.rest]
  have hplaced (hp : Placed batch d) : Placed batch { d with idempotencyKeys := d'.idempotencyKeys } :=
    ⟨hp.apart, hp.writable, hp.clear⟩
  have hregistrable {segs : List Segment} (hb : Registrable batch segs d) :
      Registrable batch segs { d with idempotencyKeys := d'.idempotencyKeys } := ⟨hb.storage, hb.live, hb.fits⟩
  cases hr with
  | withinBatch ha => exact .withinBatch ha
  | missing ha hf => exact .missing ha hf
  | readOnly ha hf hro => exact .readOnly ha hf hro
  | overlap ha hw hc => exact .overlap ha hw hc
  | unconfigured hp hs hb hu hc => exact .unconfigured (hplaced hp) hs (hregistrable hb) hu hc
  | reaping hp hs hb hr hreap => exact .reaping (hplaced hp) hs (hregistrable hb) hr hreap
  | refCountFull hp hs hb hl hf => exact .refCountFull (hplaced hp) hs (hregistrable hb) hl hf
  | outside hp hreg hs hb htr hst ho hc => exact .outside (hplaced hp) (hregistrable hreg) hs hb htr hst ho hc
  | noBound hp hreg hs hb htr hst ho hc => exact .noBound (hplaced hp) (hregistrable hreg) hs hb htr hst ho hc
  | keyFrameCount hp hreg hd hs hk hf => exact .keyFrameCount (hplaced hp) (hregistrable hreg) hd hs hk hf
  | idTaken hp hreg hd hids => exact .idTaken (hplaced hp) (hregistrable hreg) hd fun hf => hids ⟨hf.inj, hf.fresh⟩

/-- The registration fails exactly if segments are left for the store and it refuses them. -/
theorem registerBatch_fails_iff (c : Constraints) (storageId : Str) (nextval : Nat → Nat) {body : FlowSegmentPostBody}
    {params : RegisterParams} {f : Uuid} {t : Time} {d : DB} (hbody : registerParamsFromAPI body = .ok params)
    (hrows : ∀ r ∈ d.segments.rows, r.WellStored) (hfresh : FreshIds nextval d) :
    (∃ err, ((registerBatch c storageId nextval ⟨f, params.segments⟩).run t d).1 = .error err) ↔
      (screen 0 params.segments).survivors ≠ [] ∧
        ∃ k, Refused nextval ⟨f, (screen 0 params.segments).survivors, storageId⟩ d k := by
  have hsegs : params.segments.length ≠ 0 := fun h => (registerParamsFromAPI_ok hbody).2 (List.length_eq_zero_iff.mp h)
  by_cases hsurv : (screen 0 params.segments).survivors.length = 0
  · refine iff_of_false ?_ fun h => h.1 (List.length_eq_zero_iff.mp hsurv)
    rintro ⟨err, herr⟩
    simp only [registerBatch, if_neg hsegs, registerScreened, if_pos hsurv] at herr
    cases herr
  have hne : (screen 0 params.segments).survivors ≠ [] := fun h => hsurv (List.length_eq_zero_iff.mpr h)
  rcases (ends_insertSegments c nextval ⟨f, (screen 0 params.segments).survivors, storageId⟩).run t d with
    ⟨err, herr, -⟩ | ⟨a, ha, hall⟩
  · have hins :
        (insertSegments c nextval ⟨f, (screen 0 params.segments).survivors, storageId⟩).run t d = (.error err, d) :=
      Prod.ext herr (insertSegments_refused herr)
    have hrun : (registerBatch c storageId nextval ⟨f, params.segments⟩).run t d = (.error (registerError err), d) :=
      registerBatch_error hsegs hsurv hins
    obtain ⟨k, hk, -⟩ := refused_of_error (survivors_valid hbody) hrows herr
    exact iff_of_true ⟨registerError err, by rw [hrun]⟩ ⟨hne, k, hk⟩
  · refine iff_of_false ?_ ?_
    · rintro ⟨err, herr⟩
      simp only [registerBatch, if_neg hsegs, registerScreened, if_neg hsurv] at herr
      rw [(exits_insertSegments ..).attempt.run_bind, run_attempt] at herr
      dsimp only at herr
      rw [ha, hall, finishRegister, assemble_all] at herr
      cases herr
    · rintro ⟨-, k, hk⟩
      refine hk.not_accepted (survivors_valid hbody) hrows ?_ a ha
      rintro rfl
      cases hk with
      | idTaken _ _ _ hids => exact hids hfresh

theorem screen_failed_nil {segs : List Segment} (i : Nat) :
    (screen i segs).failed = [] ↔ ∀ seg ∈ segs, seg.objectId ≠ [] ∧ segmentTimerangeViolation seg.timerange = none := by
  induction segs generalizing i with
  | nil => exact iff_of_true rfl fun _ h => by cases h
  | cons seg segs ih =>
    have hseg : rejectSegment (stampURLs seg) = none ↔
        seg.objectId ≠ [] ∧ segmentTimerangeViolation seg.timerange = none := by
      unfold rejectSegment
      by_cases hid : seg.objectId = []
      · simp [stampURLs, hid]
      · cases hv : segmentTimerangeViolation seg.timerange <;> simp [stampURLs, hid, hv]
    rw [List.forall_mem_cons, ← ih (i + 1), ← hseg]
    simp only [screen]
    cases hr : rejectSegment (stampURLs seg) with
    | some f => simp
    | none => simp

/-! ## Histories -/

section
variable (c : Constraints) (storageId : Str) (sha : FlowSegmentPostBody → Str)

/-- A server whose table of keys was empty once, and whose rows in it come from the exchanges of the list; whatever
else is run may delete rows of it and change everything else. -/
inductive History : List Exchange → DB → Prop
  | start {d : DB} (h : d.idempotencyKeys = .empty) : History [] d
  | other {log : List Exchange} {d d' : DB} (h : History log d)
    (hkeys : ∀ k r, d'.idempotencyKeys.get k = some r → d.idempotencyKeys.get k = some r) : History log d'
  | served {log : List Exchange} {e : Exchange} (h : History log e.before) : History (e :: log) (e.after c storageId sha)

/-- `RegisterSegments` returns nil only if every segment was registered on the flow, by this request or by the one
whose response was replayed; and if the server lists failed segments, it returns an error. -/
structure Exchange.Truthful (log : List Exchange) (e : Exchange) : Prop where
  registered : Client.registerSegments c storageId sha e = .ok () → ∃ f, e.flowId = some f ∧
    (e.Registers c storageId sha f e.body.posts ∨
      ∃ e' ∈ log, (∃ r, e.Finds sha r ∧ e'.Stored c storageId sha r) ∧ e'.Registers c storageId sha f e.body.posts)
  reported : ∀ failed, e.response c storageId sha = .bulkFailure failed → failed ≠ [] →
    Client.registerSegments c storageId sha e ≠ .ok ()

/-- No segment is refused by itself, unless the store refuses the others; and no response of that kind is replayed,
nor a 201 for another flow. -/
structure Exchange.Clean (log : List Exchange) (e : Exchange) : Prop where
  fresh : ∀ f params, e.Valid f params → e.Free →
    (∀ seg ∈ params.segments, seg.objectId ≠ [] ∧ segmentTimerangeViolation seg.timerange = none) ∨
      (screen 0 params.segments).survivors ≠ [] ∧
        ∃ k, Refused e.env.nextval ⟨f, (screen 0 params.segments).survivors, storageId⟩ e.before k
  replayed : ∀ f params r, e.Valid f params → e.Finds sha r → r.responseStatus ≠ 200 ∧
    (r.responseStatus = 201 → ∃ e' ∈ log, e'.Stored c storageId sha r ∧ e'.flowId = some f)

end

section
variable {c : Constraints} {storageId : Str} {sha : FlowSegmentPostBody → Str} {log : List Exchange} {d : DB}

theorem History.stored (h : History c storageId sha log d) {k : Str} {r : KeyRow}
    (hr : d.idempotencyKeys.get k = some r) (hdone : r.inFlight = false) : ∃ e ∈ log, e.Stored c storageId sha r := by
  induction h with
  | start hempty =>
    rw [hempty] at hr
    cases hr
  | other _ hkeys ih => exact ih (hkeys k r hr)
  | served _ ih =>
    rcases completed_after hr hdone with hold | ⟨-, hstored⟩
    · obtain ⟨e, he, hs⟩ := ih hold
      exact ⟨e, List.mem_cons_of_mem _ he, hs⟩
    · exact ⟨_, List.mem_cons_self, hstored⟩

section
variable {e : Exchange} {f : Uuid} {params : RegisterParams} {r : KeyRow}

/-- What the row of an exchange is replayed as, and what the exchange has done. -/
theorem Exchange.Stored.replays (h : e.Stored c storageId sha r) :
    ∃ f params resp, e.Valid f params ∧ e.Free ∧ (e.run c storageId sha).1 = .ok resp ∧
      cachedPostResponse (some ⟨r.responseStatus, r.responseBody⟩) = resp ∧ r.responseStatus = resp.status ∧
      (resp = .created ∨ (∃ failed, resp = .bulkFailure failed ∧ failed ≠ []) ∨ 400 ≤ resp.status) := by
  obtain ⟨f, params, hv⟩ := h.valid
  obtain ⟨resp, hrun, hstorable, hstatus, hbody⟩ := h.stored
  refine ⟨f, params, resp, hv, h.free, hrun, ?_, hstatus, ?_⟩
  · rw [hstatus, hbody]
    exact cachedPostResponse_stored hstorable
  · obtain ⟨d₁, -, ⟨err, -, hfail⟩ | ⟨-, hresp⟩⟩ := response_free c storageId sha hv h.free
    · rw [Exchange.response, hrun] at hfail
      exact Or.inr (Or.inr hfail)
    · cases hrun.symm.trans hresp
      split
      · exact Or.inl rfl
      · rename_i hne
        exact Or.inr (Or.inl ⟨_, rfl, fun h => hne (List.map_eq_nil_iff.mp h)⟩)

/-- The answer to an exchange that acquires its key, by the state it finds. -/
theorem response_acquired (c : Constraints) (storageId : Str) (sha : FlowSegmentPostBody → Str)
    (hv : e.Valid f params) (hfree : e.Free) (hrows : ∀ r ∈ e.before.segments.rows, r.WellStored)
    (hfresh : FreshIds e.env.nextval e.before) :
    let refused := (screen 0 params.segments).survivors ≠ [] ∧
      ∃ k, Refused e.env.nextval ⟨f, (screen 0 params.segments).survivors, storageId⟩ e.before k
    refused ∧ 400 ≤ (e.response c storageId sha).status ∨
      ¬ refused ∧ (e.run c storageId sha).1 = .ok (if (screen 0 params.segments).failed = [] then .created
        else .bulkFailure (registerFailureToAPI (screen 0 params.segments).failed)) := by
  intro refused
  obtain ⟨d₁, hsame, h⟩ := response_free c storageId sha hv hfree
  have hfails := registerBatch_fails_iff c storageId e.env.nextval (f := f) (t := e.time)
    (d := d₁) hv.body (by rw [hsame.rest]; exact hrows) (by rw [hsame.rest]; exact ⟨hfresh.inj, hfresh.fresh⟩)
  rcases h with ⟨err, herr, hstatus⟩ | ⟨⟨res, hres⟩, hrun⟩
  · obtain ⟨hne, k, hk⟩ := hfails.mp ⟨err, herr⟩
    exact Or.inl ⟨⟨hne, k, hk.sameButKey hsame.symm⟩, hstatus⟩
  · refine Or.inr ⟨?_, hrun⟩
    rintro ⟨hne, k, hk⟩
    obtain ⟨err, herr⟩ := hfails.mpr ⟨hne, k, hk.sameButKey hsame⟩
    cases hres.symm.trans herr

/-- An exchange whose 201 was for a request on the flow with the same body has registered the segments. -/
theorem Exchange.Stored.registers {e' : Exchange} (h : e'.Stored c storageId sha r) (hflow : e'.flowId = some f)
    (hstatus : r.responseStatus = 201) : e'.Registers c storageId sha f e'.body.posts := by
  obtain ⟨f', params, resp, hv, hfree, hrun, -, hresp, hcases⟩ := h.replays
  cases hv.flow.symm.trans hflow
  rcases hcases with rfl | ⟨failed, rfl, -⟩ | hfail
  · exact registers_created hv hfree hrun
  · cases hstatus.symm.trans hresp
  · omega

theorem Exchange.response_eq {resp : Response} (h : (e.run c storageId sha).1 = .ok resp) :
    e.response c storageId sha = resp := by
  rw [Exchange.response, h]
  rfl

theorem Exchange.Truthful.clean (h : e.Truthful c storageId sha log) (hlog : History c storageId sha log e.before)
    (hrows : ∀ r ∈ e.before.segments.rows, r.WellStored) (hfresh : FreshIds e.env.nextval e.before) :
    e.Clean c storageId sha log := by
  have hsuccess {resp : Response} (hresp : e.response c storageId sha = resp) (hlt : resp.status < 300) :
      Client.registerSegments c storageId sha e = .ok () := registerSegments_ok.mpr (hresp ▸ hlt)
  constructor
  · intro f params hv hfree
    rcases response_acquired c storageId sha hv hfree hrows hfresh with
      ⟨hrefused, -⟩ | ⟨-, hrun⟩
    · exact Or.inr hrefused
    · left
      rw [← screen_failed_nil 0]
      by_contra hne
      rw [if_neg hne] at hrun
      have hresp := Exchange.response_eq hrun
      exact h.reported _ hresp (fun hnil => hne (List.map_eq_nil_iff.mp hnil)) (hsuccess hresp (Nat.le_of_ble_eq_true rfl))
  · intro f params r hv hr
    obtain ⟨e', he', hstored⟩ := hlog.stored hr.row hr.done
    obtain ⟨f', params', resp, -, -, -, hcached, hstatus, hcases⟩ := hstored.replays
    have hrun := hr.run_eq c storageId hv
    have hresp := Exchange.response_eq (congrArg Prod.fst hrun)
    rw [hcached] at hresp
    rcases hcases with rfl | ⟨failed, rfl, hne⟩ | hfail
    · refine ⟨hstatus ▸ by decide, fun _ => ?_⟩
      obtain ⟨f₀, hf₀, hreg⟩ := h.registered (hsuccess hresp (Nat.le_of_ble_eq_true rfl))
      cases hv.flow.symm.trans hf₀
      rcases hreg with hreg | ⟨e'', he'', ⟨r'', hr'', hst⟩, hreg⟩
      · exact absurd hreg (not_registers (posts_ne_nil hv) (by rw [Exchange.after, hrun]))
      · cases hr.row.symm.trans hr''.row
        refine ⟨e'', he'', hst, ?_⟩
        by_contra hflow
        exact not_registers (posts_ne_nil hv) (segmentsOf_after hflow) hreg
    · exact absurd (hsuccess hresp (Nat.le_of_ble_eq_true rfl)) (h.reported failed hresp hne)
    · omega

/-- An exchange is answered as a failure, or with a 201 behind which every segment stands. -/
theorem Exchange.Clean.answer (h : e.Clean c storageId sha log) (hlog : History c storageId sha log e.before)
    (hsha : ∀ e' ∈ log, sha e'.body = sha e.body → e'.body = e.body)
    (hrows : ∀ r ∈ e.before.segments.rows, r.WellStored) (hfresh : FreshIds e.env.nextval e.before) :
    400 ≤ (e.response c storageId sha).status ∨ e.response c storageId sha = .created ∧ ∃ f, e.flowId = some f ∧
      (e.Registers c storageId sha f e.body.posts ∨
        ∃ e' ∈ log, (∃ r, e.Finds sha r ∧ e'.Stored c storageId sha r) ∧ e'.Registers c storageId sha f e.body.posts) := by
  by_cases hvalid : ∃ f params, e.Valid f params
  case neg => exact Or.inl (refused_of_invalid hvalid).1
  obtain ⟨f, params, hv⟩ := hvalid
  by_cases hfree : e.Free
  · rcases response_acquired c storageId sha hv hfree hrows hfresh with
      ⟨-, hfail⟩ | ⟨hrefused, hrun⟩
    · exact Or.inl hfail
    · have hnone := (screen_failed_nil 0).mpr ((h.fresh f params hv hfree).resolve_right hrefused)
      rw [if_pos hnone] at hrun
      exact Or.inr ⟨Exchange.response_eq hrun, f, hv.flow, Or.inl (registers_created hv hfree hrun)⟩
  by_cases hfinds : ∃ r, e.Finds sha r
  case neg => exact Or.inl (refused_of_conflict hv hfree (not_exists.mp hfinds)).1
  obtain ⟨r, hr⟩ := hfinds
  obtain ⟨hno, hyes⟩ := h.replayed f params r hv hr
  obtain ⟨e', he', hstored⟩ := hlog.stored hr.row hr.done
  obtain ⟨-, -, resp, -, -, -, hcached, hstatus, hcases⟩ := hstored.replays
  have hresp := Exchange.response_eq (congrArg Prod.fst (hr.run_eq c storageId hv))
  rw [hcached] at hresp
  rcases hcases with rfl | ⟨failed, rfl, -⟩ | hfail
  · obtain ⟨e'', he'', hst, hflow⟩ := hyes hstatus
    refine Or.inr ⟨hresp, f, hv.flow, Or.inr ⟨e'', he'', ⟨r, hr, hst⟩, ?_⟩⟩
    rw [← hsha e'' he'' (hst.hash.symm.trans hr.hash)]
    exact hst.registers hflow hstatus
  · exact absurd hstatus hno
  · exact Or.inl (hresp ▸ hfail)

end

end

/-- **What the client takes for success.** A call of `RegisterSegments` is truthful exactly if no segment is refused
by itself, unless the store refuses the others, and the row that a call is answered from does not hold a list of failed
segments, nor the 201 of another flow. -/
theorem registerSegments_truthful_iff {c : Constraints} {storageId : Str} {sha : FlowSegmentPostBody → Str}
    {log : List Exchange} {d : DB} (hlog : History c storageId sha log d) (hrows : ∀ r ∈ d.segments.rows, r.WellStored)
    (env : PostEnv) (hfresh : FreshIds env.nextval d) (newKey : Str) (flowId : Option Uuid)
    (segments : List FlowSegmentPost) (hsha : ∀ e ∈ log, sha e.body = sha (.array segments) → e.body = .array segments)
    (idempotencyKey : Str) (t : Time) :
    (Client.registerRequest env newKey flowId segments idempotencyKey t d).Truthful c storageId sha log ↔
      (Client.registerRequest env newKey flowId segments idempotencyKey t d).Clean c storageId sha log := by
  refine ⟨fun h => h.clean hlog hrows hfresh, fun h => ?_⟩
  have hanswer := h.answer hlog hsha hrows hfresh
  constructor
  · intro hret
    have hlt := registerSegments_ok.mp hret
    exact (hanswer.resolve_left (by omega)).2
  · intro failed hf _ _
    rw [hf] at hanswer
    rcases hanswer with hfail | ⟨hcreated, -⟩
    · exact absurd hfail (Nat.not_le_of_lt (Nat.le_of_ble_eq_true rfl))
    · cases hcreated

/-! ## A batch of which one segment is refused -/

def plainPost (objectId timerange : String) : FlowSegmentPost := { objectId := lit objectId, timerange := lit timerange }

def firstRequest (segments : List FlowSegmentPost) : Exchange :=
  Client.registerRequest { expiresAt := 86400000000 } (lit "new") (some 1) segments (lit "k") 1 oneFlow

theorem firstRequest_history (sha : FlowSegmentPostBody → Str) : History {} (lit "default") sha [] oneFlow :=
  .start (by decide +kernel)

theorem onePost_truthful :
    Client.registerSegments {} (lit "default") (fun _ => lit "h") (firstRequest [plainPost "a" "[0:0_1:0)"]) = .ok () ∧
    (firstRequest [plainPost "a" "[0:0_1:0)"]).Truthful {} (lit "default") (fun _ => lit "h") [] := by
  refine ⟨by decide +kernel, ?_⟩
  have hrows : ∀ r ∈ oneFlow.segments.rows, r.WellStored := by
    rw [segments_oneFlow]
    exact fun _ h => by cases h
  refine (registerSegments_truthful_iff (firstRequest_history _) hrows { expiresAt := 86400000000 } freshIds_oneFlow
    (lit "new") (some 1) [plainPost "a" "[0:0_1:0)"] (fun _ h => by cases h) (lit "k") 1).mpr ⟨?_, ?_⟩
  · intro f params hv _
    left
    have hbody : registerParamsFromAPI (.array [plainPost "a" "[0:0_1:0)"]) =
        .ok ⟨0, [sampleSegment "a" "[0:0_1:0)" 0 1]⟩ := by decide +kernel
    cases hbody.symm.trans hv.body
    decide +kernel
  · intro f params r _ hr
    have hnone : oneFlow.idempotencyKeys.get (lit "k") = none := by decide +kernel
    cases hnone.symm.trans hr.row

/-- One segment is registered, the other is listed as failed, and the client returns nil. -/
theorem partialPost_hidden :
    let e := firstRequest [plainPost "a" "[0:0_1:0)", plainPost "b" "()"]
    History {} (lit "default") (fun _ => lit "h") [] e.before ∧
    (∃ failed, e.response {} (lit "default") (fun _ => lit "h") = .bulkFailure [failed] ∧ failed.objectId = lit "b") ∧
    ((e.after {} (lit "default") fun _ => lit "h").segmentsOf 1).map (·.objectId) = [lit "a"] ∧
    Client.registerSegments {} (lit "default") (fun _ => lit "h") e = .ok () := by
  refine ⟨firstRequest_history _, ?_, by decide +kernel, by decide +kernel⟩
  exact ⟨_, rfl, rfl⟩

end OpenTams
