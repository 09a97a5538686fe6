import OpenTams.Finalise
import OpenTams.SegmentInv

/-!
# Retrying a request that was registered

An execution registers its batch and then fails to store its response: the
client is gone, or the database refuses the `Complete`. The key is then released
by the deferred safety net, and a retry with it registers the same batch again,
which overlaps itself. A retry that finds the row is answered from it.
-/

namespace OpenTams

open Sql Prog

/-! ## Acquire alone -/

section
variable {t : Time} {d d' : DB} {key : Str} (bodyHash : Str) (expiresAt : Time)

theorem filter_expiredKey (h : ∀ r, d.idempotencyKeys.get key = some r → t < r.expiresAt) :
    d.idempotencyKeys.rows.filter (expiredKey key t) = [] := by
  rw [List.filter_eq_nil_iff]
  intro r hr he
  simp only [expiredKey, Bool.and_eq_true, decide_eq_true_eq] at he
  obtain ⟨rfl, hle⟩ := he
  exact absurd hle (Int.not_le.mpr (h r (Table.get_of_mem hr)))

theorem run_acquire (hk : validateKey key = .ok ()) (h : ∀ r, d.idempotencyKeys.get key = some r → t < r.expiresAt) :
    (acquire key bodyHash expiresAt).run t d = match d.idempotencyKeys.get key with
      | some r => (.ok (acquireAnswer bodyHash r), d)
      | none => (.ok { status := .statusAcquired }, d.write (.putKey (acquiredRow key bodyHash expiresAt t))) := by
  simp only [acquire, hk]
  rw [run_inTx]
  simp only [acquireBody, deleteKeys, acquireSelect, stmt, bind_eq, Prog.bind, exec, Conn.now_some, Conn.view_some,
    Conn.run_some, Sess.run, writeAll_nil, filter_expiredKey h, List.map_nil, List.append_nil]
  cases hg : d.idempotencyKeys.get key with
  | some r => rfl
  | none =>
    simp only [acquireFound, acquireInsert, stmtE, bind_eq, Prog.bind, exec, Conn.now_some, Conn.view_some,
      writeAll_nil, Conn.run_some, Sess.run, hg]
    rfl

theorem acquire_acquired {bodyHash : Str} {expiresAt : Time}
    (h : (acquire key bodyHash expiresAt).run t d = (.ok { status := .statusAcquired }, d')) :
    validateKey key = .ok () ∧ d'.idempotencyKeys.get key = some (acquiredRow key bodyHash expiresAt t) ∧
      d' = { d with idempotencyKeys := d'.idempotencyKeys } := by
  unfold acquire at h
  cases hk : validateKey key with
  | error e =>
    rw [hk] at h
    cases h
  | ok _ =>
    refine ⟨rfl, ?_⟩
    rw [hk] at h
    dsimp only at h
    rw [run_inTx] at h
    simp only [acquireBody, deleteKeys, acquireSelect, stmt, bind_eq, Prog.bind, exec, Conn.now_some, Conn.view_some,
      Conn.run_some, Sess.run, writeAll_nil, List.nil_append, List.append_nil] at h
    generalize hw : (d.idempotencyKeys.rows.filter (expiredKey key t)).map (Write.delKey ·.key) = ws at h
    cases hg : (writeAll ws d).idempotencyKeys.get key with
    | some r =>
      simp only [hg, acquireFound, exec, Prod.mk.injEq, Except.ok.injEq] at h
      exact absurd (congrArg AcquireResult.status h.1) (acquireAnswer_status bodyHash r)
    | none =>
      simp only [hg, acquireFound, acquireInsert, stmtE, bind_eq, Prog.bind, exec, Conn.now_some, Conn.view_some,
        Conn.run_some, Sess.run, Option.isSome_none, Bool.false_eq_true, if_false, commitThen] at h
      obtain ⟨-, rfl⟩ := h
      rw [writeAll_append]
      refine ⟨Table.get_put_self _ (acquiredRow key bodyHash expiresAt t), ?_⟩
      have hkeys : writeAll ws d = { d with idempotencyKeys := (writeAll ws d).idempotencyKeys } := by
        refine writeAll_rule (J := fun v : DB => v = { d with idempotencyKeys := v.idempotencyKeys })
          (fun w hmem v hv => ?_) rfl
        rw [← hw] at hmem
        obtain ⟨r, -, rfl⟩ := List.mem_map.mp hmem
        rw [hv]
        rfl
      rw [hkeys]
      rfl

end

/-! ## Registering again -/

section
variable {storageId : Str} {nextval nextval' : Nat → Nat} {req : RegisterParams} {res : RegisterResult} {t t' : Time}
  {d d' v : DB}

/-- Either every segment is screened out and the store is not asked, or it takes the survivors. -/
theorem registerBatch_ok {c : Constraints} (h : (registerBatch c storageId nextval req).run t d = (.ok res, d')) :
    req.segments.length ≠ 0 ∧
      ((screen 0 req.segments).survivors.length = 0 ∧
          res = ⟨.outcomeAllRejected, [], (screen 0 req.segments).failed⟩ ∧ d' = d ∨
        (screen 0 req.segments).survivors.length ≠ 0 ∧ (∃ a, assemble (screen 0 req.segments) a = some res) ∧
          ∃ bounds, Inserted c nextval ⟨req.flowId, (screen 0 req.segments).survivors, storageId⟩ bounds t d d') := by
  unfold registerBatch at h
  split at h
  · cases h
  rename_i hreq
  refine ⟨hreq, ?_⟩
  unfold registerScreened at h
  split at h
  · rename_i hsurv
    cases h
    exact Or.inl ⟨hsurv, rfl, rfl⟩
  rename_i hsurv
  refine Or.inr ⟨hsurv, ?_⟩
  rw [(exits_insertSegments ..).attempt.run_bind, run_attempt] at h
  cases hx : (insertSegments c nextval ⟨req.flowId, (screen 0 req.segments).survivors, storageId⟩).run t d with
  | mk r d₁ =>
    rw [hx] at h
    cases r with
    | error e => cases h
    | ok a =>
      dsimp only [finishRegister] at h
      cases ha : assemble (screen 0 req.segments) a with
      | none =>
        rw [ha] at h
        cases h
      | some res' =>
        rw [ha] at h
        cases h
        exact ⟨⟨a, ha⟩, insertSegments_inserted hx⟩

theorem registerBatch_inserted {c : Constraints} (h : (registerBatch c storageId nextval req).run t d = (.ok res, d'))
    (hres : res.outcome = .outcomeAllAccepted) :
    req.segments.length ≠ 0 ∧ (screen 0 req.segments).survivors.length ≠ 0 ∧
      ∃ bounds, Inserted c nextval ⟨req.flowId, (screen 0 req.segments).survivors, storageId⟩ bounds t d d' := by
  obtain ⟨hreq, ⟨-, rfl, -⟩ | ⟨hsurv, -, hins⟩⟩ := registerBatch_ok h
  · cases hres
  · exact ⟨hreq, hsurv, hins⟩

theorem Inserted.probe {batch : InsertBatch} {bounds : List NsBounds} (h : Inserted {} nextval batch bounds t d d')
    (hv : v.segmentsOf batch.flowId = d'.segmentsOf batch.flowId) {x : Segment × NsBounds}
    (hx : x ∈ batch.segments.zip bounds) : ∃ s, overlapProbe batch.flowId x.2 v = .ok (some s) := by
  have hfit := h.fits x hx
  obtain ⟨hlo, hhi⟩ := hfit.finite.params
  have hlt := hfit.check rfl
  have hrows : v.segmentsOf batch.flowId =
      d.segmentsOf batch.flowId ++ newRows nextval batch.flowId t 0 (batch.segments.zip bounds) := by
    rw [hv, h.segmentsOf, if_pos rfl]
  -- the probe of the first execution has gone over the older rows, the table has checked the newer ones
  have hclear := h.clear x hx
  unfold overlapProbe at hclear ⊢
  split at hclear
  · cases hclear
  rename_i hok
  simp only [Bool.or_eq_true, not_or, Bool.not_eq_true, List.any_eq_false, decide_eq_true_eq] at hok
  have hnew : ∀ r ∈ newRows nextval batch.flowId t 0 (batch.segments.zip bounds), ¬ r.upperNs < r.lowerNs := by
    intro r hr
    obtain ⟨k, y, hy, rfl⟩ := mem_newRows.mp hr
    exact (h.fits y (List.mem_of_getElem? hy)).exclusion rfl
  have hok' : ¬ (int8rangeInvalid (lowerParam x.2) (upperParam x.2) ||
      (v.segmentsOf batch.flowId).any fun r => r.upperNs < r.lowerNs) = true := by
    simp only [hrows, List.any_append, Bool.or_eq_true, not_or, Bool.not_eq_true, List.any_eq_false, decide_eq_true_eq]
    exact ⟨hok.1, hok.2, hnew⟩
  rw [if_neg hok']
  obtain ⟨k, hk⟩ := List.getElem?_of_mem hx
  have hmem : segmentRow (nextval (0 + k)) batch.flowId x.1 x.2.lower x.2.upper t ∈ v.segmentsOf batch.flowId := by
    rw [hrows]
    exact List.mem_append_right _ (mem_newRows.mpr ⟨k, x, hk, rfl⟩)
  have hfound : ((v.segmentsOf batch.flowId).find? (rowOverlaps (lowerParam x.2) (upperParam x.2))).isSome := by
    rw [List.find?_isSome]
    refine ⟨_, hmem, ?_⟩
    simp [rowOverlaps, hlo, hhi, int8rangeNonempty, segmentRow, hlt]
  obtain ⟨r, hr⟩ := Option.isSome_iff_exists.mp hfound
  exact ⟨r.timerange, by rw [hr]; rfl⟩

theorem Inserted.writable {c : Constraints} {batch : InsertBatch} {bounds : List NsBounds}
    (h : Inserted c nextval batch bounds t d d') : ∃ r, d'.flows.get batch.flowId = some r ∧ r.readOnly = false := by
  obtain ⟨r, span, hr, hro, -, hput⟩ := h.flow
  have hid : r.id = batch.flowId := Table.key_of_get hr
  refine ⟨{ r with segmentsUpdated := some t, timerange := span }, ?_, hro⟩
  rw [hput, ← hid]
  exact Table.get_put_self _ _

theorem Inserted.overlaps {batch : InsertBatch} {bounds : List NsBounds} (h : Inserted {} nextval batch bounds t d d')
    (hne : batch.segments.length ≠ 0) (hv : v.segmentsOf batch.flowId = d'.segmentsOf batch.flowId)
    (hf : v.flows.get batch.flowId = d'.flows.get batch.flowId) :
    ∃ m, (insertSegments {} nextval' batch).run t' v = (.error (.wrap m (.sentinel .segmentOverlap)), v) := by
  obtain ⟨r, hr, hro⟩ := h.writable
  have hl := checkBatch_length h.checked
  cases hzip : batch.segments.zip bounds with
  | nil =>
    have := congrArg List.length hzip
    rw [List.length_zip, hl, Nat.min_self] at this
    exact absurd this hne
  | cons x xs =>
    obtain ⟨s, hs⟩ := h.probe hv (x := x) (by rw [hzip]; exact List.mem_cons_self)
    refine ⟨[.text "metastore: InsertSegments: segment ", .int (0 : Nat), .text " (", .str x.1.timerangeRaw,
      .text ") overlaps existing ", .str s, .text " on flow ", .uuid batch.flowId, .text ": "], ?_⟩
    simp only [insertSegments, h.checked]
    refine run_inTx_of_error (commits_insertBody ..) ((eval_guard_writable (hf.trans hr) hro).trans ?_)
    rw [hzip, eval_bind]
    simp only [forEach, ← bind_eq, eval_bind, overlapCheck, eval_stmtE, hs]
    rfl

theorem registerBatch_error {c : Constraints} {e : Err} (hreq : req.segments.length ≠ 0)
    (hsurv : (screen 0 req.segments).survivors.length ≠ 0)
    (h : (insertSegments c nextval' ⟨req.flowId, (screen 0 req.segments).survivors, storageId⟩).run t' v = (.error e, v)) :
    (registerBatch c storageId nextval' req).run t' v = (.error (registerError e), v) := by
  simp only [registerBatch, if_neg hreq, registerScreened, if_neg hsurv]
  rw [(exits_insertSegments ..).attempt.run_bind, run_attempt, h]
  rfl

end

/-! ## The retry -/

/-- The parts of an execution that acquired its key and whose batch was accepted as a whole:
`d₁` is the store after `Acquire`, `d₂` after `RegisterBatch`. -/
structure Accepted (storageId : Str) (env : PostEnv) (x : Post) (res : RegisterResult) (d₀ d₁ d₂ : DB) : Prop where
  acquired : ∃ t, (acquire x.key x.bodyHash env.expiresAt).run t d₀ = (.ok { status := .statusAcquired }, d₁)
  registered : ∃ t, (registerBatch {} storageId env.nextval x.params).run t d₁ = (.ok res, d₂)
  accepted : res.outcome = .outcomeAllAccepted

/-- Between `d` and `d'` nobody else has written to the flow or the key, and at `t` the key has not expired. -/
structure Undisturbed (x : Post) (t : Time) (d d' : DB) : Prop where
  segments : d'.segmentsOf x.params.flowId = d.segmentsOf x.params.flowId
  flow : d'.flows.get x.params.flowId = d.flows.get x.params.flowId
  key : d'.idempotencyKeys.get x.key = d.idempotencyKeys.get x.key
  live : ∀ r, d.idempotencyKeys.get x.key = some r → t < r.expiresAt

def IsOverlap (r : Except Err Response) : Prop :=
  ∃ detail, r = .ok (postSegments422 (problemTypeOf "segment-overlap") "Segment Overlap" detail)

section
variable (storageId : Str) (env env' : PostEnv) {x : Post} {res : RegisterResult} {d d₀ d₁ d₂ : DB} {t : Time}

theorem run_postChecked {c : Constraints} {acq : AcquireResult} {d' : DB}
    (h : (acquire x.key x.bodyHash env.expiresAt).run t d = (.ok acq, d')) :
    (postChecked c storageId env x).run t d = (postAcquired c storageId env x acq).run t d' := by
  rw [postChecked, (exits_acquire ..).run_bind, h]

theorem run_postAcquired {c : Constraints} :
    (postAcquired c storageId env x { status := .statusAcquired }).run t d =
      (postRegistered x.key ((registerBatch c storageId env.nextval x.params).run t d).1).run t
        ((registerBatch c storageId env.nextval x.params).run t d).2 := by
  simp only [postAcquired]
  rw [(registerBatch_spares ..).2.attempt.run_bind, run_attempt]

theorem retry_found {r : KeyRow} (hk : validateKey x.key = .ok ()) (hr : d.idempotencyKeys.get x.key = some r)
    (hlive : t < r.expiresAt) (hhash : r.bodyHash = x.bodyHash) :
    ((postChecked {} storageId env x).run t d).1 =
      .ok (if r.inFlight then postSegmentsCachedConflict [.text "idempotency key is already in-flight"]
        else cachedPostResponse (some ⟨r.responseStatus, r.responseBody⟩)) := by
  have hacq := run_acquire x.bodyHash env.expiresAt hk (d := d) (t := t)
    fun r' hr' => by cases hr.symm.trans hr'; exact hlive
  rw [hr] at hacq
  rw [run_postChecked storageId env hacq]
  cases hf : r.inFlight <;> simp only [acquireAnswer, hhash, hf, ne_eq, not_true_eq_false, if_false] <;> rfl

theorem retry_absent (h : Accepted storageId env x res d₀ d₁ d₂) (hnone : d.idempotencyKeys.get x.key = none)
    (hseg : d.segmentsOf x.params.flowId = d₂.segmentsOf x.params.flowId)
    (hflow : d.flows.get x.params.flowId = d₂.flows.get x.params.flowId) :
    IsOverlap ((postChecked {} storageId env' x).run t d).1 := by
  obtain ⟨_, hacq⟩ := h.acquired
  obtain ⟨_, hreg⟩ := h.registered
  have hk := (acquire_acquired hacq).1
  obtain ⟨hreq, hsurv, bounds, hins⟩ := registerBatch_inserted hreg h.accepted
  have hacq' := run_acquire x.bodyHash env'.expiresAt hk (d := d) (t := t)
    fun r hr => by cases hnone.symm.trans hr
  rw [hnone] at hacq'
  rw [run_postChecked storageId env' hacq']
  -- the row of the key is all that has changed
  generalize hv : d.write (.putKey (acquiredRow x.key x.bodyHash env'.expiresAt t)) = v
  have hvseg : v.segmentsOf x.params.flowId = d₂.segmentsOf x.params.flowId := by rw [← hv]; exact hseg
  have hvflow : v.flows.get x.params.flowId = d₂.flows.get x.params.flowId := by rw [← hv]; exact hflow
  obtain ⟨m, hm⟩ := hins.overlaps hsurv hvseg hvflow
  refine ⟨(Err.wrap m (.sentinel .segmentOverlap)).text, ?_⟩
  rw [run_postAcquired, registerBatch_error hreq hsurv hm]
  exact congrArg Prod.fst (run_storeThen hk t v
    (postSegments422 (problemTypeOf "segment-overlap") "Segment Overlap" (Err.wrap m (.sentinel .segmentOverlap)).text))

end

/-- **Retries.** A retry of a request whose batch was accepted as a whole is answered with the 422
exactly where the `Complete` of the first execution failed and its deferred release did not. -/
theorem retry_overlaps_iff {storageId : Str} {env env' : PostEnv} {x : Post} {res : RegisterResult} {d₀ d₁ d₂ d₄ : DB}
    {t t' : Time} {fails : Nat → Option Stmt → Bool} (h : Accepted storageId env x res d₀ d₁ d₂)
    (hu : Undisturbed x t' ((postRegistered x.key (.ok res)).runFailing fails t d₂).2 d₄) :
    IsOverlap ((postChecked {} storageId env' x).run t' d₄).1 ↔
      fails 0 (some .complete) = true ∧ fails 1 (some .release) = false := by
  obtain ⟨_, hacq⟩ := h.acquired
  obtain ⟨_, hreg⟩ := h.registered
  obtain ⟨hk, hrow, -⟩ := acquire_acquired hacq
  obtain ⟨-, -, bounds, hins⟩ := registerBatch_inserted hreg h.accepted
  have hrow₂ : d₂.idempotencyKeys.get x.key = d₁.idempotencyKeys.get x.key := by rw [hins.others]
  rw [hrow] at hrow₂
  rw [postRegistered_created x.key h.accepted, runFailing_storeThen hk] at hu
  cases hc : fails 0 (some .complete) with
  | false =>
    -- the row holds the 201
    simp only [hc, Bool.false_eq_true, if_false] at hu
    have hget := get_keyCompleted Response.created.status none hrow₂
    have := retry_found storageId env' hk (hu.key.trans hget) (hu.live _ hget) rfl
    rw [this]
    refine iff_of_false ?_ fun hf => by cases hf.1
    rintro ⟨_, hd⟩
    cases hd
  | true =>
    cases hr : fails 1 (some .release) with
    | false =>
      simp only [hc, hr, if_true, Bool.false_eq_true, if_false] at hu
      exact iff_of_true (retry_absent storageId env env' h (hu.key.trans (get_keyReleased ..))
        (hu.segments.trans (segmentsOf_keyReleased ..)) (by rw [hu.flow, flows_keyReleased])) ⟨rfl, rfl⟩
    | true =>
      -- the row is still in flight
      simp only [hc, hr, if_true] at hu
      have := retry_found storageId env' hk (hu.key.trans hrow₂) (hu.live _ hrow₂) rfl
      rw [this]
      refine iff_of_false ?_ fun hf => by cases hf.2
      rintro ⟨_, hd⟩
      cases hd

/-! ## A retry of one segment -/

def retriedPost : Post := ⟨⟨1, [sampleSegment "o" "[0:0_1:0)" 0 1]⟩, lit "k", lit "a"⟩

def retriedEnv : PostEnv := { expiresAt := 86400000000 }

def afterAcquire : DB := ((acquire retriedPost.key retriedPost.bodyHash retriedEnv.expiresAt).run 1 oneFlow).2

def afterRegister : DB :=
  ((registerBatch {} (lit "default") retriedEnv.nextval retriedPost.params).run 2 afterAcquire).2

theorem accepted_retriedPost : Accepted (lit "default") retriedEnv retriedPost
    ⟨.outcomeAllAccepted, retriedPost.params.segments, []⟩ oneFlow afterAcquire afterRegister where
  acquired := ⟨1, Prod.ext (by decide +kernel) rfl⟩
  registered := ⟨2, Prod.ext (by decide +kernel) rfl⟩
  accepted := rfl

/-- With no statement failing, the retry is not answered with the 422. -/
theorem retry_of_completed : ¬ IsOverlap ((postChecked {} (lit "default") retriedEnv retriedPost).run 4
    ((postRegistered retriedPost.key (.ok ⟨.outcomeAllAccepted, retriedPost.params.segments, []⟩)).runFailing
      (fun _ _ => false) 3 afterRegister).2).1 := by
  have hrow : ((postRegistered retriedPost.key (.ok ⟨.outcomeAllAccepted, retriedPost.params.segments, []⟩)).runFailing
      (fun _ _ => false) 3 afterRegister).2.idempotencyKeys.get retriedPost.key =
      some (completedRow 201 none (acquiredRow (lit "k") (lit "a") 86400000000 1)) := by
    decide +kernel
  intro h
  have hu : Undisturbed retriedPost 4 _ _ := ⟨rfl, rfl, rfl, fun r hr => by cases hrow.symm.trans hr; decide⟩
  cases ((retry_overlaps_iff accepted_retriedPost hu).mp h).1

/-- The `Complete` of the first request fails, the client has its 201 or is gone, and the retry is told
that its segment overlaps. -/
theorem retry_overlaps_itself :
    ((postFlowSegments {} (lit "default") retriedEnv
      ⟨some 1, some ⟨.ok retriedPost.params.segments, .ok (lit "a")⟩, lit "k"⟩).runFailing
      (fun _ x => x = some .complete) 1 oneFlow).1 = .ok .created ∧
    ((postFlowSegments {} (lit "default") { retriedEnv with nextval := (· + 1) }
      ⟨some 1, some ⟨.ok retriedPost.params.segments, .ok (lit "a")⟩, lit "k"⟩).run 2
      ((postFlowSegments {} (lit "default") retriedEnv
        ⟨some 1, some ⟨.ok retriedPost.params.segments, .ok (lit "a")⟩, lit "k"⟩).runFailing
        (fun _ x => x = some .complete) 1 oneFlow).2).1.map Response.status = .ok 422 := by
  decide +kernel

end OpenTams
