import OpenTams.Refusals
import OpenTams.Retry

/-!
# POST on a flow that is missing or read-only

The flow is looked at inside the transaction of `InsertSegments` and nowhere
else. So the 404 and the 403 are the answer of those requests alone that get so
far: the checks of the handler, the screening of the service and the comparison
of the segments with each other come first.
-/

namespace OpenTams

open Sql Prog

/-! ## The row of the key -/

structure SameButKey (key : Str) (d d' : DB) : Prop where
  rest : d' = { d with idempotencyKeys := d'.idempotencyKeys }
  others : ∀ k, k ≠ key → d'.idempotencyKeys.get k = d.idempotencyKeys.get k

section
variable {key : Str} {d d' d'' : DB}

theorem SameButKey.refl (key : Str) (d : DB) : SameButKey key d d where
  rest := rfl
  others _ _ := rfl

theorem SameButKey.trans (h : SameButKey key d d') (h' : SameButKey key d' d'') : SameButKey key d d'' where
  rest := by rw [h'.rest, h.rest]
  others _ hk := (h'.others _ hk).trans (h.others _ hk)

theorem sameButKey_putKey (d : DB) {r : KeyRow} (hr : r.key = key) : SameButKey key d (d.write (.putKey r)) where
  rest := rfl
  others _ hk := Table.get_put_ne d.idempotencyKeys fun he => hk (he.symm.trans hr)

theorem sameButKey_completed (key : Str) (status : Int) (body : Option ResponseBody) (d : DB) :
    SameButKey key d (keyCompleted key status body d) := by
  cases hr : d.idempotencyKeys.get key with
  | none =>
    simp only [keyCompleted, hr]
    exact .refl key d
  | some r =>
    simp only [keyCompleted, hr]
    exact sameButKey_putKey d (r := completedRow status body r) (show r.key = key from Table.key_of_get hr)

end

/-! ## The service -/

def Unwritable (f : Uuid) (d : DB) : Prop := ∀ r, d.flows.get f = some r → r.readOnly = true

def refusedResponse (flow : Option FlowRow) : Response :=
  match flow with
  | none => postSegments404 [.text "flow not found"]
  | some _ => postSegments403 [.text "flow is read-only"]

section
variable (c : Constraints) (nextval : Nat → Nat) (t : Time) (d : DB) {batch : InsertBatch}

theorem insertSegments_unwritable (hv : ∀ seg ∈ batch.segments, seg.Valid) (ha : batch.Apart)
    (hf : Unwritable batch.flowId d) :
    ∃ e, (insertSegments c nextval batch).run t d = (.error e, d) ∧
      registerErrorResponse (registerError e) = some (refusedResponse (d.flows.get batch.flowId)) := by
  rcases checkBatch_valid hv with ⟨-, hb⟩ | ⟨hna, -⟩
  case inr => exact absurd ha hna
  rw [insertSegments, hb]
  cases hg : d.flows.get batch.flowId with
  | none =>
    obtain ⟨m, hm⟩ := eval_guard_missing "InsertSegments" (t := t) hg
    exact ⟨_, run_inTx_of_error (commits_insertBody ..) hm, rfl⟩
  | some r =>
    obtain ⟨m, hm⟩ := eval_guard_readOnly "InsertSegments" (t := t) hg (hf r hg)
    exact ⟨_, run_inTx_of_error (commits_insertBody ..) hm, rfl⟩

theorem insertSegments_overlapping (hv : ∀ seg ∈ batch.segments, seg.Valid) (ha : ¬ batch.Apart) :
    ∃ m, (insertSegments c nextval batch).run t d = (.error (.wrap m (.sentinel .segmentOverlap)), d) := by
  rcases checkBatch_valid hv with ⟨ha', -⟩ | ⟨-, m, hb⟩
  · exact absurd ha' ha
  · refine ⟨m, ?_⟩
    rw [insertSegments, hb]
    rfl

end

/-! ## The handler -/

structure ReachesFlow (key : Str) (segs : List Segment) : Prop where
  key : validateKey key = .ok ()
  size : segs.length ≤ maxSegmentsBatch
  survives : (screen 0 segs).survivors ≠ []
  apart : (screen 0 segs).survivors.Pairwise fun s s' => Disjoint s.timerange.denote s'.timerange.denote

section
variable {c : Constraints} {storageId : Str} {env : PostEnv} {body : FlowSegmentPostBody} {params : RegisterParams}
  {hash key : Str} {f : Uuid} {t : Time} {d : DB}

theorem checkPost_eq (hbody : registerParamsFromAPI body = .ok params) :
    checkPost ⟨some f, some (postBody body hash), key⟩ =
      if key = [] then .error (.ok (postSegments400 (problemTypeOf "missing-idempotency-key")
        [.text "X-Idempotency-Key header required"]))
      else if maxSegmentsBatch < params.segments.length then .error (.ok (postSegments400 (problemTypeOf "batch-too-large")
        [.text "batch exceeds maximum of 1000 segments"]))
      else .ok ⟨⟨f, params.segments⟩, key, hash⟩ := by
  simp only [checkPost, postBody, hbody]
  rfl

theorem key_ne_nil (hk : validateKey key = .ok ()) : key ≠ [] := by
  intro h
  rw [h] at hk
  cases hk

theorem validateKey_error {e : Err} (hne : key ≠ []) (h : validateKey key = .error e) :
    (errorHandler e).status = 400 := by
  rw [validateKey, if_neg hne] at h
  split at h
  · cases h
    rfl
  · cases h

/-- The response the client sees, with nothing but the row of the key changed. -/
structure Answered (key : Str) (d : DB) (x : Except Err Response × DB) (resp : Response) : Prop where
  seen : clientSees x.1 = resp
  same : SameButKey key d x.2

theorem post_refused_early (hbody : registerParamsFromAPI body = .ok params)
    (h : ¬ (validateKey key = .ok () ∧ params.segments.length ≤ maxSegmentsBatch)) :
    ∃ resp, Answered key d ((postFlowSegments c storageId env ⟨some f, some (postBody body hash), key⟩).run t d) resp ∧
      resp.status = 400 := by
  rw [postFlowSegments, checkPost_eq hbody]
  by_cases hne : key = []
  · rw [if_pos hne]
    exact ⟨_, ⟨rfl, .refl key d⟩, rfl⟩
  rw [if_neg hne]
  by_cases hlen : maxSegmentsBatch < params.segments.length
  · rw [if_pos hlen]
    exact ⟨_, ⟨rfl, .refl key d⟩, rfl⟩
  rw [if_neg hlen]
  cases hk : validateKey key with
  | ok u => exact absurd ⟨hk, Nat.not_lt.mp hlen⟩ h
  | error e =>
    -- the key is refused by `Acquire`
    have hrun : (postChecked c storageId env ⟨⟨f, params.segments⟩, key, hash⟩).run t d = (.error e, d) := by
      simp only [postChecked, acquire, hk]
      rfl
    dsimp only
    rw [hrun]
    exact ⟨errorHandler e, ⟨rfl, .refl key d⟩, validateKey_error hne hk⟩

theorem post_stored {r : Except Err RegisterResult} {resp : Response}
    (hbody : registerParamsFromAPI body = .ok params) (hk : validateKey key = .ok ())
    (hlen : params.segments.length ≤ maxSegmentsBatch) (hfresh : d.idempotencyKeys.get key = none)
    (hrun : (registerBatch c storageId env.nextval ⟨f, params.segments⟩).run t
      (d.write (.putKey (acquiredRow key hash env.expiresAt t))) =
        (r, d.write (.putKey (acquiredRow key hash env.expiresAt t))))
    (hr : postRegistered key r = storeThen key resp) :
    Answered key d ((postFlowSegments c storageId env ⟨some f, some (postBody body hash), key⟩).run t d) resp := by
  have hacq := run_acquire hash env.expiresAt hk (d := d) (t := t) fun r hr => by cases hfresh.symm.trans hr
  rw [hfresh] at hacq
  rw [postFlowSegments, checkPost_eq hbody, if_neg (key_ne_nil hk), if_neg (Nat.not_lt.mpr hlen)]
  dsimp only
  rw [run_postChecked storageId env hacq, run_postAcquired, hrun, hr, run_storeThen hk]
  refine ⟨rfl, SameButKey.trans (sameButKey_putKey d rfl) (sameButKey_completed key _ _ _)⟩

theorem post_unwritable (hbody : registerParamsFromAPI body = .ok params) (hfresh : d.idempotencyKeys.get key = none)
    (hf : Unwritable f d) :
    ∃ resp, Answered key d ((postFlowSegments c storageId env ⟨some f, some (postBody body hash), key⟩).run t d) resp ∧
      (ReachesFlow key params.segments ∧ resp = refusedResponse (d.flows.get f) ∨
        ¬ ReachesFlow key params.segments ∧ (resp.status = 400 ∨ resp.status = 200 ∨ resp.status = 422)) := by
  by_cases hearly : validateKey key = .ok () ∧ params.segments.length ≤ maxSegmentsBatch
  case neg =>
    obtain ⟨resp, hresp, hstatus⟩ := post_refused_early hbody hearly
    exact ⟨resp, hresp, Or.inr ⟨fun h => hearly ⟨h.key, h.size⟩, Or.inl hstatus⟩⟩
  obtain ⟨hk, hlen⟩ := hearly
  have hsegs : params.segments.length ≠ 0 := fun h => (registerParamsFromAPI_ok hbody).2 (List.length_eq_zero_iff.mp h)
  by_cases hsurv : (screen 0 params.segments).survivors.length = 0
  · -- every segment is rejected, and the store is not asked
    have hrun : ∀ d₁, (registerBatch c storageId env.nextval ⟨f, params.segments⟩).run t d₁ =
        (.ok ⟨.outcomeAllRejected, [], (screen 0 params.segments).failed⟩, d₁) := by
      intro d₁
      simp only [registerBatch, if_neg hsegs, registerScreened, if_pos hsurv]
      rfl
    refine ⟨_, post_stored hbody hk hlen hfresh (hrun _) (postRegistered_bulk key (fun h => by cases h)),
      Or.inr ⟨?_, ?_⟩⟩
    · intro h
      exact h.survives (List.length_eq_zero_iff.mp hsurv)
    · exact Or.inr (Or.inl rfl)
  have hvalid := survivors_valid hbody
  by_cases ha : (⟨f, (screen 0 params.segments).survivors, storageId⟩ : InsertBatch).Apart
  · obtain ⟨e, he, hresp⟩ := insertSegments_unwritable c env.nextval t
      (d.write (.putKey (acquiredRow key hash env.expiresAt t))) hvalid ha hf
    refine ⟨_, post_stored hbody hk hlen hfresh (registerBatch_error hsegs hsurv he) (postRegistered_error key hresp),
      Or.inl ⟨⟨hk, hlen, fun h => ?_, ha⟩, rfl⟩⟩
    exact hsurv (List.length_eq_zero_iff.mpr h)
  · obtain ⟨m, hm⟩ := insertSegments_overlapping c env.nextval t
      (d.write (.putKey (acquiredRow key hash env.expiresAt t))) hvalid ha
    refine ⟨_, post_stored hbody hk hlen hfresh (registerBatch_error hsegs hsurv hm) (postRegistered_error key rfl),
      Or.inr ⟨fun h => ha h.apart, Or.inr (Or.inr rfl)⟩⟩

/-- **Missing and read-only flows.** For a fresh key and a body that converts, a missing flow is answered
with 404 and a read-only one with 403, with nothing but the row of the key changed, exactly if the
request gets as far as the flow or the flow id is none. -/
theorem post_unwritable_iff (flowId : Option Uuid) (hbody : registerParamsFromAPI body = .ok params)
    (hfresh : d.idempotencyKeys.get key = none) (hf : ∀ f, flowId = some f → Unwritable f d) :
    ((flowId.bind d.flows.get = none →
        (clientSees ((postFlowSegments c storageId env ⟨flowId, some (postBody body hash), key⟩).run t d).1).status =
          404) ∧
      (∀ r, flowId.bind d.flows.get = some r →
        (clientSees ((postFlowSegments c storageId env ⟨flowId, some (postBody body hash), key⟩).run t d).1).status =
          403) ∧
      SameButKey key d ((postFlowSegments c storageId env ⟨flowId, some (postBody body hash), key⟩).run t d).2) ↔
    flowId = none ∨ ReachesFlow key params.segments := by
  cases flowId with
  | none => exact iff_of_true ⟨fun _ => rfl, (fun r hr => by cases hr), .refl key d⟩ (Or.inl rfl)
  | some f =>
    obtain ⟨resp, hresp, h⟩ := post_unwritable (c := c) (t := t) hbody hfresh (hf f rfl)
    rw [hresp.seen]
    show ((d.flows.get f = none → _) ∧ (∀ r, d.flows.get f = some r → _) ∧ _) ↔ _
    rcases h with ⟨hreach, rfl⟩ | ⟨hno, hstatus⟩
    · refine iff_of_true ⟨fun hnone => ?_, fun r hr => ?_, hresp.same⟩ (Or.inr hreach)
      · rw [hnone]
        rfl
      · rw [hr]
        rfl
    · refine iff_of_false ?_ (fun h => h.elim (fun h => by cases h) hno)
      rintro ⟨h404, h403, -⟩
      cases hg : d.flows.get f with
      | none =>
        have := h404 hg
        omega
      | some r =>
        have := h403 r hg
        omega

end

def timedPost (timerange : String) : FlowSegmentPostBody := .single { objectId := lit "o", timerange := lit timerange }

theorem post_unwritable_missing :
    (clientSees ((postFlowSegments {} (lit "default") { expiresAt := 86400000000 }
      ⟨some 2, some (postBody (timedPost "[0:0_1:0)") (lit "h")), lit "k"⟩).run 1 oneFlow).1).status = 404 := by
  have hreach : ReachesFlow (lit "k") [sampleSegment "o" "[0:0_1:0)" 0 1] := by
    have hone : (screen 0 [sampleSegment "o" "[0:0_1:0)" 0 1]).survivors = [sampleSegment "o" "[0:0_1:0)" 0 1] := by
      decide +kernel
    refine ⟨rfl, by decide, ?_, ?_⟩
    · rw [hone]
      exact List.cons_ne_nil _ _
    · rw [hone]
      exact List.pairwise_singleton ..
  have hmissing : oneFlow.flows.get 2 = none := by decide +kernel
  have hbody : registerParamsFromAPI (timedPost "[0:0_1:0)") = .ok ⟨0, [sampleSegment "o" "[0:0_1:0)" 0 1]⟩ := by
    decide +kernel
  refine ((post_unwritable_iff (some 2) hbody (by decide +kernel) ?_).mpr (Or.inr hreach)).1 hmissing
  intro f hf r hr
  cases hf
  cases hmissing.symm.trans hr

/-- A segment without a nanosecond is rejected before the flow is looked at. -/
theorem empty_segment_answered_200 :
    (registerParamsFromAPI (timedPost "()")).isOk = true ∧ oneFlow.flows.get 2 = none ∧
    oneFlow.idempotencyKeys.get (lit "k") = none ∧
    (clientSees ((postFlowSegments {} (lit "default") { expiresAt := 86400000000 }
      ⟨some 2, some (postBody (timedPost "()") (lit "h")), lit "k"⟩).run 1 oneFlow).1).status = 200 := by
  decide +kernel

end OpenTams
