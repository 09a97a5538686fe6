import OpenTams.InsertSound
import OpenTams.KeyStages

/-!
# Finalising a key by the status the client sees

The handler finalises the key of a request it has acquired; the status of an
error it returns is decided after it, by the `ErrorHandler` middleware of
`internal/httpx/middleware`. The instance and request id of a problem are those
of the request and are left out.
-/

namespace OpenTams

open Sql Prog

/-! ## The error middleware -/

def AppError.toProblemDetails (e : AppError) : Problem where
  type := some (problemType e.code)
  title := some e.code.catalogue.2
  detail := some e.detail
  status := some e.status

/-- What `ErrorHandler` answers for an error, and the recovery for a panic. -/
def errorHandler (e : Err) : Response :=
  match e.asApp with
  | some ae => .problem ae.status ae.toProblemDetails
  | none => .problem 500 { title := some "Internal Server Error", status := some 500 }

def clientSees : Except Err Response → Response
  | .ok resp => resp
  | .error e => errorHandler e

/-! ## What is left of the row -/

def storeThen (key : Str) (resp : Response) : Tx Response := do
  let finalised ← completed key resp.status resp.body
  deferRelease key finalised
  .ret resp

def keyCompleted (key : Str) (status : Int) (body : Option ResponseBody) (d : DB) : DB :=
  match d.idempotencyKeys.get key with
  | none => d
  | some r => d.write (.putKey (completedRow status body r))

def keyReleased (key : Str) (d : DB) : DB :=
  writeAll ((d.idempotencyKeys.rows.filter fun r => r.key = key).map (Write.delKey ·.key)) d

theorem get_keyReleased (key : Str) (d : DB) : (keyReleased key d).idempotencyKeys.get key = none := by
  rw [Option.eq_none_iff_forall_ne_some]
  intro r hr
  have := (get_deleted.mp hr).2
  simp [Table.key_of_get (get_deleted.mp hr).1] at this

theorem segmentsOf_keyReleased (key : Str) (d : DB) (f : Uuid) : (keyReleased key d).segmentsOf f = d.segmentsOf f := by
  refine writeAll_rule (J := fun v : DB => v.segmentsOf f = d.segmentsOf f) (fun w hw v hv => ?_) rfl
  obtain ⟨r, -, rfl⟩ := List.mem_map.mp hw
  exact hv

theorem flows_keyReleased (key : Str) (d : DB) : (keyReleased key d).flows = d.flows := by
  refine writeAll_rule (J := fun v : DB => v.flows = d.flows) (fun w hw v hv => ?_) rfl
  obtain ⟨r, -, rfl⟩ := List.mem_map.mp hw
  exact hv

theorem get_keyCompleted {key : Str} (status : Int) (body : Option ResponseBody) {d : DB} {r : KeyRow}
    (hr : d.idempotencyKeys.get key = some r) :
    (keyCompleted key status body d).idempotencyKeys.get key = some (completedRow status body r) := by
  have hid : r.key = key := Table.key_of_get hr
  simp only [keyCompleted, hr]
  exact hid ▸ Table.get_put_self d.idempotencyKeys (completedRow status body r)

section
variable {key : Str} (hk : validateKey key = .ok ()) (fails : Nat → Option Stmt → Bool) (t : Time) (d : DB)
include hk

theorem runFailing_storeThen (resp : Response) :
    (storeThen key resp).runFailing fails t d =
      (.ok resp, if fails 0 (some .complete) then if fails 1 (some .release) then d else keyReleased key d
        else keyCompleted key resp.status resp.body d) := by
  have hprog : storeThen key resp =
      .step .complete
        (.step .release (.ret resp)
          (fun _ v => { locks := (v.idempotencyKeys.rows.filter fun r => r.key = key).map (.key ·.key),
                        writes := (v.idempotencyKeys.rows.filter fun r => r.key = key).map (.delKey ·.key) })
          fun _ _ => .ret resp)
        (fun _ v => match v.idempotencyKeys.get key with
          | none => {}
          | some r => { locks := [.key key], writes := [.putKey (completedRow resp.status resp.body r)] })
        fun _ _ => .ret resp := by
    simp only [storeThen, completed, complete, deferRelease, released, release, hk]
    rfl
  rw [hprog]
  simp only [runFailing, execFailing]
  split
  · split <;> rfl
  · simp only [Conn.view_none, Conn.run_none, keyCompleted]
    cases d.idempotencyKeys.get key <;> rfl

theorem run_released (e : Err) :
    (do let finalised ← released key; deferRelease key finalised; .fail e : Tx Response).run t d =
      (.error e, keyReleased key d) := by
  simp only [released, release, hk]
  rfl

theorem run_storeThen (resp : Response) :
    (storeThen key resp).run t d = (.ok resp, keyCompleted key resp.status resp.body d) := by
  rw [← runFailing_none, runFailing_storeThen hk]
  rfl

end

/-! ## Status and row -/

/-- The row holds the response if the client may see it again, and is gone if it may try again. -/
def FinalisedAs (seen : Response) (row : Option KeyRow) : Prop :=
  if seen.status < 500 then
    ∃ r, row = some r ∧ r.inFlight = false ∧ r.responseStatus = seen.status ∧ r.responseBody = seen.body
  else row = none

theorem finalisedAs_completed {key : Str} {d : DB} {row : KeyRow} (hrow : d.idempotencyKeys.get key = some row)
    {resp : Response} (hs : resp.status < 500) :
    FinalisedAs resp ((keyCompleted key resp.status resp.body d).idempotencyKeys.get key) := by
  rw [FinalisedAs, if_pos hs, get_keyCompleted _ _ hrow]
  exact ⟨_, rfl, rfl, rfl, rfl⟩

theorem registerErrorResponse_problem {e : Err} {resp : Response} (h : registerErrorResponse e = some resp) :
    ∃ status p, resp = .problem status p ∧
      (status = 404 ∨ status = 403 ∨ status = 400 ∨ status = 422 ∨ status = 409) := by
  unfold registerErrorResponse at h
  repeat' split at h
  all_goals cases h
  all_goals exact ⟨_, _, rfl, by decide⟩

def Response.Storable : Response → Prop
  | created => True
  | bulkFailure _ => True
  | problem status _ => status = 404 ∨ status = 403 ∨ status = 400 ∨ status = 422 ∨ status = 409

theorem Response.Storable.status_lt {resp : Response} (h : resp.Storable) : resp.status < 500 := by
  cases resp with
  | created | bulkFailure => exact Nat.le_of_ble_eq_true rfl
  | problem status p =>
    show status < 500
    rcases h with h | h | h | h | h <;> omega

theorem registerErrorResponse_storable {e : Err} {resp : Response} (h : registerErrorResponse e = some resp) :
    resp.Storable := by
  obtain ⟨status, p, rfl, hs⟩ := registerErrorResponse_problem h
  exact hs

section
variable (key : Str) {res : RegisterResult}

theorem postRegistered_created (h : res.outcome = .outcomeAllAccepted) :
    postRegistered key (.ok res) = storeThen key .created := by
  simp only [postRegistered, h]
  rfl

theorem postRegistered_bulk (h : res.outcome ≠ .outcomeAllAccepted) :
    postRegistered key (.ok res) = storeThen key (.bulkFailure (registerFailureToAPI res.failed)) := by
  cases ho : res.outcome with
  | outcomeAllAccepted => exact absurd ho h
  | outcomePartial | outcomeAllRejected =>
    simp only [postRegistered, ho]
    rfl

theorem postRegistered_error {e : Err} {resp : Response} (h : registerErrorResponse e = some resp) :
    postRegistered key (.error e) = storeThen key resp := by
  cases e with
  | panic => cases h
  | _ =>
    simp only [postRegistered, postFailed, h]
    rfl

end

theorem postRegistered_stored (key : Str) {r : Except Err RegisterResult}
    (h : ∀ e, r = .error e → registerErrorResponse e ≠ none) :
    ∃ resp : Response, resp.Storable ∧ postRegistered key r = storeThen key resp := by
  cases r with
  | ok res =>
    by_cases ho : res.outcome = .outcomeAllAccepted
    · exact ⟨.created, trivial, postRegistered_created key ho⟩
    · exact ⟨.bulkFailure (registerFailureToAPI res.failed), trivial, postRegistered_bulk key ho⟩
  | error e =>
    obtain ⟨resp, hresp⟩ := Option.ne_none_iff_exists'.mp (h e rfl)
    exact ⟨resp, registerErrorResponse_storable hresp, postRegistered_error key hresp⟩

theorem run_postRegistered_released {key : Str} (hk : validateKey key = .ok ()) (t : Time) (d : DB) {e : Err}
    (h : registerErrorResponse e = none) :
    (postRegistered key (.error e)).run t d = (.error e, keyReleased key d) := by
  cases e with
  | panic =>
    simp only [postRegistered, postFailed, deferRelease, released, release, hk]
    rfl
  | _ =>
    simp only [postRegistered, postFailed, h]
    exact run_released hk t d _

/-- **Finalising by status.** Whatever `RegisterBatch` answers, the key is finalised by the status the
client sees, unless the answer is an error that the handler takes for the server's fault and the
middleware for the client's. -/
theorem finalised_by_status_iff {key : Str} (hk : validateKey key = .ok ()) {d : DB} {row : KeyRow}
    (hrow : d.idempotencyKeys.get key = some row) (t : Time) (r : Except Err RegisterResult) :
    FinalisedAs (clientSees ((postRegistered key r).run t d).1)
        (((postRegistered key r).run t d).2.idempotencyKeys.get key) ↔
      ∀ e, r = .error e → registerErrorResponse e = none → 500 ≤ (errorHandler e).status := by
  by_cases h : ∀ e, r = .error e → registerErrorResponse e ≠ none
  · obtain ⟨resp, hs, hprog⟩ := postRegistered_stored key h
    rw [hprog, run_storeThen hk]
    exact iff_of_true (finalisedAs_completed hrow hs.status_lt) fun e he hnone => absurd hnone (h e he)
  · simp only [not_forall, not_not] at h
    obtain ⟨e, rfl, hnone⟩ := h
    rw [run_postRegistered_released hk t d hnone]
    show FinalisedAs (errorHandler e) _ ↔ _
    rw [FinalisedAs, get_keyReleased]
    constructor
    · intro hrow e' he _
      cases he
      by_contra hlt
      rw [if_pos (Nat.lt_of_not_le hlt)] at hrow
      obtain ⟨_, h, -⟩ := hrow
      cases h
    · intro h
      rw [if_neg (Nat.not_lt.mpr (h e rfl hnone))]

def heldKey : DB := DB.empty.write (.putKey (acquiredRow (lit "k") (lit "a") 86400000000 0))

/-- An overlap is stored as the 422 it is answered with. -/
theorem overlap_finalised :
    FinalisedAs (clientSees ((postRegistered (lit "k") (.error (.sentinel .segmentOverlap))).run 1 heldKey).1)
      (((postRegistered (lit "k") (.error (.sentinel .segmentOverlap))).run 1 heldKey).2.idempotencyKeys.get
        (lit "k")) := by
  have hrow : heldKey.idempotencyKeys.get (lit "k") = some (acquiredRow (lit "k") (lit "a") 86400000000 0) := by
    decide +kernel
  refine (finalised_by_status_iff rfl hrow 1 _).mpr fun e he hnone => ?_
  cases he
  cases hnone

/-! ## Rebuilding the stored response -/

theorem cachedPostResponse_stored {resp : Response} (h : resp.Storable) :
    cachedPostResponse (some ⟨resp.status, resp.body⟩) = resp := by
  cases resp with
  | created | bulkFailure => rfl
  | problem status p => rcases h with rfl | rfl | rfl | rfl | rfl <;> rfl

/-- What the handler returns after the registration is what it left in the row of its key. -/
theorem postRegistered_row {key : Str} (hk : validateKey key = .ok ()) {t : Time} {d d' : DB} {held : KeyRow}
    (hheld : d.idempotencyKeys.get key = some held) {r : Except Err RegisterResult} {resp : Response}
    (h : (postRegistered key r).run t d = (.ok resp, d')) :
    resp.Storable ∧ d'.idempotencyKeys.get key = some (completedRow resp.status resp.body held) := by
  by_cases hr : ∀ e, r = .error e → registerErrorResponse e ≠ none
  · obtain ⟨stored, hs, hprog⟩ := postRegistered_stored key hr
    rw [hprog, run_storeThen hk] at h
    cases h
    exact ⟨hs, get_keyCompleted _ _ hheld⟩
  · simp only [not_forall, not_not] at hr
    obtain ⟨e, rfl, hnone⟩ := hr
    rw [run_postRegistered_released hk t d hnone] at h
    cases h

/-- **Replay fidelity.** Every response that may be stored is rebuilt from its status and its body, and
whatever `RegisterBatch` answers, the row the handler completes is rebuilt to the response it returns. -/
theorem replay_rebuilds_response :
    (∀ resp : Response, resp.Storable → cachedPostResponse (some ⟨resp.status, resp.body⟩) = resp) ∧
    ∀ (key : Str) (r : Except Err RegisterResult) (t : Time) (d d' : DB) (held : KeyRow) (resp : Response),
      validateKey key = .ok () → d.idempotencyKeys.get key = some held →
      (postRegistered key r).run t d = (.ok resp, d') →
        ∃ row, d'.idempotencyKeys.get key = some row ∧ row.inFlight = false ∧
          row.responseStatus = resp.status ∧ row.responseBody = resp.body ∧
          cachedPostResponse (some ⟨row.responseStatus, row.responseBody⟩) = resp := by
  constructor
  · intro resp h
    exact cachedPostResponse_stored h
  · intro key r t d d' held resp hk hheld h
    obtain ⟨hs, hrow⟩ := postRegistered_row hk hheld h
    exact ⟨_, hrow, rfl, rfl, rfl, cachedPostResponse_stored hs⟩

/-- The 422 of an overlap, rebuilt from the row it was stored in. -/
theorem overlap_rebuilt :
    ∃ row, ((postRegistered (lit "k") (.error (.sentinel .segmentOverlap))).run 1 heldKey).2.idempotencyKeys.get
        (lit "k") = some row ∧
      cachedPostResponse (some ⟨row.responseStatus, row.responseBody⟩) =
        postSegments422 (problemTypeOf "segment-overlap") "Segment Overlap"
          (Err.text (.sentinel .segmentOverlap)) := by
  have hheld : heldKey.idempotencyKeys.get (lit "k") = some (acquiredRow (lit "k") (lit "a") 86400000000 0) := by
    decide +kernel
  obtain ⟨row, hrow, -, -, -, h⟩ :=
    replay_rebuilds_response.2 (lit "k") (.error (.sentinel .segmentOverlap)) 1 heldKey _ _ _ rfl hheld rfl
  exact ⟨row, hrow, h⟩

/-! ## An object timerange that is refused -/

def describedPost (key r : String) (start stop : Int64) (described : String) (seconds : Int64) : PostRequest where
  flowId := some 1
  body := some ⟨.ok [{ sampleSegment "o" r start stop with
    objectTimerange := some ⟨some ⟨0, 0⟩, .inclusive, some ⟨seconds, 0⟩, .exclusive⟩
    objectTimerangeRaw := lit described }], .ok (lit r)⟩
  key := lit key

def oneDescribed : DB :=
  ((postFlowSegments {} (lit "default") { expiresAt := 86400000000 }
    (describedPost "k" "[0:0_1:0)" 0 1 "[0:0_1:0)" 1)).run 1 oneFlow).2

/-- A segment that describes the object as five seconds long is answered with 400, and its key is released. -/
theorem refused_description_released :
    (clientSees ((postFlowSegments {} (lit "default") { nextval := (· + 1), expiresAt := 86400000000 }
      (describedPost "l" "[1:0_2:0)" 1 2 "[0:0_5:0)" 5)).run 2 oneDescribed).1).status = 400 ∧
    ((postFlowSegments {} (lit "default") { nextval := (· + 1), expiresAt := 86400000000 }
      (describedPost "l" "[1:0_2:0)" 1 2 "[0:0_5:0)" 5)).run 2 oneDescribed).2.idempotencyKeys.get
        (lit "l") = none := by
  decide +kernel

end OpenTams
