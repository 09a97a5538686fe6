import OpenTams.Idempotency
import OpenTams.Register

/-!
# POST /flows/{id}/segments

`PostFlowSegments` of `internal/httpx/handlers`: the checks before the key is
acquired, the registration, and what is stored under the key. What decoding
makes of the request (the flow id, the converted segments, the SHA-256 of the
body) is an argument. Marshalling does not fail and logs are left out.
-/

namespace OpenTams

open Sql

/-! ## Responses -/

/-- A response object; the HTTP status of problem details is that of its Go type. -/
inductive Response where
  | created
  | bulkFailure (failedSegments : List FailedEntry)
  | problem (status : Nat) (p : Problem)
  deriving DecidableEq

def Response.status : Response → Nat
  | created => 201
  | bulkFailure _ => 200
  | problem status _ => status

def Response.body : Response → Option ResponseBody
  | created => none
  | bulkFailure failed => some (.bulkFailure failed)
  | problem _ p => some (.problem p)

/-- `problemType` of the handlers, which takes any slug. -/
def problemTypeOf (slug : String) : Msg := [.text "https://github.com/amagioss/opentams/problems/", .text slug]

def problemPtrs (typ : Msg) (title : String) (detail : Msg) (status : Nat) : Problem :=
  ⟨some typ, some title, some detail, some status⟩

def postSegments400 (typ detail : Msg) : Response := .problem 400 (problemPtrs typ "Bad Request" detail 400)

def postSegments403 (detail : Msg) : Response :=
  .problem 403 (problemPtrs (problemTypeOf "read-only") "Forbidden" detail 403)

def postSegments404 (detail : Msg) : Response :=
  .problem 404 (problemPtrs (problemTypeOf "not-found") "Not Found" detail 404)

def postSegments409 (typ detail : Msg) : Response := .problem 409 (problemPtrs typ "Conflict" detail 409)

def postSegments422 (typ : Msg) (title : String) (detail : Msg) : Response :=
  .problem 422 (problemPtrs typ title detail 422)

def postSegmentsCachedConflict (detail : Msg) : Response :=
  postSegments409 (problemTypeOf "idempotency-conflict") detail

def optionalRaw (raw : Str) : Option Str := if raw = [] then none else some raw

def registerFailureToAPI (failed : List FailedSegment) : List FailedEntry :=
  failed.map fun f => ⟨f.segment.objectId, optionalRaw f.segment.timerangeRaw, f.type, f.title, f.reason⟩

def ResponseBody.toProblem : ResponseBody → Problem
  | problem p => p
  | bulkFailure _ => {}

def ResponseBody.toFailedSegments : ResponseBody → List FailedEntry
  | problem _ => []
  | bulkFailure failed => failed

def cachedProblem (status : Nat) (fallback : Response) : Option ResponseBody → Response
  | some b => .problem status b.toProblem
  | none => fallback

def cachedPostResponse : Option CachedResponse → Response
  | none => .created
  | some c =>
    if c.status = 200 then
      match c.body with
      | some b => .bulkFailure b.toFailedSegments
      | none => .created
    else if c.status = 201 then .created
    else if c.status = 400 then
      cachedProblem 400 (postSegments400 (problemTypeOf "schema-validation") [.text ""]) c.body
    else if c.status = 403 then cachedProblem 403 (postSegments403 [.text ""]) c.body
    else if c.status = 404 then cachedProblem 404 (postSegments404 [.text ""]) c.body
    else if c.status = 409 then cachedProblem 409 (postSegments409 (problemTypeOf "object-reaping") [.text ""]) c.body
    else if c.status = 422 then
      cachedProblem 422 (postSegments422 (problemTypeOf "segment-overlap") "Segment Overlap" [.text ""]) c.body
    else .created

/-! ## Finalising the key -/

def completed (key : Str) (status : Int) (body : Option ResponseBody) : Tx Bool := do
  let r ← (complete key status body).attempt
  .ret r.isOk

def completeNoBody (key : Str) (status : Int) : Tx Bool := completed key status none

def completeWithBody (key : Str) (status : Int) (body : Option ResponseBody) : Tx Bool := completed key status body

def released (key : Str) : Tx Bool := do
  let r ← (release key).attempt
  .ret r.isOk

def deferRelease (key : Str) (finalised : Bool) : Tx Unit :=
  if finalised then .ret () else do
    let _ ← released key
    .ret ()

/-- The response to an error of `RegisterBatch` that is the client's; `none` is a 5xx. -/
def registerErrorResponse (e : Err) : Option Response :=
  if e.is .serviceFlowNotFound then some (postSegments404 [.text "flow not found"])
  else if e.is .serviceFlowReadOnly then some (postSegments403 [.text "flow is read-only"])
  else if e.is .serviceInvalidRequest then some (postSegments400 (problemTypeOf "schema-validation") e.text)
  else if e.is .segmentOverlap then
    some (postSegments422 (problemTypeOf "segment-overlap") "Segment Overlap" e.text)
  else if e.is .segmentObjectReaping then some (postSegments409 (problemTypeOf "object-reaping") e.text)
  else none

/-- A panic runs the deferred release only. -/
def postFailed (key : Str) : Err → Tx Response
  | .panic => do
    deferRelease key false
    .fail .panic
  | e => match registerErrorResponse e with
    | some resp => do
      let finalised ← completeWithBody key resp.status resp.body
      deferRelease key finalised
      .ret resp
    | none => do
      let finalised ← released key
      deferRelease key finalised
      .fail e

def postRegistered (key : Str) : Except Err RegisterResult → Tx Response
  | .error e => postFailed key e
  | .ok res => match res.outcome with
    | .outcomeAllAccepted => do
      let finalised ← completeNoBody key 201
      deferRelease key finalised
      .ret .created
    | .outcomePartial | .outcomeAllRejected => do
      let out := Response.bulkFailure (registerFailureToAPI res.failed)
      let finalised ← completed key 200 out.body
      deferRelease key finalised
      .ret out

/-! ## The handler -/

def maxSegmentsBatch : Nat := 1000

structure PostBody where
  segments : Except Err (List Segment)
  hash : Except Err Str

/-- The flow id is `none` if it does not parse, the body if there is none. -/
structure PostRequest where
  flowId : Option Uuid
  body : Option PostBody
  key : Str

structure Post where
  params : RegisterParams
  key : Str
  bodyHash : Str

def checkPost (req : PostRequest) : Except (Except Err Response) Post :=
  match req.flowId with
  | none => .error (.ok (postSegments404 [.text "flow not found"]))
  | some flowId => match req.body with
    | none => .error (.ok (postSegments400 (problemTypeOf "invalid-json") [.text "request body required"]))
    | some body =>
      if req.key = [] then .error (.ok (postSegments400 (problemTypeOf "missing-idempotency-key")
        [.text "X-Idempotency-Key header required"]))
      else match body.segments with
        | .error e => .error (.ok (postSegments400 (problemTypeOf "schema-validation") e.text))
        | .ok segments =>
          if maxSegmentsBatch < segments.length then .error (.ok (postSegments400 (problemTypeOf "batch-too-large")
            [.text "batch exceeds maximum of 1000 segments"]))
          else match body.hash with
            | .error e => .error (.error e)
            | .ok hash => .ok ⟨⟨flowId, segments⟩, req.key, hash⟩

/-- What the environment gives one execution: ids of new rows and the expiry it computes. -/
structure PostEnv where
  nextval : Nat → Nat := id
  expiresAt : Time

section
variable (c : Constraints) (storageId : Str)

def postAcquired (env : PostEnv) (x : Post) (acq : AcquireResult) : Tx Response :=
  match acq.status with
  | .statusConflict =>
    .ret (postSegmentsCachedConflict [.text "idempotency key reused with a different request body"])
  | .statusInFlight => .ret (postSegmentsCachedConflict [.text "idempotency key is already in-flight"])
  | .statusCached => .ret (cachedPostResponse acq.cached)
  | .statusAcquired => do
    let r ← (registerBatch c storageId env.nextval x.params).attempt
    postRegistered x.key r

def postChecked (env : PostEnv) (x : Post) : Tx Response := do
  let acq ← acquire x.key x.bodyHash env.expiresAt
  postAcquired c storageId env x acq

def postFlowSegments (env : PostEnv) (req : PostRequest) : Tx Response :=
  match checkPost req with
  | .error (.ok resp) => .ret resp
  | .error (.error e) => .fail e
  | .ok x => postChecked c storageId env x

end

/-! ## What runs against the key table -/

inductive ServerCall where
  | post (env : PostEnv) (req : PostRequest)
  | prune
  | reapStale (configured : Time)

inductive Reply where
  | response (r : Response)
  | count (n : Nat)
  deriving DecidableEq

def ServerCall.prog (c : Constraints) (storageId : Str) : ServerCall → Tx Reply
  | .post env req => (postFlowSegments c storageId env req).map .response
  | .prune => OpenTams.prune.map .count
  | .reapStale configured => (OpenTams.reapStale (staleThreshold configured)).map .count

end OpenTams
