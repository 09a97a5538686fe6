import OpenTams.Flows

/-!
# The segment service

`internal/service/segment`: `RegisterBatch` screens each segment of a request,
hands the survivors to the store in one batch, and assembles the outcome from
what the store accepted. Metrics and logs are left out.
-/

namespace OpenTams

open Sql

structure RegisterParams where
  flowId : Uuid
  segments : List Segment
  deriving DecidableEq

inductive RegisterOutcome where
  | outcomeAllAccepted
  | outcomePartial
  | outcomeAllRejected
  deriving DecidableEq

structure FailedSegment where
  segment : Segment
  reason : Msg
  type : Msg
  title : String
  status : Nat
  deriving DecidableEq

structure RegisterResult where
  outcome : RegisterOutcome
  accepted : List Segment
  failed : List FailedSegment
  deriving DecidableEq

def problemType (code : ErrorCode) : Msg := [.text "https://github.com/amagioss/opentams/problems/", .text code.slug]

/-! ## Screening -/

def segmentTimerangeViolation (tr : TimeRange) : Option String :=
  if tr.isEmpty then some "segment timerange must not be empty"
  else if tr.start.isNone || tr.endTs.isNone then some "segment timerange must have a start and an end"
  else if tr.startType ≠ .inclusive then some "segment timerange must have an inclusive start"
  else match tr.nsBounds with
    | .error _ => some "segment timerange bounds must fit in int64 nanoseconds"
    | .ok _ => none

def stampURLs (seg : Segment) : Segment :=
  { seg with getUrls := seg.getUrls.map fun u => { u with controlled := false } }

def rejectSegment (seg : Segment) : Option FailedSegment :=
  if seg.objectId = [] then
    some { segment := seg, reason := [.text "object_id is required"], type := problemType .schemaValidation,
           title := "Schema Validation Failed", status := 400 }
  else match segmentTimerangeViolation seg.timerange with
    | some reason =>
      some { segment := seg, reason := [.text reason], type := problemType .invalidTimerange,
             title := ErrorCode.invalidTimerange.catalogue.2, status := ErrorCode.invalidTimerange.catalogue.1 }
    | none => none

structure Screened where
  failed : List FailedSegment := []
  survivors : List Segment := []
  survivorIdx : List Nat := []

def screen (i : Nat) : List Segment → Screened
  | [] => {}
  | seg :: segs =>
    let rest := screen (i + 1) segs
    match rejectSegment (stampURLs seg) with
    | some f => { rest with failed := f :: rest.failed }
    | none => { rest with survivors := stampURLs seg :: rest.survivors, survivorIdx := i :: rest.survivorIdx }

/-! ## The outcome -/

/-- The reason the store gave for survivor `k`; the last one given counts. -/
def rejectReason (r : InsertResult) (k : Nat) : RejectReason :=
  r.rejectedIndices.zipIdx.foldl
    (fun acc (idx, ri) =>
      match r.rejectReasons[ri]? with
      | some x => if idx = k then ⟨if x.type ≠ [] then x.type else acc.type, x.detail⟩ else acc
      | none => acc)
    ⟨problemType .schemaValidation, [.text "rejected by metastore"]⟩

/-- A survivor the store did not accept. The source looks its segment up among the
survivors with the position it had in the request; `none` is the index out of range. -/
def storeRejected (survivors : List Segment) (r : InsertResult) (k localIdx : Nat) : Option FailedSegment :=
  (survivors[localIdx]?).map fun seg =>
    { segment := seg, reason := (rejectReason r k).detail, type := (rejectReason r k).type,
      title := "Schema Validation Failed", status := 400 }

def registerOutcome (accepted : List Segment) (failed : List FailedSegment) : RegisterOutcome :=
  if failed.length = 0 && 0 < accepted.length then .outcomeAllAccepted
  else if accepted.length = 0 && 0 < failed.length then .outcomeAllRejected
  else .outcomePartial

/-- `none` is an index out of range. -/
def assemble (x : Screened) (r : InsertResult) : Option RegisterResult := do
  let accepted ← r.acceptedIndices.mapM fun i => x.survivors[i]?
  let rejected ← (x.survivorIdx.zipIdx.filter fun p => p.2 ∉ r.acceptedIndices).mapM
    fun p => storeRejected x.survivors r p.2 p.1
  let failed := x.failed ++ rejected
  return ⟨registerOutcome accepted failed, accepted, failed⟩

def registerError (e : Err) : Err :=
  if e.is .flowNotFound then .wrap [.text "segment: register: "] (.sentinel .serviceFlowNotFound)
  else if e.is .flowReadOnly then .wrap [.text "segment: register: "] (.sentinel .serviceFlowReadOnly)
  else if e.is .segmentOverlap || e.is .segmentObjectReaping then e
  else e.within [.text "segment: register: "]

def finishRegister (x : Screened) : Except Err InsertResult → Tx RegisterResult
  | .error e => .fail (registerError e)
  | .ok r => match assemble x r with
    | none => .fail .panic
    | some res => .ret res

def registerScreened (c : Constraints) (storageId : Str) (nextval : Nat → Nat) (flowId : Uuid) (x : Screened) :
    Tx RegisterResult :=
  if x.survivors.length = 0 then .ret ⟨.outcomeAllRejected, [], x.failed⟩
  else do
    let r ← (insertSegments c nextval ⟨flowId, x.survivors, storageId⟩).attempt
    finishRegister x r

def registerBatch (c : Constraints) (storageId : Str) (nextval : Nat → Nat) (req : RegisterParams) :
    Tx RegisterResult :=
  if req.segments.length = 0 then
    .fail (.wrap [.text "segment: register: empty batch: "] (.sentinel .serviceInvalidRequest))
  else registerScreened c storageId nextval req.flowId (screen 0 req.segments)

end OpenTams
