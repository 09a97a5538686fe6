import OpenTams.Timerange

/-!
# Errors

`internal/apperror`, the sentinel errors of the store and the segment service,
and Go error values: a chain of wrapped messages around a cause. A message is
kept as the pieces that were formatted into it.
-/

namespace OpenTams

abbrev Uuid := BitVec 128

/-! ## Messages -/

inductive SqlError where
  /-- the connection, a cancelled context, a deadlock victim: any failure of a statement as such -/
  | failed
  | uniqueViolation
  | exclusionViolation
  | checkViolation
  | notNullViolation
  | foreignKeyViolation
  /-- a value that does not fit its column -/
  | outOfRange
  /-- `int8range` of a lower bound above the upper bound -/
  | rangeBounds
  /-- a text that is not one of its type -/
  | invalidText
  /-- a parameter that the driver cannot encode for its type -/
  | encode
  /-- a negative `LIMIT` -/
  | negativeLimit
  deriving DecidableEq

/-- What a format verb put into a message: `%d`, `%s`, `%q`, a UUID, the text of a driver error. -/
inductive Piece where
  | text (s : String)
  | int (i : Int)
  | str (s : Str)
  | quoted (s : Str)
  | uuid (u : Uuid)
  | sql (e : SqlError)
  | parse (e : ParseError)
  deriving DecidableEq

abbrev Msg := List Piece

/-! ## apperror -/

inductive ErrorCode where
  | segmentOverlap
  | invalidObjectTimerange
  | invalidTimerange
  | invalidUUID
  | invalidJSON
  | schemaValidation
  | immutableField
  | formatMismatch
  | missingIdempotencyKey
  | storageModeConflict
  | objectIDExists
  | vfrFrameRateConflict
  | batchTooLarge
  | unauthorized
  | forbidden
  | tokenExpired
  | readOnly
  | objectReaping
  | notFound
  | notAcceptable
  | requestTooLarge
  | rateLimited
  | dependencyUnavailable
  deriving DecidableEq

namespace ErrorCode

def slug : ErrorCode → String
  | segmentOverlap => "segment-overlap"
  | invalidObjectTimerange => "invalid-object-timerange"
  | invalidTimerange => "invalid-timerange"
  | invalidUUID => "invalid-uuid"
  | invalidJSON => "invalid-json"
  | schemaValidation => "schema-validation"
  | immutableField => "immutable-field"
  | formatMismatch => "format-mismatch"
  | missingIdempotencyKey => "missing-idempotency-key"
  | storageModeConflict => "storage-mode-conflict"
  | objectIDExists => "object-id-exists"
  | vfrFrameRateConflict => "vfr-frame-rate-conflict"
  | batchTooLarge => "batch-too-large"
  | unauthorized => "unauthorized"
  | forbidden => "forbidden"
  | tokenExpired => "token-expired"
  | readOnly => "read-only"
  | objectReaping => "object-reaping"
  | notFound => "not-found"
  | notAcceptable => "not-acceptable"
  | requestTooLarge => "request-too-large"
  | rateLimited => "rate-limited"
  | dependencyUnavailable => "dependency-unavailable"

def catalogue : ErrorCode → Nat × String
  | segmentOverlap => (422, "Segment Overlap")
  | invalidObjectTimerange => (400, "Invalid Object Timerange")
  | invalidTimerange => (400, "Invalid Timerange")
  | invalidUUID => (400, "Invalid UUID")
  | invalidJSON => (400, "Invalid JSON")
  | schemaValidation => (400, "Schema Validation Failed")
  | immutableField => (400, "Immutable Field")
  | formatMismatch => (400, "Format Mismatch")
  | missingIdempotencyKey => (400, "Missing Idempotency Key")
  | storageModeConflict => (400, "Storage Mode Conflict")
  | objectIDExists => (400, "Object ID Exists")
  | vfrFrameRateConflict => (400, "VFR Frame Rate Conflict")
  | batchTooLarge => (400, "Batch Too Large")
  | unauthorized => (401, "Unauthorized")
  | forbidden => (403, "Forbidden")
  | tokenExpired => (401, "Token Expired")
  | readOnly => (403, "Read Only")
  | objectReaping => (409, "Object Reaping")
  | notFound => (404, "Not Found")
  | notAcceptable => (406, "Not Acceptable")
  | requestTooLarge => (413, "Request Too Large")
  | rateLimited => (429, "Rate Limited")
  | dependencyUnavailable => (503, "Dependency Unavailable")

end ErrorCode

structure AppError where
  code : ErrorCode
  status : Nat
  detail : Msg
  deriving DecidableEq

def AppError.new (code : ErrorCode) (detail : Msg) : AppError := ⟨code, code.catalogue.1, detail⟩

/-! ## Go errors -/

inductive Sentinel where
  | flowNotFound
  | flowReadOnly
  | badInput
  | segmentOverlap
  | segmentObjectReaping
  | controlledStorageNotConfigured
  | invalidCursor
  | serviceFlowNotFound
  | serviceFlowReadOnly
  | serviceInvalidRequest
  deriving DecidableEq

def Sentinel.text : Sentinel → String
  | flowNotFound => "metastore: flow not found"
  | flowReadOnly => "metastore: flow is read-only"
  | badInput => "metastore: invalid input"
  | segmentOverlap => "metastore: batch contains overlap"
  | segmentObjectReaping => "metastore: object is being reaped by GC; retry with fresh object_id"
  | controlledStorageNotConfigured =>
    "metastore: controlled segment registered but InsertBatch.ControlledStorageID is empty"
  | invalidCursor => "metastore: invalid pagination cursor"
  | serviceFlowNotFound => "segment: flow not found"
  | serviceFlowReadOnly => "segment: flow is read-only"
  | serviceInvalidRequest => "segment: invalid request"

/-- An error value; `wrap m e` is `fmt.Errorf` of `m` followed by `%w` for `e`. -/
inductive Err where
  | sql (e : SqlError)
  | parse (e : ParseError)
  | bounds (e : NsError)
  | app (e : AppError)
  | sentinel (s : Sentinel)
  | panic
  | wrap (m : Msg) (e : Err)
  deriving DecidableEq

namespace Err

/-- `errors.Is` with a sentinel. -/
def is : Err → Sentinel → Bool
  | .sentinel s, s' => s = s'
  | .wrap _ e, s' => e.is s'
  | _, _ => false

def asApp : Err → Option AppError
  | .app e => some e
  | .wrap _ e => e.asApp
  | _ => none

/-- `fmt.Errorf` of an error a callee returned; a panic passes by. -/
def within (m : Msg) : Err → Err
  | .panic => .panic
  | e => .wrap m e

def text : Err → Msg
  | .sql e => [.sql e]
  | .parse e => [.parse e]
  | .bounds .emptyRange => [.text "timerange: empty range has no bounds"]
  | .bounds _ => [.text "timerange: bound outside the int64 nanosecond range"]
  | .app e => .text "apperror: " :: .text e.code.slug :: .text ": " :: e.detail
  | .sentinel s => [.text s.text]
  | .panic => []
  | .wrap m e => m ++ e.text

end Err

def notFound (detail : String) : Err := .app (.new .notFound [.text detail])

end OpenTams
