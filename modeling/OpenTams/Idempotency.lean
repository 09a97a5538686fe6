import OpenTams.Store

/-!
# Idempotency keys

`internal/idempotency`: the store of idempotency keys, statement by statement,
and the clamp of the stale threshold in `cmd/opentams/serve.go`. Time is in
microseconds, the resolution of a timestamp column.
-/

namespace OpenTams

open Sql

/-! ## Answers of Acquire -/

inductive AcquireStatus where
  | statusAcquired
  | statusInFlight
  | statusCached
  | statusConflict
  deriving DecidableEq

structure CachedResponse where
  status : Int
  body : Option ResponseBody
  deriving DecidableEq

structure AcquireResult where
  status : AcquireStatus
  cached : Option CachedResponse := none
  deriving DecidableEq

def validateKey (key : Str) : Except Err Unit :=
  if key = [] then .error (.app (.new .schemaValidation [.text "idempotency key must not be empty"]))
  else if 255 < key.length then
    .error (.app (.new .schemaValidation [.text "idempotency key exceeds 255 characters"]))
  else .ok ()

/-! ## Statements -/

def deleteKeys (name : Stmt) (which : Time → KeyRow → Bool) : Tx Nat :=
  .stmt name (.sql .failed)
    (fun now v => { locks := (v.idempotencyKeys.rows.filter (which now)).map (.key ·.key),
                    writes := (v.idempotencyKeys.rows.filter (which now)).map (.delKey ·.key) })
    fun now v => (v.idempotencyKeys.rows.filter (which now)).length

def expiredKey (key : Str) (now : Time) (r : KeyRow) : Bool := r.key = key && r.expiresAt ≤ now

/-- `SELECT … WHERE key = $1 FOR UPDATE` -/
def acquireSelect (key : Str) : Tx (Option KeyRow) :=
  .stmt .acquireSelect (.sql .failed)
    (fun _ v => { locks := lockIf (v.idempotencyKeys.get key).isSome (.key key) })
    fun _ v => v.idempotencyKeys.get key

def acquiredRow (key bodyHash : Str) (expiresAt now : Time) : KeyRow :=
  { key, bodyHash, createdAt := now, expiresAt, acquiredAt := now }

def acquireInsert (key bodyHash : Str) (expiresAt : Time) : Tx Unit :=
  .stmtE .acquireInsert (.sql .failed)
    (fun now v => { locks := [.key key],
                    writes := if (v.idempotencyKeys.get key).isSome then []
                      else [.putKey (acquiredRow key bodyHash expiresAt now)] })
    fun _ v => if (v.idempotencyKeys.get key).isSome then .error (.sql .uniqueViolation) else .ok ()

/-! ## Calls -/

def acquireAnswer (bodyHash : Str) (r : KeyRow) : AcquireResult :=
  if r.bodyHash ≠ bodyHash then { status := .statusConflict }
  else if r.inFlight then { status := .statusInFlight }
  else { status := .statusCached, cached := some ⟨r.responseStatus, r.responseBody⟩ }

def acquireFound (key bodyHash : Str) (expiresAt : Time) : Option KeyRow → Tx AcquireResult
  | none => do
    acquireInsert key bodyHash expiresAt
    .commitThen .acquireCommit (.sql .failed) { status := .statusAcquired }
  | some r => .ret (acquireAnswer bodyHash r)

def acquireBody (key bodyHash : Str) (expiresAt : Time) : Tx AcquireResult := do
  let _ ← deleteKeys .acquireDeleteExpired (expiredKey key)
  let row ← acquireSelect key
  acquireFound key bodyHash expiresAt row

/-- `expiresAt` is the application's clock at the insert plus the TTL. -/
def acquire (key bodyHash : Str) (expiresAt : Time) : Tx AcquireResult :=
  match validateKey key with
  | .error e => .fail e
  | .ok _ => .inTx (.sql .failed) (acquireBody key bodyHash expiresAt)

def completedRow (status : Int) (body : Option ResponseBody) (r : KeyRow) : KeyRow :=
  { r with inFlight := false, responseStatus := status, responseBody := body }

/-- The row is addressed by its key alone. -/
def complete (key : Str) (status : Int) (body : Option ResponseBody) : Tx Unit :=
  match validateKey key with
  | .error e => .fail e
  | .ok _ => .stmt .complete (.sql .failed)
      (fun _ v => match v.idempotencyKeys.get key with
        | none => {}
        | some r => { locks := [.key key], writes := [.putKey (completedRow status body r)] })
      fun _ _ => ()

def release (key : Str) : Tx Unit :=
  match validateKey key with
  | .error e => .fail e
  | .ok _ => do
    let _ ← deleteKeys .release fun _ r => r.key = key
    .ret ()

def prune : Tx Nat := deleteKeys .prune fun now r => r.expiresAt ≤ now

def reapStale (threshold : Time) : Tx Nat :=
  deleteKeys .reapStale fun now r => r.inFlight && r.acquiredAt ≤ now - threshold

/-! ## The stale threshold -/

def defaultWriteTimeout : Time := 60000000

/-- `IDEMPOTENCY_STALE_THRESHOLD` as `serve` passes it on. -/
def staleThreshold (configured : Time) : Time :=
  if configured < defaultWriteTimeout then defaultWriteTimeout else configured

end OpenTams
