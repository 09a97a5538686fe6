import Mathlib.Data.List.Dedup
import OpenTams.Store

/-!
# Segment writes

`internal/metastore/segments.go`: `InsertSegments` and
`DeleteSegmentsByTimerange`, statement by statement. The ids a `BIGSERIAL`
column hands out are an argument; a repeated id is a unique violation.
-/

namespace OpenTams

open Sql

/-! ## Values -/

structure Segment where
  flowId : Uuid := 0
  objectId : Str
  timerange : TimeRange
  tsOffset : Option Timestamp := none
  objectTimerange : Option TimeRange := none
  lastDuration : Option Timestamp := none
  keyFrameCount : Option Int64 := none
  getUrls : List GetURL := []
  timerangeRaw : Str
  tsOffsetRaw : Str := []
  objectTimerangeRaw : Str := []
  lastDurationRaw : Str := []
  sampleOffset : Option Int64 := none
  sampleCount : Option Int64 := none
  deriving DecidableEq

structure InsertBatch where
  flowId : Uuid
  segments : List Segment
  controlledStorageId : Str
  deriving DecidableEq

structure RejectReason where
  type : Msg
  detail : Msg
  deriving DecidableEq

structure InsertResult where
  acceptedIndices : List Nat := []
  rejectedIndices : List Nat := []
  rejectReasons : List RejectReason := []
  deriving DecidableEq

structure DeleteQuery where
  flowId : Uuid
  timerange : TimeRange
  objectId : Option Str := none
  deriving DecidableEq

structure DeleteResult where
  deletedCount : Nat := 0
  deriving DecidableEq

structure FlowGuard where
  flowId : Uuid
  present : Bool
  readOnly : Bool := false
  deriving DecidableEq

/-- The constraints of `segments` that can be left out of the model. -/
structure Constraints where
  exclusion : Bool := true
  check : Bool := true

/-! ## Bounds -/

def lowerParam (b : NsBounds) : Option Int64 := if b.lowerUnbounded then none else some b.lower

def upperParam (b : NsBounds) : Option Int64 := if b.upperUnbounded then none else some b.upper

def boundsOverlap (a b : NsBounds) : Bool :=
  (a.lowerUnbounded || b.upperUnbounded || a.lower < b.upper) &&
    (b.lowerUnbounded || a.upperUnbounded || b.lower < a.upper)

def segmentBounds (i : Nat) : List Segment → Except Err (List NsBounds)
  | [] => .ok []
  | seg :: segs =>
    if seg.timerangeRaw = [] then
      .error (.wrap [.text "metastore: InsertSegments: segment ", .int i, .text " has no client timerange string: "]
        (.sentinel .badInput))
    else match seg.timerange.nsBounds with
      | .error e =>
        .error (.wrap [.text "metastore: InsertSegments: segment ", .int i, .text " (", .str seg.timerangeRaw,
          .text "): "] (.bounds e))
      | .ok b => match segmentBounds (i + 1) segs with
        | .error e => .error e
        | .ok bs => .ok (b :: bs)

def findOverlap (i : Nat) : List NsBounds → Option (Nat × Nat)
  | [] => none
  | b :: bs => match bs.findIdx? (boundsOverlap b) with
    | some k => some (i, i + 1 + k)
    | none => findOverlap (i + 1) bs

def int8rangeNonempty : Option Int64 → Option Int64 → Bool
  | some lo, some hi => lo < hi
  | _, _ => true

def int8rangeInvalid : Option Int64 → Option Int64 → Bool
  | some lo, some hi => hi < lo
  | _, _ => false

/-- `int8range(lower_ns, upper_ns) && int8range(lo, hi)` -/
def rowOverlaps (lo hi : Option Int64) (r : SegmentRow) : Bool :=
  int8rangeNonempty lo hi && r.lowerNs < r.upperNs && hi.all (r.lowerNs < ·) && lo.all (· < r.upperNs)

/-- `queryBounds`: the parameters of a query range; `none` when it matches nothing. -/
def queryBounds (tr : TimeRange) : Except NsError (Option (Option Int64 × Option Int64)) :=
  if tr.isEmpty then .ok none
  else match tr.nsBounds with
    | .error e => .error e
    | .ok b => .ok (some (lowerParam b, upperParam b))

/-! ## Containment of object timeranges -/

def compareTS (a b : Timestamp) : Int :=
  if a.seconds < b.seconds then -1
  else if b.seconds < a.seconds then 1
  else if a.nanoseconds < b.nanoseconds then -1
  else if b.nanoseconds < a.nanoseconds then 1
  else 0

def innerStartLess (outer inner : TimeRange) : Option Bool :=
  match inner.start, outer.start with
  | some i, some o =>
    if compareTS i o < 0 then some true
    else if 0 < compareTS i o then some false
    else some (outer.startType = .exclusive && inner.startType = .inclusive)
  | _, _ => none

def innerEndGreater (outer inner : TimeRange) : Option Bool :=
  match inner.endTs, outer.endTs with
  | some i, some o =>
    if 0 < compareTS i o then some true
    else if compareTS i o < 0 then some false
    else some (outer.endType = .exclusive && inner.endType = .inclusive)
  | _, _ => none

/-- `none` is the dereference of a nil bound. -/
def rangeContains (outer inner : TimeRange) : Option Bool :=
  if outer.isEternity then some true
  else if inner.isEmpty then some true
  else if inner.isEternity then some false
  else
    let lower : Option Bool :=
      if outer.startType = .unbounded then some true
      else if inner.startType = .unbounded then some false
      else (innerStartLess outer inner).map not
    match lower with
    | none => none
    | some false => some false
    | some true =>
      if outer.endType = .unbounded then some true
      else if inner.endType = .unbounded then some false
      else (innerEndGreater outer inner).map not

/-! ## Statements shared by the segment writers -/

/-- `SELECT read_only FROM flows WHERE id = $1 FOR UPDATE` -/
def getFlowForSegmentWrite (flowId : Uuid) : Tx FlowGuard :=
  .stmt .getFlowForSegmentWrite (failed "metastore: GetFlowForSegmentWrite: ")
    (fun _ v => { locks := lockIf (v.flows.get flowId).isSome (.flow flowId) })
    fun _ v => match v.flows.get flowId with
      | none => { flowId, present := false }
      | some r => { flowId, present := true, readOnly := r.readOnly }

def checkGuard (op : String) (g : FlowGuard) : Tx Unit :=
  if !g.present then
    .fail (.wrap [.text "metastore: ", .text op, .text ": flow ", .uuid g.flowId, .text ": "] (.sentinel .flowNotFound))
  else if g.readOnly then
    .fail (.wrap [.text "metastore: ", .text op, .text ": flow ", .uuid g.flowId, .text ": "] (.sentinel .flowReadOnly))
  else .ret ()

def subRefCount (name : Stmt) (m : Msg) (n : Nat) (o : Str) : Tx Unit :=
  .stmtE name (.wrap m (.sql .failed))
    (fun _ v => match v.objects.get o with
      | none => {}
      | some r => { locks := [.object o],
                    writes := if fitsInt4 (r.refCount - n)
                      then [.putObject { r with refCount := r.refCount - n }] else [] })
    fun _ v => match v.objects.get o with
      | none => .ok ()
      | some r => if fitsInt4 (r.refCount - n) then .ok () else .error (.wrap m (.sql .outOfRange))

def joinSpan (first last : TimeRange) : TimeRange := ⟨first.start, first.startType, last.endTs, last.endType⟩

/-- What `flowSpan` makes of the strings of the first and the last segment. -/
def renderSpan : Option Str → Option Str → Except Err (Option Str)
  | some firstRaw, some lastRaw => match parse firstRaw with
    | .error e => .error (.wrap [.text "flow span: parse ", .quoted firstRaw, .text ": "] (.parse e))
    | .ok first => match parse lastRaw with
      | .error e => .error (.wrap [.text "flow span: parse ", .quoted lastRaw, .text ": "] (.parse e))
      | .ok last => match (joinSpan first last).string with
        | none => .error .panic
        | some span => .ok (some span)
  | _, _ => .ok none

/-- The two sub-selects of `flowSpan`, ordered by `lower_ns`, ascending and descending. -/
def spanRows (v : DB) (flowId : Uuid) : Option Str × Option Str :=
  ((firstBy (fun a b => a.lowerNs < b.lowerNs) (v.segmentsOf flowId)).map (·.timerange),
    (firstBy (fun a b => b.lowerNs < a.lowerNs) (v.segmentsOf flowId)).map (·.timerange))

def flowSpan (m : Msg) (flowId : Uuid) : Tx (Option Str) :=
  .stmtE .flowSpan (.wrap m (failed "flow span: ")) (fun _ _ => {})
    fun _ v => (renderSpan (spanRows v flowId).1 (spanRows v flowId).2).mapError (Err.within m)

def setFlowSpan (m : Msg) (flowId : Uuid) (span : Option Str) : Tx Unit :=
  .stmt .refreshFlow (.wrap m (.sql .failed))
    (fun now v => match v.flows.get flowId with
      | none => {}
      | some r => { locks := [.flow flowId],
                    writes := [.putFlow { r with segmentsUpdated := some now, timerange := span }] })
    fun _ _ => ()

def refreshFlowTimerange (m : Msg) (flowId : Uuid) : Tx Unit := do
  let span ← flowSpan m flowId
  setFlowSpan m flowId span

/-! ## InsertSegments -/

def overlapProbe (flowId : Uuid) (b : NsBounds) (v : DB) : Except Err (Option Str) :=
  if int8rangeInvalid (lowerParam b) (upperParam b) || (v.segmentsOf flowId).any (fun r => r.upperNs < r.lowerNs) then
    .error (.wrap [.text "metastore: InsertSegments: overlap check: "] (.sql .rangeBounds))
  else .ok (((v.segmentsOf flowId).find? (rowOverlaps (lowerParam b) (upperParam b))).map (·.timerange))

def overlapCheck (flowId : Uuid) (i : Nat) (x : Segment × NsBounds) : Tx Unit :=
  .stmtE .overlapCheck (failed "metastore: InsertSegments: overlap check: ") (fun _ _ => {})
    fun _ v => match overlapProbe flowId x.2 v with
      | .error e => .error e
      | .ok none => .ok ()
      | .ok (some existing) =>
        .error (.wrap [.text "metastore: InsertSegments: segment ", .int i, .text " (", .str x.1.timerangeRaw,
          .text ") overlaps existing ", .str existing, .text " on flow ", .uuid flowId, .text ": "]
          (.sentinel .segmentOverlap))

/-- The object of a segment: controlled when it has no `get_urls`, and then with a storage id. -/
def objectStorage (batch : InsertBatch) (seg : Segment) : Except Err (Option Str) :=
  if seg.getUrls.length = 0 then
    if batch.controlledStorageId = [] then
      .error (.wrap [.text "metastore: InsertSegments: object ", .quoted seg.objectId, .text ": "]
        (.sentinel .controlledStorageNotConfigured))
    else .ok (some batch.controlledStorageId)
  else .ok none

/-- `INSERT INTO objects … ON CONFLICT (id) DO UPDATE SET ref_count = objects.ref_count + 1 WHERE objects.reaping = false`:
the row left by the upsert, or the error it answers with. -/
def upsertedObject (storageId : Option Str) (o : Str) (v : DB) : Except Err ObjectRow :=
  match v.objects.get o with
  | none => .ok { id := o, refCount := 1, storageId, reaping := false }
  | some r =>
    if r.reaping then
      .error (.wrap [.text "metastore: InsertSegments: object ", .quoted o, .text " is being reaped: "]
        (.sentinel .segmentObjectReaping))
    else if fitsInt4 (r.refCount + 1) then .ok { r with refCount := r.refCount + 1 }
    else .error (.wrap [.text "metastore: InsertSegments: object upsert (", .quoted o, .text "): "] (.sql .outOfRange))

def upsertObject (storageId : Option Str) (o : Str) : Tx Unit :=
  .stmtE .objectUpsert
    (.wrap [.text "metastore: InsertSegments: object upsert (", .quoted o, .text "): "] (.sql .failed))
    (fun _ v => { locks := [.object o],
                  writes := match upsertedObject storageId o v with
                    | .ok r => [.putObject r]
                    | .error _ => [] })
    fun _ v => (upsertedObject storageId o v).map fun _ => ()

def registerObject (batch : InsertBatch) (_ : Nat) (seg : Segment) : Tx Unit :=
  match objectStorage batch seg with
  | .error e => .fail e
  | .ok storageId => upsertObject storageId seg.objectId

/-- The earliest stored `object_timerange` of the object. -/
def storedObjectTimerange (v : DB) (o : Str) : Option Str :=
  (firstBy (fun a b => a.createdAt < b.createdAt) ((v.segmentsOn o).filter (·.objectTimerange.isSome))).bind
    (·.objectTimerange)

def objectTimerangeViolation (i : Nat) (seg : Segment) (tr : TimeRange) : Option Str → Option Err
  | none => none
  | some stored => match parse stored with
    | .error e =>
      some (.wrap [.text "metastore: InsertSegments: parse stored object_timerange ", .quoted stored, .text ": "]
        (.parse e))
    | .ok outer => match rangeContains outer tr with
      | none => some .panic
      | some true => none
      | some false =>
        some (.wrap [.text "metastore: InsertSegments: "] (.app (.new .invalidObjectTimerange
          [.text "segment ", .int i, .text " (", .str seg.timerangeRaw, .text "): object_timerange ",
            .str seg.objectTimerangeRaw, .text " extends beyond stored ", .str stored, .text " for object ",
            .quoted seg.objectId])))

def checkObjectTimerange (i : Nat) (seg : Segment) : Tx Unit :=
  match seg.objectTimerange with
  | none => .ret ()
  | some tr =>
    .stmtE .objectTimerangeLookup
      (.wrap [.text "metastore: InsertSegments: object_timerange lookup (", .quoted seg.objectId, .text "): "]
        (.sql .failed))
      (fun _ _ => {})
      fun _ v => match objectTimerangeViolation i seg tr (storedObjectTimerange v seg.objectId) with
        | none => .ok ()
        | some e => .error e

def nullIfEmpty (s : Str) : Option Str := if s = [] then none else some s

def marshalGetURLs (g : List GetURL) : Option (List GetURL) := if g = [] then none else some g

def segmentRow (id : Nat) (flowId : Uuid) (seg : Segment) (lower upper : Int64) (now : Time) : SegmentRow where
  id := id
  flowId := flowId
  objectId := seg.objectId
  timerange := seg.timerangeRaw
  lowerNs := lower
  upperNs := upper
  tsOffset := seg.tsOffsetRaw
  objectTimerange := nullIfEmpty seg.objectTimerangeRaw
  lastDuration := nullIfEmpty seg.lastDurationRaw
  keyFrameCount := seg.keyFrameCount
  sampleOffset := seg.sampleOffset
  sampleCount := seg.sampleCount
  getUrls := marshalGetURLs seg.getUrls
  createdAt := now

/-- The constraints of `segments`, in the order in which they are checked. -/
def constraintViolation (c : Constraints) (v : DB) (r : SegmentRow) : Option SqlError :=
  if c.check && !(r.lowerNs < r.upperNs) then some .checkViolation
  else if (v.segments.get r.id).isSome then some .uniqueViolation
  else if c.exclusion && r.upperNs < r.lowerNs then some .rangeBounds
  else if c.exclusion && (v.segmentsOf r.flowId).any (rowOverlaps (some r.lowerNs) (some r.upperNs)) then
    some .exclusionViolation
  else if (v.flows.get r.flowId).isNone || (v.objects.get r.objectId).isNone then some .foreignKeyViolation
  else none

/-- The row an `INSERT INTO segments` adds, or the error it raises. -/
def insertedRow (c : Constraints) (id : Nat) (flowId : Uuid) (x : Segment × NsBounds) (now : Time) (v : DB) :
    Except SqlError SegmentRow :=
  -- the driver encodes the parameters before the database sees the statement
  if !(x.1.keyFrameCount.all fun k => fitsInt4 k.toInt) then .error .encode
  else match lowerParam x.2, upperParam x.2 with
    | some lower, some upper =>
      match constraintViolation c v (segmentRow id flowId x.1 lower upper now) with
      | some e => .error e
      | none => .ok (segmentRow id flowId x.1 lower upper now)
    | _, _ => .error .notNullViolation

def insertError (i : Nat) (seg : Segment) : SqlError → Err
  | .exclusionViolation =>
    .wrap [.text "metastore: InsertSegments: segment ", .int i, .text " (", .str seg.timerangeRaw,
      .text ") overlaps an existing row (race): "] (.sentinel .segmentOverlap)
  | e => .wrap [.text "metastore: InsertSegments: insert seg ", .int i, .text ": "] (.sql e)

def insertSegment (c : Constraints) (nextval : Nat → Nat) (flowId : Uuid) (i : Nat) (x : Segment × NsBounds) :
    Tx Unit :=
  .stmtE .insertSegment (insertError i x.1 .failed)
    (fun now v => { locks := [.segment (nextval i)],
                    writes := match insertedRow c (nextval i) flowId x now v with
                      | .ok r => [.putSegment r]
                      | .error _ => [] })
    fun now v => match insertedRow c (nextval i) flowId x now v with
      | .ok _ => .ok ()
      | .error e => .error (insertError i x.1 e)

def insertBody (c : Constraints) (nextval : Nat → Nat) (batch : InsertBatch) (bounds : List NsBounds) :
    Tx InsertResult := do
  let guard ← getFlowForSegmentWrite batch.flowId
  checkGuard "InsertSegments" guard
  .forEach (overlapCheck batch.flowId) 0 (batch.segments.zip bounds)
  .forEach (registerObject batch) 0 batch.segments
  .forEach checkObjectTimerange 0 batch.segments
  .forEach (insertSegment c nextval batch.flowId) 0 (batch.segments.zip bounds)
  refreshFlowTimerange [.text "metastore: InsertSegments: refresh flow: "] batch.flowId
  .commitThen .insertCommit (failed "metastore: InsertSegments: commit: ")
    { acceptedIndices := List.range batch.segments.length }

def checkBatch (batch : InsertBatch) : Except Err (List NsBounds) :=
  match segmentBounds 0 batch.segments with
  | .error e => .error e
  | .ok bounds => match findOverlap 0 bounds with
    | none => .ok bounds
    | some (i, j) =>
      .error (.wrap [.text "metastore: InsertSegments: segments ", .int i, .text " (", .str (raw i), .text ") and ",
        .int j, .text " (", .str (raw j), .text ") overlap: "] (.sentinel .segmentOverlap))
where
  raw (i : Nat) : Str := (batch.segments[i]?.map (·.timerangeRaw)).getD []

def insertSegments (c : Constraints) (nextval : Nat → Nat) (batch : InsertBatch) : Tx InsertResult :=
  match checkBatch batch with
  | .error e => .fail e
  | .ok bounds => .inTx (failed "metastore: InsertSegments: begin: ") (insertBody c nextval batch bounds)

/-! ## DeleteSegmentsByTimerange -/

/-- The `WHERE` clause of the delete: the row lies within the query's bounds. -/
def deleteMatches (q : DeleteQuery) (lo hi : Option Int64) (r : SegmentRow) : Bool :=
  lo.all (· ≤ r.lowerNs) && hi.all (r.upperNs ≤ ·) && q.objectId.all (r.objectId = ·)

def groupCounts (rows : List SegmentRow) : List (Str × Nat) :=
  (rows.map (·.objectId)).dedup.map fun o => (o, (rows.map (·.objectId)).count o)

def deleteRows (q : DeleteQuery) (lo hi : Option Int64) : Tx (List (Str × Nat)) :=
  .stmt .deleteSegments (failed "metastore: DeleteSegmentsByTimerange: delete: ")
    (fun _ v =>
      let rows := (v.segmentsOf q.flowId).filter (deleteMatches q lo hi)
      { locks := rows.map (.segment ·.id), writes := rows.map (.delSegment ·.id) })
    fun _ v => groupCounts ((v.segmentsOf q.flowId).filter (deleteMatches q lo hi))

def decrementRefCount (_ : Nat) (x : Str × Nat) : Tx Unit :=
  subRefCount .decrementRefCount [.text "metastore: DeleteSegmentsByTimerange: decrement ref_count: "] x.2 x.1

def deleteWithin (q : DeleteQuery) (lo hi : Option Int64) : Tx DeleteResult := do
  let perObject ← deleteRows q lo hi
  .forEach decrementRefCount 0 perObject
  refreshFlowTimerange [.text "metastore: DeleteSegmentsByTimerange: refresh flow: "] q.flowId
  .commitThen .deleteCommit (failed "metastore: DeleteSegmentsByTimerange: commit: ")
    { deletedCount := (perObject.map (·.2)).sum }

/-- An empty query range returns without a commit. -/
def deleteQueried (q : DeleteQuery) : Tx DeleteResult :=
  match queryBounds q.timerange with
  | .error e => .fail (.wrap [.text "metastore: DeleteSegmentsByTimerange: timerange: "] (.bounds e))
  | .ok none => .ret {}
  | .ok (some (lo, hi)) => deleteWithin q lo hi

def deleteBody (q : DeleteQuery) : Tx DeleteResult := do
  let guard ← getFlowForSegmentWrite q.flowId
  checkGuard "DeleteSegmentsByTimerange" guard
  deleteQueried q

def deleteSegmentsByTimerange (q : DeleteQuery) : Tx DeleteResult :=
  .inTx (failed "metastore: DeleteSegmentsByTimerange: begin: ") (deleteBody q)

end OpenTams
