import Mathlib.Data.Prod.Lex
import OpenTams.Cursor
import OpenTams.Flows
import OpenTams.Keyset

/-!
# Listings

`ListSegments` of `internal/metastore/segments.go` and `ListFlows` of
`internal/metastore/flows.go`: the `WHERE` clause that the parameters build, the
order, one row more than the page holds, and the cursor of the next page.
The parameters that a listing does not read are left out.
-/

namespace OpenTams

open Sql

/-! ## ListSegments -/

structure ListQuery where
  flowId : Uuid
  timerange : Option TimeRange := none
  objectId : Option Str := none
  reverseOrder : Bool := false
  page : Str := []
  limit : Int64

structure SegmentPage where
  items : List Segment := []
  nextCursor : Str := []
  effectiveLimit : Nat
  timerange : TimeRange := ⟨none, .inclusive, none, .inclusive⟩
  count : Nat := 0
  deriving DecidableEq

structure SegmentItem where
  seg : Segment
  lowerNs : Int64
  upperNs : Int64
  segId : Int64
  deriving DecidableEq

def hardLimit : Int64 := 1000

def listLimit (limit : Int64) : Nat :=
  if limit ≤ 0 || hardLimit < limit then hardLimit.toInt.toNat else limit.toInt.toNat

/-- `SELECT read_only FROM flows WHERE id = $1` -/
def getFlowForSegmentRead (flowId : Uuid) : Tx FlowGuard :=
  .query .getFlowForSegmentRead (failed "metastore: GetFlowForSegmentRead: ")
    fun v => match v.flows.get flowId with
      | none => { flowId, present := false }
      | some r => { flowId, present := true, readOnly := r.readOnly }

/-- `($hi IS NULL OR lower_ns < $hi) AND ($lo IS NULL OR upper_ns > $lo)` -/
def overlapCond (lo hi : Option Int64) (r : SegmentRow) : Bool := hi.all (r.lowerNs < ·) && lo.all (· < r.upperNs)

def SegmentRow.key (r : SegmentRow) : ℤ ×ₗ ℤ := toLex (r.lowerNs.toInt, (r.id : ℤ))

def listCond (q : ListQuery) (bounds : Option (Option Int64 × Option Int64)) (r : SegmentRow) : Bool :=
  bounds.all (fun b => overlapCond b.1 b.2 r) && q.objectId.all (r.objectId = ·)

def listRows (q : ListQuery) (bounds : Option (Option Int64 × Option Int64)) (cursor : Option (Int64 × Int64))
    (v : DB) : List SegmentRow :=
  (rowsAfter SegmentRow.key q.reverseOrder (listCond q bounds) (cursor.map fun c => toLex (c.1.toInt, c.2.toInt))
    (v.segmentsOf q.flowId)).take (listLimit q.limit + 1)

def scanText {α : Type} (what : String) (f : Str → Except ParseError α) (s : Str) : Except Err α :=
  (f s).mapError fun e =>
    .wrap [.text "metastore: ListSegments: parse ", .text what, .text " ", .quoted s, .text ": "] (.parse e)

def scanOptional {α : Type} (what : String) (f : Str → Except ParseError α) : Option Str → Except Err (Option α)
  | none => .ok none
  | some s => (scanText what f s).map some

def scanSegment (r : SegmentRow) : Except Err SegmentItem := do
  let tr ← scanText "timerange" parse r.timerange
  let tsOffset ← scanOptional "ts_offset" parseTimestamp (nullIfEmpty r.tsOffset)
  let objectTimerange ← scanOptional "object_timerange" parse r.objectTimerange
  let lastDuration ← scanOptional "last_duration" parseTimestamp r.lastDuration
  .ok {
    seg := {
      flowId := r.flowId
      objectId := r.objectId
      timerange := tr
      tsOffset := tsOffset
      objectTimerange := objectTimerange
      lastDuration := lastDuration
      keyFrameCount := r.keyFrameCount
      getUrls := r.getUrls.getD []
      timerangeRaw := r.timerange
      tsOffsetRaw := r.tsOffset
      objectTimerangeRaw := r.objectTimerange.getD []
      lastDurationRaw := r.lastDuration.getD []
      sampleOffset := r.sampleOffset
      sampleCount := r.sampleCount }
    lowerNs := r.lowerNs
    upperNs := r.upperNs
    segId := Int64.ofNat r.id }

def pageSpan : List SegmentItem → TimeRange
  | [] => ⟨none, .inclusive, none, .inclusive⟩
  | x :: xs =>
    let ends := xs.foldl (fun e it =>
      (if it.lowerNs < e.1.lowerNs then it else e.1, if e.2.upperNs < it.upperNs then it else e.2)) (x, x)
    joinSpan ends.1.seg.timerange ends.2.seg.timerange

def segmentPage (limit : Nat) (items : List SegmentItem) : SegmentPage :=
  let cut := cutPage limit items
  { items := cut.1.map (·.seg)
    nextCursor := match cut.2 with
      | none => []
      | some last => encodeSegCursor last.lowerNs last.segId
    effectiveLimit := limit
    timerange := pageSpan cut.1
    count := cut.1.length }

def fetchSegments (q : ListQuery) (bounds : Option (Option Int64 × Option Int64)) (cursor : Option (Int64 × Int64)) :
    Tx SegmentPage :=
  .stmtE .listSegments (failed "metastore: ListSegments: query: ") (fun _ _ => {})
    fun _ v => ((listRows q bounds cursor v).mapM scanSegment).map (segmentPage (listLimit q.limit))

def listFiltered (R : JsonReader) (q : ListQuery) (bounds : Option (Option Int64 × Option Int64)) : Tx SegmentPage :=
  if q.page = [] then fetchSegments q bounds none
  else match decodeSegCursor R q.page with
    | none => .fail (.wrap [.text "metastore: ListSegments: "] (.sentinel .invalidCursor))
    | some c => fetchSegments q bounds (some c)

def listSegments (R : JsonReader) (q : ListQuery) : Tx SegmentPage := do
  let guard ← getFlowForSegmentRead q.flowId
  if !guard.present then
    .fail (.wrap [.text "metastore: ListSegments: flow ", .uuid q.flowId, .text ": "] (.sentinel .flowNotFound))
  else match q.timerange with
    | none => listFiltered R q none
    | some tr => match queryBounds tr with
      | .error e => .fail (.wrap [.text "metastore: ListSegments: timerange: "] (.bounds e))
      | .ok none => .ret { effectiveLimit := listLimit q.limit }
      | .ok (some b) => listFiltered R q (some b)

/-! ## ListFlows -/

/-- The maps of tag filters are lists of their entries. -/
structure ListFlowsParams where
  sourceId : Option Uuid := none
  format : Option Str := none
  label : Option Str := none
  codec : Option Str := none
  frameWidth : Option Int64 := none
  frameHeight : Option Int64 := none
  timerange : Option TimeRange := none
  tagExists : List Str := []
  tagValues : List (Str × Str) := []
  limit : Int64
  pageFrom : Option Str := none

structure ListedFlow where
  row : FlowRow
  tags : List (Str × Json)
  deriving DecidableEq

structure FlowPage where
  items : List ListedFlow
  nextCursor : Option Str := none
  deriving DecidableEq

/-- What PostgreSQL makes of JSON: `->>`, the cast of a text to `int`, and the input of a `jsonb`. -/
structure JsonFns where
  field : Json → Str → Option Str
  toInt : Str → Except SqlError Int
  jsonb : Str → Option Json

def FlowRow.key (r : FlowRow) : ℤ ×ₗ ℕ := toLex (r.created, r.id.toNat)

/-- Conditions joined by `AND`; one that is `NULL` is not true. -/
def allOf : List (Except SqlError Bool) → Except SqlError Bool
  | [] => .ok true
  | c :: cs => match c with
    | .ok true => allOf cs
    | .ok false => .ok false
    | .error e => .error e

/-- `(essence_parameters->>name)::int = value` -/
def frameCond (J : JsonFns) (name : String) (value : Int64) (r : FlowRow) : Except SqlError Bool :=
  match r.essenceParameters.bind (J.field · (lit name)) with
  | none => .ok false
  | some text => (J.toInt text).map (· = value.toInt)

/-- The condition of a query range on the flow's segments; `none` is `NOT EXISTS`. -/
def segmentsCond (bounds : Option (Option Int64 × Option Int64)) (v : DB) (r : FlowRow) : Bool :=
  match bounds with
  | none => (v.segmentsOf r.id).isEmpty
  | some b => (v.segmentsOf r.id).any (overlapCond b.1 b.2)

def columnConds (p : ListFlowsParams) (r : FlowRow) : List (Except SqlError Bool) :=
  p.sourceId.toList.map (fun x => .ok (r.sourceId = x)) ++ p.format.toList.map (fun x => .ok (r.format = x)) ++
    p.label.toList.map (fun x => .ok (r.label = some x)) ++ p.codec.toList.map fun x => .ok (r.codec = some x)

def flowConds (J : JsonFns) (p : ListFlowsParams) (bounds : Option (Option (Option Int64 × Option Int64))) (v : DB)
    (r : FlowRow) : List (Except SqlError Bool) :=
  columnConds p r ++
  p.frameWidth.toList.map (fun x => frameCond J "frame_width" x r) ++
  p.frameHeight.toList.map (fun x => frameCond J "frame_height" x r) ++
  (bounds.toList.map (fun b => .ok (segmentsCond b v r)) ++
  p.tagExists.map (fun name => .ok ((v.tagsOf r.id).any (·.name = name))) ++
  p.tagValues.map fun x => .ok ((v.tagsOf r.id).any fun t => t.name = x.1 && J.jsonb x.2 = some t.value))

/-- The rows for which the condition is true; a condition that fails on one row fails the query. -/
def whereRows {ρ : Type} (cond : ρ → Except SqlError Bool) : List ρ → Except SqlError (List ρ)
  | [] => .ok []
  | r :: rs => match cond r with
    | .error e => .error e
    | .ok b => (whereRows cond rs).map fun l => if b then r :: l else l

def bindable (J : JsonFns) (p : ListFlowsParams) : Except SqlError Unit :=
  if !(p.frameWidth.all fun x => fitsInt4 x.toInt) || !(p.frameHeight.all fun x => fitsInt4 x.toInt) then
    .error .encode
  else if !(p.tagValues.all fun x => (J.jsonb x.2).isSome) then .error .invalidText
  else .ok ()

def flowLimit (limit : Int64) : Int64 := if limit ≤ 0 then 100 else limit

def flowRows (J : JsonFns) (p : ListFlowsParams) (bounds : Option (Option (Option Int64 × Option Int64)))
    (cursor : Option (Time × Uuid)) (v : DB) : Except SqlError (List FlowRow) :=
  match bindable J p with
  | .error e => .error e
  | .ok () =>
    if flowLimit p.limit + 1 < 0 then .error .negativeLimit
    else (whereRows (fun r => allOf (flowConds J p bounds v r)) v.flows.rows).map fun rows =>
      (rowsAfter FlowRow.key false (fun _ => true) (cursor.map fun c => toLex (c.1, c.2.toNat)) rows).take
        (flowLimit p.limit + 1).toInt.toNat

def listedFlow (v : DB) (r : FlowRow) : ListedFlow := ⟨r, (v.tagsOf r.id).map fun t => (t.name, t.value)⟩

def flowPage (limit : Nat) (v : DB) (rows : List FlowRow) : FlowPage :=
  let cut := cutPage limit rows
  { items := cut.1.map (listedFlow v)
    nextCursor := cut.2.map fun last => encodeCursor last.created last.id }

def fetchFlows (J : JsonFns) (p : ListFlowsParams) (bounds : Option (Option (Option Int64 × Option Int64)))
    (cursor : Option (Time × Uuid)) : Tx FlowPage :=
  .stmtE .listFlows (failed "metastore: ListFlows: ") (fun _ _ => {})
    fun _ v => match flowRows J p bounds cursor v with
      | .error e => .error (.wrap [.text "metastore: ListFlows: "] (.sql e))
      | .ok rows => .ok (flowPage (flowLimit p.limit).toInt.toNat v rows)

/-- The condition a range puts on the segments of a flow; eternity puts none. -/
def flowBounds : Option TimeRange → Except NsError (Option (Option (Option Int64 × Option Int64)))
  | none => .ok none
  | some tr => if tr.isEternity then .ok none else (queryBounds tr).map some

def listFlows (R : JsonReader) (J : JsonFns) (p : ListFlowsParams) : Tx FlowPage :=
  match flowBounds p.timerange with
  | .error e => .fail (.wrap [.text "metastore: ListFlows: timerange: "] (.bounds e))
  | .ok bounds => match p.pageFrom with
    | none => fetchFlows J p bounds none
    | some s => match decodeCursor R s with
      | none => .fail (.app (.new .invalidJSON [.text "invalid page_from cursor"]))
      | some c => fetchFlows J p bounds (some c)

end OpenTams
