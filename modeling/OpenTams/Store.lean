import OpenTams.Errors
import OpenTams.Table
import OpenTams.Txn

/-!
# The database

The tables of `migrations/` that the modelled functions use, the row versions a
statement writes, the names of row locks and of statements, and the type of
calls. A JSONB value is kept as its canonical text; a UUID is its 128 bits.
-/

namespace OpenTams

open Sql

abbrev Json := Str

/-! ## Rows -/

structure SourceRow where
  id : Uuid
  format : Str
  label : Option Str := none
  description : Option Str := none
  created : Time
  updated : Time
  deriving DecidableEq

structure SourceTagRow where
  sourceId : Uuid
  name : Str
  value : Json
  deriving DecidableEq

structure FlowRow where
  id : Uuid
  sourceId : Uuid
  format : Str
  codec : Option Str := none
  container : Option Str := none
  label : Option Str := none
  description : Option Str := none
  essenceParameters : Option Json := none
  containerMapping : Option Json := none
  avgBitRate : Option Int64 := none
  maxBitRate : Option Int64 := none
  segmentDuration : Option Str := none
  generation : Option Int64 := none
  metadataVersion : Option Int64 := none
  readOnly : Bool := false
  created : Time
  metadataUpdated : Time
  segmentsUpdated : Option Time := none
  timerange : Option Str := none
  deriving DecidableEq

structure TagRow where
  flowId : Uuid
  name : Str
  value : Json
  deriving DecidableEq

structure CollectionRow where
  flowId : Uuid
  itemId : Uuid
  role : Option Str
  containerMapping : Option Json
  sortOrder : Int
  deriving DecidableEq

/-- The columns `timerange` and `key_frame_count` of `objects` are never written. -/
structure ObjectRow where
  id : Str
  refCount : Int
  storageId : Option Str
  reaping : Bool
  deriving DecidableEq

structure GetURL where
  url : Str
  label : Str
  controlled : Bool
  deriving DecidableEq

structure SegmentRow where
  id : Nat
  flowId : Uuid
  objectId : Str
  timerange : Str
  lowerNs : Int64
  upperNs : Int64
  tsOffset : Str
  objectTimerange : Option Str
  lastDuration : Option Str
  keyFrameCount : Option Int64
  sampleOffset : Option Int64
  sampleCount : Option Int64
  getUrls : Option (List GetURL)
  createdAt : Time
  deriving DecidableEq

structure Problem where
  type : Option Msg := none
  title : Option String := none
  detail : Option Msg := none
  status : Option Nat := none
  deriving DecidableEq

structure FailedEntry where
  objectId : Str
  timerange : Option Str
  type : Msg
  title : String
  detail : Msg
  deriving DecidableEq

inductive ResponseBody where
  | problem (p : Problem)
  | bulkFailure (failedSegments : List FailedEntry)
  deriving DecidableEq

structure KeyRow where
  key : Str
  bodyHash : Str
  inFlight : Bool := true
  responseStatus : Int := 0
  responseBody : Option ResponseBody := none
  createdAt : Time
  expiresAt : Time
  acquiredAt : Time
  deriving DecidableEq

/-! ## Tables -/

@[ext] structure DB where
  sources : Table Uuid SourceRow SourceRow.id
  sourceTags : Table (Uuid × Str) SourceTagRow fun r => (r.sourceId, r.name)
  flows : Table Uuid FlowRow FlowRow.id
  flowTags : Table (Uuid × Str) TagRow fun r => (r.flowId, r.name)
  flowCollection : Table (Uuid × Uuid) CollectionRow fun r => (r.flowId, r.itemId)
  objects : Table Str ObjectRow ObjectRow.id
  segments : Table Nat SegmentRow SegmentRow.id
  idempotencyKeys : Table Str KeyRow KeyRow.key
  deriving DecidableEq

def DB.empty : DB := ⟨.empty, .empty, .empty, .empty, .empty, .empty, .empty, .empty⟩

def DB.segmentsOf (d : DB) (flowId : Uuid) : List SegmentRow :=
  d.segments.rows.filter fun r => r.flowId = flowId

def DB.segmentsOn (d : DB) (objectId : Str) : List SegmentRow :=
  d.segments.rows.filter fun r => r.objectId = objectId

def DB.tagsOf (d : DB) (flowId : Uuid) : List TagRow :=
  d.flowTags.rows.filter fun r => r.flowId = flowId

def DB.collectionOf (d : DB) (flowId : Uuid) : List CollectionRow :=
  d.flowCollection.rows.filter fun r => r.flowId = flowId

def DB.sourceTagsOf (d : DB) (sourceId : Uuid) : List SourceTagRow :=
  d.sourceTags.rows.filter fun r => r.sourceId = sourceId

inductive Write where
  | putSource (r : SourceRow)
  | putSourceTag (r : SourceTagRow)
  | delSourceTag (sourceId : Uuid) (name : Str)
  | putFlow (r : FlowRow)
  | delFlow (id : Uuid)
  | putTag (r : TagRow)
  | delTag (flowId : Uuid) (name : Str)
  | putItem (r : CollectionRow)
  | delItem (flowId itemId : Uuid)
  | putObject (r : ObjectRow)
  | putSegment (r : SegmentRow)
  | delSegment (id : Nat)
  | putKey (r : KeyRow)
  | delKey (key : Str)
  deriving DecidableEq

def DB.write (d : DB) : Write → DB
  | .putSource r => { d with sources := d.sources.put r }
  | .putSourceTag r => { d with sourceTags := d.sourceTags.put r }
  | .delSourceTag i n => { d with sourceTags := d.sourceTags.del (i, n) }
  | .putFlow r => { d with flows := d.flows.put r }
  | .delFlow id => { d with flows := d.flows.del id }
  | .putTag r => { d with flowTags := d.flowTags.put r }
  | .delTag f n => { d with flowTags := d.flowTags.del (f, n) }
  | .putItem r => { d with flowCollection := d.flowCollection.put r }
  | .delItem f i => { d with flowCollection := d.flowCollection.del (f, i) }
  | .putObject r => { d with objects := d.objects.put r }
  | .putSegment r => { d with segments := d.segments.put r }
  | .delSegment id => { d with segments := d.segments.del id }
  | .putKey r => { d with idempotencyKeys := d.idempotencyKeys.put r }
  | .delKey k => { d with idempotencyKeys := d.idempotencyKeys.del k }

instance : Writes Write DB := ⟨fun w d => d.write w⟩

/-! ## Locks and statements -/

/-- A lock on a row, or on the key of a row about to be inserted. -/
inductive Lock where
  | source (id : Uuid)
  | sourceTag (sourceId : Uuid) (name : Str)
  | flow (id : Uuid)
  | tag (flowId : Uuid) (name : Str)
  | item (flowId itemId : Uuid)
  | object (id : Str)
  | segment (id : Nat)
  | key (key : Str)
  deriving DecidableEq

inductive Stmt where
  | getFlowForSegmentWrite
  | overlapCheck
  | objectUpsert
  | objectTimerangeLookup
  | insertSegment
  | flowSpan
  | refreshFlow
  | insertCommit
  | deleteSegments
  | decrementRefCount
  | deleteCommit
  | upsertCheckFlow
  | upsertCheckSource
  | upsertInsertSource
  | upsertInsertFlow
  | upsertCountSegments
  | upsertUpdateFlow
  | upsertCommit
  | deleteFlowRefs
  | deleteFlowDecrement
  | deleteFlow
  | deleteFlowCommit
  | flowWritable
  | putFlowTag
  | deleteFlowTag
  | updateFlowField
  | putFlowReadOnly
  | collectionCheck
  | collectionDelete
  | collectionInsert
  | collectionCommit
  | deleteFlowCollection
  | acquireDeleteExpired
  | acquireSelect
  | acquireInsert
  | acquireCommit
  | complete
  | release
  | prune
  | reapStale
  | getFlowForSegmentRead
  | listSegments
  | listFlows
  | getFlow
  | getFlowCollection
  | sourceExists
  | putSourceTag
  | deleteSourceTag
  | updateSourceField
  | listSources
  deriving DecidableEq

abbrev Tx (α : Type) := Prog DB Write Lock Stmt Err α

def failed (m : String) : Err := .wrap [.text m] (.sql .failed)

/-! ## Queries -/

/-- `ORDER BY … LIMIT 1`: the first row that no other row is before. -/
def firstBy {ρ : Type} (lt : ρ → ρ → Bool) : List ρ → Option ρ
  | [] => none
  | r :: rs => match firstBy lt rs with
    | none => some r
    | some x => if lt x r then some x else some r

def lockIf (present : Bool) (ℓ : Lock) : List Lock := if present then [ℓ] else []

def fitsInt4 (i : Int) : Bool := -2147483648 ≤ i && i ≤ 2147483647

end OpenTams
