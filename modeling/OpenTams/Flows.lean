import OpenTams.Segments

/-!
# Flow writes

`internal/metastore/flows.go`: the writers of flow records and their
sub-resources. A call without `Begin` sends each statement as a transaction of
its own. `ON DELETE CASCADE` is part of the delete of the flow row.
-/

namespace OpenTams

open Sql

structure CollectionItem where
  id : Uuid
  role : Option Str := none
  containerMapping : Str := []
  deriving DecidableEq

/-- `metastore.Flow` as it is written; `UpsertFlow` reads neither the tags nor the collection. -/
structure Flow where
  id : Uuid
  sourceId : Uuid
  format : Str
  codec : Option Str := none
  container : Option Str := none
  label : Option Str := none
  description : Option Str := none
  essenceParameters : Str := []
  containerMapping : Str := []
  avgBitRate : Option Int64 := none
  maxBitRate : Option Int64 := none
  segmentDuration : Option Str := none
  generation : Option Int64 := none
  metadataVersion : Option Int64 := none
  readOnly : Bool := false
  timerange : Option Str := none
  tags : List (Str × Json) := []
  flowCollection : List CollectionItem := []
  deriving DecidableEq

def nilJSON (b : Str) : Option Json := if b = [] then none else some b

def codecEqual : Option Str → Option Str → Bool
  | none, none => true
  | some a, some b => a = b
  | _, _ => false

/-! ## UpsertFlow -/

def selectFlow (id : Uuid) : Tx (Option (Uuid × Str × Option Str)) :=
  .query .upsertCheckFlow (failed "metastore: UpsertFlow: check flow: ")
    fun v => (v.flows.get id).map fun r => (r.sourceId, r.format, r.codec)

def selectSource (id : Uuid) : Tx (Option Str) :=
  .query .upsertCheckSource (failed "metastore: UpsertFlow: check source: ")
    fun v => (v.sources.get id).map (·.format)

def insertSource (id : Uuid) (format : Str) : Tx Unit :=
  .stmtE .upsertInsertSource (failed "metastore: UpsertFlow: insert implicit source: ")
    (fun now v => { locks := [.source id],
                    writes := if (v.sources.get id).isSome then []
                      else [.putSource { id, format, created := now, updated := now }] })
    fun _ v => if (v.sources.get id).isSome then
        .error (.wrap [.text "metastore: UpsertFlow: insert implicit source: "] (.sql .uniqueViolation))
      else .ok ()

def ensureSource (f : Flow) : Option Str → Tx Unit
  | none => insertSource f.sourceId f.format
  | some srcFormat =>
    if srcFormat ≠ f.format then
      .fail (.app (.new .formatMismatch [.text "source format is ", .quoted srcFormat, .text ", flow format ",
        .quoted f.format, .text " does not match"]))
    else .ret ()

def newFlowRow (f : Flow) (now : Time) : FlowRow where
  id := f.id
  sourceId := f.sourceId
  format := f.format
  codec := f.codec
  container := f.container
  label := f.label
  description := f.description
  essenceParameters := nilJSON f.essenceParameters
  containerMapping := nilJSON f.containerMapping
  avgBitRate := f.avgBitRate
  maxBitRate := f.maxBitRate
  segmentDuration := f.segmentDuration
  generation := f.generation
  metadataVersion := f.metadataVersion
  readOnly := f.readOnly
  created := now
  metadataUpdated := now
  timerange := f.timerange

def flowInsertViolation (f : Flow) (v : DB) : Option SqlError :=
  if (v.flows.get f.id).isSome then some .uniqueViolation
  else if (v.sources.get f.sourceId).isNone then some .foreignKeyViolation
  else none

def insertFlow (f : Flow) : Tx Unit :=
  .stmtE .upsertInsertFlow (failed "metastore: UpsertFlow: insert flow: ")
    (fun now v => { locks := [.flow f.id],
                    writes := if (flowInsertViolation f v).isSome then [] else [.putFlow (newFlowRow f now)] })
    fun _ v => match flowInsertViolation f v with
      | some e => .error (.wrap [.text "metastore: UpsertFlow: insert flow: "] (.sql e))
      | none => .ok ()

def createFlow (f : Flow) : Tx Unit := do
  let src ← selectSource f.sourceId
  ensureSource f src
  insertFlow f

def countSegments (id : Uuid) : Tx Nat :=
  .query .upsertCountSegments (failed "metastore: UpsertFlow: count segments: ") fun v => (v.segmentsOf id).length

def immutableField (detail : String) : Err := .app (.new .immutableField [.text detail])

def checkCodec (f : Flow) (existing : Option Str) : Tx Unit :=
  if codecEqual existing f.codec then .ret ()
  else do
    let segCount ← countSegments f.id
    if 0 < segCount then .fail (immutableField "codec cannot be changed when segments exist") else .ret ()

def updatedFlowRow (f : Flow) (now : Time) (r : FlowRow) : FlowRow :=
  { r with
    codec := f.codec, container := f.container, label := f.label, description := f.description,
    essenceParameters := nilJSON f.essenceParameters, containerMapping := nilJSON f.containerMapping,
    avgBitRate := f.avgBitRate, maxBitRate := f.maxBitRate, segmentDuration := f.segmentDuration,
    generation := f.generation, metadataVersion := f.metadataVersion, readOnly := f.readOnly,
    timerange := f.timerange, metadataUpdated := now }

def updateFlowRow (name : Stmt) (e : Err) (id : Uuid) (f : Time → FlowRow → FlowRow) : Tx Bool :=
  .stmt name e
    (fun now v => match v.flows.get id with
      | none => {}
      | some r => { locks := [.flow id], writes := [.putFlow (f now r)] })
    fun _ v => (v.flows.get id).isSome

/-- Immutable fields are compared before the update; `read_only` is not read. -/
def updateFlow (f : Flow) (existing : Uuid × Str × Option Str) : Tx Unit :=
  if existing.1 ≠ f.sourceId then .fail (immutableField "source_id cannot be changed")
  else if existing.2.1 ≠ f.format then .fail (immutableField "format cannot be changed")
  else do
    checkCodec f existing.2.2
    let _ ← updateFlowRow .upsertUpdateFlow (failed "metastore: UpsertFlow: update flow: ") f.id (updatedFlowRow f)
    .ret ()

def upsertExisting (f : Flow) : Option (Uuid × Str × Option Str) → Tx Bool
  | none => do createFlow f; .commitThen .upsertCommit (failed "metastore: UpsertFlow: commit: ") true
  | some existing => do
    updateFlow f existing
    .commitThen .upsertCommit (failed "metastore: UpsertFlow: commit: ") false

def upsertBody (f : Flow) : Tx Bool := do
  let existing ← selectFlow f.id
  upsertExisting f existing

def upsertFlow (f : Flow) : Tx Bool := .inTx (failed "metastore: begin tx: ") (upsertBody f)

/-! ## DeleteFlow -/

/-- The snapshot of the decrement: `SELECT DISTINCT object_id FROM segments WHERE flow_id = $1` -/
def deleteFlowRefs (id : Uuid) : Tx (List Str) :=
  .query .deleteFlowRefs (failed "metastore: DeleteFlow: decrement refs: ")
    fun v => ((v.segmentsOf id).map (·.objectId)).dedup

def deleteFlowDecrement (_ : Nat) (o : Str) : Tx Unit :=
  subRefCount .deleteFlowDecrement [.text "metastore: DeleteFlow: decrement refs: "] 1 o

/-- `DELETE FROM flows WHERE id = $1` with its cascades -/
def deleteFlowRow (id : Uuid) : Tx Bool :=
  .stmt .deleteFlow (failed "metastore: DeleteFlow: delete: ")
    (fun _ v => if (v.flows.get id).isNone then {} else
      { locks := .flow id :: (v.segmentsOf id).map (.segment ·.id) ++
          (v.tagsOf id).map (fun r => .tag r.flowId r.name) ++
          (v.collectionOf id).map fun r => .item r.flowId r.itemId
        writes := (v.segmentsOf id).map (.delSegment ·.id) ++ (v.tagsOf id).map (fun r => .delTag r.flowId r.name) ++
          (v.collectionOf id).map (fun r => .delItem r.flowId r.itemId) ++ [.delFlow id] })
    fun _ v => (v.flows.get id).isSome

def deleteFlowBody (id : Uuid) : Tx Unit := do
  let refs ← deleteFlowRefs id
  .forEach deleteFlowDecrement 0 refs
  let found ← deleteFlowRow id
  if found then .commitThen .deleteFlowCommit (failed "metastore: DeleteFlow: commit: ") ()
  else .fail (notFound "flow not found")

def deleteFlow (id : Uuid) : Tx Unit := .inTx (failed "metastore: begin tx: ") (deleteFlowBody id)

/-! ## Metadata writers -/

def readOnlyErr : Err := .app (.new .readOnly [.text "flow is read-only"])

def requireWritable : Option Bool → Tx Unit
  | none => .fail (notFound "flow not found")
  | some true => .fail readOnlyErr
  | some false => .ret ()

def selectReadOnly (name : Stmt) (e : Err) (id : Uuid) : Tx (Option Bool) :=
  .query name e fun v => (v.flows.get id).map (·.readOnly)

def flowWritable (id : Uuid) : Tx Unit := do
  let readOnly ← selectReadOnly .flowWritable (failed "metastore: flowWritable: ") id
  requireWritable readOnly

def tagViolation (id : Uuid) (value : Str) (v : DB) : Option SqlError :=
  if value = [] then some .notNullViolation
  else if (v.flows.get id).isNone then some .foreignKeyViolation
  else none

def putFlowTag (id : Uuid) (name value : Str) : Tx Unit := do
  flowWritable id
  .stmtE .putFlowTag (failed "metastore: PutFlowTag: ")
    (fun _ v => { locks := [.tag id name],
                  writes := if (tagViolation id value v).isSome then [] else [.putTag ⟨id, name, value⟩] })
    fun _ v => match tagViolation id value v with
      | some e => .error (.wrap [.text "metastore: PutFlowTag: "] (.sql e))
      | none => .ok ()

def deleteFlowTag (id : Uuid) (name : Str) : Tx Unit := do
  flowWritable id
  .stmt .deleteFlowTag (failed "metastore: DeleteFlowTag: ")
    (fun _ v => if (v.flowTags.get (id, name)).isNone then {} else
      { locks := [.tag id name], writes := [.delTag id name] })
    fun _ _ => ()

inductive FlowField where
  | label (v : Option Str)
  | description (v : Option Str)
  | avgBitRate (v : Option Int64)
  | maxBitRate (v : Option Int64)
  deriving DecidableEq

namespace FlowField

def col : FlowField → String
  | label _ => "label"
  | description _ => "description"
  | avgBitRate _ => "avg_bit_rate"
  | maxBitRate _ => "max_bit_rate"

def set (x : FlowField) (now : Time) (r : FlowRow) : FlowRow :=
  match x with
  | label v => { r with label := v, metadataUpdated := now }
  | description v => { r with description := v, metadataUpdated := now }
  | avgBitRate v => { r with avgBitRate := v, metadataUpdated := now }
  | maxBitRate v => { r with maxBitRate := v, metadataUpdated := now }

end FlowField

def requireRow (found : Bool) : Tx Unit := if found then .ret () else .fail (notFound "flow not found")

def updateFlowField (id : Uuid) (x : FlowField) : Tx Unit := do
  flowWritable id
  let found ← updateFlowRow .updateFlowField
    (.wrap [.text "metastore: update flow ", .text x.col, .text ": "] (.sql .failed)) id x.set
  requireRow found

def putFlowLabel (id : Uuid) (label : Str) : Tx Unit := updateFlowField id (.label (some label))

def deleteFlowLabel (id : Uuid) : Tx Unit := updateFlowField id (.label none)

def putFlowDescription (id : Uuid) (desc : Str) : Tx Unit := updateFlowField id (.description (some desc))

def deleteFlowDescription (id : Uuid) : Tx Unit := updateFlowField id (.description none)

def putFlowAvgBitRate (id : Uuid) (rate : Int64) : Tx Unit := updateFlowField id (.avgBitRate (some rate))

def deleteFlowAvgBitRate (id : Uuid) : Tx Unit := updateFlowField id (.avgBitRate none)

def putFlowMaxBitRate (id : Uuid) (rate : Int64) : Tx Unit := updateFlowField id (.maxBitRate (some rate))

def deleteFlowMaxBitRate (id : Uuid) : Tx Unit := updateFlowField id (.maxBitRate none)

/-- The only flow write that does not look at `read_only`, by the source's own account. -/
def putFlowReadOnly (id : Uuid) (readOnly : Bool) : Tx Unit := do
  let found ← updateFlowRow .putFlowReadOnly (failed "metastore: PutFlowReadOnly: ") id
    fun now r => { r with readOnly, metadataUpdated := now }
  requireRow found

def clearCollection (name : Stmt) (e : Err) (id : Uuid) : Tx Unit :=
  .stmt name e
    (fun _ v => { locks := (v.collectionOf id).map fun r => .item r.flowId r.itemId,
                  writes := (v.collectionOf id).map fun r => .delItem r.flowId r.itemId })
    fun _ _ => ()

def itemViolation (id : Uuid) (ci : CollectionItem) (v : DB) : Option SqlError :=
  if (v.flowCollection.get (id, ci.id)).isSome then some .uniqueViolation
  else if (v.flows.get id).isNone then some .foreignKeyViolation
  else none

def insertItem (id : Uuid) (i : Nat) (ci : CollectionItem) : Tx Unit :=
  .stmtE .collectionInsert (failed "metastore: PutFlowCollection: insert: ")
    (fun _ v => { locks := [.item id ci.id],
                  writes := if (itemViolation id ci v).isSome then []
                    else [.putItem ⟨id, ci.id, ci.role, nilJSON ci.containerMapping, i⟩] })
    fun _ v => match itemViolation id ci v with
      | some e => .error (.wrap [.text "metastore: PutFlowCollection: insert: "] (.sql e))
      | none => .ok ()

def putCollectionBody (id : Uuid) (items : List CollectionItem) : Tx Unit := do
  let readOnly ← selectReadOnly .collectionCheck (failed "metastore: PutFlowCollection: check: ") id
  requireWritable readOnly
  clearCollection .collectionDelete (failed "metastore: PutFlowCollection: delete: ") id
  .forEach (insertItem id) 0 items
  .commitThen .collectionCommit (failed "metastore: PutFlowCollection: commit: ") ()

def putFlowCollection (id : Uuid) (items : List CollectionItem) : Tx Unit :=
  .inTx (failed "metastore: begin tx: ") (putCollectionBody id items)

def deleteFlowCollection (id : Uuid) : Tx Unit := do
  flowWritable id
  clearCollection .deleteFlowCollection (failed "metastore: DeleteFlowCollection: ") id

end OpenTams
