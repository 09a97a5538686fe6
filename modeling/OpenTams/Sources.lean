import OpenTams.Listing

/-!
# Sources

`internal/metastore/sources.go`: the writers of source records and of their
tags, and the listing. A call sends each statement as a transaction of its own.
No statement of the store deletes a row of `sources`.
-/

namespace OpenTams

open Sql

/-! ## Writers -/

def sourceNotFound : Err := notFound "source not found"

def requireSource (found : Bool) : Tx Unit := if found then .ret () else .fail sourceNotFound

def sourceExists (id : Uuid) : Tx Unit := do
  let found ← Prog.query .sourceExists (failed "metastore: sourceExists: ") fun v => (v.sources.get id).isSome
  requireSource found

def sourceTagViolation (id : Uuid) (value : Str) (v : DB) : Option SqlError :=
  if value = [] then some .notNullViolation
  else if (v.sources.get id).isNone then some .foreignKeyViolation
  else none

def putSourceTag (id : Uuid) (name value : Str) : Tx Unit := do
  sourceExists id
  .stmtE .putSourceTag (failed "metastore: PutSourceTag: ")
    (fun _ v => { locks := [.sourceTag id name],
                  writes := if (sourceTagViolation id value v).isSome then [] else [.putSourceTag ⟨id, name, value⟩] })
    fun _ v => match sourceTagViolation id value v with
      | some e => .error (.wrap [.text "metastore: PutSourceTag: "] (.sql e))
      | none => .ok ()

def deleteSourceTag (id : Uuid) (name : Str) : Tx Unit := do
  sourceExists id
  .stmt .deleteSourceTag (failed "metastore: DeleteSourceTag: ")
    (fun _ v => if (v.sourceTags.get (id, name)).isNone then {} else
      { locks := [.sourceTag id name], writes := [.delSourceTag id name] })
    fun _ _ => ()

inductive SourceField where
  | label (v : Option Str)
  | description (v : Option Str)
  deriving DecidableEq

namespace SourceField

def col : SourceField → String
  | label _ => "label"
  | description _ => "description"

def set (x : SourceField) (now : Time) (r : SourceRow) : SourceRow :=
  match x with
  | label v => { r with label := v, updated := now }
  | description v => { r with description := v, updated := now }

end SourceField

def updateSourceField (id : Uuid) (x : SourceField) : Tx Unit := do
  let found ← Prog.stmt .updateSourceField
    (.wrap [.text "metastore: update source ", .text x.col, .text ": "] (.sql .failed))
    (fun now v => match v.sources.get id with
      | none => {}
      | some r => { locks := [.source id], writes := [.putSource (x.set now r)] })
    fun _ v => (v.sources.get id).isSome
  requireSource found

def putSourceLabel (id : Uuid) (label : Str) : Tx Unit := updateSourceField id (.label (some label))

def deleteSourceLabel (id : Uuid) : Tx Unit := updateSourceField id (.label none)

def putSourceDescription (id : Uuid) (desc : Str) : Tx Unit := updateSourceField id (.description (some desc))

def deleteSourceDescription (id : Uuid) : Tx Unit := updateSourceField id (.description none)

inductive SourceCall where
  | putSourceTag (id : Uuid) (name value : Str)
  | deleteSourceTag (id : Uuid) (name : Str)
  | putSourceLabel (id : Uuid) (label : Str)
  | deleteSourceLabel (id : Uuid)
  | putSourceDescription (id : Uuid) (desc : Str)
  | deleteSourceDescription (id : Uuid)

def SourceCall.prog : SourceCall → Tx Unit
  | .putSourceTag id name value => OpenTams.putSourceTag id name value
  | .deleteSourceTag id name => OpenTams.deleteSourceTag id name
  | .putSourceLabel id label => OpenTams.putSourceLabel id label
  | .deleteSourceLabel id => OpenTams.deleteSourceLabel id
  | .putSourceDescription id desc => OpenTams.putSourceDescription id desc
  | .deleteSourceDescription id => OpenTams.deleteSourceDescription id

/-! ## ListSources -/

/-- The maps of tag filters are lists of their entries. -/
structure ListSourcesParams where
  limit : Int64
  pageFrom : Option Str := none
  label : Option Str := none
  format : Option Str := none
  tagExists : List Str := []
  tagValues : List (Str × Str) := []
  deriving DecidableEq

structure Source where
  id : Uuid
  format : Str
  label : Option Str
  description : Option Str
  tags : List (Str × Json)
  created : Time
  updated : Time
  deriving DecidableEq

structure SourcePage where
  items : List Source
  nextCursor : Option Str := none
  deriving DecidableEq

def SourceRow.key (r : SourceRow) : ℤ ×ₗ ℕ := toLex (r.created, r.id.toNat)

/-- The `WHERE` clause beside the cursor; `label = $1` is not true of NULL. -/
def sourceCond (J : JsonFns) (p : ListSourcesParams) (v : DB) (r : SourceRow) : Bool :=
  p.label.all (r.label = some ·) && p.format.all (r.format = ·) &&
    p.tagExists.all (fun name => (v.sourceTagsOf r.id).any (·.name = name)) &&
    p.tagValues.all fun x => (v.sourceTagsOf r.id).any fun t => t.name = x.1 && J.jsonb x.2 = some t.value

def sourceLimit (limit : Int64) : Int64 := if limit ≤ 0 then 100 else limit

/-- The rows of the query. `limit+1` is an addition of the machine, and PostgreSQL refuses a negative limit. -/
def sourceRows (J : JsonFns) (p : ListSourcesParams) (cursor : Option (Time × Uuid)) (v : DB) :
    Except SqlError (List SourceRow) :=
  if !(p.tagValues.all fun x => (J.jsonb x.2).isSome) then .error .invalidText
  else if sourceLimit p.limit + 1 < 0 then .error .negativeLimit
  else .ok ((rowsAfter SourceRow.key false (sourceCond J p v) (cursor.map fun c => toLex (c.1, c.2.toNat))
    v.sources.rows).take (sourceLimit p.limit + 1).toInt.toNat)

def scanSource (v : DB) (r : SourceRow) : Source where
  id := r.id
  format := r.format
  label := r.label
  description := r.description
  tags := (v.sourceTagsOf r.id).map fun t => (t.name, t.value)
  created := r.created
  updated := r.updated

def sourcePage (limit : Nat) (v : DB) (rows : List SourceRow) : SourcePage :=
  let cut := cutPage limit rows
  { items := cut.1.map (scanSource v)
    nextCursor := cut.2.map fun last => encodeCursor last.created last.id }

def fetchSources (J : JsonFns) (p : ListSourcesParams) (cursor : Option (Time × Uuid)) : Tx SourcePage :=
  .stmtE .listSources (failed "metastore: ListSources: ") (fun _ _ => {})
    fun _ v => match sourceRows J p cursor v with
      | .error e => .error (.wrap [.text "metastore: ListSources: "] (.sql e))
      | .ok rows => .ok (sourcePage (sourceLimit p.limit).toInt.toNat v rows)

def listSources (R : JsonReader) (J : JsonFns) (p : ListSourcesParams) : Tx SourcePage :=
  match p.pageFrom with
  | none => fetchSources J p none
  | some s => match decodeCursor R s with
    | none => .fail (.app (.new .invalidJSON [.text "invalid page_from cursor"]))
    | some c => fetchSources J p (some c)

end OpenTams
