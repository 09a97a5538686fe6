import OpenTams.FlowRead
import OpenTams.UpsertSound

/-!
# PUT and GET of a flow

`internal/httpx/handlers/flows.go` with `UpsertFlow` of `internal/service/flow`:
the JSON object of a flow, the record made of it, and the object made of a stored
record. Decoding inverts encoding, so an object is the record of its members; what
`uuid.Parse` makes of the path and decoding of the body is an argument.
-/

namespace OpenTams

open Sql Sql.Prog

/-! ## Objects -/

/-- `apiFlowBase`: an absent raw value is empty. -/
structure ApiFlowBase where
  id : Uuid
  sourceId : Uuid
  format : Str
  codec : Option Str := none
  container : Option Str := none
  label : Option Str := none
  description : Option Str := none
  tags : Option (List (Str × Json)) := none
  essenceParameters : Str := []
  containerMapping : Str := []
  flowCollection : Option (List CollectionItem) := none
  avgBitRate : Option Int64 := none
  maxBitRate : Option Int64 := none
  generation : Option Int64 := none
  metadataVersion : Option Str := none
  readOnly : Option Bool := none
  deriving DecidableEq

structure FlowObject extends ApiFlowBase where
  segmentDuration : Str := []
  deriving DecidableEq

/-- The base has no field for `segment_duration`; unknown members are passed over. -/
def parseFlowBody (body : FlowObject) : ApiFlowBase := body.toApiFlowBase

def parseInt (s : Str) : Option Int64 :=
  let neg := s.head? = some (ch '-')
  let digits := if neg ∨ s.head? = some (ch '+') then s.tail else s
  if digits = [] || !digits.all isDigit then none
  else if neg then if decVal digits ≤ 2 ^ 63 then some (Int64.ofInt (-(decVal digits : Int))) else none
  else if decVal digits < 2 ^ 63 then some (Int64.ofInt (decVal digits)) else none

def apiFlowToMetastore (flowId : Uuid) (base : ApiFlowBase) : Flow where
  id := flowId
  sourceId := base.sourceId
  format := base.format
  codec := base.codec
  container := base.container
  label := base.label
  description := base.description
  tags := base.tags.getD []
  essenceParameters := base.essenceParameters
  containerMapping := base.containerMapping
  avgBitRate := base.avgBitRate
  maxBitRate := base.maxBitRate
  generation := base.generation
  metadataVersion := base.metadataVersion.bind parseInt
  readOnly := base.readOnly.getD false
  flowCollection := base.flowCollection.getD []

structure FlowCommon where
  id : Uuid
  sourceId : Uuid
  format : Str
  codec : Option Str
  container : Option Str
  label : Option Str
  description : Option Str
  tags : List (Str × Json)
  essenceParameters : Str
  containerMapping : Str
  flowCollection : List CollectionItem
  avgBitRate : Option Int64
  maxBitRate : Option Int64
  generation : Option Int64
  metadataVersion : Option Str
  readOnly : Bool
  created : Time
  metadataUpdated : Time
  segmentsUpdated : Option Time
  timerange : Option Str
  deriving DecidableEq

def collItem (ci : CollectionItem) : CollectionItem := { ci with role := nullIfEmpty (ci.role.getD []) }

def mapFlowToAPI (f : StoredFlow) : FlowCommon where
  id := f.row.id
  sourceId := f.row.sourceId
  format := f.row.format
  codec := f.row.codec
  container := f.row.container
  label := f.row.label
  description := f.row.description
  tags := f.tags
  essenceParameters := f.row.essenceParameters.getD []
  containerMapping := f.row.containerMapping.getD []
  flowCollection := f.collection.map collItem
  avgBitRate := f.row.avgBitRate
  maxBitRate := f.row.maxBitRate
  generation := f.row.generation
  metadataVersion := f.row.metadataVersion.map fun v => intStr v.toInt
  readOnly := f.row.readOnly
  created := f.row.created
  metadataUpdated := f.row.metadataUpdated
  segmentsUpdated := f.row.segmentsUpdated
  timerange := f.row.timerange

def omitEmpty {α : Type} (l : List α) : Option (List α) := if l.isEmpty then none else some l

def FlowCommon.object (j : FlowCommon) : FlowObject where
  id := j.id
  sourceId := j.sourceId
  format := j.format
  codec := j.codec
  container := j.container
  label := j.label
  description := j.description
  tags := omitEmpty j.tags
  essenceParameters := j.essenceParameters
  containerMapping := j.containerMapping
  flowCollection := omitEmpty j.flowCollection
  avgBitRate := j.avgBitRate
  maxBitRate := j.maxBitRate
  generation := j.generation
  metadataVersion := j.metadataVersion
  readOnly := some j.readOnly

/-! ## The service -/

/-- What `json.Unmarshal` makes of essence parameters: `vfr` and the raw `frame_rate`. -/
abbrev EssenceReader := Str → Option (Option Bool × Str)

namespace FlowService

def validateVideoFlow (E : EssenceReader) (f : Flow) : Except Err Unit :=
  if f.essenceParameters = [] then .ok ()
  else if ¬ lit "video" <:+: f.format then .ok ()
  else match E f.essenceParameters with
    | none => .error (.app (.new .schemaValidation [.text "essence_parameters: invalid JSON"]))
    | some (vfr, frameRate) =>
      if vfr ≠ some true ∧ frameRate = [] then
        .error (.app (.new .vfrFrameRateConflict
          [.text "frame_rate required when vfr is false or absent for video flows"]))
      else if vfr = some true ∧ frameRate ≠ [] then
        .error (.app (.new .vfrFrameRateConflict [.text "frame_rate must not be set when vfr is true"]))
      else .ok ()

def upsertFlow (E : EssenceReader) (f : Flow) : Tx Bool :=
  match validateVideoFlow E f with
  | .error e => .fail e
  | .ok () => OpenTams.upsertFlow f

end FlowService

/-! ## The handlers -/

inductive PutFlowResponse where
  | badRequest
  | noContent
  | created (f : FlowCommon)
  deriving DecidableEq

inductive GetFlowResponse where
  | notFound
  | ok (f : FlowCommon)
  deriving DecidableEq

def Err.isNotFound (e : Err) : Bool := (e.asApp.map (·.code)) = some .notFound

namespace Handler

/-- A created flow is read back for the response. -/
def flowPut (flowId : Uuid) (created : Bool) : Tx PutFlowResponse :=
  if created then (FlowService.getFlow flowId false none).map fun stored => .created (mapFlowToAPI stored)
  else .ret .noContent

def putFlow (E : EssenceReader) (flowId : Option Uuid) (body : Option FlowObject) : Tx PutFlowResponse :=
  match flowId, body with
  | some flowId, some body => do
    let created ← FlowService.upsertFlow E (apiFlowToMetastore flowId (parseFlowBody body))
    flowPut flowId created
  | _, _ => .ret .badRequest

def flowGot : Except Err StoredFlow → Tx GetFlowResponse
  | .ok f => .ret (.ok (mapFlowToAPI f))
  | .error e => if e.isNotFound then .ret .notFound else .fail e

/-- The parameters `include_timerange` and `timerange` are pointers in the source. -/
def getFlow (flowId : Option Uuid) (includeTimerange : Option Bool) (timerange : Option Str) : Tx GetFlowResponse :=
  match flowId with
  | none => .ret .notFound
  | some id => match timerange.mapM parse with
    | .error e => .fail (.app (.new .invalidTimerange ([.text "timerange: "] ++ (Err.parse e).text)))
    | .ok trFilter => do
      let f ← (FlowService.getFlow id (includeTimerange = some true) trFilter).attempt
      flowGot f

end Handler

/-! ## What is returned -/

structure FlowObject.Returned (body resp : FlowObject) : Prop where
  label : ∀ x ∈ body.label, resp.label = some x
  description : ∀ x ∈ body.description, resp.description = some x
  codec : ∀ x ∈ body.codec, resp.codec = some x
  container : ∀ x ∈ body.container, resp.container = some x
  tags : ∀ x ∈ body.tags, ∃ y ∈ resp.tags, ∀ m, m ∈ y ↔ m ∈ x
  essenceParameters : body.essenceParameters ≠ [] → resp.essenceParameters = body.essenceParameters
  containerMapping : body.containerMapping ≠ [] → resp.containerMapping = body.containerMapping
  flowCollection : ∀ x ∈ body.flowCollection, resp.flowCollection = some x
  avgBitRate : ∀ x ∈ body.avgBitRate, resp.avgBitRate = some x
  maxBitRate : ∀ x ∈ body.maxBitRate, resp.maxBitRate = some x
  segmentDuration : body.segmentDuration ≠ [] → resp.segmentDuration = body.segmentDuration
  generation : ∀ x ∈ body.generation, resp.generation = some x
  metadataVersion : ∀ x ∈ body.metadataVersion, resp.metadataVersion = some x
  readOnly : ∀ x ∈ body.readOnly, resp.readOnly = some x

/-- What PUT does not write, or not as it was sent, is absent from the body or stored already. -/
structure FlowObject.Kept (body : FlowObject) (d : DB) (id : Uuid) : Prop where
  tags : ∀ x ∈ body.tags, d.tagsOf id ≠ [] ∧ ∀ m, m ∈ (d.tagsOf id).map (fun t => (t.name, t.value)) ↔ m ∈ x
  flowCollection : ∀ x ∈ body.flowCollection, x ≠ [] ∧ (collectionItems d id).map collItem = x
  segmentDuration : body.segmentDuration = []
  metadataVersion : ∀ x ∈ body.metadataVersion, ∃ v : Int64, x = intStr v.toInt

/-! ## Integers and their text -/

theorem digit_ne_sign {b : UInt8} (h : isDigit b = true) : b ≠ ch '-' ∧ b ≠ ch '+' :=
  ⟨(isDigit_ne h (by decide)).symm, (isDigit_ne h (by decide)).symm⟩

theorem parseInt_intStr (v : Int64) : parseInt (intStr v.toInt) = some v := by
  have hlo := v.le_toInt
  have hhi := v.toInt_lt
  by_cases hneg : v.toInt < 0
  · rw [intStr, if_pos hneg, parseInt]
    simp only [List.head?_cons, List.tail_cons, true_or, if_true, decStr_ne_nil, decStr_digits, decVal_decStr,
      decide_false, Bool.not_true, Bool.or_self, Bool.false_eq_true, if_false]
    have hval : -((-v.toInt).toNat : ℤ) = v.toInt := by omega
    rw [if_pos (by omega), hval, Int64.ofInt_toInt]
  · rw [intStr, if_neg hneg, parseInt]
    obtain ⟨b, s, hs⟩ := List.exists_cons_of_ne_nil (decStr_ne_nil v.toInt.toNat)
    have hb := decStr_digits v.toInt.toNat
    rw [hs, List.all_cons, Bool.and_eq_true] at hb
    obtain ⟨hminus, hplus⟩ := digit_ne_sign hb.1
    have hhead : ∀ c, b ≠ c → ¬ (decStr v.toInt.toNat).head? = some c := by
      intro c hc he
      rw [hs] at he
      exact hc (Option.some.inj he)
    simp only [hhead _ hminus, hhead _ hplus, or_self, if_false, decStr_ne_nil, decStr_digits, decVal_decStr,
      decide_false, Bool.not_true, Bool.or_self, Bool.false_eq_true]
    have hval : (v.toInt.toNat : ℤ) = v.toInt := by omega
    rw [if_pos (by omega), hval, Int64.ofInt_toInt]

/-! ## PUT, then GET -/

section
variable {E : EssenceReader} {id : Uuid} {body : FlowObject} {d d' : DB} {t t' : Time}

theorem settles_service_upsertFlow (E : EssenceReader) (f : Flow) : (FlowService.upsertFlow E f).Settles := by
  unfold FlowService.upsertFlow
  split
  · exact settles_fail _
  · exact settles_inTx _ _

theorem keeps_loadCollection {J : DB → Prop} (id : Uuid) (f : Option ListedFlow) : (loadCollection id f).Keeps J := by
  cases f with
  | none => trivial
  | some f => exact keeps_query

theorem keeps_service_getFlow {J : DB → Prop} (id : Uuid) : (FlowService.getFlow id false none).Keeps J :=
  Keeps.bind (keeps_query.bind (keeps_loadCollection id)) fun _ => trivial

theorem keeps_flowPut {J : DB → Prop} (id : Uuid) (b : Bool) : (Handler.flowPut id b).Keeps J := by
  cases b with
  | false => trivial
  | true => exact (keeps_service_getFlow id).bind fun _ => trivial

theorem run_flowPut_db (id : Uuid) (b : Bool) (t : Time) (d : DB) : ((Handler.flowPut id b).run t d).2 = d :=
  (keeps_flowPut (J := (· = d)) id b).run t rfl

theorem run_putFlow_db (E : EssenceReader) (id : Uuid) (body : FlowObject) (t : Time) (d : DB) :
    ((Handler.putFlow E (some id) (some body)).run t d).2 =
      ((FlowService.upsertFlow E (apiFlowToMetastore id (parseFlowBody body))).run t d).2 := by
  rw [Handler.putFlow, run_bind (settles_service_upsertFlow _ _)]
  rcases (FlowService.upsertFlow E (apiFlowToMetastore id (parseFlowBody body))).run t d with ⟨r, d₁⟩
  cases r with
  | error e => rfl
  | ok b => exact run_flowPut_db id b t d₁

theorem putFlow_upserted {resp : PutFlowResponse}
    (h : (Handler.putFlow E (some id) (some body)).run t d = (.ok resp, d')) :
    ∃ b, Upserted (apiFlowToMetastore id (parseFlowBody body)) t d b d' := by
  have hdb := run_putFlow_db E id body t d
  rw [h] at hdb
  rw [Handler.putFlow, run_bind (settles_service_upsertFlow _ _)] at h
  cases hx : (FlowService.upsertFlow E (apiFlowToMetastore id (parseFlowBody body))).run t d with
  | mk r d₁ =>
    rw [hx] at h hdb
    cases r with
    | error e => cases h
    | ok b =>
      refine ⟨b, ?_⟩
      rw [show d' = d₁ from hdb]
      unfold FlowService.upsertFlow at hx
      split at hx
      · cases hx
      · exact upsertFlow_upserted hx

structure FlowRow.Carries (r : FlowRow) (f : Flow) : Prop where
  codec : r.codec = f.codec
  container : r.container = f.container
  label : r.label = f.label
  description : r.description = f.description
  essenceParameters : r.essenceParameters = nilJSON f.essenceParameters
  containerMapping : r.containerMapping = nilJSON f.containerMapping
  avgBitRate : r.avgBitRate = f.avgBitRate
  maxBitRate : r.maxBitRate = f.maxBitRate
  generation : r.generation = f.generation
  metadataVersion : r.metadataVersion = f.metadataVersion
  readOnly : r.readOnly = f.readOnly

theorem Upserted.stored {f : Flow} {b : Bool} (h : Upserted f t d b d') :
    (∃ r, d'.flows.get f.id = some r ∧ r.Carries f) ∧ d'.flowTags = d.flowTags ∧
      d'.flowCollection = d.flowCollection := by
  cases h with
  | created hnew hsrc =>
    refine ⟨⟨newFlowRow f t, Table.get_put_self _ (newFlowRow f t), ?_⟩, ?_⟩
    · constructor <;> rfl
    · unfold ensuredSource
      split <;> exact ⟨rfl, rfl⟩
  | @updated r hr hu =>
    have hid : r.id = f.id := Table.key_of_get hr
    have hput : (d.flows.put (updatedFlowRow f t r)).get r.id = some (updatedFlowRow f t r) := Table.get_put_self ..
    refine ⟨⟨updatedFlowRow f t r, hid ▸ hput, ?_⟩, rfl, rfl⟩
    constructor <;> rfl

theorem nilJSON_getD (s : Str) : (nilJSON s).getD [] = s := by
  unfold nilJSON
  split
  · exact (by assumption : s = []).symm
  · rfl

theorem mem_omitEmpty {α : Type} {l x : List α} : x ∈ omitEmpty l ↔ x = l ∧ l ≠ [] := by
  cases l with
  | nil => simp [omitEmpty]
  | cons a l => simp [omitEmpty, eq_comm]

section
variable {r : FlowRow} (h : r.Carries (apiFlowToMetastore id (parseFlowBody body)))
include h

theorem metadataVersion_object :
    (mapFlowToAPI (storedFlow d r)).object.metadataVersion =
      (body.metadataVersion.bind parseInt).map fun v => intStr v.toInt :=
  congrArg (Option.map fun v : Int64 => intStr v.toInt) h.metadataVersion

theorem kept_of_returned (hid : r.id = id) (hret : body.Returned (mapFlowToAPI (storedFlow d r)).object) :
    body.Kept d id := by
  subst hid
  constructor
  · intro x hx
    obtain ⟨y, hy, hm⟩ := hret.tags x hx
    obtain ⟨rfl, hne⟩ := mem_omitEmpty.mp hy
    exact ⟨fun he => hne (by simp [mapFlowToAPI, storedFlow, listedFlow, he]), hm⟩
  · intro x hx
    have hy : x ∈ omitEmpty ((collectionItems d r.id).map collItem) := hret.flowCollection x hx
    obtain ⟨rfl, hne⟩ := mem_omitEmpty.mp hy
    exact ⟨hne, rfl⟩
  · by_contra hne
    exact hne (hret.segmentDuration hne).symm
  · intro x hx
    have hx' := hret.metadataVersion x hx
    rw [metadataVersion_object h, Option.map_eq_some_iff] at hx'
    obtain ⟨v, -, rfl⟩ := hx'
    exact ⟨v, rfl⟩

/-- The members that are columns come back whatever the state. -/
theorem returned_of_kept (hid : r.id = id) (hk : body.Kept d id) :
    body.Returned (mapFlowToAPI (storedFlow d r)).object := by
  subst hid
  constructor
  · exact fun x hx => h.label.trans hx
  · exact fun x hx => h.description.trans hx
  · exact fun x hx => h.codec.trans hx
  · exact fun x hx => h.container.trans hx
  · intro x hx
    obtain ⟨hne, hm⟩ := hk.tags x hx
    exact ⟨_, mem_omitEmpty.mpr ⟨rfl, fun he => hne (List.map_eq_nil_iff.mp he)⟩, hm⟩
  · exact fun _ => (congrArg (Option.getD · []) h.essenceParameters).trans (nilJSON_getD body.essenceParameters)
  · exact fun _ => (congrArg (Option.getD · []) h.containerMapping).trans (nilJSON_getD body.containerMapping)
  · intro x hx
    obtain ⟨hne, hm⟩ := hk.flowCollection x hx
    exact mem_omitEmpty.mpr ⟨hm.symm, fun he => hne (hm.symm.trans he)⟩
  · exact fun x hx => h.avgBitRate.trans hx
  · exact fun x hx => h.maxBitRate.trans hx
  · exact fun hne => absurd hk.segmentDuration hne
  · exact fun x hx => h.generation.trans hx
  · intro x hx
    obtain ⟨v, rfl⟩ := hk.metadataVersion x hx
    rw [metadataVersion_object h, show body.metadataVersion = some (intStr v.toInt) from hx, Option.bind_some,
      parseInt_intStr]
    rfl
  · intro x hx
    refine congrArg some (h.readOnly.trans ?_)
    show body.readOnly.getD false = x
    rw [show body.readOnly = some x from hx]
    rfl

end

theorem settles_service_getFlow (id : Uuid) : (FlowService.getFlow id false none).Settles := by
  refine Settles.bind (Settles.bind (settles_query _ _ _) fun f => ?_) fun f => settles_ret f
  cases f with
  | none => exact settles_fail _
  | some f => exact settles_query _ _ _

theorem run_handler_getFlow {r : FlowRow} (hr : d.flows.get id = some r) :
    (Handler.getFlow (some id) none none).run t d = (.ok (.ok (mapFlowToAPI (storedFlow d r))), d) := by
  show ((FlowService.getFlow id false none).attempt >>= Handler.flowGot).run t d = _
  rw [run_bind (settles_service_getFlow id).attempt, run_attempt, run_service_getFlow hr]
  rfl

/-- **GET returns what PUT was sent exactly where nothing of the body is lost**:
tags and the collection are those that are stored already, there is no segment
duration, and the metadata version is the decimal text of an `int64`. -/
theorem putFlow_then_getFlow {resp : PutFlowResponse}
    (hput : (Handler.putFlow E (some id) (some body)).run t d = (.ok resp, d')) (t' : Time) :
    (∃ f, (Handler.getFlow (some id) none none).run t' d' = (.ok (.ok f), d') ∧ body.Returned f.object) ↔
      body.Kept d id := by
  obtain ⟨b, hu⟩ := putFlow_upserted hput
  obtain ⟨⟨r, hr, hc⟩, htags, hcoll⟩ := hu.stored
  have hr : d'.flows.get id = some r := hr
  have hkept : body.Kept d' id ↔ body.Kept d id := by
    have h1 : d'.tagsOf id = d.tagsOf id := by rw [DB.tagsOf, htags]; rfl
    have h2 : collectionItems d' id = collectionItems d id := by
      rw [collectionItems, DB.collectionOf, hcoll]
      rfl
    constructor
    · intro h
      exact ⟨h1 ▸ h.tags, h2 ▸ h.flowCollection, h.segmentDuration, h.metadataVersion⟩
    · intro h
      exact ⟨h1.symm ▸ h.tags, h2.symm ▸ h.flowCollection, h.segmentDuration, h.metadataVersion⟩
  have hid : r.id = id := Table.key_of_get hr
  rw [run_handler_getFlow hr, ← hkept]
  constructor
  · rintro ⟨f, hf, hret⟩
    cases hf
    exact kept_of_returned hc hid hret
  · intro hk
    exact ⟨_, rfl, returned_of_kept hc hid hk⟩

end

/-! ## Two bodies -/

def plainBody : FlowObject where
  id := 1
  sourceId := 2
  format := lit "urn:x-nmos:format:multi"
  label := some (lit "news")
  container := some (lit "video/mp4")
  generation := some 1
  metadataVersion := some (lit "7")

theorem plainBody_returned :
    ∃ resp d', (Handler.putFlow (fun _ => none) (some 1) (some plainBody)).run 0 DB.empty = (.ok resp, d') ∧
      ∃ f, (Handler.getFlow (some 1) none none).run 1 d' = (.ok (.ok f), d') ∧ plainBody.Returned f.object := by
  have hok : ((Handler.putFlow (fun _ => none) (some 1) (some plainBody)).run 0 DB.empty).1.isOk = true := by
    decide +kernel
  cases hput : (Handler.putFlow (fun _ => none) (some 1) (some plainBody)).run 0 DB.empty with
  | mk r d' =>
    rw [hput] at hok
    cases r with
    | error e => cases hok
    | ok resp =>
      refine ⟨resp, d', rfl, (putFlow_then_getFlow hput 1).mpr ⟨?_, ?_, rfl, ?_⟩⟩
      · exact fun x hx => by cases hx
      · exact fun x hx => by cases hx
      · rintro x hx
        cases hx
        exact ⟨7, by decide +kernel⟩

def taggedBody : FlowObject := { plainBody with tags := some [(lit "genre", lit "\"news\"")] }

def taggedStore : DB := ((Handler.putFlow (fun _ => none) (some 1) (some taggedBody)).run 0 DB.empty).2

def taggedFlow : FlowCommon where
  id := 1
  sourceId := 2
  format := lit "urn:x-nmos:format:multi"
  codec := none
  container := some (lit "video/mp4")
  label := some (lit "news")
  description := none
  tags := []
  essenceParameters := []
  containerMapping := []
  flowCollection := []
  avgBitRate := none
  maxBitRate := none
  generation := some 1
  metadataVersion := some (lit "7")
  readOnly := false
  created := 0
  metadataUpdated := 0
  segmentsUpdated := none
  timerange := none

/-- The tags of the body are not written: the flow that was created has none. -/
theorem taggedBody_loses_tags :
    (Handler.putFlow (fun _ => none) (some 1) (some taggedBody)).run 0 DB.empty =
        (.ok (.created taggedFlow), taggedStore) ∧
      (Handler.getFlow (some 1) none none).run 1 taggedStore = (.ok (.ok taggedFlow), taggedStore) ∧
      taggedBody.tags.isSome ∧ taggedFlow.object.tags = none := by
  decide +kernel

end OpenTams
