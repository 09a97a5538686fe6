import OpenTams.Calls
import OpenTams.Wp

/-!
# Statements and the rows they touch

How the row versions of a statement change the segments of a flow and the
segments on an object, what a statement that succeeds has checked, and the
shapes of the statements and bodies of the segment writers.
-/

namespace OpenTams

open Sql

@[simp] theorem write_eq (w : Write) (d : DB) : Writes.write w d = d.write w := rfl

/-! ## The first row of an order -/

section
variable {ρ : Type} {lt : ρ → ρ → Bool} {rows : List ρ} {r : ρ}

theorem firstBy_eq_none : firstBy lt rows = none ↔ rows = [] := by
  cases rows with
  | nil => simp [firstBy]
  | cons x xs =>
    simp only [firstBy, reduceCtorEq, iff_false]
    cases firstBy lt xs with
    | none => exact fun h => by cases h
    | some y => dsimp only; split <;> exact fun h => by cases h

theorem firstBy_mem (h : firstBy lt rows = some r) : r ∈ rows := by
  induction rows with
  | nil => cases h
  | cons x xs ih =>
    simp only [firstBy] at h
    cases hf : firstBy lt xs with
    | none => rw [hf] at h; cases h; exact List.mem_cons_self
    | some y =>
      rw [hf] at h
      dsimp only at h
      split at h
      · cases h; exact List.mem_cons_of_mem _ (ih hf)
      · cases h; exact List.mem_cons_self

theorem firstBy_le (key : ρ → ℤ) (hlt : ∀ a b, lt a b = true ↔ key a < key b) (h : firstBy lt rows = some r) :
    ∀ x ∈ rows, key r ≤ key x := by
  induction rows generalizing r with
  | nil => cases h
  | cons y ys ih =>
    simp only [firstBy] at h
    cases hf : firstBy lt ys with
    | none =>
      rw [hf] at h
      cases h
      rw [firstBy_eq_none.mp hf]
      exact List.forall_mem_singleton.mpr (Int.le_refl _)
    | some z =>
      rw [hf] at h
      dsimp only at h
      split at h
      · rename_i hz
        cases h
        exact List.forall_mem_cons.mpr ⟨Int.le_of_lt ((hlt _ _).mp hz), ih hf⟩
      · rename_i hz
        cases h
        rw [hlt, Int.not_lt] at hz
        exact List.forall_mem_cons.mpr ⟨Int.le_refl _, fun x hx => Int.le_trans hz (ih hf x hx)⟩

theorem firstBy_perm {γ : Type} {rows' : List ρ} (f : ρ → γ) (key : ρ → ℤ) (hlt : ∀ a b, lt a b = true ↔ key a < key b)
    (hkey : ∀ a b, f a = f b → key a = key b) (hinj : ∀ a ∈ rows, ∀ b ∈ rows, key a = key b → a = b)
    (hp : (rows.map f).Perm (rows'.map f)) : (firstBy lt rows).map f = (firstBy lt rows').map f := by
  have hlen : rows.length = rows'.length := by simpa using hp.length_eq
  cases hr : firstBy lt rows with
  | none =>
    rw [firstBy_eq_none.mp hr] at hlen
    rw [firstBy_eq_none.mpr (List.length_eq_zero_iff.mp hlen.symm)]
  | some r =>
    cases hr' : firstBy lt rows' with
    | none =>
      rw [firstBy_eq_none.mp hr'] at hlen
      rw [List.length_eq_zero_iff.mp hlen] at hr
      cases hr
    | some r' =>
      obtain ⟨x, hx, hxr⟩ := List.mem_map.mp (hp.mem_iff.mpr (List.mem_map_of_mem (firstBy_mem hr')))
      obtain ⟨y, hy, hyr⟩ := List.mem_map.mp (hp.mem_iff.mp (List.mem_map_of_mem (firstBy_mem hr)))
      have hle := firstBy_le key hlt hr x hx
      have hge := firstBy_le key hlt hr' y hy
      rw [hkey x r' hxr] at hle
      rw [hkey y r hyr] at hge
      have := hinj r (firstBy_mem hr) x hx (by rw [hkey x r' hxr]; omega)
      rw [Option.map_some, Option.map_some, this, hxr]

end

/-! ## Inserting a segment -/

theorem segments_putSegment {v : DB} {r : SegmentRow} (h : v.segments.get r.id = none) :
    (v.write (.putSegment r)).segments.rows = v.segments.rows ++ [r] :=
  Table.rows_put_new h

theorem segmentsOf_putSegment {v : DB} {r : SegmentRow} (h : v.segments.get r.id = none) (f : Uuid) :
    (v.write (.putSegment r)).segmentsOf f = v.segmentsOf f ++ if r.flowId = f then [r] else [] := by
  rw [DB.segmentsOf, segments_putSegment h, List.filter_append]
  congr 1
  by_cases hf : r.flowId = f <;> simp [hf]

theorem segmentsOn_putSegment {v : DB} {r : SegmentRow} (h : v.segments.get r.id = none) (o : Str) :
    (v.write (.putSegment r)).segmentsOn o = v.segmentsOn o ++ if r.objectId = o then [r] else [] := by
  rw [DB.segmentsOn, segments_putSegment h, List.filter_append]
  congr 1
  by_cases ho : r.objectId = o <;> simp [ho]

/-! ## Deleting segments -/

theorem writeAll_delSegment (v : DB) (rows : List SegmentRow) :
    writeAll (rows.map fun r => Write.delSegment r.id) v =
      { v with segments := v.segments.delAll (rows.map (·.id)) } := by
  induction rows generalizing v with
  | nil => rfl
  | cons r rows ih => rw [List.map_cons, writeAll_cons, ih]; rfl

theorem writeAll_delTag (v : DB) (rows : List TagRow) :
    writeAll (rows.map fun r => Write.delTag r.flowId r.name) v =
      { v with flowTags := v.flowTags.delAll (rows.map fun r => (r.flowId, r.name)) } := by
  induction rows generalizing v with
  | nil => rfl
  | cons r rows ih => rw [List.map_cons, writeAll_cons, ih]; rfl

theorem writeAll_delItem (v : DB) (rows : List CollectionRow) :
    writeAll (rows.map fun r => Write.delItem r.flowId r.itemId) v =
      { v with flowCollection := v.flowCollection.delAll (rows.map fun r => (r.flowId, r.itemId)) } := by
  induction rows generalizing v with
  | nil => rfl
  | cons r rows ih => rw [List.map_cons, writeAll_cons, ih]; rfl

theorem segmentsOf_filter (v : DB) (f : Uuid) (p : SegmentRow → Bool) :
    (v.segmentsOf f).filter p = v.segments.rows.filter fun r => decide (r.flowId = f) && p r := by
  simp only [DB.segmentsOf, List.filter_filter, Bool.and_comm]

theorem length_filter_split {ρ κ : Type} [DecidableEq κ] [BEq κ] [LawfulBEq κ] (f : ρ → κ) (k : κ) (p : ρ → Bool)
    (l : List ρ) :
    (l.filter fun r => f r = k).length =
      ((l.filter fun r => !p r).filter fun r => f r = k).length + ((l.filter p).map f).count k := by
  induction l with
  | nil => rfl
  | cons r l ih =>
    by_cases hk : f r = k <;> cases hp : p r <;> simp [hk, hp, ih] <;> omega

theorem rows_delSegments (v : DB) (f : Uuid) (p : SegmentRow → Bool) :
    (v.segments.delAll (((v.segmentsOf f).filter p).map (·.id))).rows =
      v.segments.rows.filter fun r => !(decide (r.flowId = f) && p r) := by
  rw [segmentsOf_filter]
  exact Table.rows_delAll_filter _ _

def DB.withoutFlow (v : DB) (id : Uuid) : DB :=
  { v with
    segments := v.segments.delAll ((v.segmentsOf id).map (·.id))
    flowTags := v.flowTags.delAll ((v.tagsOf id).map fun r => (r.flowId, r.name))
    flowCollection := v.flowCollection.delAll ((v.collectionOf id).map fun r => (r.flowId, r.itemId))
    flows := v.flows.del id }

theorem writeAll_deleteFlow (v : DB) (id : Uuid) :
    writeAll ((v.segmentsOf id).map (fun r => Write.delSegment r.id) ++
      (v.tagsOf id).map (fun r => Write.delTag r.flowId r.name) ++
      (v.collectionOf id).map (fun r => Write.delItem r.flowId r.itemId) ++ [Write.delFlow id]) v =
        v.withoutFlow id := by
  simp only [writeAll_append, writeAll_delSegment, writeAll_delTag, writeAll_delItem]
  rfl

/-! ## What an insert has checked -/

theorem constraintViolation_none {c : Constraints} {v : DB} {r : SegmentRow} (h : constraintViolation c v r = none) :
    v.segments.get r.id = none ∧ (v.flows.get r.flowId).isSome ∧ (v.objects.get r.objectId).isSome := by
  unfold constraintViolation at h
  split at h
  · cases h
  split at h
  · cases h
  rename_i hid
  split at h
  · cases h
  split at h
  · cases h
  split at h
  · cases h
  rename_i hfk
  simp only [Bool.or_eq_true, not_or, Option.isNone_iff_eq_none, ← Option.isSome_iff_ne_none] at hfk
  exact ⟨by simpa using hid, hfk.1, hfk.2⟩

theorem insertedRow_ok {c : Constraints} {i : Nat} {f : Uuid} {x : Segment × NsBounds} {now : Time} {v : DB}
    {r : SegmentRow} (h : insertedRow c i f x now v = .ok r) :
    ∃ lo hi, lowerParam x.2 = some lo ∧ upperParam x.2 = some hi ∧ r = segmentRow i f x.1 lo hi now ∧
      v.segments.get i = none ∧ (v.flows.get f).isSome ∧ (v.objects.get x.1.objectId).isSome := by
  unfold insertedRow at h
  split at h
  · cases h
  split at h
  · rename_i lo hi hlo hhi
    split at h
    · cases h
    · rename_i hc
      cases h
      exact ⟨lo, hi, hlo, hhi, rfl, constraintViolation_none hc⟩
  · cases h

theorem upsertedObject_id {st : Option Str} {o : Str} {v : DB} {r : ObjectRow} (h : upsertedObject st o v = .ok r) :
    r.id = o := by
  unfold upsertedObject at h
  split at h
  · cases h; rfl
  · rename_i x hx
    have hid : x.id = o := Table.key_of_get hx
    split at h
    · cases h
    split at h
    · cases h; exact hid
    · cases h

theorem segmentBounds_length {i : Nat} {segs : List Segment} {bs : List NsBounds} (h : segmentBounds i segs = .ok bs) :
    bs.length = segs.length := by
  induction segs generalizing i bs with
  | nil => cases h; rfl
  | cons s segs ih =>
    unfold segmentBounds at h
    split at h
    · cases h
    split at h
    · cases h
    split at h
    · cases h
    · rename_i bs' hbs
      cases h
      simp [ih hbs]

theorem checkBatch_length {batch : InsertBatch} {bs : List NsBounds} (h : checkBatch batch = .ok bs) :
    bs.length = batch.segments.length := by
  unfold checkBatch at h
  split at h
  · cases h
  · rename_i bounds hb
    split at h
    · cases h; exact segmentBounds_length hb
    · cases h

/-! ## Shapes -/

open Prog

theorem flat_checkGuard (op : String) (g : FlowGuard) : (checkGuard op g).Flat := by
  unfold checkGuard
  split
  · trivial
  · split <;> trivial

theorem flat_overlapCheck (f : Uuid) (i : Nat) (x : Segment × NsBounds) : (overlapCheck f i x).Flat :=
  flat_stmtE ..

theorem flat_registerObject (batch : InsertBatch) (i : Nat) (seg : Segment) : (registerObject batch i seg).Flat := by
  unfold registerObject
  split
  · trivial
  · exact flat_stmtE ..

theorem flat_checkObjectTimerange (i : Nat) (seg : Segment) : (checkObjectTimerange i seg).Flat := by
  unfold checkObjectTimerange
  split
  · trivial
  · exact flat_stmtE ..

theorem flat_insertSegment (c : Constraints) (nextval : Nat → Nat) (f : Uuid) (i : Nat) (x : Segment × NsBounds) :
    (insertSegment c nextval f i x).Flat :=
  flat_stmtE ..

theorem flat_subRefCount (name : Stmt) (m : Msg) (n : Nat) (o : Str) : (subRefCount name m n o).Flat :=
  flat_stmtE ..

theorem flat_refreshFlowTimerange (m : Msg) (f : Uuid) : (refreshFlowTimerange m f).Flat :=
  (flat_stmtE ..).bind fun _ => flat_stmt ..

theorem oneTx_insertBody (c : Constraints) (nextval : Nat → Nat) (batch : InsertBatch) (bounds : List NsBounds) :
    (insertBody c nextval batch bounds).OneTx :=
  (flat_stmt ..).bind_oneTx fun g => (flat_checkGuard _ g).bind_oneTx fun _ =>
    (flat_forEach (flat_overlapCheck _) _ _).bind_oneTx fun _ =>
    (flat_forEach (flat_registerObject _) _ _).bind_oneTx fun _ =>
    (flat_forEach flat_checkObjectTimerange _ _).bind_oneTx fun _ =>
    (flat_forEach (flat_insertSegment _ _ _) _ _).bind_oneTx fun _ =>
    (flat_refreshFlowTimerange _ _).bind_oneTx fun _ => oneTx_commitThen _ _ _

theorem oneTx_deleteBody (q : DeleteQuery) : (deleteBody q).OneTx := by
  refine (flat_stmt ..).bind_oneTx fun g => (flat_checkGuard _ g).bind_oneTx fun _ => ?_
  unfold deleteQueried
  split
  · trivial
  · trivial
  · exact (flat_stmt ..).bind_oneTx fun xs => (flat_forEach (fun _ _ => flat_subRefCount ..) _ _).bind_oneTx fun _ =>
      (flat_refreshFlowTimerange _ _).bind_oneTx fun _ => oneTx_commitThen _ _ _

/-! ## Statements that keep an invariant -/

section
variable {J : DB → Prop}

theorem keeps_checkGuard (op : String) (g : FlowGuard) : (checkGuard op g).Keeps J := by
  unfold checkGuard
  split
  · trivial
  · split <;> trivial

theorem keeps_overlapCheck (f : Uuid) (i : Nat) (x : Segment × NsBounds) : (overlapCheck f i x).Keeps J :=
  keeps_stmtE fun _ _ h => h

theorem keeps_checkObjectTimerange (i : Nat) (seg : Segment) : (checkObjectTimerange i seg).Keeps J := by
  unfold checkObjectTimerange
  split
  · trivial
  · exact keeps_stmtE fun _ _ h => h

variable {f : Uuid} (hflow : ∀ r v, r.id = f → J v → J (v.write (.putFlow r)))
include hflow

theorem keeps_refreshFlowTimerange (m : Msg) : (refreshFlowTimerange m f).Keeps J := by
  refine (keeps_stmtE fun _ _ h => h).bind fun span => keeps_stmt fun now v hv => ?_
  cases hg : v.flows.get f with
  | none => exact hv
  | some r =>
    have hid : r.id = f := Table.key_of_get hg
    exact hflow _ v hid hv

end

theorem keeps_updateFlowRow {J : DB → Prop} {f : Uuid} {u : Time → FlowRow → FlowRow}
    (hu : ∀ now r v, v.flows.get f = some r → J v → J (v.write (.putFlow (u now r)))) (name : Stmt) (e : Err) :
    (updateFlowRow name e f u).Keeps J := by
  refine keeps_stmt fun now v hv => ?_
  cases hg : v.flows.get f with
  | none => exact hv
  | some r => exact hu now r v hg hv

section
variable {J : DB → Prop}
  (hcount : ∀ r n v, v.objects.get r.id = some r → J v → J (v.write (.putObject { r with refCount := n })))
include hcount

theorem keeps_subRefCount (name : Stmt) (m : Msg) (n : Nat) (o : Str) : (subRefCount name m n o).Keeps J := by
  refine keeps_stmtE fun _ v hv => ?_
  cases hr : v.objects.get o with
  | none => exact hv
  | some r =>
    have hid : r.id = o := Table.key_of_get hr
    dsimp only
    split
    · exact hcount r _ v (hid.symm ▸ hr) hv
    · exact hv

theorem keeps_deleteFlow {id : Uuid} (hdel : ∀ v, J v → J (v.withoutFlow id)) : (deleteFlow id).Keeps J := by
  refine keeps_inTx (keeps_query.bind fun refs =>
    (keeps_forEach (fun _ _ => keeps_subRefCount hcount ..) _ _).bind fun _ =>
    (keeps_stmt fun _ v hv => ?_).bind fun found => ?_)
  · split
    · exact hv
    · rw [writeAll_deleteFlow]
      exact hdel v hv
  · split
    · exact keeps_commitThen
    · trivial

theorem keeps_deleteSegmentsByTimerange {q : DeleteQuery}
    (hflow : ∀ r v, r.id = q.flowId → J v → J (v.write (.putFlow r)))
    (hdel : ∀ lo hi v, queryBounds q.timerange = .ok (some (lo, hi)) → J v →
      J { v with segments :=
        v.segments.delAll (((v.segmentsOf q.flowId).filter (deleteMatches q lo hi)).map (·.id)) }) :
    (deleteSegmentsByTimerange q).Keeps J := by
  refine keeps_inTx ((keeps_stmt fun _ _ h => h).bind fun g => (keeps_checkGuard _ g).bind fun _ => ?_)
  unfold deleteQueried
  split
  · trivial
  · trivial
  · rename_i lo hi hq
    refine (keeps_stmt fun _ v hv => ?_).bind fun xs =>
      (keeps_forEach (fun _ _ => keeps_subRefCount hcount ..) _ _).bind fun _ =>
      (keeps_refreshFlowTimerange hflow _).bind fun _ => keeps_commitThen
    rw [writeAll_delSegment]
    exact hdel lo hi v hq hv

end

section
variable {J : DB → Prop} (hobj : ∀ r v, J v → J (v.write (.putObject r)))
include hobj

theorem keeps_registerObject (batch : InsertBatch) (i : Nat) (seg : Segment) :
    (registerObject batch i seg).Keeps J := by
  unfold registerObject
  split
  · trivial
  · refine keeps_stmtE fun _ v hv => ?_
    dsimp only
    split
    · exact hobj _ v hv
    · exact hv

theorem keeps_insertSegments {c : Constraints} {nextval : Nat → Nat} {batch : InsertBatch}
    (hflow : ∀ r v, r.id = batch.flowId → J v → J (v.write (.putFlow r)))
    (hins : ∀ r v, r.flowId = batch.flowId → v.segments.get r.id = none → (v.objects.get r.objectId).isSome → J v →
      J (v.write (.putSegment r))) :
    (insertSegments c nextval batch).Keeps J := by
  unfold insertSegments
  split
  · trivial
  refine keeps_inTx ((keeps_stmt fun _ _ h => h).bind fun g => (keeps_checkGuard _ g).bind fun _ =>
    (keeps_forEach (keeps_overlapCheck _) _ _).bind fun _ =>
      (keeps_forEach (keeps_registerObject hobj _) _ _).bind fun _ =>
    (keeps_forEach keeps_checkObjectTimerange _ _).bind fun _ => Keeps.bind ?_ fun _ =>
    (keeps_refreshFlowTimerange hflow _).bind fun _ => keeps_commitThen)
  refine keeps_forEach (fun i x => keeps_stmtE fun t v hv => ?_) _ _
  cases hi : insertedRow c (nextval i) batch.flowId x t v with
  | error e => exact hv
  | ok r =>
    obtain ⟨lo, hi', -, -, rfl, hid, -, hobj⟩ := insertedRow_ok hi
    exact hins _ v rfl hid hobj hv

end

/-! ## Metadata calls -/

/-- The calls that write neither segments nor objects and delete no flow. -/
def StoreCall.isMetadata : StoreCall → Bool
  | .deleteFlow _ => false
  | .insertSegments _ _ => false
  | .deleteSegmentsByTimerange _ => false
  | _ => true

def StoreCall.isUpsert : StoreCall → Bool
  | .upsertFlow _ => true
  | _ => false

def StoreCall.flowId : StoreCall → Uuid
  | .upsertFlow f => f.id
  | .insertSegments _ batch => batch.flowId
  | .deleteSegmentsByTimerange q => q.flowId
  | .deleteFlow id | .putFlowTag id _ _ | .deleteFlowTag id _ | .putFlowLabel id _ | .deleteFlowLabel id
  | .putFlowDescription id _ | .deleteFlowDescription id | .putFlowReadOnly id _ | .putFlowCollection id _
  | .deleteFlowCollection id | .putFlowAvgBitRate id _ | .deleteFlowAvgBitRate id | .putFlowMaxBitRate id _
  | .deleteFlowMaxBitRate id => id

def StoreCall.segmentFlow : StoreCall → Option Uuid
  | .insertSegments _ batch => some batch.flowId
  | .deleteSegmentsByTimerange q => some q.flowId
  | _ => none

structure KeptByMetadata (g : Uuid) (J : DB → Prop) : Prop where
  source : ∀ r v, J v → J (v.write (.putSource r))
  flow : ∀ r v, r.id = g → J v → J (v.write (.putFlow r))
  tag : ∀ r v, r.flowId = g → J v → J (v.write (.putTag r))
  delTag : ∀ n v, J v → J (v.write (.delTag g n))
  item : ∀ r v, r.flowId = g → J v → J (v.write (.putItem r))
  delItem : ∀ i v, J v → J (v.write (.delItem g i))

/-- What the writers of single fields leave of a flow's row. -/
def FlowRow.fixed (r : FlowRow) : Uuid × Uuid × Str × Option Str × Option Json × Option Str :=
  (r.id, r.sourceId, r.format, r.codec, r.essenceParameters, r.timerange)

structure KeptBySetters (g : Uuid) (J : DB → Prop) : Prop where
  flow : ∀ r r' v, v.flows.get g = some r → r'.fixed = r.fixed → J v → J (v.write (.putFlow r'))
  tag : ∀ r v, r.flowId = g → J v → J (v.write (.putTag r))
  delTag : ∀ n v, J v → J (v.write (.delTag g n))
  item : ∀ r v, r.flowId = g → J v → J (v.write (.putItem r))
  delItem : ∀ i v, J v → J (v.write (.delItem g i))

theorem FlowRow.id_of_fixed {r r' : FlowRow} (h : r'.fixed = r.fixed) : r'.id = r.id := congrArg (·.1) h

theorem KeptByMetadata.setters {g : Uuid} {J : DB → Prop} (h : KeptByMetadata g J) : KeptBySetters g J where
  flow _ r' v hr hf := h.flow r' v ((FlowRow.id_of_fixed hf).trans (Table.key_of_get hr))
  tag := h.tag
  delTag := h.delTag
  item := h.item
  delItem := h.delItem

def StoreCall.isSetter : StoreCall → Bool
  | .upsertFlow _ => false
  | x => x.isMetadata

section
variable {J : DB → Prop}

theorem keeps_requireWritable (b : Option Bool) : (requireWritable b).Keeps J := by
  rcases b with _ | _ | _ <;> trivial

theorem keeps_flowWritable (id : Uuid) : (flowWritable id).Keeps J :=
  keeps_query.bind keeps_requireWritable

theorem keeps_requireRow (b : Bool) : (requireRow b).Keeps J := by
  cases b <;> trivial

theorem keeps_createFlow {f : Flow} (hJ : KeptByMetadata f.id J) : (createFlow f).Keeps J := by
  refine keeps_query.bind fun src => Keeps.bind ?_ fun _ => keeps_stmtE fun now v hv => ?_
  · cases src with
    | none =>
      refine keeps_stmtE fun now v hv => ?_
      dsimp only
      split
      · exact hv
      · exact hJ.source _ v hv
    | some srcFormat =>
      simp only [ensureSource]
      split <;> trivial
  · dsimp only
    split
    · exact hv
    · exact hJ.flow _ v rfl hv

theorem keeps_updateFlow {f : Flow} (hJ : KeptByMetadata f.id J) (existing : Uuid × Str × Option Str) :
    (updateFlow f existing).Keeps J := by
  unfold updateFlow
  split
  · trivial
  split
  · trivial
  refine Keeps.bind ?_ fun _ => (keeps_updateFlowRow (fun now r v hr => ?_) _ _).bind fun _ => trivial
  swap
  · have hid : r.id = f.id := Table.key_of_get hr
    exact hJ.flow (updatedFlowRow f now r) v hid
  unfold checkCodec
  split
  · trivial
  · refine keeps_query.bind fun n => ?_
    split <;> trivial

theorem keeps_upsertFlow {f : Flow} (hJ : KeptByMetadata f.id J) : (upsertFlow f).Keeps J := by
  refine keeps_inTx (keeps_query.bind fun existing => ?_)
  cases existing with
  | none => exact (keeps_createFlow hJ).bind fun _ => keeps_commitThen
  | some x => exact (keeps_updateFlow hJ x).bind fun _ => keeps_commitThen

variable {id : Uuid} (hJ : KeptBySetters id J)
include hJ

theorem keeps_putFlowTag (name value : Str) : (putFlowTag id name value).Keeps J := by
  refine (keeps_flowWritable id).bind fun _ => keeps_stmtE fun now v hv => ?_
  dsimp only
  split
  · exact hv
  · exact hJ.tag _ v rfl hv

theorem keeps_deleteFlowTag (name : Str) : (deleteFlowTag id name).Keeps J := by
  refine (keeps_flowWritable id).bind fun _ => keeps_stmt fun now v hv => ?_
  split
  · exact hv
  · exact hJ.delTag _ v hv

theorem keeps_updateFlowField (x : FlowField) : (updateFlowField id x).Keeps J := by
  refine (keeps_flowWritable id).bind fun _ =>
    (keeps_updateFlowRow (fun now r v hr => hJ.flow r _ v hr ?_) _ _).bind keeps_requireRow
  cases x <;> rfl

theorem keeps_putFlowReadOnly (b : Bool) : (putFlowReadOnly id b).Keeps J := by
  refine (keeps_updateFlowRow (fun now r v hr => hJ.flow r _ v hr ?_) _ _).bind keeps_requireRow
  rfl

theorem keeps_clearCollection (name : Stmt) (e : Err) : (clearCollection name e id).Keeps J := by
  refine keeps_stmt fun now v hv => writeAll_rule (fun w hw d hd => ?_) hv
  obtain ⟨r, hr, rfl⟩ := List.mem_map.mp hw
  have hid : r.flowId = id := by simpa using (List.mem_filter.mp hr).2
  exact hid ▸ hJ.delItem _ d hd

theorem keeps_putFlowCollection (items : List CollectionItem) : (putFlowCollection id items).Keeps J := by
  refine keeps_inTx (keeps_query.bind fun b => (keeps_requireWritable b).bind fun _ =>
    (keeps_clearCollection hJ _ _).bind fun _ => Keeps.bind ?_ fun _ => keeps_commitThen)
  refine keeps_forEach (fun i ci => keeps_stmtE fun now v hv => ?_) 0 items
  dsimp only
  split
  · exact hv
  · exact hJ.item _ v rfl hv

theorem keeps_deleteFlowCollection : (deleteFlowCollection id).Keeps J :=
  (keeps_flowWritable id).bind fun _ => keeps_clearCollection hJ _ _

end

theorem keeps_setter {J : DB → Prop} (c : Constraints) {x : StoreCall} (hJ : KeptBySetters x.flowId J)
    (hx : x.isSetter = true) : (x.prog c).Keeps J := by
  cases x with
  | putFlowTag id name value => exact (keeps_putFlowTag hJ name value).bind fun _ => trivial
  | deleteFlowTag id name => exact (keeps_deleteFlowTag hJ name).bind fun _ => trivial
  | putFlowReadOnly id b => exact (keeps_putFlowReadOnly hJ b).bind fun _ => trivial
  | putFlowCollection id items => exact (keeps_putFlowCollection hJ items).bind fun _ => trivial
  | deleteFlowCollection id => exact (keeps_deleteFlowCollection hJ).bind fun _ => trivial
  | upsertFlow f => cases hx
  | deleteFlow id => cases hx
  | insertSegments nextval batch => cases hx
  | deleteSegmentsByTimerange q => cases hx
  | _ => exact (keeps_updateFlowField hJ _).bind fun _ => trivial

theorem keeps_metadata {J : DB → Prop} (c : Constraints) {x : StoreCall} (hJ : KeptByMetadata x.flowId J)
    (hx : x.isMetadata = true) : (x.prog c).Keeps J := by
  cases x with
  | upsertFlow f => exact (keeps_upsertFlow hJ).bind fun _ => trivial
  | _ => exact keeps_setter c hJ.setters hx

theorem replay_metadata {J : DB → Prop} (hJ : ∀ g, KeptByMetadata g J) {c : Constraints} {d : DB} (hd : J d)
    {h : List (StoreCall × Time)} (hm : ∀ x ∈ h, x.1.isMetadata = true) : J (replay (StoreCall.prog c) d h) :=
  replay_rule (C := fun _ x => x.isMetadata = true) (fun x t _ hv hx => (keeps_metadata c (hJ x.flowId) hx).run t hv) hd
    (meets_of_forall hm d)

/-! ## The guard of the segment writers -/

def Writable (f : Uuid) (d : DB) : Prop := (d.flows.get f).map (·.readOnly) = some false

instance (f : Uuid) (d : DB) : Decidable (Writable f d) :=
  inferInstanceAs (Decidable ((d.flows.get f).map (·.readOnly) = some false))

theorem writable_iff {f : Uuid} {d : DB} : Writable f d ↔ ∃ r, d.flows.get f = some r ∧ r.readOnly = false :=
  Option.map_eq_some_iff

theorem wp_guard {β : Type} {A : List Lock → DB → DB → Prop} {t : Time} {Q C : β → List Lock → DB → Prop} {op : String}
    {f : Uuid} {rest : Tx β} {ls : List Lock} {v : DB}
    (hA : ∀ v', A (ls ++ [.flow f]) v v' → v'.flows.get f = v.flows.get f)
    (h : ∀ r, v.flows.get f = some r → r.readOnly = false → Wp A t Q C rest (ls ++ [.flow f]) v) :
    Wp A t Q C (do let guard ← getFlowForSegmentWrite f; checkGuard op guard; rest) ls v := by
  cases hg : v.flows.get f with
  | none =>
    refine wp_dead ?_
    simp only [hg]
    trivial
  | some r =>
    cases hr : r.readOnly with
    | true =>
      refine wp_dead ?_
      simp only [hg, hr]
      trivial
    | false =>
      refine Wp.bind (wp_stmt (fun v' hv' => ?_) ?_)
      · have := hA v' (by simpa [hg, lockIf] using hv')
        simp only [this, and_self]
      · simpa [hg, hr, lockIf, checkGuard] using h r hg hr

end OpenTams
