import OpenTams.StoreSound

/-!
# Reference counts

`ref_count` counts the segments that reference an object. Inside a transaction
the count runs ahead of the segments or behind them; `RefsPlus e` says by how
much, and each statement moves `e`.
-/

namespace OpenTams

open Sql

/-! ## Counts that are off by a known amount -/

def DB.refs (d : DB) (o : Str) : ℤ := (d.segmentsOn o).length

/-- The count of every object is the number of its segments plus `e`, and every
object that is referenced or off has a row. -/
structure RefsPlus (e : Str → ℤ) (d : DB) : Prop where
  count : ∀ o r, d.objects.get o = some r → r.refCount = d.refs o + e o
  fk : ∀ s ∈ d.segments.rows, (d.objects.get s.objectId).isSome
  extra : ∀ o, e o ≠ 0 → (d.objects.get o).isSome

def RefExact (d : DB) : Prop := RefsPlus (fun _ => 0) d

def bump (e : Str → ℤ) (o : Str) (k : ℤ) (x : Str) : ℤ := if x = o then e x + k else e x

theorem refs_eq_zero {d : DB} {o : Str} (fk : ∀ s ∈ d.segments.rows, (d.objects.get s.objectId).isSome)
    (h : d.objects.get o = none) : d.refs o = 0 := by
  have : d.segmentsOn o = [] := by
    rw [DB.segmentsOn, List.filter_eq_nil_iff]
    intro s hs he
    have := fk s hs
    rw [of_decide_eq_true he, h] at this
    cases this
  simp [DB.refs, this]

namespace RefsPlus

variable {e : Str → ℤ} {v : DB}

theorem of_eq {v' : DB} (h : RefsPlus e v) (ho : v'.objects = v.objects) (hs : v'.segments = v.segments) :
    RefsPlus e v' := by
  have hr : ∀ o, v'.refs o = v.refs o := fun o => by simp only [DB.refs, DB.segmentsOn, hs]
  exact ⟨fun o r hg => by rw [hr]; exact h.count o r (ho ▸ hg), fun s hm => by rw [ho]; exact h.fk s (hs ▸ hm),
    fun o he => by rw [ho]; exact h.extra o he⟩

theorem congr {e' : Str → ℤ} (h : RefsPlus e v) (he : ∀ o, e' o = e o) : RefsPlus e' v := by
  rwa [show e' = e from funext he]

theorem put (h : RefsPlus e v) {o : Str} (r : ObjectRow) (hid : r.id = o) {k : ℤ}
    (hk : r.refCount = v.refs o + (e o + k)) : RefsPlus (bump e o k) (v.write (.putObject r)) := by
  have hrefs : ∀ x, (v.write (.putObject r)).refs x = v.refs x := fun _ => rfl
  have hget : ∀ x, (v.write (.putObject r)).objects.get x = if o = x then some r else v.objects.get x :=
    fun x => by rw [← hid]; exact Table.get_put v.objects r x
  refine ⟨fun x y hx => ?_, fun s hs => ?_, fun x hx => ?_⟩
  · rw [hget] at hx
    by_cases hox : o = x
    · subst hox
      rw [if_pos rfl] at hx
      cases hx
      simpa [bump, hrefs] using hk
    · rw [if_neg hox] at hx
      simpa [bump, hrefs, Ne.symm hox] using h.count x y hx
  · rw [hget]
    split
    · rfl
    · exact h.fk s hs
  · rw [hget]
    split
    · rfl
    · rename_i hox
      exact h.extra x (by simpa [bump, Ne.symm hox] using hx)

theorem upsert (h : RefsPlus e v) {st : Option Str} {o : Str} {r : ObjectRow} (hu : upsertedObject st o v = .ok r) :
    RefsPlus (bump e o 1) (v.write (.putObject r)) := by
  unfold upsertedObject at hu
  split at hu
  · rename_i hg
    cases hu
    have he : e o = 0 := by
      by_contra hne
      have := h.extra o hne
      rw [hg] at this
      cases this
    refine h.put _ ?_ ?_
    · rfl
    · simp [refs_eq_zero h.fk hg, he]
  · rename_i x hg
    split at hu
    · cases hu
    · split at hu
      · cases hu
        have hid : x.id = o := Table.key_of_get hg
        have hc := h.count o x hg
        refine h.put _ ?_ ?_
        · exact hid
        · simp only
          omega
      · cases hu

theorem sub (h : RefsPlus e v) {o : Str} {r : ObjectRow} (hg : v.objects.get o = some r) (n : ℕ) :
    RefsPlus (bump e o (-n)) (v.write (.putObject { r with refCount := r.refCount - n })) := by
  have hid : r.id = o := Table.key_of_get hg
  have hc := h.count o r hg
  refine h.put _ ?_ ?_
  · exact hid
  · simp only
    omega

theorem insert (h : RefsPlus e v) {r : SegmentRow} (hid : v.segments.get r.id = none)
    (hfk : (v.objects.get r.objectId).isSome) : RefsPlus (bump e r.objectId (-1)) (v.write (.putSegment r)) := by
  have hrefs : ∀ o, (v.write (.putSegment r)).refs o = v.refs o + if o = r.objectId then 1 else 0 := by
    intro o
    rw [DB.refs, segmentsOn_putSegment hid, List.length_append]
    by_cases ho : r.objectId = o
    · simp [DB.refs, ho]
    · simp [DB.refs, ho, Ne.symm ho]
  refine ⟨fun o x hx => ?_, fun s hs => ?_, fun o ho => ?_⟩
  · rw [hrefs, h.count o x hx, bump]
    split <;> omega
  · rw [segments_putSegment hid, List.mem_append, List.mem_singleton] at hs
    rcases hs with hs | rfl
    · exact h.fk s hs
    · exact hfk
  · by_cases he : o = r.objectId
    · rw [he]; exact hfk
    · exact h.extra o (by simpa [bump, he] using ho)

theorem delete (h : RefsPlus e v) (f : Uuid) (p : SegmentRow → Bool) :
    RefsPlus (fun o => e o + (((v.segmentsOf f).filter p).map (·.objectId)).count o)
      { v with segments := v.segments.delAll (((v.segmentsOf f).filter p).map (·.id)) } := by
  have hrows := rows_delSegments v f p
  have hrefs : ∀ o, v.refs o =
      DB.refs { v with segments := v.segments.delAll (((v.segmentsOf f).filter p).map (·.id)) } o +
      (((v.segmentsOf f).filter p).map (·.objectId)).count o := by
    intro o
    simp only [DB.refs, DB.segmentsOn, hrows]
    rw [length_filter_split (·.objectId) o fun r => decide (r.flowId = f) && p r, segmentsOf_filter]
    push_cast
    rfl
  refine ⟨fun o r hg => ?_, fun s hs => ?_, fun o ho => ?_⟩
  · have hc := h.count o r hg
    rw [hrefs] at hc
    omega
  · rw [hrows] at hs
    exact h.fk s (List.mem_of_mem_filter hs)
  · by_cases he : e o = 0
    · have hpos : 0 < (((v.segmentsOf f).filter p).map (·.objectId)).count o := by
        omega
      obtain ⟨s, hs, rfl⟩ := List.mem_map.mp (List.count_pos_iff.mp hpos)
      exact h.fk s (List.mem_of_mem_filter (List.mem_of_mem_filter hs))
    · exact h.extra o he

end RefsPlus

/-! ## InsertSegments -/

section
variable {t : Time} {ls : List Lock} {v : DB} {e : Str → ℤ}

theorem RefsPlus.putFlow {f : Uuid} (r : FlowRow) (v : DB) (_ : r.id = f) (h : RefsPlus e v) :
    RefsPlus e (v.write (.putFlow r)) :=
  h.of_eq rfl rfl

theorem wp_registerObject {batch : InsertBatch} {i : Nat} {seg : Segment} (h : RefsPlus e v) :
    Wp Alone t (fun _ _ v => RefsPlus (bump e seg.objectId 1) v) Never (registerObject batch i seg) ls v := by
  unfold registerObject
  split
  · trivial
  · rename_i st _
    refine wp_stmtE fun a ha => ⟨Alone.stable _ _, ?_⟩
    cases hu : upsertedObject st seg.objectId v with
    | ok r => simpa [hu] using h.upsert hu
    | error err => rw [hu] at ha; cases ha

/-- Step 3 counts every segment of the batch before it is there. -/
theorem wp_registerObjects {batch : InsertBatch} (segs : List Segment) (h : RefExact v) :
    Wp Alone t (fun _ _ v => RefsPlus (fun o => (segs.map (·.objectId)).count o) v) Never
      (Prog.forEach (registerObject batch) 0 segs) ls v := by
  refine wp_forEach_done (J := fun done _ v => RefsPlus (fun o => (done.map Segment.objectId).count o) v) ?_ ?_
  · intro seg done _ ls v _ hJ
    refine (wp_registerObject hJ).post fun _ _ v hJ => hJ.congr fun o => ?_
    simp only [bump, List.map_append, List.map_cons, List.map_nil, List.count_append, List.count_singleton]
    by_cases ho : o = seg.objectId
    · simp [ho]
    · simp [ho, Ne.symm ho]
  · exact h.congr fun o => by simp

/-- Step 4 adds the segments that were counted. -/
theorem wp_insertRows {c : Constraints} {nextval : Nat → Nat} {f : Uuid} (xs : List (Segment × NsBounds))
    (h : RefsPlus (fun o => (xs.map (·.1.objectId)).count o) v) :
    Wp Alone t (fun _ _ v => RefExact v) Never (Prog.forEach (insertSegment c nextval f) 0 xs) ls v := by
  refine (wp_forEach (J := fun _ rest _ v => RefsPlus (fun o => (rest.map (·.1.objectId)).count o) v) ?_ h).post ?_
  · intro i x rest ls v hJ
    refine wp_stmtE fun a ha => ⟨Alone.stable _ _, ?_⟩
    cases hi : insertedRow c (nextval i) f x t v with
    | error err => rw [hi] at ha; cases ha
    | ok r =>
      obtain ⟨lo, hi', -, -, rfl, hid, -, hobj⟩ := insertedRow_ok hi
      simp only [writeAll_cons, writeAll_nil, write_eq]
      refine (hJ.insert (r := segmentRow (nextval i) f x.1 lo hi' t) hid hobj).congr fun o => ?_
      simp only [bump, segmentRow, List.map_cons, List.count_cons]
      by_cases ho : o = x.1.objectId
      · simp only [ho, beq_self_eq_true, if_true]
        push_cast
        omega
      · simp [ho, Ne.symm ho]
  · intro _ _ v hJ
    exact hJ.congr fun o => by simp

theorem wp_insertBody {c : Constraints} {nextval : Nat → Nat} {batch : InsertBatch} {bounds : List NsBounds}
    (hl : bounds.length = batch.segments.length) (h : RefExact v) :
    Wp Alone t (fun _ _ _ => True) (fun _ _ v => RefExact v) (insertBody c nextval batch bounds) ls v := by
  refine wp_guard (fun _ he => by rw [he]) fun _ _ _ => ?_
  refine Wp.seq ((Prog.keeps_forEach (keeps_overlapCheck _) _ _).wp
    (Prog.flat_forEach (flat_overlapCheck _) _ _) h) fun _ ls v h => ?_
  refine Wp.seq (wp_registerObjects _ h) fun _ ls v h => ?_
  refine Wp.seq ((Prog.keeps_forEach keeps_checkObjectTimerange _ _).wp
    (Prog.flat_forEach flat_checkObjectTimerange _ _) h) fun _ ls v h => ?_
  have hmap : (batch.segments.zip bounds).map (·.1.objectId) = batch.segments.map (·.objectId) := by
    have := congrArg (List.map (·.objectId))
      (List.map_fst_zip (show batch.segments.length ≤ bounds.length by omega))
    rwa [List.map_map] at this
  refine Wp.seq (wp_insertRows _ (by rw [hmap]; exact h)) fun _ ls v h => ?_
  refine Wp.seq ((keeps_refreshFlowTimerange RefsPlus.putFlow _).wp (flat_refreshFlowTimerange _ _) h)
    fun _ ls v h => ?_
  exact wp_commitThen h

theorem insertSegments_refs {c : Constraints} {nextval : Nat → Nat} {batch : InsertBatch} (h : RefExact v) :
    RefExact ((insertSegments c nextval batch).run t v).2 := by
  unfold insertSegments
  split
  · exact h
  · rename_i bounds hb
    exact (wp_insertBody (checkBatch_length hb) h).run_inTx_keeps h

/-! ## DeleteSegmentsByTimerange -/

theorem wp_subRefCount {name : Stmt} {m : Msg} {n : Nat} {o : Str} (h : RefsPlus e v)
    (hrow : (v.objects.get o).isSome) :
    Wp Alone t (fun _ _ v' => RefsPlus (bump e o (-n)) v' ∧ v'.segments = v.segments) Never
      (subRefCount name m n o) ls v := by
  obtain ⟨r, hg⟩ := Option.isSome_iff_exists.mp hrow
  refine wp_stmtE fun a ha => ⟨Alone.stable _ _, ?_⟩
  simp only [hg] at ha ⊢
  split at ha
  · rename_i hfit
    simp only [hfit, if_true]
    exact ⟨h.sub hg n, rfl⟩
  · cases ha

theorem wp_decrements {k : Str → ℕ} {os : List Str} (hos : os.Nodup) (hpos : ∀ o ∈ os, 0 < k o)
    (h : RefsPlus (fun o => if o ∈ os then k o else 0) v) :
    Wp Alone t (fun _ _ v => RefExact v) Never
      (Prog.forEach decrementRefCount 0 (os.map fun o => (o, k o))) ls v := by
  refine (wp_forEach (J := fun _ rest _ v => ∃ os : List Str, os.Nodup ∧ (∀ o ∈ os, 0 < k o) ∧
    rest = os.map (fun o => (o, k o)) ∧ RefsPlus (fun o => if o ∈ os then k o else 0) v) ?_
    ⟨os, hos, hpos, rfl, h⟩).post ?_
  · rintro i ⟨o, n⟩ rest ls v ⟨os, hnd, hpos, hrest, hJ⟩
    cases os with
    | nil => cases hrest
    | cons o' os =>
      simp only [List.map_cons, List.cons.injEq, Prod.mk.injEq] at hrest
      obtain ⟨⟨rfl, rfl⟩, rfl⟩ := hrest
      obtain ⟨hno, hnd⟩ := List.nodup_cons.mp hnd
      have hpo := hpos o List.mem_cons_self
      have hrow := hJ.extra o (by simp; omega)
      refine (wp_subRefCount hJ hrow).post fun _ _ v' hv' =>
        ⟨os, hnd, fun x hx => hpos x (List.mem_cons_of_mem _ hx), rfl, hv'.1.congr fun x => ?_⟩
      by_cases hx : x = o
      · subst hx
        simp only [bump, hno, List.mem_cons_self, if_true, if_false]
        omega
      · simp [bump, hx]
  · rintro _ _ v ⟨os, -, -, hrest, hJ⟩
    have : os = [] := List.map_eq_nil_iff.mp hrest.symm
    subst this
    exact hJ.congr fun o => by simp

theorem wp_deleteWithin {q : DeleteQuery} {lo hi : Option Int64} (h : RefExact v) :
    Wp Alone t (fun _ _ _ => True) (fun _ _ v => RefExact v) (deleteWithin q lo hi) ls v := by
  have hdel := h.delete q.flowId (deleteMatches q lo hi)
  refine Wp.bind (wp_stmt (Alone.stable _ _) ?_)
  simp only [writeAll_delSegment, groupCounts]
  generalize ((v.segmentsOf q.flowId).filter (deleteMatches q lo hi)) = rows at hdel ⊢
  refine Wp.seq (wp_decrements (k := fun o => (rows.map (·.objectId)).count o) (List.nodup_dedup _) ?_
    (hdel.congr fun o => ?_)) fun _ ls v h => ?_
  · intro o ho
    exact List.count_pos_iff.mpr (List.mem_dedup.mp ho)
  · by_cases ho : o ∈ rows.map (·.objectId)
    · simp [ho]
    · simp [ho, List.count_eq_zero_of_not_mem ho]
  · refine Wp.seq ((keeps_refreshFlowTimerange RefsPlus.putFlow _).wp (flat_refreshFlowTimerange _ _) h)
      fun _ ls v h => ?_
    exact wp_commitThen h

theorem deleteSegmentsByTimerange_refs {q : DeleteQuery} (h : RefExact v) :
    RefExact ((deleteSegmentsByTimerange q).run t v).2 := by
  have hwp : Wp Alone t (fun _ _ _ => True) (fun _ _ v => RefExact v) (deleteBody q) [] v := by
    refine wp_guard (fun _ he => by rw [he]) fun _ _ _ => ?_
    unfold deleteQueried
    split
    · trivial
    · trivial
    · exact wp_deleteWithin h
  exact hwp.run_inTx_keeps h

/-! ## DeleteFlow -/

def DB.ObjectsOnce (d : DB) (f : Uuid) : Prop := ((d.segmentsOf f).map (·.objectId)).Nodup

instance (d : DB) (f : Uuid) : Decidable (d.ObjectsOnce f) :=
  inferInstanceAs (Decidable ((d.segmentsOf f).map (·.objectId)).Nodup)

theorem wp_deleteFlowDecrements {refs : List Str} (hnd : refs.Nodup)
    (hrow : ∀ o ∈ refs, ∃ s ∈ v.segments.rows, s.objectId = o) (h : RefExact v) :
    Wp Alone t (fun _ _ v' => RefsPlus (fun o => if o ∈ refs then -1 else 0) v' ∧ v'.segments = v.segments) Never
      (Prog.forEach deleteFlowDecrement 0 refs) ls v := by
  refine wp_forEach_done (J := fun done _ v' => RefsPlus (fun o => if o ∈ done then -1 else 0) v' ∧
    v'.segments = v.segments) ?_ ⟨h.congr fun o => by simp, rfl⟩
  rintro o done rest ls v' rfl ⟨hJ, hseg⟩
  obtain ⟨s, hs, hso⟩ := hrow o (by simp)
  have hobj : (v'.objects.get o).isSome := hso ▸ hJ.fk s (hseg ▸ hs)
  have hno : o ∉ done := fun hm => (List.nodup_append.mp hnd).2.2 o hm o List.mem_cons_self rfl
  refine (wp_subRefCount hJ hobj).post fun _ _ v'' hv'' => ⟨hv''.1.congr fun x => ?_, hv''.2.trans hseg⟩
  by_cases hx : x = o
  · subst hx
    simp [bump, hno]
  · simp [bump, hx]

/-- The cascade removes the references that were taken off, if each stood for one segment. -/
theorem RefsPlus.withoutFlow {id : Uuid}
    (h : RefsPlus (fun o => if o ∈ ((v.segmentsOf id).map (·.objectId)) then -1 else 0) v)
    (honce : v.ObjectsOnce id) : RefExact (v.withoutFlow id) := by
  have hdel := h.delete id fun _ => true
  rw [List.filter_true] at hdel
  refine (hdel.congr fun o => ?_).of_eq rfl rfl
  by_cases ho : o ∈ (v.segmentsOf id).map (·.objectId)
  · simp [ho, List.count_eq_one_of_mem honce ho]
  · simp [ho, List.count_eq_zero_of_not_mem ho]

theorem deleteFlow_refs {id : Uuid} (h : RefExact v) (honce : v.ObjectsOnce id) :
    RefExact ((deleteFlow id).run t v).2 := by
  have hwp : Wp Alone t (fun _ _ _ => True) (fun _ _ v => RefExact v) (deleteFlowBody id) [] v := by
    refine Wp.bind (wp_query (fun _ he => by rw [he]) ?_)
    refine Wp.seq (wp_deleteFlowDecrements (List.nodup_dedup _) ?_ h) ?_
    · intro o ho
      obtain ⟨s, hs, hso⟩ := List.mem_map.mp (List.mem_dedup.mp ho)
      exact ⟨s, List.mem_of_mem_filter hs, hso⟩
    · rintro _ ls v' ⟨hv', hseg⟩
      have hof : v'.segmentsOf id = v.segmentsOf id := by rw [DB.segmentsOf, hseg]; rfl
      cases hg : v'.flows.get id with
      | none =>
        refine wp_dead ?_
        simp only [hg]
        trivial
      | some r =>
        refine Wp.bind (wp_stmt (Alone.stable _ _) ?_)
        simp only [hg, Option.isNone_some, Option.isSome_some, Bool.false_eq_true, if_false, if_true]
        refine wp_commitThen ?_
        rw [writeAll_deleteFlow]
        refine RefsPlus.withoutFlow ?_ ?_
        · rw [hof]
          exact hv'.congr fun o => by simp only [List.mem_dedup]
        · rw [DB.ObjectsOnce, hof]
          exact honce
  exact hwp.run_inTx_keeps h

/-! ## Runs -/

theorem refsPlus_keptByMetadata (g : Uuid) : KeptByMetadata g (RefsPlus e) where
  source _ _ h := h.of_eq rfl rfl
  flow := RefsPlus.putFlow
  tag _ _ _ h := h.of_eq rfl rfl
  delTag _ _ h := h.of_eq rfl rfl
  item _ _ _ h := h.of_eq rfl rfl
  delItem _ _ h := h.of_eq rfl rfl

/-- A flow is deleted only while none of its objects is referenced by two of its segments. -/
def DeletesOnce (d : DB) : StoreCall → Prop
  | .deleteFlow f => d.ObjectsOnce f
  | _ => True

instance (d : DB) (x : StoreCall) : Decidable (DeletesOnce d x) := by
  cases x <;> unfold DeletesOnce <;> infer_instance

theorem call_refs {c : Constraints} (x : StoreCall) (t : Time) (d : DB) (h : RefExact d) (hx : DeletesOnce d x) :
    RefExact ((x.prog c).run t d).2 := by
  cases hm : x.isMetadata with
  | true => exact (keeps_metadata c (refsPlus_keptByMetadata _) hm).run t h
  | false =>
    cases x with
    | deleteFlow id =>
      simp only [StoreCall.prog, Prog.run_map]
      exact deleteFlow_refs h hx
    | insertSegments nextval batch =>
      simp only [StoreCall.prog, Prog.run_map]
      exact insertSegments_refs h
    | deleteSegmentsByTimerange q =>
      simp only [StoreCall.prog, Prog.run_map]
      exact deleteSegmentsByTimerange_refs h
    | _ => cases hm

theorem refExact_empty : RefExact DB.empty where
  count _ _ h := by cases h
  fk _ h := by cases h
  extra _ h := absurd rfl h

/-- **Reference counts.** In every run from an empty store that deletes a flow only
while none of its objects is referenced twice by it, every `ref_count` is the number
of segments on the object. -/
theorem refCount_exact {c : Constraints} {h : List (StoreCall × Time)}
    (hm : Meets (StoreCall.prog c) DeletesOnce DB.empty h) :
    ∀ r ∈ (replay (StoreCall.prog c) DB.empty h).objects.rows,
      r.refCount = ((replay (StoreCall.prog c) DB.empty h).segmentsOn r.id).length ∧ 0 ≤ r.refCount := by
  intro r hr
  have hd : RefExact (replay (StoreCall.prog c) DB.empty h) := replay_rule call_refs refExact_empty hm
  have hc := hd.count r.id r (Table.get_of_mem hr)
  simp only [DB.refs] at hc
  omega

def sampleFlow : Flow := { id := 1, sourceId := 2, format := lit "urn:x-nmos:format:video" }

def oneFlow : DB := replay (StoreCall.prog {}) DB.empty [(.upsertFlow sampleFlow, 0)]

def sampleSegment (o r : String) (start stop : Int64) : Segment where
  objectId := lit o
  timerange := ⟨some ⟨start, 0⟩, .inclusive, some ⟨stop, 0⟩, .exclusive⟩
  timerangeRaw := lit r

def sharedBatch : InsertBatch where
  flowId := 1
  segments := [sampleSegment "o" "[0:0_1:0)" 0 1, sampleSegment "o" "[1:0_2:0)" 1 2]
  controlledStorageId := lit "default"

def sharedRun : List (StoreCall × Time) :=
  [(.upsertFlow sampleFlow, 0), (.insertSegments id sharedBatch, 1), (.deleteFlow 1, 2)]

/-- The delete takes one reference off an object that the flow references twice: the
count stays at one with no segment left. -/
theorem refCount_after_sharedRun :
    (answers (StoreCall.prog {}) DB.empty sharedRun).all Except.isOk = true ∧
    (replay (StoreCall.prog {}) DB.empty sharedRun).objects.rows = [⟨lit "o", 1, some (lit "default"), false⟩] ∧
    (replay (StoreCall.prog {}) DB.empty sharedRun).segments.rows = [] := by
  decide +kernel

def trimmedRun : List (StoreCall × Time) :=
  [(.upsertFlow sampleFlow, 0), (.insertSegments id sharedBatch, 1),
    (.deleteSegmentsByTimerange ⟨1, ⟨some ⟨1, 0⟩, .inclusive, none, .unbounded⟩, none⟩, 2), (.deleteFlow 1, 3)]

theorem refCount_after_trimmedRun :
    Meets (StoreCall.prog {}) DeletesOnce DB.empty trimmedRun ∧
    ∀ r ∈ (replay (StoreCall.prog {}) DB.empty trimmedRun).objects.rows,
      r.refCount = ((replay (StoreCall.prog {}) DB.empty trimmedRun).segmentsOn r.id).length ∧ 0 ≤ r.refCount := by
  have hm : Meets (StoreCall.prog {}) DeletesOnce DB.empty trimmedRun := by decide +kernel
  exact ⟨hm, refCount_exact hm⟩

end

end OpenTams
