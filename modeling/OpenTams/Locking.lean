import OpenTams.Serial
import OpenTams.StoreSound

/-!
# What the row locks of the store protect

The lock on a flow row protects the row and the flow's segments, the lock on an
object the object and the segments on it. `InsertSegments` and
`DeleteSegmentsByTimerange` take the flow's lock before they read segments and
the lock of every object whose segments they change, so both are well locked.
-/

namespace OpenTams

open Sql

/-! ## The guard -/

def Lock.Same : Lock → DB → DB → Prop
  | .source id, d, d' => d.sources.get id = d'.sources.get id
  | .sourceTag i n, d, d' => d.sourceTags.get (i, n) = d'.sourceTags.get (i, n)
  | .flow id, d, d' => d.flows.get id = d'.flows.get id ∧ d.segmentsOf id = d'.segmentsOf id
  | .tag f n, d, d' => d.flowTags.get (f, n) = d'.flowTags.get (f, n)
  | .item f i, d, d' => d.flowCollection.get (f, i) = d'.flowCollection.get (f, i)
  | .object o, d, d' => d.objects.get o = d'.objects.get o ∧ d.segmentsOn o = d'.segmentsOn o
  | .segment i, d, d' => d.segments.get i = d'.segments.get i
  | .key k, d, d' => d.idempotencyKeys.get k = d'.idempotencyKeys.get k

theorem Lock.Same.refl (ℓ : Lock) (d : DB) : ℓ.Same d d := by
  cases ℓ <;> simp only [Lock.Same, and_self]

theorem Lock.Same.trans {ℓ : Lock} {d₁ d₂ d₃ : DB} (h : ℓ.Same d₁ d₂) (h' : ℓ.Same d₂ d₃) : ℓ.Same d₁ d₃ := by
  cases ℓ <;> simp_all only [Lock.Same, and_self]

theorem Lock.Same.write {ℓ : Lock} {d d' : DB} (w : Write) (h : ℓ.Same d d') : ℓ.Same (d.write w) (d'.write w) := by
  cases ℓ <;> cases w <;>
    simp_all only [Lock.Same, DB.write, DB.segmentsOf, DB.segmentsOn, Table.get_put, Table.get_del, Table.filter_put,
      Table.filter_del, and_self]

def storeGuard : Guard DB Write Lock where
  same := Lock.Same
  refl := Lock.Same.refl
  trans := Lock.Same.trans
  congr w h := h.write w

/-! ## What a row version changes -/

theorem within_putFlow (r : FlowRow) (v : DB) : storeGuard.Within [.flow r.id] v (v.write (.putFlow r)) := by
  intro ℓ hℓ
  cases ℓ with
  | flow id =>
    have hne : r.id ≠ id := fun e => hℓ (by simp [e])
    exact ⟨(Table.get_put_ne _ hne).symm, rfl⟩
  | _ => first | rfl | exact ⟨rfl, rfl⟩

theorem within_putObject (r : ObjectRow) (v : DB) : storeGuard.Within [.object r.id] v (v.write (.putObject r)) := by
  intro ℓ hℓ
  cases ℓ with
  | object o =>
    have hne : r.id ≠ o := fun e => hℓ (by simp [e])
    exact ⟨(Table.get_put_ne _ hne).symm, rfl⟩
  | _ => first | rfl | exact ⟨rfl, rfl⟩

theorem within_putSegment {r : SegmentRow} {v : DB} (hid : v.segments.get r.id = none) :
    storeGuard.Within [.flow r.flowId, .object r.objectId, .segment r.id] v (v.write (.putSegment r)) := by
  intro ℓ hℓ
  cases ℓ with
  | flow f =>
    have hne : r.flowId ≠ f := fun e => hℓ (by simp [e])
    exact ⟨rfl, by simp [segmentsOf_putSegment hid, hne]⟩
  | object o =>
    have hne : r.objectId ≠ o := fun e => hℓ (by simp [e])
    exact ⟨rfl, by simp [segmentsOn_putSegment hid, hne]⟩
  | segment i =>
    have hne : r.id ≠ i := fun e => hℓ (by simp [e])
    exact (Table.get_put_ne _ hne).symm
  | _ => rfl

theorem within_delSegments {f : Uuid} {rows : List SegmentRow} {v : DB} (hrows : ∀ r ∈ rows, r ∈ v.segmentsOf f) :
    storeGuard.Within (.flow f :: rows.map (fun r => .segment r.id) ++ rows.map fun r => .object r.objectId) v
      (writeAll (rows.map fun r => Write.delSegment r.id) v) := by
  have hmem : ∀ r ∈ rows, r ∈ v.segments.rows ∧ r.flowId = f := fun r hr => by simpa [DB.segmentsOf] using hrows r hr
  -- a class of rows that holds none of the deleted ones keeps its rows
  have hkeep : ∀ p : SegmentRow → Bool, (∀ r ∈ rows, p r = false) →
      v.segments.rows.filter p = (v.segments.delAll (rows.map (·.id))).rows.filter p := by
    intro p hp
    rw [Table.rows_delAll, List.filter_filter]
    refine List.filter_congr fun x hx => ?_
    cases hpx : p x with
    | false => rfl
    | true =>
      have : x.id ∉ rows.map (·.id) := fun hm => by
        obtain ⟨r, hr, he⟩ := List.mem_map.mp hm
        rw [← Table.eq_of_mem (hmem r hr).1 hx he, hp r hr] at hpx
        cases hpx
      simp [this]
  rw [writeAll_delSegment]
  intro ℓ hℓ
  simp only [List.cons_append, List.mem_cons, List.mem_append, List.mem_map, not_or, not_exists, not_and] at hℓ
  obtain ⟨hflow, hseg, hobj⟩ := hℓ
  cases ℓ with
  | flow f' =>
    have hne : f ≠ f' := fun e => hflow (by rw [e])
    exact ⟨rfl, hkeep _ fun r hr => by simpa [(hmem r hr).2] using hne⟩
  | object o => exact ⟨rfl, hkeep _ fun r hr => by simpa using fun e => hobj r hr (by rw [e])⟩
  | segment i =>
    refine (Table.get_delAll_ne v.segments fun hm => ?_).symm
    obtain ⟨r, hr, he⟩ := List.mem_map.mp hm
    exact hseg r hr (by rw [he])
  | _ => rfl

/-! ## InsertSegments -/

/-- A transaction that began on `d` and sees `v` holds the flow and the objects `os`, and
has changed only what its locks protect. -/
structure Held (f : Uuid) (os : List Str) (ls : List Lock) (d v : DB) : Prop where
  flow : Lock.flow f ∈ ls
  objects : ∀ o ∈ os, Lock.object o ∈ ls
  within : storeGuard.Within ls d v

section
variable {R : Rely DB Write} {t : Time} {f : Uuid} {os : List Str} {ls locks : List Lock} {d v v' : DB}

theorem Held.extend (h : Held f os ls d v) (hw : storeGuard.Within (ls ++ locks) v v') :
    Held f os (ls ++ locks) d v' where
  flow := List.mem_append_left _ h.flow
  objects o ho := List.mem_append_left _ (h.objects o ho)
  within := (h.within.mono fun _ hm => List.mem_append_left _ hm).trans hw

theorem Held.add {o : Str} (h : Held f os (ls ++ [.object o]) d v) : Held f (os ++ [o]) (ls ++ [.object o]) d v where
  flow := h.flow
  objects o' ho := by
    rcases List.mem_append.mp ho with ho | ho
    · exact h.objects o' ho
    · rw [List.mem_singleton.mp ho]
      exact List.mem_append_right _ (List.mem_singleton_self _)
  within := h.within

theorem same_flow (hs : storeGuard.Stable R ls v v') (h : Lock.flow f ∈ ls) :
    v'.flows.get f = v.flows.get f ∧ v'.segmentsOf f = v.segmentsOf f :=
  ⟨(hs.1 _ h).1.symm, (hs.1 _ h).2.symm⟩

theorem same_object {o : Str} (hs : storeGuard.Stable R ls v v') (h : Lock.object o ∈ ls) :
    v'.objects.get o = v.objects.get o ∧ v'.segmentsOn o = v.segmentsOn o :=
  ⟨(hs.1 _ h).1.symm, (hs.1 _ h).2.symm⟩

theorem held_overlapCheck {i : Nat} {x : Segment × NsBounds} (h : Held f os ls d v) :
    Wp (storeGuard.Stable R) t (fun _ ls v => Held f os ls d v) Never (overlapCheck f i x) ls v := by
  refine wp_stmtE fun _ _ => ⟨fun v' hv' => ⟨rfl, ?_⟩, h.extend (.refl _ _ _)⟩
  simp only [overlapProbe, (same_flow hv' (List.mem_append_left _ h.flow)).2]

theorem held_registerObject {batch : InsertBatch} {i : Nat} {seg : Segment} (h : Held f os ls d v) :
    Wp (storeGuard.Stable R) t (fun _ ls v => Held f (os ++ [seg.objectId]) ls d v) Never
      (registerObject batch i seg) ls v := by
  unfold registerObject
  split
  · trivial
  rename_i st _
  refine wp_stmtE fun a ha => ⟨fun v' hv' => ?_, ?_⟩
  · have : upsertedObject st seg.objectId v' = upsertedObject st seg.objectId v := by
      simp only [upsertedObject, (same_object hv' (List.mem_append_right _ (List.mem_singleton_self _))).1]
    simp only [this, and_self]
  · refine Held.add (h.extend ?_)
    cases hu : upsertedObject st seg.objectId v with
    | error e => exact .refl _ _ _
    | ok r => exact (upsertedObject_id hu ▸ within_putObject r v).mono fun _ hm => List.mem_append_right _ hm

theorem held_checkObjectTimerange {i : Nat} {seg : Segment} (ho : seg.objectId ∈ os) (h : Held f os ls d v) :
    Wp (storeGuard.Stable R) t (fun _ ls v => Held f os ls d v) Never (checkObjectTimerange i seg) ls v := by
  unfold checkObjectTimerange
  split
  · exact h
  refine wp_stmtE fun _ _ => ⟨fun v' hv' => ⟨rfl, ?_⟩, h.extend (.refl _ _ _)⟩
  simp only [storedObjectTimerange, (same_object hv' (List.mem_append_left _ (h.objects _ ho))).2]

theorem held_insertSegment {c : Constraints} {nextval : Nat → Nat} {i : Nat} {x : Segment × NsBounds}
    (ho : x.1.objectId ∈ os) (h : Held f os ls d v) :
    Wp (storeGuard.Stable R) t (fun _ ls v => Held f os ls d v) Never (insertSegment c nextval f i x) ls v := by
  refine wp_stmtE fun a ha => ⟨fun v' hv' => ?_, h.extend ?_⟩
  · have hf := same_flow hv' (List.mem_append_left _ h.flow)
    have hobj := same_object hv' (List.mem_append_left _ (h.objects _ ho))
    have hid : v.segments.get (nextval i) = v'.segments.get (nextval i) :=
      hv'.1 (.segment (nextval i)) (List.mem_append_right _ (List.mem_singleton_self _))
    have : insertedRow c (nextval i) f x t v' = insertedRow c (nextval i) f x t v := by
      simp only [insertedRow, constraintViolation, segmentRow, hf.1, hf.2, hobj.1, hid]
      rfl
    simp only [this, and_self]
  · cases hi : insertedRow c (nextval i) f x t v with
    | error e => exact .refl _ _ _
    | ok r =>
      obtain ⟨lo, hi', -, -, rfl, hid, -, -⟩ := insertedRow_ok hi
      refine (within_putSegment (r := segmentRow (nextval i) f x.1 lo hi' t) hid).mono fun ℓ hm => ?_
      simp only [segmentRow, List.mem_cons, List.not_mem_nil, or_false] at hm
      rcases hm with rfl | rfl | rfl
      · exact List.mem_append_left _ h.flow
      · exact List.mem_append_left _ (h.objects _ ho)
      · exact List.mem_append_right _ (List.mem_singleton_self _)

theorem held_setFlowSpan {m : Msg} {span : Option Str} (h : Held f os ls d v) :
    Wp (storeGuard.Stable R) t (fun _ ls v => Held f os ls d v) Never (setFlowSpan m f span) ls v := by
  refine wp_stmt (fun v' hv' => ?_) (h.extend ?_)
  · simp only [(same_flow hv' (List.mem_append_left _ h.flow)).1, and_self]
  · cases hg : v.flows.get f with
    | none => exact Guard.Within.refl storeGuard _ v
    | some r =>
      have hid : r.id = f := Table.key_of_get hg
      have hw := within_putFlow { r with segmentsUpdated := some t, timerange := span } v
      refine hw.mono fun ℓ hm => ?_
      rw [List.mem_singleton.mp hm]
      exact List.mem_append_left _ (hid ▸ h.flow)

theorem held_refreshFlowTimerange {m : Msg} (h : Held f os ls d v) :
    Wp (storeGuard.Stable R) t (fun _ ls v => Held f os ls d v) Never (refreshFlowTimerange m f) ls v := by
  refine Wp.bind (wp_stmtE fun span _ => ⟨fun v' hv' => ⟨rfl, ?_⟩, held_setFlowSpan (h.extend (.refl _ _ _))⟩)
  simp only [spanRows, (same_flow hv' (List.mem_append_left _ h.flow)).2]

theorem held_insertBody {c : Constraints} {nextval : Nat → Nat} {batch : InsertBatch} {bounds : List NsBounds} :
    Wp (storeGuard.Stable R) t (fun _ _ _ => True) (fun _ ls v => storeGuard.Within ls d v)
      (insertBody c nextval batch bounds) [] d := by
  refine wp_guard (fun v' hv' => (same_flow hv' (List.mem_singleton_self _)).1) fun _ _ _ => ?_
  have h : Held batch.flowId [] [.flow batch.flowId] d d :=
    ⟨List.mem_singleton_self _, (fun o ho => by cases ho), .refl _ _ _⟩
  refine Wp.seq (wp_forEach_done (J := fun _ ls v => Held batch.flowId [] ls d v)
    (fun _ _ _ _ _ _ h => held_overlapCheck h) h) fun _ ls v h => ?_
  refine Wp.seq (wp_forEach_done (J := fun done ls v => Held batch.flowId (done.map (·.objectId)) ls d v)
    (fun _ _ _ _ _ _ h => by simpa using held_registerObject h) h) fun _ ls v h => ?_
  refine Wp.seq (wp_forEach_done (J := fun _ ls v => Held batch.flowId (batch.segments.map (·.objectId)) ls d v)
    (fun _ _ _ _ _ he h => held_checkObjectTimerange (by simp [he]) h) h) fun _ ls v h => ?_
  refine Wp.seq (wp_forEach_done (J := fun _ ls v => Held batch.flowId (batch.segments.map (·.objectId)) ls d v)
    (fun x _ _ _ _ he h => held_insertSegment ?_ h) h) fun _ ls v h => ?_
  · have hx : x ∈ batch.segments.zip bounds := by simp [he]
    exact List.mem_map_of_mem (List.of_mem_zip hx).1
  · exact Wp.seq (held_refreshFlowTimerange h) fun _ ls v h => wp_commitThen h.within

/-! ## DeleteSegmentsByTimerange -/

def ObjectsThere (d : DB) : Prop := ∀ s ∈ d.segments.rows, (d.objects.get s.objectId).isSome

theorem mem_groupCounts {rows : List SegmentRow} {r : SegmentRow} (h : r ∈ rows) :
    (r.objectId, (rows.map (·.objectId)).count r.objectId) ∈ groupCounts rows :=
  List.mem_map_of_mem (List.mem_dedup.mpr (List.mem_map_of_mem h))

theorem of_mem_groupCounts {rows : List SegmentRow} {x : Str × Nat} (h : x ∈ groupCounts rows) :
    ∃ r ∈ rows, r.objectId = x.1 := by
  obtain ⟨o, ho, rfl⟩ := List.mem_map.mp h
  exact List.mem_map.mp (List.mem_dedup.mp ho)

theorem held_subRefCount {name : Stmt} {m : Msg} {k : Nat} {o : Str} (hrow : (v.objects.get o).isSome) :
    Wp (storeGuard.Stable R) t (fun _ ls' v' => ls' = ls ++ [.object o] ∧ storeGuard.Within [.object o] v v' ∧
      v'.segments = v.segments ∧ ∀ o', (v.objects.get o').isSome → (v'.objects.get o').isSome) Never
      (subRefCount name m k o) ls v := by
  obtain ⟨r, hg⟩ := Option.isSome_iff_exists.mp hrow
  have hid : r.id = o := Table.key_of_get hg
  refine wp_stmtE fun a ha => ?_
  simp only [hg] at ha ⊢
  have hfit : fitsInt4 (r.refCount - k) = true := by
    by_contra hno
    simp only [hno, if_false] at ha
    cases ha
  simp only [hfit, if_true]
  refine ⟨fun v' hv' => ?_, trivial, ?_, rfl, fun o' ho' => ?_⟩
  · have hsame := (same_object hv' (List.mem_append_right _ (List.mem_singleton_self _))).1
    simp only [hsame, hg, hfit, if_true, and_self]
  · exact hid ▸ within_putObject { r with refCount := r.refCount - k } v
  · show ((v.objects.put _).get o').isSome
    rw [Table.get_put]
    split
    · rfl
    · exact ho'

theorem held_decrements {xs : List (Str × Nat)} {C : Unit → List Lock → DB → Prop} (hf : Lock.flow f ∈ ls)
    (hrow : ∀ x ∈ xs, (v.objects.get x.1).isSome)
    (hw : storeGuard.Within (ls ++ xs.map fun x => .object x.1) d v) :
    Wp (storeGuard.Stable R) t (fun _ ls v => Held f [] ls d v) C (Prog.forEach decrementRefCount 0 xs) ls v := by
  refine (wp_forEach (J := fun _ rest ls v => Lock.flow f ∈ ls ∧ (∀ x ∈ rest, (v.objects.get x.1).isSome) ∧
    storeGuard.Within (ls ++ rest.map fun x => .object x.1) d v) ?_ ⟨hf, hrow, hw⟩).post ?_
  · rintro i x rest ls v ⟨hf, hrow, hw⟩
    refine (held_subRefCount (hrow x List.mem_cons_self)).post ?_
    rintro _ _ v' ⟨rfl, hput, -, hkeep⟩
    refine ⟨List.mem_append_left _ hf, fun y hy => hkeep _ (hrow y (List.mem_cons_of_mem _ hy)), ?_⟩
    rw [List.map_cons, List.append_cons] at hw
    refine hw.trans (hput.mono fun ℓ hm => ?_)
    exact List.mem_append_left _ (List.mem_append_right _ hm)
  · rintro _ ls v ⟨hf, -, hw⟩
    exact ⟨hf, (fun o ho => by cases ho), by simpa using hw⟩

theorem held_deleteWithin {q : DeleteQuery} {lo hi : Option Int64} (hd : ObjectsThere d)
    (h : Held q.flowId [] ls d d) :
    Wp (storeGuard.Stable R) t (fun _ _ _ => True) (fun _ ls v => storeGuard.Within ls d v)
      (deleteWithin q lo hi) ls d := by
  refine Wp.bind (wp_stmt (fun v' hv' => ?_) ?_)
  · simp only [(same_flow hv' (List.mem_append_left _ h.flow)).2, and_self]
  have hrows : ∀ r ∈ (d.segmentsOf q.flowId).filter (deleteMatches q lo hi), r ∈ d.segmentsOf q.flowId :=
    fun r hr => List.mem_of_mem_filter hr
  have hw := within_delSegments hrows
  generalize (d.segmentsOf q.flowId).filter (deleteMatches q lo hi) = rows at hrows hw
  refine Wp.seq (held_decrements (List.mem_append_left _ h.flow) (fun x hx => ?_) (hw.mono fun ℓ hm => ?_))
    fun _ ls v h => Wp.seq (held_refreshFlowTimerange h) fun _ ls v h => wp_commitThen h.within
  · obtain ⟨r, hr, ho⟩ := of_mem_groupCounts hx
    rw [writeAll_delSegment, ← ho]
    exact hd r (List.mem_of_mem_filter (hrows r hr))
  · simp only [List.cons_append, List.mem_cons, List.mem_append, List.mem_map] at hm ⊢
    rcases hm with rfl | ⟨r, hr, rfl⟩ | ⟨r, hr, rfl⟩
    · exact Or.inl (Or.inl h.flow)
    · exact Or.inl (Or.inr ⟨r, hr, rfl⟩)
    · exact Or.inr ⟨_, mem_groupCounts hr, rfl⟩

theorem held_deleteBody {q : DeleteQuery} (hd : ObjectsThere d) :
    Wp (storeGuard.Stable R) t (fun _ _ _ => True) (fun _ ls v => storeGuard.Within ls d v) (deleteBody q) [] d := by
  refine wp_guard (fun v' hv' => (same_flow hv' (List.mem_singleton_self _)).1) fun _ _ _ => ?_
  unfold deleteQueried
  split
  · trivial
  · trivial
  · exact held_deleteWithin hd ⟨List.mem_singleton_self _, (fun o ho => by cases ho), .refl _ _ _⟩

/-! ## Calls -/

variable {I : DB → Prop}

theorem call_insertSegments (c : Constraints) (nextval : Nat → Nat) (batch : InsertBatch) :
    Call storeGuard I R (insertSegments c nextval batch) := by
  unfold insertSegments
  split
  · exact .quiet trivial
  · exact Call.inTx (oneTx_insertBody ..) fun _ _ _ => held_insertBody

theorem call_deleteSegmentsByTimerange (hI : ∀ d, I d → ObjectsThere d) (q : DeleteQuery) :
    Call storeGuard I R (deleteSegmentsByTimerange q) :=
  Call.inTx (oneTx_deleteBody q) fun _ d hd => held_deleteBody (hI d hd)

theorem call_putFlowReadOnly (id : Uuid) (b : Bool) : Call storeGuard I R (putFlowReadOnly id b) := by
  refine .auto trivial (fun t v => ?_) fun t d _ => ?_
  · show (requireRow _).Quiet
    unfold requireRow
    split <;> trivial
  · cases hg : d.flows.get id with
    | none => exact Guard.Within.refl storeGuard _ d
    | some r =>
      have hid : r.id = id := Table.key_of_get hg
      exact hid ▸ within_putFlow { r with readOnly := b, metadataUpdated := t } d

end

end OpenTams
