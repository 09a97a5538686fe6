import OpenTams.Eval
import OpenTams.RefCount

/-!
# What InsertSegments does

Exactly what a batch that is accepted has passed, and exactly the state it
leaves: the rows it adds, the row of every object, the row of its flow, and
every other table as it was.
-/

namespace OpenTams

open Sql Prog

section
variable {t : Time} {v v' : DB}

/-! ## Checks -/

theorem eval_guard_writable {β : Type} {op : String} {f : Uuid} {rest : Tx β} {r : FlowRow}
    (hg : v.flows.get f = some r) (hr : r.readOnly = false) :
    (do let guard ← getFlowForSegmentWrite f; checkGuard op guard; rest).eval t v = rest.eval t v := by
  rw [eval_bind, getFlowForSegmentWrite, eval_stmt]
  simp [checkGuard, Except.bind, hg, hr]

theorem eval_guard {β : Type} {op : String} {f : Uuid} {rest : Tx β} {b : β} :
    (do let guard ← getFlowForSegmentWrite f; checkGuard op guard; rest).eval t v = .ok (b, v') ↔
      (∃ r, v.flows.get f = some r ∧ r.readOnly = false) ∧ rest.eval t v = .ok (b, v') := by
  cases hg : v.flows.get f with
  | none =>
    rw [eval_bind, getFlowForSegmentWrite, eval_stmt]
    simp [checkGuard, Except.bind, eval, hg]
  | some r =>
    cases hr : r.readOnly with
    | true =>
      rw [eval_bind, getFlowForSegmentWrite, eval_stmt]
      simp [checkGuard, Except.bind, eval, hg, hr]
    | false => simp [eval_guard_writable hg hr, hr]

theorem eval_overlapCheck (f : Uuid) (i : Nat) (x : Segment × NsBounds) (v v' : DB) :
    (overlapCheck f i x).eval t v = .ok ((), v') ↔ v' = v ∧ overlapProbe f x.2 v = .ok none := by
  rw [overlapCheck, eval_stmtE]
  cases overlapProbe f x.2 v with
  | error e => simp [Except.map]
  | ok found => cases found <;> simp [Except.map, eq_comm]

def DescribedWithin (seg : Segment) (v : DB) : Prop :=
  ∀ tr, seg.objectTimerange = some tr → ∀ stored, storedObjectTimerange v seg.objectId = some stored →
    ∃ outer, parse stored = .ok outer ∧ rangeContains outer tr = some true

theorem objectTimerangeViolation_none {i : Nat} {seg : Segment} {tr : TimeRange} {stored : Option Str} :
    objectTimerangeViolation i seg tr stored = none ↔
      ∀ s, stored = some s → ∃ outer, parse s = .ok outer ∧ rangeContains outer tr = some true := by
  cases stored with
  | none => simp [objectTimerangeViolation]
  | some s =>
    unfold objectTimerangeViolation
    cases hp : parse s with
    | error e => simp [hp]
    | ok outer => rcases hc : rangeContains outer tr with _ | _ | _ <;> simp [hp, hc]

theorem eval_checkObjectTimerange (i : Nat) (seg : Segment) (v v' : DB) :
    (checkObjectTimerange i seg).eval t v = .ok ((), v') ↔ v' = v ∧ DescribedWithin seg v := by
  unfold checkObjectTimerange DescribedWithin
  cases seg.objectTimerange with
  | none => simp [eval, eq_comm]
  | some tr =>
    have hnone : objectTimerangeViolation i seg tr (storedObjectTimerange v seg.objectId) = none ↔ _ :=
      objectTimerangeViolation_none
    rw [eval_stmtE]
    cases hv : objectTimerangeViolation i seg tr (storedObjectTimerange v seg.objectId) with
    | none =>
      have := hnone.mp hv
      simp only [Except.map, Except.ok.injEq, Prod.mk.injEq, true_and, writeAll_nil]
      exact ⟨fun h => ⟨h.symm, fun _ he => by cases he; exact this⟩, fun h => h.1.symm⟩
    | some e =>
      simp only [Except.map, reduceCtorEq, false_iff, not_and]
      intro _ h
      cases hv.symm.trans (hnone.mpr (h tr rfl))

/-! ## Objects -/

def storageOf (batch : InsertBatch) (seg : Segment) : Option Str :=
  if seg.getUrls.length = 0 then some batch.controlledStorageId else none

theorem objectStorage_ok {batch : InsertBatch} {seg : Segment} {st : Option Str} :
    objectStorage batch seg = .ok st ↔
      (seg.getUrls.length = 0 → batch.controlledStorageId ≠ []) ∧ st = storageOf batch seg := by
  unfold objectStorage storageOf
  by_cases hu : seg.getUrls.length = 0
  · by_cases hc : batch.controlledStorageId = [] <;> simp [hu, hc, eq_comm]
  · simp [hu, eq_comm]

def occurrences (segs : List Segment) (o : Str) : Nat := (segs.map (·.objectId)).count o

theorem occurrences_cons (seg : Segment) (segs : List Segment) (o : Str) :
    occurrences (seg :: segs) o = occurrences segs o + if seg.objectId = o then 1 else 0 := by
  simp only [occurrences, List.map_cons, List.count_cons, beq_iff_eq]

theorem occurrences_pos {segs : List Segment} {o : Str} : 0 < occurrences segs o ↔ ∃ seg ∈ segs, seg.objectId = o := by
  rw [occurrences, List.count_pos_iff, List.mem_map]

def countedObject (batch : InsertBatch) (segs : List Segment) (o : Str) : Option ObjectRow → Option ObjectRow
  | some r => some { r with refCount := r.refCount + occurrences segs o }
  | none => (segs.find? (·.objectId = o)).map fun seg =>
      { id := o, refCount := occurrences segs o, storageId := storageOf batch seg, reaping := false }

def DB.refCountOf (v : DB) (o : Str) : ℤ := ((v.objects.get o).map (·.refCount)).getD 0

structure Registrable (batch : InsertBatch) (segs : List Segment) (v : DB) : Prop where
  storage : ∀ seg ∈ segs, seg.getUrls.length = 0 → batch.controlledStorageId ≠ []
  live : ∀ seg ∈ segs, ∀ r, v.objects.get seg.objectId = some r → r.reaping = false
  fits : ∀ o k, 0 < k → k ≤ occurrences segs o → fitsInt4 (v.refCountOf o + k) = true

theorem eval_registerObject {batch : InsertBatch} {i : Nat} {seg : Segment} :
    (registerObject batch i seg).eval t v = .ok ((), v') ↔
      (seg.getUrls.length = 0 → batch.controlledStorageId ≠ []) ∧
      ∃ r, upsertedObject (storageOf batch seg) seg.objectId v = .ok r ∧ v' = v.write (.putObject r) := by
  unfold registerObject
  cases hs : objectStorage batch seg with
  | error e =>
    simp only [eval, reduceCtorEq, false_iff, not_and]
    intro h
    cases hs.symm.trans (objectStorage_ok.mpr ⟨h, rfl⟩)
  | ok st =>
    obtain ⟨hc, rfl⟩ := objectStorage_ok.mp hs
    dsimp only
    rw [upsertObject, eval_stmtE]
    cases upsertedObject (storageOf batch seg) seg.objectId v with
    | error e => simp [Except.map]
    | ok r =>
      simp only [Except.map, Except.ok.injEq, Prod.mk.injEq, true_and, exists_eq_left', writeAll_cons, writeAll_nil,
        write_eq]
      exact ⟨fun h => ⟨hc, h.symm⟩, fun h => h.2.symm⟩

theorem upsertedObject_ok {st : Option Str} {o : Str} {r : ObjectRow} :
    upsertedObject st o v = .ok r ↔ (∀ x, v.objects.get o = some x → x.reaping = false) ∧
      fitsInt4 (v.refCountOf o + 1) = true ∧
      r = ((v.objects.get o).map fun x => { x with refCount := x.refCount + 1 }).getD ⟨o, 1, st, false⟩ := by
  unfold upsertedObject DB.refCountOf
  cases v.objects.get o with
  | none =>
    simp only [Except.ok.injEq, reduceCtorEq, false_implies, implies_true, Option.map_none, Option.getD_none, true_and]
    exact ⟨fun h => ⟨by decide, h.symm⟩, fun h => h.2.symm⟩
  | some x =>
    cases hr : x.reaping with
    | true => simp [hr]
    | false =>
      by_cases hf : fitsInt4 (x.refCount + 1) = true
      · simp only [Bool.false_eq_true, if_false, hf, if_true, Except.ok.injEq, Option.some.injEq, forall_eq', hr,
          Option.map_some, Option.getD_some, true_and]
        exact eq_comm
      · simp [hr, hf]

section
variable {batch : InsertBatch} {seg : Segment} {segs : List Segment} {r : ObjectRow}

theorem get_upserted (hu : upsertedObject (storageOf batch seg) seg.objectId v = .ok r) (o : Str) :
    (v.write (.putObject r)).objects.get o = if seg.objectId = o then some r else v.objects.get o := by
  rw [← upsertedObject_id hu]
  exact Table.get_put v.objects r o

theorem refCountOf_upserted (hu : upsertedObject (storageOf batch seg) seg.objectId v = .ok r) (o : Str) :
    (v.write (.putObject r)).refCountOf o = v.refCountOf o + if seg.objectId = o then 1 else 0 := by
  rw [DB.refCountOf, get_upserted hu]
  split
  · rename_i ho
    obtain ⟨-, -, rfl⟩ := upsertedObject_ok.mp hu
    subst ho
    unfold DB.refCountOf
    cases v.objects.get seg.objectId <;> simp
  · rw [DB.refCountOf, Int.add_zero]

theorem countedObject_cons (hu : upsertedObject (storageOf batch seg) seg.objectId v = .ok r) (o : Str) :
    countedObject batch segs o ((v.write (.putObject r)).objects.get o) =
      countedObject batch (seg :: segs) o (v.objects.get o) := by
  rw [get_upserted hu]
  obtain ⟨-, -, rfl⟩ := upsertedObject_ok.mp hu
  by_cases ho : seg.objectId = o
  · subst ho
    cases hg : v.objects.get seg.objectId with
    | none => simp [countedObject, occurrences_cons, Int.add_comm]
    | some x => simp [countedObject, occurrences_cons, Int.add_assoc, Int.add_comm 1]
  · cases v.objects.get o with
    | none => simp [countedObject, occurrences_cons, ho]
    | some x => simp [countedObject, occurrences_cons, ho]

theorem registrable_cons (hu : upsertedObject (storageOf batch seg) seg.objectId v = .ok r)
    (hs : seg.getUrls.length = 0 → batch.controlledStorageId ≠ []) :
    Registrable batch segs (v.write (.putObject r)) ↔ Registrable batch (seg :: segs) v := by
  obtain ⟨hlive, hfit, hr⟩ := upsertedObject_ok.mp hu
  have hreap : ∀ o, (∀ x, (v.write (.putObject r)).objects.get o = some x → x.reaping = false) ↔
      ∀ x, v.objects.get o = some x → x.reaping = false := by
    intro o
    rw [get_upserted hu]
    split
    · rename_i ho
      subst ho
      refine ⟨fun _ => hlive, fun _ x hx => ?_⟩
      cases hx
      rw [hr]
      cases hg : v.objects.get seg.objectId with
      | none => rfl
      | some x => exact hlive x hg
    · rfl
  constructor
  · intro h
    refine ⟨List.forall_mem_cons.mpr ⟨hs, h.storage⟩, List.forall_mem_cons.mpr ⟨hlive, fun s hs => ?_⟩,
      fun o k hk hle => ?_⟩
    · exact (hreap s.objectId).mp (h.live s hs)
    · rw [occurrences_cons] at hle
      split at hle
      · rename_i ho
        subst ho
        rcases Nat.lt_or_ge 1 k with h1 | h1
        · have := h.fits seg.objectId (k - 1) (by omega) (by omega)
          rw [refCountOf_upserted hu, if_pos rfl] at this
          rwa [show v.refCountOf seg.objectId + (k : ℤ) = v.refCountOf seg.objectId + 1 + ((k - 1 : ℕ) : ℤ) by omega]
        · obtain rfl : k = 1 := by omega
          exact hfit
      · rename_i ho
        have := h.fits o k hk (by omega)
        rwa [refCountOf_upserted hu, if_neg ho, Int.add_zero] at this
  · intro h
    refine ⟨fun s hs => h.storage s (List.mem_cons_of_mem _ hs), fun s hs => ?_, fun o k hk hle => ?_⟩
    · exact (hreap s.objectId).mpr (h.live s (List.mem_cons_of_mem _ hs))
    · rw [refCountOf_upserted hu]
      split
      · rename_i ho
        have := h.fits o (k + 1) (by omega) (by rw [occurrences_cons, if_pos ho]; omega)
        rwa [show v.refCountOf o + 1 + (k : ℤ) = v.refCountOf o + ((k + 1 : ℕ) : ℤ) by omega]
      · rename_i ho
        rw [Int.add_zero]
        exact h.fits o k hk (by rw [occurrences_cons, if_neg ho]; omega)

theorem eval_registerObjects {i : Nat} (h : (forEach (registerObject batch) i segs).eval t v = .ok ((), v')) :
    Registrable batch segs v ∧ (∀ o, v'.objects.get o = countedObject batch segs o (v.objects.get o)) ∧
      v' = { v with objects := v'.objects } := by
  induction segs generalizing i v with
  | nil =>
    cases h
    refine ⟨⟨fun s hs => (by cases hs), fun s hs => (by cases hs), fun o k hk hle => ?_⟩, fun o => ?_, rfl⟩
    · exact absurd hle (Nat.not_le_of_lt hk)
    · cases v'.objects.get o with
      | none => rfl
      | some r => simp [countedObject, occurrences]
  | cons seg segs ih =>
    obtain ⟨w, hw, h⟩ := eval_forEach_cons.mp h
    obtain ⟨hs, r, hu, rfl⟩ := eval_registerObject.mp hw
    obtain ⟨hreg, hobj, hv'⟩ := ih h
    exact ⟨(registrable_cons hu hs).mp hreg, fun o => (hobj o).trans (countedObject_cons hu o), hv'⟩

theorem registerObjects_ok {i : Nat} (h : Registrable batch segs v) :
    ∃ v', (forEach (registerObject batch) i segs).eval t v = .ok ((), v') := by
  induction segs generalizing i v with
  | nil => exact ⟨v, rfl⟩
  | cons seg segs ih =>
    have hs := h.storage seg List.mem_cons_self
    have hfit := h.fits seg.objectId 1 Nat.one_pos (by rw [occurrences_cons, if_pos rfl]; omega)
    have hu : upsertedObject (storageOf batch seg) seg.objectId v = .ok _ :=
      upsertedObject_ok.mpr ⟨h.live seg List.mem_cons_self, hfit, rfl⟩
    obtain ⟨v', hv'⟩ := ih (i := i + 1) ((registrable_cons hu hs).mpr h)
    exact ⟨v', eval_forEach_cons.mpr ⟨_, eval_registerObject.mpr ⟨hs, _, hu, rfl⟩, hv'⟩⟩

end

/-! ## Rows -/

def NsBounds.Finite (b : NsBounds) : Prop := b.lowerUnbounded = false ∧ b.upperUnbounded = false

theorem NsBounds.Finite.params {b : NsBounds} (h : b.Finite) :
    lowerParam b = some b.lower ∧ upperParam b = some b.upper := by
  simp [lowerParam, upperParam, h.1, h.2]

def newRows (nextval : Nat → Nat) (f : Uuid) (now : Time) (i : Nat) : List (Segment × NsBounds) → List SegmentRow
  | [] => []
  | x :: xs => segmentRow (nextval i) f x.1 x.2.lower x.2.upper now :: newRows nextval f now (i + 1) xs

theorem mem_newRows {nextval : Nat → Nat} {f : Uuid} {now : Time} {i : Nat} {xs : List (Segment × NsBounds)}
    {r : SegmentRow} :
    r ∈ newRows nextval f now i xs ↔
      ∃ k x, xs[k]? = some x ∧ r = segmentRow (nextval (i + k)) f x.1 x.2.lower x.2.upper now := by
  induction xs generalizing i with
  | nil => simp [newRows]
  | cons y xs ih =>
    rw [newRows, List.mem_cons, ih]
    constructor
    · rintro (rfl | ⟨k, x, hx, rfl⟩)
      · exact ⟨0, y, rfl, rfl⟩
      · exact ⟨k + 1, x, hx, by rw [Nat.add_right_comm, Nat.add_assoc]⟩
    · rintro ⟨k, x, hx, rfl⟩
      cases k with
      | zero =>
        cases hx
        exact Or.inl rfl
      | succ k => exact Or.inr ⟨k, x, hx, by rw [Nat.add_right_comm, Nat.add_assoc]⟩

theorem filter_newRows (nextval : Nat → Nat) (f g : Uuid) (now : Time) (i : Nat) (xs : List (Segment × NsBounds)) :
    (newRows nextval f now i xs).filter (fun r => r.flowId = g) = if f = g then newRows nextval f now i xs else [] := by
  have hflow : ∀ r ∈ newRows nextval f now i xs, r.flowId = f := by
    intro r hr
    obtain ⟨k, x, -, rfl⟩ := mem_newRows.mp hr
    rfl
  split
  · rename_i hfg
    exact List.filter_eq_self.mpr fun r hr => by simp [hflow r hr, hfg]
  · rename_i hfg
    exact List.filter_eq_nil_iff.mpr fun r hr => by simp [hflow r hr, hfg]

/-- What the table asks of a row beside its neighbours: finite bounds in order, and a count that fits. -/
structure RowFits (c : Constraints) (x : Segment × NsBounds) : Prop where
  finite : x.2.Finite
  keyFrames : x.1.keyFrameCount.all (fun k => fitsInt4 k.toInt) = true
  check : c.check = true → x.2.lower < x.2.upper
  exclusion : c.exclusion = true → ¬ x.2.upper < x.2.lower

structure RowFree (c : Constraints) (id : Nat) (f : Uuid) (x : Segment × NsBounds) (v : DB) : Prop where
  fresh : v.segments.get id = none
  apart : c.exclusion = true → ∀ r ∈ v.segmentsOf f, rowOverlaps (some x.2.lower) (some x.2.upper) r = false
  flow : (v.flows.get f).isSome
  object : (v.objects.get x.1.objectId).isSome

theorem ite_some_eq_none {α : Type} {p : Prop} [Decidable p] {a : α} {x : Option α} :
    (if p then some a else x) = none ↔ ¬ p ∧ x = none := by
  split <;> simp [*]

theorem constraintViolation_iff {c : Constraints} {r : SegmentRow} :
    constraintViolation c v r = none ↔ (c.check = true → r.lowerNs < r.upperNs) ∧ v.segments.get r.id = none ∧
      (c.exclusion = true → ¬ r.upperNs < r.lowerNs) ∧
      (c.exclusion = true → ∀ x ∈ v.segmentsOf r.flowId, rowOverlaps (some r.lowerNs) (some r.upperNs) x = false) ∧
      (v.flows.get r.flowId).isSome ∧ (v.objects.get r.objectId).isSome := by
  unfold constraintViolation
  simp only [ite_some_eq_none, Bool.and_eq_true, Bool.not_eq_true', Bool.or_eq_true, decide_eq_false_iff_not,
    decide_eq_true_eq, not_and, not_not, Option.isNone_iff_eq_none, not_or, List.any_eq_true, not_exists,
    Bool.not_eq_true, and_true, Option.isSome_iff_ne_none, ne_eq]

theorem insertedRow_iff {c : Constraints} {id : Nat} {f : Uuid} {x : Segment × NsBounds} {r : SegmentRow} :
    insertedRow c id f x t v = .ok r ↔
      RowFits c x ∧ RowFree c id f x v ∧ r = segmentRow id f x.1 x.2.lower x.2.upper t := by
  constructor
  · intro h
    unfold insertedRow at h
    split at h
    · cases h
    rename_i hk
    split at h
    · rename_i lo hi hlo hhi
      have hfin : x.2.Finite := by
        constructor
        · cases hu : x.2.lowerUnbounded with
          | false => rfl
          | true => simp [lowerParam, hu] at hlo
        · cases hu : x.2.upperUnbounded with
          | false => rfl
          | true => simp [upperParam, hu] at hhi
      cases hlo.symm.trans hfin.params.1
      cases hhi.symm.trans hfin.params.2
      split at h
      · cases h
      rename_i hc
      cases h
      obtain ⟨h1, h2, h3, h4, h5, h6⟩ := constraintViolation_iff.mp hc
      exact ⟨⟨hfin, by simpa using hk, h1, h3⟩, ⟨h2, h4, h5, h6⟩, rfl⟩
    · cases h
  · rintro ⟨hfit, hfree, rfl⟩
    have hc : constraintViolation c v (segmentRow id f x.1 x.2.lower x.2.upper t) = none :=
      constraintViolation_iff.mpr ⟨hfit.check, hfree.fresh, hfit.exclusion, hfree.apart, hfree.flow, hfree.object⟩
    simp only [insertedRow, hfit.finite.params.1, hfit.finite.params.2, hfit.keyFrames, hc]
    rfl

theorem eval_insertSegment {c : Constraints} {nextval : Nat → Nat} {f : Uuid} {i : Nat} {x : Segment × NsBounds} :
    (insertSegment c nextval f i x).eval t v = .ok ((), v') ↔
      RowFits c x ∧ RowFree c (nextval i) f x v ∧
        v' = v.write (.putSegment (segmentRow (nextval i) f x.1 x.2.lower x.2.upper t)) := by
  rw [insertSegment, eval_stmtE]
  cases hi : insertedRow c (nextval i) f x t v with
  | error e =>
    simp only [Except.map, reduceCtorEq, false_iff]
    rintro ⟨h1, h2, -⟩
    cases hi.symm.trans (insertedRow_iff.mpr ⟨h1, h2, rfl⟩)
  | ok r =>
    obtain ⟨h1, h2, rfl⟩ := insertedRow_iff.mp hi
    simp only [Except.map, Except.ok.injEq, Prod.mk.injEq, true_and, writeAll_cons, writeAll_nil, write_eq]
    exact ⟨fun h => ⟨h1, h2, h.symm⟩, fun h => h.2.2.symm⟩

theorem eval_insertRows {c : Constraints} {nextval : Nat → Nat} {f : Uuid} {i : Nat} {xs : List (Segment × NsBounds)}
    (h : (forEach (insertSegment c nextval f) i xs).eval t v = .ok ((), v')) :
    (∀ x ∈ xs, RowFits c x) ∧ v'.segments.rows = v.segments.rows ++ newRows nextval f t i xs ∧
      v' = { v with segments := v'.segments } := by
  induction xs generalizing i v with
  | nil =>
    cases h
    exact ⟨fun x hx => (by cases hx), (List.append_nil _).symm, rfl⟩
  | cons x xs ih =>
    obtain ⟨w, hw, h⟩ := eval_forEach_cons.mp h
    obtain ⟨hfit, hfree, rfl⟩ := eval_insertSegment.mp hw
    obtain ⟨hfits, hrows, hv'⟩ := ih h
    refine ⟨List.forall_mem_cons.mpr ⟨hfit, hfits⟩, ?_, hv'⟩
    rw [hrows, segments_putSegment hfree.fresh, List.append_assoc]
    rfl

/-! ## The flow -/

theorem eval_refreshFlowTimerange {m : Msg} {f : Uuid} {r : FlowRow} (hr : v.flows.get f = some r) :
    (refreshFlowTimerange m f).eval t v = .ok ((), v') ↔
      ∃ span, renderSpan (spanRows v f).1 (spanRows v f).2 = .ok span ∧
        v' = v.write (.putFlow { r with segmentsUpdated := some t, timerange := span }) := by
  rw [refreshFlowTimerange, eval_bind, flowSpan, eval_stmtE]
  cases renderSpan (spanRows v f).1 (spanRows v f).2 with
  | error e => simp [Except.mapError, Except.map, Except.bind]
  | ok span =>
    simp only [Except.mapError, Except.map, Except.bind, setFlowSpan, eval_stmt, writeAll_nil, hr, writeAll_cons,
      write_eq, Except.ok.injEq, Prod.mk.injEq, true_and, exists_eq_left']
    exact eq_comm

/-! ## The call -/

/-- `d'` is what a batch with these bounds, accepted at `t`, makes of `d`. -/
structure Inserted (c : Constraints) (nextval : Nat → Nat) (batch : InsertBatch) (bounds : List NsBounds) (t : Time)
    (d d' : DB) : Prop where
  checked : checkBatch batch = .ok bounds
  clear : ∀ x ∈ batch.segments.zip bounds, overlapProbe batch.flowId x.2 d = .ok none
  registrable : Registrable batch batch.segments d
  described : ∀ seg ∈ batch.segments, DescribedWithin seg d
  fits : ∀ x ∈ batch.segments.zip bounds, RowFits c x
  segments : d'.segments.rows = d.segments.rows ++ newRows nextval batch.flowId t 0 (batch.segments.zip bounds)
  objects : ∀ o, d'.objects.get o = countedObject batch batch.segments o (d.objects.get o)
  flow : ∃ r span, d.flows.get batch.flowId = some r ∧ r.readOnly = false ∧
    renderSpan (spanRows d' batch.flowId).1 (spanRows d' batch.flowId).2 = .ok span ∧
    d'.flows = d.flows.put { r with segmentsUpdated := some t, timerange := span }
  others : d' = { d with segments := d'.segments, objects := d'.objects, flows := d'.flows }

theorem commits_insertBody (c : Constraints) (nextval : Nat → Nat) (batch : InsertBatch) (bounds : List NsBounds) :
    (insertBody c nextval batch bounds).Commits :=
  (flat_stmt ..).bind_commits fun g => (flat_checkGuard _ g).bind_commits fun _ =>
    (flat_forEach (flat_overlapCheck _) _ _).bind_commits fun _ =>
    (flat_forEach (flat_registerObject _) _ _).bind_commits fun _ =>
    (flat_forEach flat_checkObjectTimerange _ _).bind_commits fun _ =>
    (flat_forEach (flat_insertSegment _ _ _) _ _).bind_commits fun _ =>
    (flat_refreshFlowTimerange _ _).bind_commits fun _ => commits_commitThen _ _ _

/-- A batch that is accepted leaves exactly this. -/
theorem insertSegments_inserted {c : Constraints} {nextval : Nat → Nat} {batch : InsertBatch} {a : InsertResult}
    (h : (insertSegments c nextval batch).run t v = (.ok a, v')) :
    ∃ bounds, Inserted c nextval batch bounds t v v' := by
  unfold insertSegments at h
  split at h
  · cases h
  rename_i bounds hb
  refine ⟨bounds, ?_⟩
  obtain ⟨⟨r, hr, hro⟩, k⟩ := eval_guard.mp ((run_inTx_ok (commits_insertBody ..)).mp h)
  obtain ⟨_, v₁, h₁, k₁⟩ := eval_bind_ok.mp k
  obtain ⟨rfl, hclear⟩ := (eval_forEach_check (eval_overlapCheck _)).mp h₁
  obtain ⟨_, v₂, h₂, k₂⟩ := eval_bind_ok.mp k₁
  obtain ⟨hreg, hobj, hv₂⟩ := eval_registerObjects h₂
  obtain ⟨_, v₃, h₃, k₃⟩ := eval_bind_ok.mp k₂
  obtain ⟨rfl, hdesc⟩ := (eval_forEach_check eval_checkObjectTimerange).mp h₃
  obtain ⟨_, v₄, h₄, k₄⟩ := eval_bind_ok.mp k₃
  obtain ⟨hfits, hrows, hv₄⟩ := eval_insertRows h₄
  obtain ⟨_, v₅, h₅, k₅⟩ := eval_bind_ok.mp k₄
  have hflows : v₄.flows = v₁.flows := by rw [hv₄, hv₂]
  obtain ⟨span, hspan, rfl⟩ := (eval_refreshFlowTimerange (hflows ▸ hr)).mp h₅
  cases k₅
  have hseg : v₃.segments = v₁.segments := by rw [hv₂]
  have hobjs : v₄.objects = v₃.objects := by rw [hv₄]
  refine ⟨hb, hclear, hreg, fun seg hs => ?_, hfits, ?_, fun o => ?_, ⟨r, span, hr, hro, hspan, ?_⟩, ?_⟩
  · have := hdesc seg hs
    rwa [DescribedWithin, storedObjectTimerange, DB.segmentsOn, hseg] at this
  · exact hrows.trans (by rw [hseg])
  · exact (congrArg (·.get o) hobjs).trans (hobj o)
  · rw [← hflows]
    rfl
  · rw [hv₄, hv₂]
    rfl

theorem insertSegments_refused {c : Constraints} {nextval : Nat → Nat} {batch : InsertBatch} {e : Err}
    (h : ((insertSegments c nextval batch).run t v).1 = .error e) :
    ((insertSegments c nextval batch).run t v).2 = v := by
  unfold insertSegments at h ⊢
  split at h
  · rfl
  · exact (run_inTx_error (commits_insertBody ..) h).2

theorem Inserted.segmentsOf {c : Constraints} {nextval : Nat → Nat} {batch : InsertBatch} {bounds : List NsBounds}
    (h : Inserted c nextval batch bounds t v v') (g : Uuid) :
    v'.segmentsOf g = v.segmentsOf g ++
      if batch.flowId = g then newRows nextval batch.flowId t 0 (batch.segments.zip bounds) else [] := by
  rw [DB.segmentsOf, h.segments, List.filter_append, filter_newRows]
  rfl

/-- The ids of the new rows are new. -/
theorem Inserted.new_not_mem {c : Constraints} {nextval : Nat → Nat} {batch : InsertBatch} {bounds : List NsBounds}
    (h : Inserted c nextval batch bounds t v v') {r : SegmentRow}
    (hr : r ∈ newRows nextval batch.flowId t 0 (batch.segments.zip bounds)) : r ∉ v.segmentsOf batch.flowId := by
  intro hold
  have hnodup := v'.segments.nodup
  rw [h.segments, List.map_append] at hnodup
  exact (List.nodup_append.mp hnodup).2.2 r.id (List.mem_map_of_mem (List.mem_of_mem_filter hold)) r.id
    (List.mem_map_of_mem hr) rfl

/-! ## All or nothing -/

/-- `d'` is `d` with the segments of the batch, the references they make, and the objects they need. -/
structure ExactlyAdded (nextval : Nat → Nat) (batch : InsertBatch) (t : Time) (d d' : DB) : Prop where
  segments : ∃ bounds, checkBatch batch = .ok bounds ∧
    d'.segments.rows = d.segments.rows ++ newRows nextval batch.flowId t 0 (batch.segments.zip bounds)
  counted : ∀ o r, d.objects.get o = some r →
    d'.objects.get o = some { r with refCount := r.refCount + occurrences batch.segments o }
  created : ∀ o seg, d.objects.get o = none → batch.segments.find? (·.objectId = o) = some seg →
    ∃ storageId, d'.objects.get o = some ⟨o, occurrences batch.segments o, storageId, false⟩ ∧
      (storageId.isSome ↔ seg.getUrls = [])
  absent : ∀ o, d.objects.get o = none → occurrences batch.segments o = 0 → d'.objects.get o = none
  reaping : ∀ o r, d.objects.get o = some r → r.reaping = true → occurrences batch.segments o = 0
  flows : ∀ g, g ≠ batch.flowId → d'.flows.get g = d.flows.get g

theorem Inserted.exactlyAdded {c : Constraints} {nextval : Nat → Nat} {batch : InsertBatch} {bounds : List NsBounds}
    (h : Inserted c nextval batch bounds t v v') : ExactlyAdded nextval batch t v v' where
  segments := ⟨bounds, h.checked, h.segments⟩
  counted o r hr := by rw [h.objects, hr]; rfl
  created o seg hnone hseg := by
    refine ⟨storageOf batch seg, ?_, ?_⟩
    · rw [h.objects, hnone, countedObject, hseg]
      rfl
    · unfold storageOf
      split <;> simp_all
  absent o hnone h0 := by
    have hno : batch.segments.find? (·.objectId = o) = none := by
      rw [List.find?_eq_none]
      intro seg hs ho
      have := occurrences_pos.mpr ⟨seg, hs, by simpa using ho⟩
      omega
    rw [h.objects, hnone, countedObject, hno]
    rfl
  reaping o r hr hreap := by
    by_contra hne
    obtain ⟨seg, hs, rfl⟩ := occurrences_pos.mp (Nat.pos_of_ne_zero hne)
    cases hreap.symm.trans (h.registrable.live seg hs r hr)
  flows g hg := by
    obtain ⟨r, span, hr, -, -, hput⟩ := h.flow
    rw [hput]
    refine Table.get_put_ne _ ?_
    have hid : r.id = batch.flowId := Table.key_of_get hr
    exact fun he => hg (he.symm.trans hid)

/-- **All or nothing.** Whichever of its statements fail, a batch that is refused leaves the store as
it was, and one that is accepted adds its segments and their references and nothing else. -/
theorem insertSegments_all_or_nothing (c : Constraints) (nextval : Nat → Nat) (batch : InsertBatch)
    (fails : Nat → Option Stmt → Bool) (t : Time) (d : DB) :
    (∀ e, ((insertSegments c nextval batch).runFailing fails t d).1 = .error e →
      ((insertSegments c nextval batch).runFailing fails t d).2 = d) ∧
    ∀ a, ((insertSegments c nextval batch).runFailing fails t d).1 = .ok a →
      ExactlyAdded nextval batch t d ((insertSegments c nextval batch).runFailing fails t d).2 := by
  have hrun : (insertSegments c nextval batch).runFailing fails t d = (insertSegments c nextval batch).run t d ∨
      ∃ e, (insertSegments c nextval batch).runFailing fails t d = (.error e, d) := by
    unfold insertSegments
    split
    · exact Or.inl rfl
    · exact runFailing_inTx fails (commits_insertBody ..)
  rcases hrun with h | ⟨e, h⟩
  · rw [h]
    refine ⟨fun e he => insertSegments_refused he, fun a ha => ?_⟩
    · obtain ⟨bounds, hins⟩ := insertSegments_inserted (Prod.ext ha rfl :
        (insertSegments c nextval batch).run t d = (.ok a, ((insertSegments c nextval batch).run t d).2))
      exact hins.exactlyAdded
  · rw [h]
    exact ⟨fun _ _ => rfl, fun a ha => by cases ha⟩

/-- A batch that names its object twice, accepted, and refused when the commit fails. -/
theorem sharedBatch_all_or_nothing :
    ExactlyAdded id sharedBatch 1 oneFlow
      ((insertSegments {} id sharedBatch).runFailing (fun _ _ => false) 1 oneFlow).2 ∧
    ((insertSegments {} id sharedBatch).runFailing (fun _ x => x = some .insertCommit) 1 oneFlow).2 = oneFlow := by
  constructor
  · refine (insertSegments_all_or_nothing {} id sharedBatch (fun _ _ => false) 1 oneFlow).2
      { acceptedIndices := [0, 1] } ?_
    decide +kernel
  · refine (insertSegments_all_or_nothing {} id sharedBatch (fun _ x => x = some .insertCommit) 1 oneFlow).1
      (failed "metastore: InsertSegments: commit: ") ?_
    decide +kernel

end

end OpenTams
