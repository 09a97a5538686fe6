import OpenTams.DeleteSound
import OpenTams.History
import OpenTams.Locking
import OpenTams.RefCount
import OpenTams.SegmentInv

/-!
# Concurrent segment writes

Interleaved `InsertSegments` and `DeleteSegmentsByTimerange` calls commit as if
they ran one after the other, so what each call keeps alone they keep together,
and a segment that was inserted is there until a delete that covers it commits.
-/

namespace OpenTams

open Sql

/-! ## Segments stay until they are deleted -/

def StoredAs (nextval : Nat → Nat) (f : Uuid) (i : Nat) (seg : Segment) (r : SegmentRow) : Prop :=
  ∃ b lo hi now, seg.timerange.nsBounds = .ok b ∧ lowerParam b = some lo ∧ upperParam b = some hi ∧
    r = segmentRow (nextval i) f seg lo hi now

def AllStored (nextval : Nat → Nat) (f : Uuid) (xs : List (Segment × NsBounds)) (v : DB) : Prop :=
  ∀ i x, xs[i]? = some x → ∃ r, StoredAs nextval f i x.1 r ∧ r ∈ v.segments.rows

/-- The delete removes the row if it is there. -/
def DeleteQuery.Covers (q : DeleteQuery) (r : SegmentRow) : Prop :=
  r.flowId = q.flowId ∧ ∃ lo hi, queryBounds q.timerange = .ok (some (lo, hi)) ∧ deleteMatches q lo hi r = true

/-- The row lies in the nanoseconds the query's text names. -/
theorem DeleteQuery.Covers.covered {q : DeleteQuery} {r : SegmentRow} (h : q.Covers r) {text : Str}
    (hp : parse text = .ok q.timerange) : Covered q r := by
  obtain ⟨hflow, lo, hi, hq, hm⟩ := h
  simp only [deleteMatches, Bool.and_eq_true, Option.all_eq_true, decide_eq_true_eq] at hm
  refine ⟨hflow, ?_, hm.2⟩
  rw [← (queryBounds_some (parse_text hp).1 hq).1]
  exact span_subset_of_bounds hm.1.1 hm.1.2

section
variable {c : Constraints} {t : Time} {v : DB} {ls : List Lock}

theorem wp_insertRows_stored {nextval : Nat → Nat} {f : Uuid} {xs : List (Segment × NsBounds)}
    (hb : ∀ x ∈ xs, x.1.timerange.nsBounds = .ok x.2) :
    Wp Alone t (fun _ _ v => AllStored nextval f xs v) Never (Prog.forEach (insertSegment c nextval f) 0 xs) ls v := by
  refine wp_forEach_done (J := fun done _ v => AllStored nextval f done v) ?_ fun i x hx => by simp at hx
  intro x done rest ls v hxs hJ
  refine wp_stmtE fun a ha => ⟨Alone.stable _ _, ?_⟩
  cases hi : insertedRow c (nextval (0 + done.length)) f x t v with
  | error e => rw [hi] at ha; cases ha
  | ok r =>
    obtain ⟨lo, hi', hlo, hhi, hr, hid, -, -⟩ := insertedRow_ok hi
    have hid : v.segments.get r.id = none := hr ▸ hid
    intro i y hy
    simp only [writeAll_cons, writeAll_nil, write_eq, segments_putSegment hid]
    rcases Nat.lt_trichotomy i done.length with hlt | rfl | hgt
    · rw [List.getElem?_append_left hlt] at hy
      obtain ⟨r', hs, hm⟩ := hJ i y hy
      exact ⟨r', hs, List.mem_append_left _ hm⟩
    · simp only [List.getElem?_concat_length, Option.some.injEq] at hy
      subst hy
      rw [Nat.zero_add] at hr
      exact ⟨r, ⟨x.2, lo, hi', t, hb x (by simp [hxs]), hlo, hhi, hr⟩,
        List.mem_append_right _ (List.mem_singleton_self _)⟩
    · rw [List.getElem?_eq_none (by simp; omega)] at hy
      cases hy

theorem insertSegments_stored {nextval : Nat → Nat} {batch : InsertBatch} {a : Answer}
    (h : (((StoreCall.insertSegments nextval batch).prog c).run t v).1 = .ok a) (i : Nat) (seg : Segment)
    (hi : batch.segments[i]? = some seg) :
    ∃ r, StoredAs nextval batch.flowId i seg r ∧
      r ∈ (((StoreCall.insertSegments nextval batch).prog c).run t v).2.segments.rows := by
  simp only [StoreCall.prog, Prog.run_map] at h ⊢
  unfold insertSegments at h ⊢
  split at h
  · cases h
  rename_i bounds hb
  have hl := checkBatch_length hb
  have hmem := (checkBatch_ok hb).1
  have hx : ∃ b, (batch.segments.zip bounds)[i]? = some (seg, b) := by
    obtain ⟨hlt, rfl⟩ := List.getElem?_eq_some_iff.mp hi
    exact ⟨bounds[i], by simp [hlt, hl]⟩
  obtain ⟨b, hx⟩ := hx
  have hwp : Wp Alone t (fun _ _ _ => False)
      (fun _ _ v => ∃ r, StoredAs nextval batch.flowId i seg r ∧ r ∈ v.segments.rows)
      (insertBody c nextval batch bounds) [] v := by
    refine wp_guard (fun _ he => by rw [he]) fun _ _ _ => ?_
    refine Wp.seq (Prog.Keeps.wp (J := fun _ => True) (Prog.keeps_forEach (keeps_overlapCheck _) _ _)
      (Prog.flat_forEach (flat_overlapCheck _) _ _) trivial) fun _ ls v _ => ?_
    refine Wp.seq (Prog.Keeps.wp (J := fun _ => True) (Prog.keeps_forEach (keeps_registerObject (fun _ _ h => h) _) _ _)
      (Prog.flat_forEach (flat_registerObject _) _ _) trivial) fun _ ls v _ => ?_
    refine Wp.seq (Prog.Keeps.wp (J := fun _ => True) (Prog.keeps_forEach keeps_checkObjectTimerange _ _)
      (Prog.flat_forEach flat_checkObjectTimerange _ _) trivial) fun _ ls v _ => ?_
    refine Wp.seq (wp_insertRows_stored hmem) fun _ ls v hJ => ?_
    refine Wp.seq ((keeps_refreshFlowTimerange (J := fun v => ∃ r, StoredAs nextval batch.flowId i seg r ∧
      r ∈ v.segments.rows) (fun _ _ _ h => h) _).wp (flat_refreshFlowTimerange _ _) (hJ i _ hx)) fun _ ls v h => ?_
    exact wp_commitThen h
  rcases hwp.run_inTx (e := failed "metastore: InsertSegments: begin: ")
    with ⟨e, he⟩ | ⟨_, _, _, -, hf⟩ | ⟨_, _, v', he, hC⟩
  · rw [he] at h; cases h
  · exact hf.elim
  · rw [he]; exact hC

theorem segmentWrite_keeps_row {x : StoreCall} (hx : x.segmentFlow.isSome) {r : SegmentRow}
    (hr : r ∈ v.segments.rows) :
    r ∈ ((x.prog c).run t v).2.segments.rows ∨ ∃ q, x = .deleteSegmentsByTimerange q ∧ q.Covers r := by
  cases x with
  | insertSegments nextval batch =>
    left
    simp only [StoreCall.prog, Prog.run_map]
    refine (keeps_insertSegments (J := fun v => r ∈ v.segments.rows) (fun _ _ h => h) (fun _ _ _ h => h)
      fun r' v _ hid _ h => ?_).run t hr
    rw [segments_putSegment hid]
    exact List.mem_append_left _ h
  | deleteSegmentsByTimerange q =>
    by_cases hc : q.Covers r
    · exact Or.inr ⟨q, rfl, hc⟩
    left
    simp only [StoreCall.prog, Prog.run_map]
    refine (keeps_deleteSegmentsByTimerange (J := fun v => r ∈ v.segments.rows) (fun _ _ _ _ h => h) (fun _ _ _ h => h)
      fun lo hi v hq h => ?_).run t hr
    rw [rows_delSegments, List.mem_filter]
    refine ⟨h, ?_⟩
    by_contra hno
    simp only [Bool.not_eq_true', Bool.not_eq_false, Bool.and_eq_true, decide_eq_true_eq] at hno
    exact hc ⟨hno.1, lo, hi, hq, hno.2⟩
  | _ => cases hx

end

/-! ## Interleaved segment writes -/

theorem mustCommit_insertSegments (c : Constraints) (nextval : Nat → Nat) (batch : InsertBatch) :
    (insertSegments c nextval batch).MustCommit := by
  unfold insertSegments
  split
  · trivial
  · exact Prog.mustCommit_inTx _ ((Prog.flat_stmt ..).bind_mustCommit fun g =>
      (flat_checkGuard _ g).bind_mustCommit fun _ =>
      (Prog.flat_forEach (flat_overlapCheck _) _ _).bind_mustCommit fun _ =>
      (Prog.flat_forEach (flat_registerObject _) _ _).bind_mustCommit fun _ =>
      (Prog.flat_forEach flat_checkObjectTimerange _ _).bind_mustCommit fun _ =>
      (Prog.flat_forEach (flat_insertSegment _ _ _) _ _).bind_mustCommit fun _ =>
      (flat_refreshFlowTimerange _ _).bind_mustCommit fun _ => trivial)

theorem call_segmentWrite {I : DB → Prop} {R : Rely DB Write} (hI : ∀ d, I d → ObjectsThere d) (c : Constraints)
    {x : StoreCall} (hx : x.segmentFlow.isSome) : Call storeGuard I R (x.prog c) := by
  cases x with
  | insertSegments nextval batch => exact (call_insertSegments c nextval batch).map _
  | deleteSegmentsByTimerange q => exact (call_deleteSegmentsByTimerange hI q).map _
  | _ => cases hx

structure Consistent (d : DB) : Prop where
  refs : RefExact d
  segments : SegmentInv (fun _ => True) d

theorem Consistent.segmentWrite {d : DB} (h : Consistent d) {x : StoreCall} (hx : x.segmentFlow.isSome)
    (c : Constraints) (t : Time) : Consistent ((x.prog c).run t d).2 := by
  cases x with
  | insertSegments nextval batch =>
    simp only [StoreCall.prog, Prog.run_map]
    exact ⟨insertSegments_refs h.refs, insertSegments_apart h.segments fun _ _ _ _ _ _ _ _ _ _ => trivial⟩
  | deleteSegmentsByTimerange q =>
    simp only [StoreCall.prog, Prog.run_map]
    exact ⟨deleteSegmentsByTimerange_refs h.refs,
      (keeps_deleteSegmentsByTimerange (fun _ _ _ _ h => h.of_eq rfl) (fun _ _ _ h => h.of_eq rfl)
        fun _ _ _ _ h => h.delAll _).run t h.segments⟩
  | _ => cases hx

section
variable {n : Nat} {c : Constraints} {calls : Fin n → StoreCall} (hcalls : ∀ p, (calls p).segmentFlow.isSome)
include hcalls

theorem row_replay {d : DB} {r : SegmentRow} (hr : r ∈ d.segments.rows) (h : List (Fin n × Time)) :
    r ∈ (replay (fun p => (calls p).prog c) d h).segments.rows ∨
      ∃ q ∈ h.map Prod.fst, ∃ dq, calls q = .deleteSegmentsByTimerange dq ∧ dq.Covers r := by
  induction h generalizing d with
  | nil => exact Or.inl hr
  | cons x h ih =>
    rcases segmentWrite_keeps_row (hcalls x.1) hr with hr' | ⟨dq, hq, hcov⟩
    · rcases ih hr' with h1 | ⟨q, hm, dq, hq, hcov⟩
      · exact Or.inl h1
      · exact Or.inr ⟨q, List.mem_cons_of_mem _ hm, dq, hq, hcov⟩
    · exact Or.inr ⟨x.1, List.mem_cons_self, dq, hq, hcov⟩

/-- **Concurrent segment writes.** However `InsertSegments` and `DeleteSegmentsByTimerange` calls
are interleaved, the committed counts are exact, the segments of a flow lie apart, and a segment of
a call that succeeded is there unless a delete that committed later covers it: where the delete's
range was parsed from a text, all the segment's nanoseconds lie in the range the text names. -/
theorem segmentWrites_safe {d : DB} (hd : Consistent d) {t : Time} {as : List (Act n)}
    {s : Sys DB Write Lock Stmt Err Answer n}
    (hr : (Sys.start t d fun p => (calls p).prog c).runs as = some s) :
    (∀ r ∈ s.db.objects.rows, r.refCount = (s.db.segmentsOn r.id).length) ∧
    (∀ r ∈ s.db.segments.rows, ∀ r' ∈ s.db.segments.rows, r ≠ r' → r.flowId = r'.flowId → Disjoint r.span r'.span) ∧
    ∀ p nextval batch a, calls p = .insertSegments nextval batch → (s.procs p).prog.result? = some (.ok a) →
      ∃ pre post, s.committed = pre ++ p :: post ∧ ∀ i seg, batch.segments[i]? = some seg →
        ∃ r, StoredAs nextval batch.flowId i seg r ∧ (r ∈ s.db.segments.rows ∨
          ∃ q ∈ post, ∃ dq, calls q = .deleteSegmentsByTimerange dq ∧ dq.Covers r ∧
            ∀ text, parse text = .ok dq.timerange → Covered dq r) := by
  obtain ⟨hinv, h, hh⟩ := serializable (I := Consistent) (d := d)
    (fun p => call_segmentWrite (fun d hd => hd.refs.fk) c (hcalls p))
    (fun p t d hd => hd.segmentWrite (hcalls p) c t) hd hr
  refine ⟨fun r hr => ?_, fun r hr r' hr' hne hf => hinv.db.segments.disjoint hr hr' hne hf, ?_⟩
  · have := hinv.db.refs.count r.id r (Table.get_of_mem hr)
    simpa [DB.refs] using this
  · intro p nextval batch a hp hres
    have hm : ((calls p).prog c).MustCommit := by
      rw [hp]
      exact (mustCommit_insertSegments c nextval batch).map _
    obtain ⟨pre, t', post, rfl, ha⟩ := hh.returned hm hres
    refine ⟨pre.map Prod.fst, post.map Prod.fst, by rw [← hh.order]; simp, fun i seg hi => ?_⟩
    obtain ⟨r, hst, hrow⟩ := insertSegments_stored (hp ▸ ha) i seg hi
    refine ⟨r, hst, ?_⟩
    rw [hh.db, replay_append, replay_cons]
    rcases row_replay hcalls (hp ▸ hrow) post with hkept | ⟨q, hq, dq, hdq, hcov⟩
    · exact Or.inl hkept
    · exact Or.inr ⟨q, hq, dq, hdq, hcov, fun _ hp => hcov.covered hp⟩

end

def twoFlows : DB :=
  replay (StoreCall.prog {}) DB.empty [(.upsertFlow sampleFlow, 0), (.upsertFlow { sampleFlow with id := 2 }, 0)]

theorem consistent_twoFlows : Consistent twoFlows :=
  ⟨replay_metadata refsPlus_keptByMetadata refExact_empty (by decide),
    replay_metadata segmentInv_keptByMetadata segmentInv_empty (by decide)⟩

def sharingCalls : Fin 3 → StoreCall
  | 0 => .insertSegments id ⟨1, [sampleSegment "o" "[0:0_1:0)" 0 1], lit "default"⟩
  | 1 => .insertSegments (· + 1) ⟨2, [sampleSegment "o" "[0:0_1:0)" 0 1], lit "default"⟩
  | 2 => .deleteSegmentsByTimerange ⟨1, ⟨none, .unbounded, none, .unbounded⟩, none⟩

/-- The second insert waits for the object until the first has committed; the delete for the flow. -/
def sharingSchedule : List (Act 3) :=
  Act.turns 2 [0, 1, 2, 0, 1, 0, 1, 0, 0, 0, 0, 0, 1, 2, 1, 2, 1, 1, 1, 2, 2, 2, 2, 0, 1, 2]

theorem segmentWrites_safe_sharing :
    ∃ s, (Sys.start 0 twoFlows fun p => (sharingCalls p).prog { exclusion := false }).runs sharingSchedule = some s ∧
      (∀ r ∈ s.db.objects.rows, r.refCount = (s.db.segmentsOn r.id).length) ∧
      (∀ r ∈ s.db.segments.rows, ∀ r' ∈ s.db.segments.rows, r ≠ r' → r.flowId = r'.flowId → Disjoint r.span r'.span) ∧
      ∀ p nextval batch a, sharingCalls p = .insertSegments nextval batch → (s.procs p).prog.result? = some (.ok a) →
        ∃ pre post, s.committed = pre ++ p :: post ∧ ∀ i seg, batch.segments[i]? = some seg →
          ∃ r, StoredAs nextval batch.flowId i seg r ∧ (r ∈ s.db.segments.rows ∨
            ∃ q ∈ post, ∃ dq, sharingCalls q = .deleteSegmentsByTimerange dq ∧ dq.Covers r ∧
              ∀ text, parse text = .ok dq.timerange → Covered dq r) := by
  obtain ⟨s, hs⟩ := Option.isSome_iff_exists.mp (by decide +kernel :
    ((Sys.start 0 twoFlows fun p => (sharingCalls p).prog { exclusion := false }).runs sharingSchedule).isSome = true)
  exact ⟨s, hs, segmentWrites_safe (by decide +kernel) consistent_twoFlows hs⟩

end OpenTams
