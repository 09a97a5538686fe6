import Mathlib.Data.Int.ConditionallyCompleteOrder
import Mathlib.Data.List.Pairwise
import Mathlib.Data.Set.Lattice
import Mathlib.Order.CompletePartialOrder
import Mathlib.Order.ConditionallyCompleteLattice.Basic
import Mathlib.Order.Interval.Set.Basic
import OpenTams.Register
import OpenTams.StoreSound
import OpenTams.TimerangeText

/-!
# The segment store

No two segments of a flow share a nanosecond, and every segment has the bounds
its string denotes. Both follow from the checks the code makes before it writes:
nothing here uses the constraints of the `segments` table.
-/

namespace OpenTams

open Sql

/-! ## Overlap checks are exact -/

def SegmentRow.span (r : SegmentRow) : Set ℤ := Set.Ico r.lowerNs.toInt r.upperNs.toInt

def paramSet (lo hi : Option Int64) : Set ℤ := {n | (∀ x ∈ lo, x.toInt ≤ n) ∧ ∀ x ∈ hi, n < x.toInt}

theorem paramSet_params (b : NsBounds) : paramSet (lowerParam b) (upperParam b) = b.denote := by
  ext n
  unfold paramSet NsBounds.denote lowerParam upperParam
  cases b.lowerUnbounded <;> cases b.upperUnbounded <;> simp

/-- The probe finds exactly the stored rows that share a nanosecond with the bounds. -/
theorem rowOverlaps_iff {lo hi : Option Int64} {r : SegmentRow} :
    rowOverlaps lo hi r = true ↔ (r.span ∩ paramSet lo hi).Nonempty := by
  simp only [rowOverlaps, Bool.and_eq_true, decide_eq_true_eq, Option.all_eq_true, Int64.lt_iff_toInt_lt]
  constructor
  · rintro ⟨⟨⟨hne, hrow⟩, hhi⟩, hlo⟩
    -- the later of the two lower bounds
    refine ⟨max r.lowerNs.toInt ((lo.map (·.toInt)).getD r.lowerNs.toInt), ⟨le_max_left _ _, ?_⟩, fun x hx => ?_,
      fun x hx => ?_⟩
    · cases lo with
      | none => simpa using hrow
      | some x => exact max_lt hrow (hlo x rfl)
    · rw [Option.mem_def] at hx
      subst hx
      exact le_max_right _ _
    · rw [Option.mem_def] at hx
      subst hx
      cases lo with
      | none => simpa using hhi x rfl
      | some y =>
        simp only [int8rangeNonempty, decide_eq_true_eq, Int64.lt_iff_toInt_lt] at hne
        exact max_lt (hhi x rfl) hne
  · rintro ⟨n, ⟨hl, hu⟩, hlo, hhi⟩
    refine ⟨⟨⟨?_, by omega⟩, fun x hx => ?_⟩, fun x hx => ?_⟩
    · cases lo with
      | none => rfl
      | some x =>
        cases hi with
        | none => rfl
        | some y =>
          have := hlo x rfl
          have := hhi y rfl
          simp only [int8rangeNonempty, decide_eq_true_eq, Int64.lt_iff_toInt_lt]
          omega
    · have := hhi x hx
      omega
    · have := hlo x hx
      omega

theorem rowOverlaps_eq_false {b : NsBounds} {r : SegmentRow} :
    rowOverlaps (lowerParam b) (upperParam b) r = false ↔ Disjoint r.span b.denote := by
  rw [← Bool.not_eq_true, rowOverlaps_iff, paramSet_params, Set.not_nonempty_iff_eq_empty,
    Set.disjoint_iff_inter_eq_empty]

theorem disjoint_of_boundsOverlap {a b : NsBounds} (h : boundsOverlap a b = false) : Disjoint a.denote b.denote := by
  rw [Set.disjoint_left]
  rintro n ⟨hal, hau⟩ ⟨hbl, hbu⟩
  simp only [boundsOverlap, Bool.and_eq_false_iff, Bool.or_eq_false_iff, decide_eq_false_iff_not,
    Int64.lt_iff_toInt_lt] at h
  rcases h with ⟨⟨h1, h2⟩, h3⟩ | ⟨⟨h1, h2⟩, h3⟩
  · simp only [h1, Bool.false_eq_true, false_or] at hal
    simp only [h2, Bool.false_eq_true, false_or] at hbu
    omega
  · simp only [h1, Bool.false_eq_true, false_or] at hbl
    simp only [h2, Bool.false_eq_true, false_or] at hau
    omega

theorem boundsOverlap_eq_false {a b : NsBounds} (ha : a.denote.Nonempty) (hb : b.denote.Nonempty) :
    boundsOverlap a b = false ↔ Disjoint a.denote b.denote := by
  refine ⟨disjoint_of_boundsOverlap, fun h => ?_⟩
  by_contra hover
  simp only [boundsOverlap, Bool.not_eq_false, Bool.and_eq_true, Bool.or_eq_true, decide_eq_true_eq, or_assoc,
    Int64.lt_iff_toInt_lt] at hover
  obtain ⟨hover, hover'⟩ := hover
  obtain ⟨x, hal, hau⟩ := ha
  obtain ⟨y, hbl, hbu⟩ := hb
  rw [Set.disjoint_left] at h
  by_cases hxl : b.lowerUnbounded = true ∨ b.lower.toInt ≤ x
  · by_cases hxu : b.upperUnbounded = true ∨ x < b.upper.toInt
    · exact h ⟨hal, hau⟩ ⟨hxl, hxu⟩
    · -- `b` ends at or before `x`: its last nanosecond is in both
      rw [not_or, not_lt] at hxu
      have hover := hover.imp_right fun h => h.resolve_left hxu.1
      have hbu := hbu.resolve_left hxu.1
      refine h (a := b.upper.toInt - 1) ⟨hover.imp_right fun h => ?_, hau.imp_right fun h => ?_⟩
        ⟨hbl.imp_right fun h => ?_, Or.inr ?_⟩
      all_goals omega
  · -- `b` starts after `x`: its first nanosecond is in both
    rw [not_or, not_le] at hxl
    have hover' := hover'.resolve_left hxl.1
    have hbl := hbl.resolve_left hxl.1
    refine h (a := b.lower.toInt) ⟨hal.imp_right fun h => ?_, hover'⟩ ⟨Or.inr le_rfl, hbu.imp_right fun h => ?_⟩
    all_goals omega

theorem findOverlap_eq_none {i : Nat} {bs : List NsBounds} :
    findOverlap i bs = none ↔ bs.Pairwise fun a b => boundsOverlap a b = false := by
  induction bs generalizing i with
  | nil => simp [findOverlap]
  | cons b bs ih =>
    rw [List.pairwise_cons, findOverlap]
    cases hf : bs.findIdx? (boundsOverlap b) with
    | none =>
      rw [List.findIdx?_eq_none_iff] at hf
      exact ih.trans ⟨fun h => ⟨hf, h⟩, And.right⟩
    | some k =>
      simp only [reduceCtorEq, false_iff, not_and]
      intro h
      rw [List.findIdx?_eq_none_iff.mpr h] at hf
      cases hf

def Segment.bounds (seg : Segment) : NsBounds := seg.timerange.nsBounds.toOption.getD {}

theorem Segment.bounds_eq {seg : Segment} {b : NsBounds} (h : seg.timerange.nsBounds = .ok b) : seg.bounds = b := by
  rw [Segment.bounds, h]
  rfl

theorem segmentBounds_ok {i : Nat} {segs : List Segment} {bs : List NsBounds} :
    segmentBounds i segs = .ok bs ↔
      (∀ seg ∈ segs, seg.timerangeRaw ≠ [] ∧ seg.timerange.nsBounds = .ok seg.bounds) ∧
        bs = segs.map Segment.bounds := by
  induction segs generalizing i bs with
  | nil => simp [segmentBounds, eq_comm]
  | cons seg segs ih =>
    simp only [List.forall_mem_cons, List.map_cons]
    unfold segmentBounds
    split
    · rename_i hraw
      simp [hraw]
    rename_i hraw
    cases hb : seg.timerange.nsBounds with
    | error e => simp
    | ok b =>
      have hb' := Segment.bounds_eq hb
      cases hr : segmentBounds (i + 1) segs with
      | error e =>
        simp only [reduceCtorEq, false_iff]
        rintro ⟨⟨-, h⟩, -⟩
        rw [ih.mpr ⟨h, rfl⟩] at hr
        cases hr
      | ok bs' =>
        obtain ⟨h, rfl⟩ := ih.mp hr
        simp only [Except.ok.injEq, hb', and_true, ne_eq, hraw, not_false_eq_true, true_and]
        exact ⟨fun he => ⟨h, he.symm⟩, fun he => he.2.symm⟩

theorem checkBatch_iff {batch : InsertBatch} {bs : List NsBounds} :
    checkBatch batch = .ok bs ↔
      (∀ seg ∈ batch.segments, seg.timerangeRaw ≠ [] ∧ seg.timerange.nsBounds = .ok seg.bounds) ∧
      bs = batch.segments.map Segment.bounds ∧ bs.Pairwise fun a b => boundsOverlap a b = false := by
  unfold checkBatch
  cases hb : segmentBounds 0 batch.segments with
  | error e =>
    simp only [reduceCtorEq, false_iff]
    rintro ⟨h, -⟩
    rw [segmentBounds_ok.mpr ⟨h, rfl⟩] at hb
    cases hb
  | ok bounds =>
    obtain ⟨h, rfl⟩ := segmentBounds_ok.mp hb
    dsimp only
    cases ho : findOverlap 0 (batch.segments.map Segment.bounds) with
    | none =>
      simp only [Except.ok.injEq]
      constructor
      · rintro rfl
        exact ⟨h, rfl, findOverlap_eq_none.mp ho⟩
      · exact fun ⟨_, he, _⟩ => he.symm
    | some ij =>
      simp only [reduceCtorEq, false_iff]
      rintro ⟨-, rfl, hpw⟩
      rw [findOverlap_eq_none.mpr hpw] at ho
      cases ho

theorem checkBatch_ok {batch : InsertBatch} {bs : List NsBounds} (h : checkBatch batch = .ok bs) :
    (∀ x ∈ batch.segments.zip bs, x.1.timerange.nsBounds = .ok x.2) ∧
      (batch.segments.zip bs).Pairwise fun x y => Disjoint x.2.denote y.2.denote := by
  obtain ⟨hb, rfl, hpw⟩ := checkBatch_iff.mp h
  rw [← List.map_prod_left_eq_zip]
  refine ⟨List.forall_mem_map.mpr fun seg hs => (hb seg hs).2, ?_⟩
  rw [List.pairwise_map] at hpw ⊢
  exact hpw.imp disjoint_of_boundsOverlap

/-! ## The invariant -/

/-- Every stored segment has property `K`, and the segments of a flow lie apart. -/
structure SegmentInv (K : SegmentRow → Prop) (d : DB) : Prop where
  rows : ∀ r ∈ d.segments.rows, K r
  apart : d.segments.rows.Pairwise fun r r' => r.flowId = r'.flowId → Disjoint r.span r'.span

section
variable {K : SegmentRow → Prop} {v : DB}

theorem segmentInv_empty : SegmentInv K DB.empty := ⟨(fun _ h => by cases h), .nil⟩

theorem SegmentInv.of_sublist {v' : DB} (h : SegmentInv K v) (hs : v'.segments.rows.Sublist v.segments.rows) :
    SegmentInv K v' :=
  ⟨fun r hr => h.rows r (hs.subset hr), h.apart.sublist hs⟩

theorem SegmentInv.of_eq {v' : DB} (h : SegmentInv K v) (hs : v'.segments = v.segments) : SegmentInv K v' :=
  h.of_sublist (hs ▸ List.Sublist.refl _)

theorem SegmentInv.disjoint (h : SegmentInv K v) {r r' : SegmentRow} (hr : r ∈ v.segments.rows)
    (hr' : r' ∈ v.segments.rows) (hne : r ≠ r') (hf : r.flowId = r'.flowId) : Disjoint r.span r'.span := by
  have : Std.Symm fun r r' : SegmentRow => r.flowId = r'.flowId → Disjoint r.span r'.span :=
    ⟨fun _ _ hs he => (hs he.symm).symm⟩
  exact h.apart.forall hr hr' hne hf

theorem SegmentInv.delAll (h : SegmentInv K v) (ids : List Nat) :
    SegmentInv K { v with segments := v.segments.delAll ids } := by
  refine h.of_sublist ?_
  have := Table.rows_delAll v.segments ids
  exact this ▸ List.filter_sublist

theorem SegmentInv.withoutFlow {id : Uuid} (v : DB) (h : SegmentInv K v) : SegmentInv K (v.withoutFlow id) :=
  (h.delAll ((v.segmentsOf id).map (·.id))).of_eq rfl

theorem segmentInv_keptByMetadata (g : Uuid) : KeptByMetadata g (SegmentInv K) where
  source _ _ h := h.of_eq rfl
  flow _ _ _ h := h.of_eq rfl
  tag _ _ _ h := h.of_eq rfl
  delTag _ _ h := h.of_eq rfl
  item _ _ _ h := h.of_eq rfl
  delItem _ _ h := h.of_eq rfl

theorem SegmentInv.insert (h : SegmentInv K v) {r : SegmentRow} (hid : v.segments.get r.id = none) (hK : K r)
    (hr : ∀ r' ∈ v.segmentsOf r.flowId, Disjoint r'.span r.span) : SegmentInv K (v.write (.putSegment r)) := by
  refine ⟨fun x hx => ?_, ?_⟩
  · rw [segments_putSegment hid, List.mem_append, List.mem_singleton] at hx
    rcases hx with hx | rfl
    · exact h.rows x hx
    · exact hK
  · rw [segments_putSegment hid, List.pairwise_append]
    refine ⟨h.apart, List.pairwise_singleton .., fun x hx y hy hf => ?_⟩
    rw [List.mem_singleton] at hy
    subst hy
    exact hr x (List.mem_filter.mpr ⟨hx, by simpa using hf⟩)

/-! ## InsertSegments -/

variable {t : Time} {ls : List Lock}

def RowsHave (K : SegmentRow → Prop) (f : Uuid) (x : Segment × NsBounds) : Prop :=
  ∀ lo hi, lowerParam x.2 = some lo → upperParam x.2 = some hi → ∀ i now, K (segmentRow i f x.1 lo hi now)

theorem span_eq_denote {b : NsBounds} {lo hi : Int64} (hlo : lowerParam b = some lo) (hhi : upperParam b = some hi)
    (i : Nat) (f : Uuid) (seg : Segment) (now : Time) : (segmentRow i f seg lo hi now).span = b.denote := by
  unfold lowerParam at hlo
  unfold upperParam at hhi
  split at hlo
  · cases hlo
  split at hhi
  · cases hhi
  rename_i hl hu
  cases hlo
  cases hhi
  ext n
  simp [SegmentRow.span, segmentRow, NsBounds.denote, hl, hu]

theorem wp_overlapChecks {f : Uuid} {xs : List (Segment × NsBounds)} {C : Unit → List Lock → DB → Prop} :
    Wp Alone t (fun _ _ v' => v' = v ∧ ∀ x ∈ xs, ∀ r ∈ v.segmentsOf f, Disjoint r.span x.2.denote) C
      (Prog.forEach (overlapCheck f) 0 xs) ls v := by
  refine wp_forEach_check fun i x ls => wp_stmtE fun a ha => ⟨Alone.stable _ _, rfl, fun r hr => ?_⟩
  cases hp : overlapProbe f x.2 v with
  | error e => simp only [hp] at ha; cases ha
  | ok found =>
    cases found with
    | some s => simp only [hp] at ha; cases ha
    | none =>
      unfold overlapProbe at hp
      split at hp
      · cases hp
      · simp only [Except.ok.injEq, Option.map_eq_none_iff, List.find?_eq_none] at hp
        exact rowOverlaps_eq_false.mp (by simpa using hp r hr)

theorem wp_insertRows_apart {c : Constraints} {nextval : Nat → Nat} {f : Uuid} {xs : List (Segment × NsBounds)}
    (h : SegmentInv K v) (hK : ∀ x ∈ xs, RowsHave K f x)
    (hnew : ∀ x ∈ xs, ∀ r ∈ v.segmentsOf f, Disjoint r.span x.2.denote)
    (hpw : xs.Pairwise fun x y => Disjoint x.2.denote y.2.denote) :
    Wp Alone t (fun _ _ v => SegmentInv K v) Never (Prog.forEach (insertSegment c nextval f) 0 xs) ls v := by
  refine (wp_forEach (J := fun _ rest _ v => SegmentInv K v ∧ (∀ x ∈ rest, RowsHave K f x) ∧
    (∀ x ∈ rest, ∀ r ∈ v.segmentsOf f, Disjoint r.span x.2.denote) ∧
    rest.Pairwise fun x y => Disjoint x.2.denote y.2.denote) ?_ ⟨h, hK, hnew, hpw⟩).post fun _ _ v hJ => hJ.1
  rintro i x rest ls v ⟨h, hK, hnew, hpw⟩
  refine wp_stmtE fun a ha => ⟨Alone.stable _ _, ?_⟩
  cases hi : insertedRow c (nextval i) f x t v with
  | error err => rw [hi] at ha; cases ha
  | ok r =>
    obtain ⟨lo, hi', hlo, hhi, rfl, hid, -, -⟩ := insertedRow_ok hi
    obtain ⟨hx, hpw⟩ := List.pairwise_cons.mp hpw
    have hspan := span_eq_denote hlo hhi (nextval i) f x.1 t
    simp only [writeAll_cons, writeAll_nil, write_eq]
    refine ⟨h.insert hid (hK x List.mem_cons_self lo hi' hlo hhi _ _) fun r hr => ?_,
      fun y hy => hK y (List.mem_cons_of_mem _ hy), fun y hy r hr => ?_, hpw⟩
    · rw [hspan]
      exact hnew x List.mem_cons_self r hr
    · rw [segmentsOf_putSegment hid, List.mem_append] at hr
      rcases hr with hr | hr
      · exact hnew y (List.mem_cons_of_mem _ hy) r hr
      · simp only [segmentRow, if_true, List.mem_singleton] at hr
        subst hr
        exact hspan ▸ hx y hy

theorem insertSegments_apart {c : Constraints} {nextval : Nat → Nat} {batch : InsertBatch} (h : SegmentInv K v)
    (hK : ∀ seg ∈ batch.segments, ∀ b, seg.timerange.nsBounds = .ok b → RowsHave K batch.flowId (seg, b)) :
    SegmentInv K ((insertSegments c nextval batch).run t v).2 := by
  unfold insertSegments
  split
  · exact h
  rename_i bounds hb
  obtain ⟨hmem, hpw⟩ := checkBatch_ok hb
  have hwp : Wp Alone t (fun _ _ _ => True) (fun _ _ v => SegmentInv K v) (insertBody c nextval batch bounds) [] v := by
    refine wp_guard (fun _ he => by rw [he]) fun _ _ _ => Wp.seq wp_overlapChecks ?_
    rintro _ ls v₁ ⟨hv₁, hnew⟩
    rw [hv₁]
    refine Wp.seq ((Prog.keeps_forEach (keeps_registerObject (J := fun v' => v'.segments = v.segments)
      (fun _ _ h => h) batch) _ _).wp (Prog.flat_forEach (flat_registerObject _) _ _) rfl) fun _ ls v' hseg => ?_
    refine Wp.seq ((Prog.keeps_forEach (keeps_checkObjectTimerange (J := fun v' => v'.segments = v.segments)) _ _).wp
      (Prog.flat_forEach flat_checkObjectTimerange _ _) hseg) fun _ ls v' hseg => ?_
    have hof : v'.segmentsOf batch.flowId = v.segmentsOf batch.flowId := by rw [DB.segmentsOf, hseg]; rfl
    refine Wp.seq (wp_insertRows_apart (h.of_eq hseg) (fun x hx => ?_) (hof ▸ hnew) hpw) fun _ ls v h => ?_
    · exact hK x.1 (List.of_mem_zip hx).1 x.2 (hmem x hx)
    · refine Wp.seq ((keeps_refreshFlowTimerange (fun _ _ _ h => h.of_eq rfl) _).wp (flat_refreshFlowTimerange _ _) h)
        fun _ ls v h => ?_
      exact wp_commitThen h
  exact hwp.run_inTx_keeps h

end

/-! ## RegisterBatch -/

/-- A row that says what its string says: it is not empty, its bounds are the nanoseconds
the string denotes, and the string has an inclusive start and two finite bounds. -/
structure SegmentRow.Canonical (r : SegmentRow) : Prop where
  nonempty : r.lowerNs < r.upperNs
  denotes : RangeText r.timerange r.span
  bounded : ∃ s e ety, parse r.timerange = .ok ⟨some s, .inclusive, some e, ety⟩ ∧
    r.span = (⟨some s, .inclusive, some e, ety⟩ : TimeRange).denote

theorem segmentTimerangeViolation_none {tr : TimeRange} (h : segmentTimerangeViolation tr = none) :
    (∃ s e ety, tr = ⟨some s, .inclusive, some e, ety⟩) ∧ ∃ b, tr.nsBounds = .ok b := by
  obtain ⟨start, sty, endTs, ety⟩ := tr
  unfold segmentTimerangeViolation at h
  split at h
  · cases h
  split at h
  · cases h
  rename_i hb
  split at h
  · cases h
  rename_i hi
  split at h
  · cases h
  rename_i b hok
  simp only [Bool.or_eq_true, not_or, Option.isNone_iff_eq_none, ← Option.isSome_iff_ne_none,
    Option.isSome_iff_exists, ne_eq, not_not] at hb hi
  obtain ⟨⟨s, rfl⟩, e, rfl⟩ := hb
  exact ⟨⟨s, e, ety, by rw [hi]⟩, b, hok⟩

theorem rowsHave_canonical {seg : Segment} (hp : parse seg.timerangeRaw = .ok seg.timerange)
    (hv : segmentTimerangeViolation seg.timerange = none) {b : NsBounds} (hb : seg.timerange.nsBounds = .ok b)
    (f : Uuid) :
    RowsHave SegmentRow.Canonical f (seg, b) := by
  intro lo hi hlo hhi i now
  obtain ⟨hwf, htext⟩ := parse_text hp
  have hspan : (segmentRow i f seg lo hi now).span = seg.timerange.denote :=
    (span_eq_denote hlo hhi i f seg now).trans (TimeRange.nsBounds_denote hwf hb).1
  refine ⟨?_, hspan ▸ htext, ?_⟩
  · obtain ⟨n, hn⟩ := TimeRange.denote_nonempty_of_nsBounds hwf hb
    rw [← hspan] at hn
    exact Int64.lt_iff_toInt_lt.mpr (hn.1.trans_lt hn.2)
  · obtain ⟨⟨s, e, ety, he⟩, -⟩ := segmentTimerangeViolation_none hv
    exact ⟨s, e, ety, he ▸ hp, he ▸ hspan⟩

theorem rejectSegment_none {seg : Segment} (h : rejectSegment seg = none) :
    segmentTimerangeViolation seg.timerange = none := by
  unfold rejectSegment at h
  split at h
  · cases h
  split at h
  · cases h
  · assumption

theorem rejectSegment_segment {seg : Segment} {f : FailedSegment} (h : rejectSegment seg = some f) : f.segment = seg := by
  unfold rejectSegment at h
  split at h
  · cases h
    rfl
  · split at h
    · cases h
      rfl
    · cases h

/-- A segment is either listed as failed or passed on. -/
theorem screen_cases {seg : Segment} {segs : List Segment} (h : seg ∈ segs) (i : Nat) :
    (∃ f ∈ (screen i segs).failed, f.segment = stampURLs seg) ∨ stampURLs seg ∈ (screen i segs).survivors := by
  induction segs generalizing i with
  | nil => cases h
  | cons s segs ih =>
    simp only [screen]
    cases hr : rejectSegment (stampURLs s) with
    | some f =>
      rcases List.mem_cons.mp h with rfl | h
      · exact Or.inl ⟨f, List.mem_cons_self, rejectSegment_segment hr⟩
      · rcases ih h (i + 1) with ⟨f', hf', he⟩ | hs
        · exact Or.inl ⟨f', List.mem_cons_of_mem _ hf', he⟩
        · exact Or.inr hs
    | none =>
      rcases List.mem_cons.mp h with rfl | h
      · exact Or.inr List.mem_cons_self
      · exact (ih h (i + 1)).imp_right (List.mem_cons_of_mem _)

theorem mem_survivors {i : Nat} {segs : List Segment} {seg : Segment} (h : seg ∈ (screen i segs).survivors) :
    segmentTimerangeViolation seg.timerange = none ∧ ∃ s ∈ segs, seg = stampURLs s := by
  induction segs generalizing i with
  | nil => cases h
  | cons s segs ih =>
    simp only [screen] at h
    split at h
    · obtain ⟨hv, s', hs', he⟩ := ih h
      exact ⟨hv, s', List.mem_cons_of_mem _ hs', he⟩
    · rename_i hr
      rcases List.mem_cons.mp h with rfl | h
      · exact ⟨rejectSegment_none hr, s, List.mem_cons_self, rfl⟩
      · obtain ⟨hv, s', hs', he⟩ := ih h
        exact ⟨hv, s', List.mem_cons_of_mem _ hs', he⟩

theorem finishRegister_db (x : Screened) (r : Except Err InsertResult) (t : Time) (c : Conn DB Write Lock) :
    ((finishRegister x r).exec t c).2.db = c.db := by
  cases r with
  | error e => rfl
  | ok r =>
    unfold finishRegister
    dsimp only
    split <;> rfl

theorem registerBatch_db {P : DB → Prop} {c : Constraints} {storageId : Str} {nextval : Nat → Nat}
    {req : RegisterParams} {t : Time} {d : DB} (h : P d)
    (hins : P ((insertSegments c nextval ⟨req.flowId, (screen 0 req.segments).survivors, storageId⟩).run t d).2) :
    P ((registerBatch c storageId nextval req).run t d).2 := by
  unfold registerBatch
  split
  · exact h
  unfold registerScreened
  split
  · exact h
  simp only [Prog.run, Prog.bind_eq, Prog.exec_bind, Prog.exec_attempt, finishRegister_db]
  exact hins

/-! ## Runs -/

inductive Request where
  | registerBatch (nextval : Nat → Nat) (req : RegisterParams)
  | store (x : StoreCall)

def Request.prog (c : Constraints) (storageId : Str) : Request → Tx Unit
  | .registerBatch nextval req => (OpenTams.registerBatch c storageId nextval req).map fun _ => ()
  | .store x => (x.prog c).map fun _ => ()

def Request.Parsed : Request → Prop
  | .registerBatch _ req => ∀ seg ∈ req.segments, parse seg.timerangeRaw = .ok seg.timerange
  | .store (.insertSegments _ _) => False
  | .store _ => True

instance : DecidablePred Request.Parsed
  | .registerBatch _ req =>
    inferInstanceAs (Decidable (∀ seg ∈ req.segments, parse seg.timerangeRaw = .ok seg.timerange))
  | .store (.insertSegments _ _) => .isFalse id
  | .store (.upsertFlow _) | .store (.deleteFlow _) | .store (.putFlowTag ..) | .store (.deleteFlowTag ..)
  | .store (.putFlowLabel ..) | .store (.deleteFlowLabel _) | .store (.putFlowDescription ..)
  | .store (.deleteFlowDescription _) | .store (.putFlowReadOnly ..) | .store (.putFlowCollection ..)
  | .store (.deleteFlowCollection _) | .store (.putFlowAvgBitRate ..) | .store (.deleteFlowAvgBitRate _)
  | .store (.putFlowMaxBitRate ..) | .store (.deleteFlowMaxBitRate _) | .store (.deleteSegmentsByTimerange _) =>
    .isTrue trivial

/-- Whatever row the request stores has property `K`; segments come in through the service. -/
def Request.Stores (K : SegmentRow → Prop) : Request → Prop
  | .registerBatch _ req => ∀ seg ∈ (screen 0 req.segments).survivors, ∀ b, seg.timerange.nsBounds = .ok b →
    RowsHave K req.flowId (seg, b)
  | .store (.insertSegments _ _) => False
  | .store _ => True

theorem request_segmentInv {K : SegmentRow → Prop} {c : Constraints} {storageId : Str} (x : Request) (t : Time) (d : DB)
    (h : SegmentInv K d) (hx : x.Stores K) : SegmentInv K ((x.prog c storageId).run t d).2 := by
  cases x with
  | registerBatch nextval req =>
    simp only [Request.prog, Prog.run_map]
    exact registerBatch_db h (insertSegments_apart h hx)
  | store x =>
    simp only [Request.prog, Prog.run_map]
    cases hm : x.isMetadata with
    | true => exact (keeps_metadata c (segmentInv_keptByMetadata _) hm).run t h
    | false =>
      cases x with
      | deleteFlow id =>
        simp only [StoreCall.prog, Prog.run_map]
        exact (keeps_deleteFlow (fun _ _ _ _ h => h.of_eq rfl) SegmentInv.withoutFlow).run t h
      | deleteSegmentsByTimerange q =>
        simp only [StoreCall.prog, Prog.run_map]
        exact (keeps_deleteSegmentsByTimerange (fun _ _ _ _ h => h.of_eq rfl) (fun _ _ _ h => h.of_eq rfl)
          fun _ _ _ _ h => h.delAll _).run t h
      | insertSegments nextval batch => exact hx.elim
      | _ => cases hm

theorem segmentInv_replay {K : SegmentRow → Prop} {c : Constraints} {storageId : Str} {h : List (Request × Time)}
    (hs : ∀ x ∈ h, x.1.Stores K) : SegmentInv K (replay (Request.prog c storageId) DB.empty h) :=
  replay_rule (C := fun _ => Request.Stores K) request_segmentInv segmentInv_empty (meets_of_forall hs _)

theorem Request.Parsed.stores {x : Request} (hx : x.Parsed) : x.Stores SegmentRow.Canonical := by
  cases x with
  | registerBatch nextval req =>
    intro seg hseg b hb
    obtain ⟨hv, s, hs, rfl⟩ := mem_survivors hseg
    have hp : parse (stampURLs s).timerangeRaw = .ok (stampURLs s).timerange := hx s hs
    exact rowsHave_canonical hp hv hb req.flowId
  | store x => cases x <;> exact hx

/-- **The segment store.** Whatever is registered, deleted and upserted, every stored row
says what its string says, and the rows of a flow share no nanosecond, with or without the
constraints of the table. -/
theorem segments_canonical_apart {c : Constraints} {storageId : Str} {h : List (Request × Time)}
    (hp : ∀ x ∈ h, x.1.Parsed) :
    (∀ r ∈ (replay (Request.prog c storageId) DB.empty h).segments.rows, r.Canonical) ∧
    ∀ r ∈ (replay (Request.prog c storageId) DB.empty h).segments.rows,
      ∀ r' ∈ (replay (Request.prog c storageId) DB.empty h).segments.rows,
        r ≠ r' → r.flowId = r'.flowId → Disjoint r.span r'.span := by
  have hd : SegmentInv SegmentRow.Canonical (replay (Request.prog c storageId) DB.empty h) :=
    segmentInv_replay fun x hx => (hp x hx).stores
  exact ⟨hd.rows, fun r hr r' hr' hne hf => hd.disjoint hr hr' hne hf⟩

def registerRun : List (Request × Time) :=
  [(.store (.upsertFlow { id := 1, sourceId := 2, format := lit "urn:x-nmos:format:video" }), 0),
    (.registerBatch id ⟨1, [segment "a" "[0:0_1:0)" 0 1, segment "b" "[1:0_2:0)" 1 2]⟩, 1),
    (.registerBatch (· + 2) ⟨1, [segment "c" "[0:0_2:0)" 0 2]⟩, 2)]
where
  segment (o r : String) (start stop : Int64) : Segment :=
    { objectId := lit o, timerangeRaw := lit r,
      timerange := ⟨some ⟨start, 0⟩, .inclusive, some ⟨stop, 0⟩, .exclusive⟩ }

theorem segments_after_registerRun :
    (replay (Request.prog ⟨false, false⟩ (lit "default")) DB.empty registerRun).segments.rows.map
      (fun r => (r.lowerNs.toInt, r.upperNs.toInt)) = [(0, 1000000000), (1000000000, 2000000000)] ∧
    (∀ r ∈ (replay (Request.prog ⟨false, false⟩ (lit "default")) DB.empty registerRun).segments.rows, r.Canonical) ∧
    ∀ r ∈ (replay (Request.prog ⟨false, false⟩ (lit "default")) DB.empty registerRun).segments.rows,
      ∀ r' ∈ (replay (Request.prog ⟨false, false⟩ (lit "default")) DB.empty registerRun).segments.rows,
        r ≠ r' → r.flowId = r'.flowId → Disjoint r.span r'.span := by
  exact ⟨by decide +kernel, segments_canonical_apart (by decide +kernel)⟩

end OpenTams
