import OpenTams.Batching
import OpenTams.Containment
import OpenTams.SegmentPost

/-!
# Why InsertSegments refuses a batch

The calls the service makes hand over segments it has screened. Every error of
such a call is traced to the check that failed: what the checks before it have
let pass, and which segment it failed for. From this it is read off which
requests run into a constraint of the database and which make the process panic.
-/

namespace OpenTams

open Sql Prog

/-! ## Statements that fail -/

section
variable {t : Time} {v : DB} {e : Err}

section
variable {β : Type} (op : String) {f : Uuid} {rest : Tx β}

theorem eval_guard_missing (hf : v.flows.get f = none) :
    ∃ m, (do let guard ← getFlowForSegmentWrite f; checkGuard op guard; rest).eval t v =
      .error (.wrap m (.sentinel .flowNotFound)) := by
  rw [eval_bind, getFlowForSegmentWrite, eval_stmt]
  simp only [hf, checkGuard, Except.bind]
  exact ⟨_, rfl⟩

theorem eval_guard_readOnly {r : FlowRow} (hf : v.flows.get f = some r) (hr : r.readOnly = true) :
    ∃ m, (do let guard ← getFlowForSegmentWrite f; checkGuard op guard; rest).eval t v =
      .error (.wrap m (.sentinel .flowReadOnly)) := by
  rw [eval_bind, getFlowForSegmentWrite, eval_stmt]
  simp only [hf, hr, checkGuard, Except.bind]
  exact ⟨_, rfl⟩

theorem eval_guard_error
    (h : (do let guard ← getFlowForSegmentWrite f; checkGuard op guard; rest).eval t v = .error e) :
    (v.flows.get f = none ∧ ∃ m, e = .wrap m (.sentinel .flowNotFound)) ∨
      (∃ r, v.flows.get f = some r ∧ r.readOnly = true ∧ ∃ m, e = .wrap m (.sentinel .flowReadOnly)) ∨
      ∃ r, v.flows.get f = some r ∧ r.readOnly = false ∧ rest.eval t v = .error e := by
  cases hg : v.flows.get f with
  | none =>
    obtain ⟨m, hm⟩ := eval_guard_missing op (t := t) hg
    cases hm.symm.trans h
    exact Or.inl ⟨rfl, m, rfl⟩
  | some r =>
    cases hr : r.readOnly with
    | true =>
      obtain ⟨m, hm⟩ := eval_guard_readOnly op (t := t) hg hr
      cases hm.symm.trans h
      exact Or.inr (Or.inl ⟨r, rfl, hr, m, rfl⟩)
    | false =>
      rw [eval_guard_writable hg hr] at h
      exact Or.inr (Or.inr ⟨r, rfl, hr, h⟩)

end

theorem eval_overlapCheck_error {f : Uuid} {i : Nat} {x : Segment × NsBounds}
    (h : (overlapCheck f i x).eval t v = .error e) (hok : ∃ found, overlapProbe f x.2 v = .ok found) :
    overlapProbe f x.2 v ≠ .ok none ∧ ∃ m, e = .wrap m (.sentinel .segmentOverlap) := by
  obtain ⟨found, hf⟩ := hok
  rw [overlapCheck, eval_stmtE, hf] at h
  cases found with
  | none => cases h
  | some existing =>
    cases h
    refine ⟨fun hn => ?_, _, rfl⟩
    cases hf.symm.trans hn

theorem eval_registerObject_error {batch : InsertBatch} {i : Nat} {seg : Segment}
    (h : (registerObject batch i seg).eval t v = .error e) :
    (seg.getUrls.length = 0 ∧ batch.controlledStorageId = [] ∧
      ∃ m, e = .wrap m (.sentinel .controlledStorageNotConfigured)) ∨
    (∃ r, v.objects.get seg.objectId = some r ∧ r.reaping = true ∧ ∃ m, e = .wrap m (.sentinel .segmentObjectReaping)) ∨
    (∀ r, v.objects.get seg.objectId = some r → r.reaping = false) ∧ fitsInt4 (v.refCountOf seg.objectId + 1) = false ∧
      ∃ m, e = .wrap m (.sql .outOfRange) := by
  unfold registerObject objectStorage at h
  by_cases hu : seg.getUrls.length = 0 ∧ batch.controlledStorageId = []
  · rw [if_pos hu.1, if_pos hu.2] at h
    cases h
    exact Or.inl ⟨hu.1, hu.2, _, rfl⟩
  have hst : ∃ st, (upsertObject st seg.objectId).eval t v = .error e := by
    by_cases hlen : seg.getUrls.length = 0
    · rw [if_pos hlen, if_neg fun hc => hu ⟨hlen, hc⟩] at h
      exact ⟨_, h⟩
    · rw [if_neg hlen] at h
      exact ⟨_, h⟩
  obtain ⟨st, hst⟩ := hst
  rw [upsertObject, eval_stmtE, upsertedObject] at hst
  cases hg : v.objects.get seg.objectId with
  | none =>
    rw [hg] at hst
    cases hst
  | some r =>
    rw [hg] at hst
    dsimp only at hst
    cases hr : r.reaping with
    | true =>
      rw [if_pos hr] at hst
      cases hst
      exact Or.inr (Or.inl ⟨r, rfl, hr, _, rfl⟩)
    | false =>
      rw [if_neg (by rw [hr]; decide)] at hst
      have hcount : v.refCountOf seg.objectId = r.refCount := by rw [DB.refCountOf, hg]; rfl
      cases hf : fitsInt4 (r.refCount + 1) with
      | true =>
        rw [if_pos hf] at hst
        cases hst
      | false =>
        rw [if_neg (by rw [hf]; decide)] at hst
        cases hst
        refine Or.inr (Or.inr ⟨fun x hx => ?_, by rw [hcount, hf], _, rfl⟩)
        cases hx
        exact hr

theorem eval_checkObjectTimerange_error {i : Nat} {seg : Segment} (h : (checkObjectTimerange i seg).eval t v = .error e)
    (hstored : ∀ stored, storedObjectTimerange v seg.objectId = some stored → ∃ outer, parse stored = .ok outer) :
    ∃ tr stored outer, seg.objectTimerange = some tr ∧ storedObjectTimerange v seg.objectId = some stored ∧
      parse stored = .ok outer ∧
      (rangeContains outer tr = some false ∧ (∃ m a, e = .wrap m (.app a) ∧ a.code = .invalidObjectTimerange) ∨
        rangeContains outer tr = none ∧ e = .panic) := by
  unfold checkObjectTimerange at h
  cases htr : seg.objectTimerange with
  | none =>
    rw [htr] at h
    cases h
  | some tr =>
    rw [htr] at h
    dsimp only at h
    rw [eval_stmtE] at h
    cases hs : storedObjectTimerange v seg.objectId with
    | none =>
      rw [hs] at h
      cases h
    | some stored =>
      obtain ⟨outer, ho⟩ := hstored stored hs
      refine ⟨tr, stored, outer, rfl, rfl, ho, ?_⟩
      rw [hs, objectTimerangeViolation, ho] at h
      dsimp only at h
      rcases hc : rangeContains outer tr with _ | _ | _
      · rw [hc] at h
        cases h
        exact Or.inr ⟨rfl, rfl⟩
      · rw [hc] at h
        cases h
        exact Or.inl ⟨rfl, _, _, rfl, rfl⟩
      · rw [hc] at h
        cases h

theorem eval_insertSegment_error {c : Constraints} {nextval : Nat → Nat} {f : Uuid} {i : Nat} {x : Segment × NsBounds}
    (h : (insertSegment c nextval f i x).eval t v = .error e) :
    ∃ s, insertedRow c (nextval i) f x t v = .error s ∧ e = insertError i x.1 s := by
  rw [insertSegment, eval_stmtE] at h
  cases hi : insertedRow c (nextval i) f x t v with
  | ok r =>
    rw [hi] at h
    cases h
  | error s =>
    rw [hi] at h
    cases h
    exact ⟨s, rfl, rfl⟩

theorem insertedRow_encode {c : Constraints} {id : Nat} {f : Uuid} {x : Segment × NsBounds}
    (hk : x.1.keyFrameCount.all (fun k => fitsInt4 k.toInt) = false) : insertedRow c id f x t v = .error .encode := by
  rw [insertedRow, hk]
  rfl

theorem eval_refreshFlowTimerange_error {m : Msg} {f : Uuid} {r : FlowRow} (hr : v.flows.get f = some r)
    (h : (refreshFlowTimerange m f).eval t v = .error e) :
    ∀ span, renderSpan (spanRows v f).1 (spanRows v f).2 ≠ .ok span := by
  intro span hspan
  cases h.symm.trans ((eval_refreshFlowTimerange hr).mpr ⟨span, hspan, rfl⟩)

end

/-! ## The checks in their order -/

/-- As the service hands it over: the range its string parses to, with an inclusive start and bounds that fit. -/
structure Segment.Valid (seg : Segment) : Prop where
  parsed : parse seg.timerangeRaw = .ok seg.timerange
  storable : segmentTimerangeViolation seg.timerange = none

inductive Refusal where
  | withinBatch
  | missing
  | readOnly
  | overlap
  | unconfigured
  | reaping
  | refCountFull
  | outside
  | noBound
  | keyFrameCount
  | idTaken
  deriving DecidableEq

def Refusal.Describes : Refusal → Err → Prop
  | .withinBatch, e | .overlap, e => ∃ m, e = .wrap m (.sentinel .segmentOverlap)
  | .missing, e => ∃ m, e = .wrap m (.sentinel .flowNotFound)
  | .readOnly, e => ∃ m, e = .wrap m (.sentinel .flowReadOnly)
  | .unconfigured, e => ∃ m, e = .wrap m (.sentinel .controlledStorageNotConfigured)
  | .reaping, e => ∃ m, e = .wrap m (.sentinel .segmentObjectReaping)
  | .refCountFull, e => ∃ m, e = .wrap m (.sql .outOfRange)
  | .outside, e => ∃ m a, e = .wrap m (.app a) ∧ a.code = .invalidObjectTimerange
  | .noBound, e => e = .panic
  | .keyFrameCount, e => ∃ m, e = .wrap m (.sql .encode)
  | .idTaken, e => ∃ i seg s, e = insertError i seg s

def InsertBatch.Apart (batch : InsertBatch) : Prop :=
  batch.segments.Pairwise fun s s' => Disjoint s.timerange.denote s'.timerange.denote

def InsertBatch.Clear (batch : InsertBatch) (d : DB) : Prop :=
  ∀ seg ∈ batch.segments, ∀ r ∈ d.segmentsOf batch.flowId, Disjoint r.span seg.timerange.denote

structure Placed (batch : InsertBatch) (d : DB) : Prop where
  apart : batch.Apart
  writable : Writable batch.flowId d
  clear : batch.Clear d

/-- Why the batch is refused in `d`: the checks before have passed. -/
inductive Refused (nextval : Nat → Nat) (batch : InsertBatch) (d : DB) : Refusal → Prop
  | withinBatch (h : ¬ batch.Apart) : Refused nextval batch d .withinBatch
  | missing (ha : batch.Apart) (hf : d.flows.get batch.flowId = none) : Refused nextval batch d .missing
  | readOnly {r : FlowRow} (ha : batch.Apart) (hf : d.flows.get batch.flowId = some r) (hr : r.readOnly = true) :
    Refused nextval batch d .readOnly
  | overlap (ha : batch.Apart) (hw : Writable batch.flowId d) (hc : ¬ batch.Clear d) : Refused nextval batch d .overlap
  | unconfigured {before after : List Segment} {seg : Segment} (hp : Placed batch d)
    (hs : batch.segments = before ++ seg :: after) (hb : Registrable batch before d) (hu : seg.getUrls.length = 0)
    (hc : batch.controlledStorageId = []) : Refused nextval batch d .unconfigured
  | reaping {before after : List Segment} {seg : Segment} {r : ObjectRow} (hp : Placed batch d)
    (hs : batch.segments = before ++ seg :: after) (hb : Registrable batch before d)
    (hr : d.objects.get seg.objectId = some r) (hreap : r.reaping = true) : Refused nextval batch d .reaping
  | refCountFull {before after : List Segment} {seg : Segment} (hp : Placed batch d)
    (hs : batch.segments = before ++ seg :: after) (hb : Registrable batch before d)
    (hl : ∀ r, d.objects.get seg.objectId = some r → r.reaping = false)
    (hf : fitsInt4 (d.refCountOf seg.objectId + occurrences before seg.objectId + 1) = false) :
    Refused nextval batch d .refCountFull
  | outside {before after : List Segment} {seg : Segment} {tr outer : TimeRange} {stored : Str} (hp : Placed batch d)
    (hreg : Registrable batch batch.segments d) (hs : batch.segments = before ++ seg :: after)
    (hb : ∀ s ∈ before, DescribedWithin s d) (htr : seg.objectTimerange = some tr)
    (hst : storedObjectTimerange d seg.objectId = some stored) (ho : parse stored = .ok outer)
    (hc : rangeContains outer tr = some false) : Refused nextval batch d .outside
  | noBound {before after : List Segment} {seg : Segment} {tr outer : TimeRange} {stored : Str} (hp : Placed batch d)
    (hreg : Registrable batch batch.segments d) (hs : batch.segments = before ++ seg :: after)
    (hb : ∀ s ∈ before, DescribedWithin s d) (htr : seg.objectTimerange = some tr)
    (hst : storedObjectTimerange d seg.objectId = some stored) (ho : parse stored = .ok outer)
    (hc : rangeContains outer tr = none) : Refused nextval batch d .noBound
  | keyFrameCount {seg : Segment} {k : Int64} (hp : Placed batch d) (hreg : Registrable batch batch.segments d)
    (hd : ∀ s ∈ batch.segments, DescribedWithin s d) (hs : seg ∈ batch.segments) (hk : seg.keyFrameCount = some k)
    (hf : fitsInt4 k.toInt = false) : Refused nextval batch d .keyFrameCount
  | idTaken (hp : Placed batch d) (hreg : Registrable batch batch.segments d)
    (hd : ∀ s ∈ batch.segments, DescribedWithin s d) (hids : ¬ FreshIds nextval d) : Refused nextval batch d .idTaken

/-! ## Every error is a refusal -/

section
variable {c : Constraints} {nextval : Nat → Nat} {batch : InsertBatch} {t : Time} {d : DB} {e : Err} {seg : Segment}

theorem Segment.Valid.bounds (h : seg.Valid) : seg.timerange.nsBounds = .ok seg.bounds := by
  obtain ⟨-, b, hb⟩ := segmentTimerangeViolation_none h.storable
  rw [Segment.bounds_eq hb, hb]

theorem Segment.Valid.raw_ne_nil (h : seg.Valid) : seg.timerangeRaw ≠ [] := by
  intro hraw
  have hp := h.parsed
  rw [hraw] at hp
  exact parse_nil _ hp

theorem Segment.Valid.finite (h : seg.Valid) : seg.bounds.Finite := by
  obtain ⟨⟨s, e, ety, he⟩, -⟩ := segmentTimerangeViolation_none h.storable
  obtain ⟨-, hlo, hhi⟩ := TimeRange.nsBounds_denote (parse_text h.parsed).1 h.bounds
  refine ⟨hlo.trans ?_, hhi.trans ?_⟩
  · rw [he]
    rfl
  · rw [he]
    rfl

theorem Segment.Valid.rowFits (h : seg.Valid) (hk : seg.keyFrameCount.all (fun k => fitsInt4 k.toInt) = true) :
    RowFits c (seg, seg.bounds) := by
  obtain ⟨-, n, hn⟩ := Segment.denote_bounds h.parsed h.bounds
  have hlt : seg.bounds.lower < seg.bounds.upper := by
    rw [← paramSet_params, h.finite.params.1, h.finite.params.2] at hn
    exact Int64.lt_iff_toInt_lt.mpr ((hn.1 _ rfl).trans_lt (hn.2 _ rfl))
  refine ⟨h.finite, hk, fun _ => hlt, fun _ => ?_⟩
  rw [Int64.lt_iff_toInt_lt] at hlt ⊢
  exact not_lt_of_gt hlt

theorem storedObjectTimerange_mem {o stored : Str} (h : storedObjectTimerange d o = some stored) :
    ∃ r ∈ d.segments.rows, r.objectTimerange = some stored := by
  obtain ⟨r, hr, hs⟩ := Option.bind_eq_some_iff.mp h
  exact ⟨r, List.mem_of_mem_filter (List.mem_of_mem_filter (firstBy_mem hr)), hs⟩

section
variable (hv : ∀ seg ∈ batch.segments, seg.Valid)
include hv

theorem checkBatch_valid :
    (batch.Apart ∧ checkBatch batch = .ok (batch.segments.map Segment.bounds)) ∨
      (¬ batch.Apart ∧ ∃ m, checkBatch batch = .error (.wrap m (.sentinel .segmentOverlap))) := by
  have hb : segmentBounds 0 batch.segments = .ok (batch.segments.map Segment.bounds) :=
    segmentBounds_ok.mpr ⟨fun seg hs => ⟨(hv seg hs).raw_ne_nil, (hv seg hs).bounds⟩, rfl⟩
  have hpw := pairwise_bounds (fun seg hs => (hv seg hs).parsed) fun seg hs => (hv seg hs).bounds
  unfold checkBatch
  rw [hb]
  dsimp only
  cases ho : findOverlap 0 (batch.segments.map Segment.bounds) with
  | none => exact Or.inl ⟨hpw.mp (findOverlap_eq_none.mp ho), rfl⟩
  | some ij =>
    refine Or.inr ⟨fun ha => ?_, _, rfl⟩
    cases ho.symm.trans (findOverlap_eq_none.mpr (hpw.mpr ha))

theorem overlapChecks_error (hrows : ∀ r ∈ d.segments.rows, r.WellStored)
    (h : (forEach (overlapCheck batch.flowId) 0 (batch.segments.map fun seg => (seg, seg.bounds))).eval t d = .error e) :
    ¬ batch.Clear d ∧ ∃ m, e = .wrap m (.sentinel .segmentOverlap) := by
  obtain ⟨before, x, after, w, hs, hbefore, he⟩ := eval_forEach_error h
  obtain ⟨rfl, -⟩ := (eval_forEach_check (eval_overlapCheck _)).mp hbefore
  have hx : x ∈ batch.segments.map fun seg => (seg, seg.bounds) := hs ▸ List.mem_append_cons_self
  obtain ⟨seg, hseg, rfl⟩ := List.mem_map.mp hx
  have hval := hv seg hseg
  obtain ⟨hok, hdisj⟩ := overlapProbe_segment (f := batch.flowId) hval.parsed hval.bounds hval.finite
    fun r hr => (hrows r (List.mem_of_mem_filter hr)).canonical.readable
  obtain ⟨hne, hm⟩ := eval_overlapCheck_error he hok
  exact ⟨fun hc => hne (hdisj.mpr (hc seg hseg)), hm⟩

omit hv in
theorem registerObjects_error (hp : Placed batch d)
    (h : (forEach (registerObject batch) 0 batch.segments).eval t d = .error e) :
    ∃ k, Refused nextval batch d k ∧ k.Describes e := by
  obtain ⟨before, seg, after, w, hs, hbefore, he⟩ := eval_forEach_error h
  obtain ⟨hreg, hobj, -⟩ := eval_registerObjects hbefore
  have hcount := hobj seg.objectId
  rcases eval_registerObject_error he with ⟨hu, hc, hm⟩ | ⟨r, hr, hreap, hm⟩ | ⟨hl, hf, hm⟩
  · exact ⟨.unconfigured, .unconfigured hp hs hreg hu hc, hm⟩
  · by_cases hlive : ∀ r, d.objects.get seg.objectId = some r → r.reaping = false
    · cases hreap.symm.trans ((live_counted hcount).mpr hlive r hr)
    · simp only [not_forall, Bool.not_eq_false] at hlive
      obtain ⟨x, hx, hreap⟩ := hlive
      exact ⟨.reaping, .reaping hp hs hreg hx hreap, hm⟩
  · rw [refCountOf_counted hcount] at hf
    exact ⟨.refCountFull, .refCountFull hp hs hreg ((live_counted hcount).mp hl) hf, hm⟩

omit hv in
theorem describedChecks_error {w : DB} (hrows : ∀ r ∈ d.segments.rows, r.WellStored) (hp : Placed batch d)
    (hreg : Registrable batch batch.segments d) (hw : w.segments = d.segments)
    (h : (forEach checkObjectTimerange 0 batch.segments).eval t w = .error e) :
    ∃ k, Refused nextval batch d k ∧ k.Describes e := by
  obtain ⟨before, seg, after, w', hs, hbefore, he⟩ := eval_forEach_error h
  obtain ⟨rfl, hb⟩ := (eval_forEach_check eval_checkObjectTimerange).mp hbefore
  have hstored : ∀ o, storedObjectTimerange w' o = storedObjectTimerange d o := by
    intro o
    rw [storedObjectTimerange, DB.segmentsOn, hw]
    rfl
  have hdesc : ∀ s ∈ before, DescribedWithin s d := by
    intro s hs
    have := hb s hs
    rwa [DescribedWithin, hstored] at this
  obtain ⟨tr, stored, outer, htr, hst, ho, hc⟩ := eval_checkObjectTimerange_error he fun stored hst => by
    rw [hstored] at hst
    obtain ⟨r, hr, hrst⟩ := storedObjectTimerange_mem hst
    exact (hrows r hr).texts.objectTimerange stored hrst
  rw [hstored] at hst
  rcases hc with ⟨hc, hm⟩ | ⟨hc, hm⟩
  · exact ⟨.outside, .outside hp hreg hs hdesc htr hst ho hc, hm⟩
  · exact ⟨.noBound, .noBound hp hreg hs hdesc htr hst ho hc, hm⟩

theorem insertRows_error {v₁ : DB} (hp : Placed batch d) (hreg : Registrable batch batch.segments d)
    (hd : ∀ s ∈ batch.segments, DescribedWithin s d)
    (hv₁ : (forEach (registerObject batch) 0 batch.segments).eval t d = .ok ((), v₁))
    (h : (forEach (insertSegment c nextval batch.flowId) 0
      (batch.segments.map fun seg => (seg, seg.bounds))).eval t v₁ = .error e) :
    ∃ k, Refused nextval batch d k ∧ k.Describes e := by
  obtain ⟨before, x, after, w, hs, hbefore, he⟩ := eval_forEach_error h
  obtain ⟨s, hi, rfl⟩ := eval_insertSegment_error he
  by_cases hids : FreshIds nextval d
  case neg => exact ⟨.idTaken, .idTaken hp hreg hd hids, _, _, s, rfl⟩
  have hx : x ∈ batch.segments.map fun seg => (seg, seg.bounds) := hs ▸ List.mem_append_cons_self
  obtain ⟨seg, hseg, rfl⟩ := List.mem_map.mp hx
  cases hk : seg.keyFrameCount.all (fun k => fitsInt4 k.toInt) with
  | false =>
    rw [insertedRow_encode hk] at hi
    cases hi
    obtain ⟨k, hk, hf⟩ : ∃ k, seg.keyFrameCount = some k ∧ fitsInt4 k.toInt = false := by
      cases hc : seg.keyFrameCount with
      | none =>
        rw [hc] at hk
        cases hk
      | some k =>
        rw [hc] at hk
        exact ⟨k, rfl, hk⟩
    exact ⟨.keyFrameCount, .keyFrameCount hp hreg hd hseg hk hf, _, rfl⟩
  | true =>
    -- the rows up to this one go in together
    have hsub : (before ++ [(seg, seg.bounds)]).Sublist (batch.segments.map fun seg => (seg, seg.bounds)) := by
      rw [hs]
      exact List.Sublist.append_left (List.Sublist.cons_cons _ (List.nil_sublist _)) before
    obtain ⟨v₂, hv₂⟩ := insertRows_registered (c := c) (fun seg hs => (hv seg hs).parsed)
      (fun seg hs => (hv seg hs).bounds) hp.apart hp.clear hp.writable hids hv₁ hsub fun x hx => by
        rcases List.mem_append.mp hx with hx | hx
        · exact (eval_insertRows hbefore).1 x hx
        · rw [List.mem_singleton.mp hx]
          exact (hv seg hseg).rowFits hk
    obtain ⟨w', hw', hlast⟩ := eval_forEach_append.mp hv₂
    cases hbefore.symm.trans hw'
    obtain ⟨u, hu, -⟩ := eval_forEach_cons.mp hlast
    cases hu.symm.trans he

/-- **Every error of a screened batch is a refusal.** -/
theorem refused_of_error (hrows : ∀ r ∈ d.segments.rows, r.WellStored)
    (h : ((insertSegments c nextval batch).run t d).1 = .error e) :
    ∃ k, Refused nextval batch d k ∧ k.Describes e := by
  unfold insertSegments at h
  rcases checkBatch_valid hv with ⟨ha, hb⟩ | ⟨ha, m, hb⟩
  case inr =>
    rw [hb] at h
    cases h
    exact ⟨.withinBatch, .withinBatch ha, m, rfl⟩
  rw [hb] at h
  have he := (run_inTx_error (commits_insertBody ..) h).1
  rw [insertBody, zip_bounds] at he
  rcases eval_guard_error _ he with ⟨hf, hm⟩ | ⟨r, hf, hr, hm⟩ | ⟨r, hf, hr, k⟩
  · exact ⟨.missing, .missing ha hf, hm⟩
  · exact ⟨.readOnly, .readOnly ha hf hr, hm⟩
  have hw : Writable batch.flowId d := writable_iff.mpr ⟨r, hf, hr⟩
  rcases eval_bind_error.mp k with he | ⟨_, v, hv₀, k₀⟩
  · obtain ⟨hc, hm⟩ := overlapChecks_error hv hrows he
    exact ⟨.overlap, .overlap ha hw hc, hm⟩
  obtain ⟨rfl, hclear⟩ := (eval_forEach_check (eval_overlapCheck _)).mp hv₀
  have hp : Placed batch v := by
    refine ⟨ha, hw, fun seg hs => ?_⟩
    have hval := hv seg hs
    exact (overlapProbe_segment hval.parsed hval.bounds hval.finite fun r hr =>
      (hrows r (List.mem_of_mem_filter hr)).canonical.readable).2.mp (List.forall_mem_map.mp hclear seg hs)
  rcases eval_bind_error.mp k₀ with he | ⟨_, v₁, hv₁, k₁⟩
  · exact registerObjects_error hp he
  obtain ⟨hreg, -, hframe⟩ := eval_registerObjects hv₁
  have hseg : v₁.segments = v.segments := by rw [hframe]
  rcases eval_bind_error.mp k₁ with he | ⟨_, v₁', hv₁', k₂⟩
  · exact describedChecks_error hrows hp hreg hseg he
  obtain ⟨rfl, hdesc⟩ := (eval_forEach_check eval_checkObjectTimerange).mp hv₁'
  have hd : ∀ s ∈ batch.segments, DescribedWithin s v := by
    intro s hs
    have := hdesc s hs
    rwa [DescribedWithin, storedObjectTimerange, DB.segmentsOn, hseg] at this
  rcases eval_bind_error.mp k₂ with he | ⟨_, v₂, hv₂, k₃⟩
  · exact insertRows_error hv hp hreg hd hv₁ he
  -- what is left cannot fail: the rows can be read back
  have hof : v₁'.segmentsOf batch.flowId = v.segmentsOf batch.flowId := by
    rw [DB.segmentsOf, hseg]
    rfl
  obtain ⟨span, hspan, -⟩ := spanRows_ok (readable_insertRows (fun seg hs => (hv seg hs).parsed)
    (fun seg hs => (hv seg hs).bounds) (fun r hr => (hrows r (List.mem_of_mem_filter (hof ▸ hr))).canonical.readable)
    hv₂)
  obtain ⟨-, -, hframe₂⟩ := eval_insertRows hv₂
  have hf₂ : v₂.flows.get batch.flowId = some r := by rw [hframe₂, hframe, hf]
  rcases eval_bind_error.mp k₃ with he | ⟨_, v₃, -, he⟩
  · exact absurd hspan (eval_refreshFlowTimerange_error hf₂ he span)
  · cases he

end

end

/-! ## Constraints of the database -/

/-- The errors that are left to the client: overlap, an object that is being reaped, and an object
timerange beyond the stored one. -/
def ClientError (e : Err) : Prop :=
  e.is .segmentOverlap = true ∨ e.is .segmentObjectReaping = true ∨
    ∃ a, e.asApp = some a ∧ a.code = .invalidObjectTimerange

section
variable {c : Constraints} {nextval : Nat → Nat} {batch : InsertBatch} {t : Time} {d : DB} {e : Err}

theorem not_described {seg : Segment} {tr outer : TimeRange} {stored : Str} (htr : seg.objectTimerange = some tr)
    (hst : storedObjectTimerange d seg.objectId = some stored) (ho : parse stored = .ok outer)
    (hc : rangeContains outer tr ≠ some true) : ¬ DescribedWithin seg d := by
  intro h
  obtain ⟨outer', ho', hc'⟩ := h tr htr stored hst
  cases ho.symm.trans ho'
  exact hc hc'

theorem not_registrable {segs before after : List Segment} {seg : Segment} (hs : segs = before ++ seg :: after)
    (hf : fitsInt4 (d.refCountOf seg.objectId + occurrences before seg.objectId + 1) = false) :
    ¬ Registrable batch segs d := by
  intro h
  have hle : occurrences before seg.objectId + 1 ≤ occurrences segs seg.objectId := by
    rw [hs, occurrences_append, occurrences_cons, if_pos rfl]
    omega
  have := h.fits seg.objectId _ (Nat.succ_pos _) hle
  rw [Int.natCast_succ, ← Int.add_assoc, hf] at this
  cases this

/-- Two ways to split a list at an element: one lies before the other, or they are the same. -/
theorem split_cases {α : Type} {before after before' after' : List α} {a a' : α}
    (h : before ++ a :: after = before' ++ a' :: after') :
    (∃ l, before = before' ++ a' :: l) ∨ (before = before' ∧ a = a') ∨ ∃ l, before' = before ++ a :: l := by
  rcases List.append_eq_append_iff.mp h with ⟨l, hl, hr⟩ | ⟨l, hl, hr⟩
  · cases l with
    | nil =>
      cases hr
      exact Or.inr (Or.inl ⟨by rw [hl, List.append_nil], rfl⟩)
    | cons x l =>
      cases hr
      exact Or.inr (Or.inr ⟨l, hl⟩)
  · cases l with
    | nil =>
      cases hr
      exact Or.inr (Or.inl ⟨by rw [hl, List.append_nil], rfl⟩)
    | cons x l =>
      cases hr
      exact Or.inl ⟨l, hl⟩

def Refusal.Unforeseen (k : Refusal) : Prop := k = .refCountFull ∨ k = .noBound ∨ k = .keyFrameCount

theorem Refused.placed {k : Refusal} (h : Refused nextval batch d k) (hk : k.Unforeseen) : Placed batch d := by
  rcases hk with rfl | rfl | rfl
  · cases h with
    | refCountFull hp => exact hp
  · cases h with
    | noBound hp => exact hp
  · cases h with
    | keyFrameCount hp => exact hp

/-- The checks fail in their order: what is refused here has passed the checks for the others. -/
theorem Refused.exclusive {k k' : Refusal} (h : Refused nextval batch d k) (hk : k.Unforeseen)
    (h' : Refused nextval batch d k') (hk' : k' = .withinBatch ∨ k' = .overlap ∨ k' = .reaping ∨ k' = .outside) :
    False := by
  have hp := h.placed hk
  rcases hk' with rfl | rfl | rfl | rfl
  · cases h' with
    | withinBatch ha => exact ha hp.apart
  · cases h' with
    | overlap _ _ hc => exact hc hp.clear
  · cases h' with
    | @reaping before' after' seg' r _ hs' hb' hr hreap =>
      have hlive : ∀ {segs}, Registrable batch segs d → ∀ l l', segs ≠ l ++ seg' :: l' := by
        intro segs hreg l l' he
        cases hreap.symm.trans (hreg.live _ (he ▸ List.mem_append_cons_self) _ hr)
      rcases hk with rfl | rfl | rfl
      · cases h with
        | refCountFull _ hs hb hl hf =>
          rcases split_cases (hs.symm.trans hs') with ⟨l, he⟩ | ⟨-, rfl⟩ | ⟨l, he⟩
          · exact hlive hb _ _ he
          · cases hreap.symm.trans (hl _ hr)
          · exact not_registrable he hf hb'
      · cases h with
        | noBound _ hreg => exact hlive hreg _ _ hs'
      · cases h with
        | keyFrameCount _ hreg => exact hlive hreg _ _ hs'
  · cases h' with
    | outside _ hreg hs' hb' htr' hst' ho' hc' =>
      have hno' := not_described htr' hst' ho' (by rw [hc']; decide)
      rcases hk with rfl | rfl | rfl
      · cases h with
        | refCountFull _ hs _ _ hf => exact not_registrable hs hf hreg
      · cases h with
        | noBound _ _ hs hb htr hst ho hc =>
          rcases split_cases (hs.symm.trans hs') with ⟨l, rfl⟩ | ⟨-, rfl⟩ | ⟨l, rfl⟩
          · exact hno' (hb _ List.mem_append_cons_self)
          · cases htr.symm.trans htr'
            cases hst.symm.trans hst'
            cases ho.symm.trans ho'
            cases hc.symm.trans hc'
          · exact not_described htr hst ho (by rw [hc]; decide) (hb' _ List.mem_append_cons_self)
      · cases h with
        | keyFrameCount _ _ hd => exact hno' (hd _ (hs' ▸ List.mem_append_cons_self))

/-- A refusal other than an id that is in use stands in the way of the batch. -/
theorem Refused.not_accepted {k : Refusal} (hv : ∀ seg ∈ batch.segments, seg.Valid)
    (hrows : ∀ r ∈ d.segments.rows, r.WellStored) (h : Refused nextval batch d k) (hk : k ≠ .idTaken) (a : InsertResult) :
    ((insertSegments c nextval batch).run t d).1 ≠ .ok a := by
  intro hrun
  obtain ⟨bounds, hins⟩ :=
    insertSegments_inserted (Prod.ext hrun rfl : (insertSegments c nextval batch).run t d = (.ok a, _))
  obtain ⟨-, rfl, -⟩ := checkBatch_iff.mp hins.checked
  have hclear := hins.clear
  have hfits := hins.fits
  rw [zip_bounds, List.forall_mem_map] at hclear hfits
  obtain ⟨flow, _, hflow, hwritable, -⟩ := hins.flow
  cases h with
  | withinBatch ha =>
    rcases checkBatch_valid hv with ⟨ha', -⟩ | ⟨-, m, hb⟩
    · exact ha ha'
    · cases hb.symm.trans hins.checked
  | missing _ hf => cases hf.symm.trans hflow
  | readOnly _ hf hro =>
    cases hf.symm.trans hflow
    cases hro.symm.trans hwritable
  | overlap _ _ hc =>
    refine hc fun seg hs => ?_
    have hval := hv seg hs
    exact (overlapProbe_segment hval.parsed hval.bounds hval.finite fun r hr =>
      (hrows r (List.mem_of_mem_filter hr)).canonical.readable).2.mp (hclear seg hs)
  | unconfigured _ hs _ hu hc => exact hins.registrable.storage _ (hs ▸ List.mem_append_cons_self) hu hc
  | reaping _ hs _ hr hreap =>
    cases hreap.symm.trans (hins.registrable.live _ (hs ▸ List.mem_append_cons_self) _ hr)
  | refCountFull _ hs _ _ hf => exact not_registrable hs hf hins.registrable
  | outside _ _ hs _ htr hst ho hc | noBound _ _ hs _ htr hst ho hc =>
    exact not_described htr hst ho (by rw [hc]; decide) (hins.described _ (hs ▸ List.mem_append_cons_self))
  | keyFrameCount _ _ _ hs hkf hf =>
    have := (hfits _ hs).keyFrames
    rw [hkf] at this
    cases hf.symm.trans this
  | idTaken => exact hk rfl

theorem Refusal.Describes.client_iff {k : Refusal} (h : k.Describes e) (hk : k ≠ .idTaken) :
    ClientError e ↔ k = .withinBatch ∨ k = .overlap ∨ k = .reaping ∨ k = .outside := by
  cases k with
  | idTaken => exact absurd rfl hk
  | noBound =>
    cases h
    simp [ClientError, Err.is, Err.asApp]
  | outside =>
    obtain ⟨m, a, rfl, ha⟩ := h
    simp [ClientError, Err.is, Err.asApp, ha]
  | _ =>
    obtain ⟨m, rfl⟩ := h
    simp [ClientError, Err.is, Err.asApp]

end

section
variable {c : Constraints} {nextval : Nat → Nat} {body : FlowSegmentPostBody} {params : RegisterParams} {f : Uuid}
  {storageId : Str} {t : Time} {d : DB}

theorem survivors_valid (h : registerParamsFromAPI body = .ok params) :
    ∀ seg ∈ (screen 0 params.segments).survivors, seg.Valid := by
  intro seg hs
  obtain ⟨p, -, s, hc, rfl, hv⟩ := survivor_converts h hs
  refine ⟨?_, hv⟩
  rw [stampURLs, hc.timerange.1]
  exact hc.timerange.2

/-- **What reaches the database.** On a writable flow, with storage configured, the insertion of a
screened body fails with an error of the client's alone exactly if no reference count is full, no
stored object timerange is without a bound that is compared, and every key frame count fits. -/
theorem insertSegments_client_errors_iff (hbody : registerParamsFromAPI body = .ok params)
    (hinv : SegmentInv SegmentRow.WellStored d) (hflow : Writable f d) (hstorage : storageId ≠ [])
    (hfresh : FreshIds nextval d) :
    (∀ e, ((insertSegments c nextval ⟨f, (screen 0 params.segments).survivors, storageId⟩).run t d).1 = .error e →
      ClientError e) ↔
    ∀ k : Refusal, k.Unforeseen → ¬ Refused nextval ⟨f, (screen 0 params.segments).survivors, storageId⟩ d k := by
  have herr : ∀ e, ((insertSegments c nextval ⟨f, (screen 0 params.segments).survivors, storageId⟩).run t d).1 =
      .error e → ∃ k, Refused nextval ⟨f, (screen 0 params.segments).survivors, storageId⟩ d k ∧ k.Describes e :=
    fun e he => refused_of_error (survivors_valid hbody) hinv.rows he
  have hids : ∀ k, Refused nextval ⟨f, (screen 0 params.segments).survivors, storageId⟩ d k → k ≠ .idTaken := by
    rintro k hk rfl
    cases hk with
    | idTaken _ _ _ hids => exact hids hfresh
  constructor
  · intro hall k hk href
    cases hrun : ((insertSegments c nextval ⟨f, (screen 0 params.segments).survivors, storageId⟩).run t d).1 with
    | ok a => exact href.not_accepted (survivors_valid hbody) hinv.rows (hids k href) a hrun
    | error e =>
      obtain ⟨k', href', hdesc⟩ := herr e hrun
      exact href.exclusive hk href' ((hdesc.client_iff (hids k' href')).mp (hall e hrun))
  · intro hno e he
    obtain ⟨k, href, hdesc⟩ := herr e he
    refine (hdesc.client_iff (hids k href)).mpr ?_
    cases href with
    | withinBatch => exact Or.inl rfl
    | overlap => exact Or.inr (Or.inl rfl)
    | reaping => exact Or.inr (Or.inr (Or.inl rfl))
    | outside => exact Or.inr (Or.inr (Or.inr rfl))
    | missing _ hf =>
      obtain ⟨r, hr, -⟩ := writable_iff.mp hflow
      cases hf.symm.trans hr
    | readOnly _ hf hro =>
      obtain ⟨r, hr, hw⟩ := writable_iff.mp hflow
      cases hf.symm.trans hr
      cases hro.symm.trans hw
    | unconfigured _ _ _ _ hc => exact absurd hc hstorage
    | refCountFull hp hs hb hl hf => exact absurd (.refCountFull hp hs hb hl hf) (hno _ (Or.inl rfl))
    | noBound hp hreg hs hb htr hst ho hc =>
      exact absurd (.noBound hp hreg hs hb htr hst ho hc) (hno _ (Or.inr (Or.inl rfl)))
    | keyFrameCount hp hreg hd hs hk hf =>
      exact absurd (.keyFrameCount hp hreg hd hs hk hf) (hno _ (Or.inr (Or.inr rfl)))
    | idTaken _ _ _ hids => exact absurd hfresh hids

end

def overlappingPost : FlowSegmentPostBody :=
  .array [{ objectId := lit "a", timerange := lit "[0:0_1:0)" }, { objectId := lit "b", timerange := lit "[0:0_1:0)" }]

def overlappingParams : RegisterParams :=
  { flowId := 0, segments := [sampleSegment "a" "[0:0_1:0)" 0 1, sampleSegment "b" "[0:0_1:0)" 0 1] }

theorem overlappingPost_client_error :
    ∃ e, ((insertSegments {} id ⟨1, (screen 0 overlappingParams.segments).survivors, lit "default"⟩).run 1
      oneFlow).1 = .error e ∧ ClientError e := by
  have hall := (insertSegments_client_errors_iff (c := {}) (f := 1) (t := 1)
    (show registerParamsFromAPI overlappingPost = .ok overlappingParams by decide +kernel)
    (segmentInv_empty.of_eq segments_oneFlow) (by decide +kernel) (show lit "default" ≠ [] by decide)
    freshIds_oneFlow).mpr fun k hk href => by
      have hsurv : (screen 0 overlappingParams.segments).survivors = overlappingParams.segments := by decide +kernel
      have hapart := (href.placed hk).apart
      rw [InsertBatch.Apart, hsurv] at hapart
      have hdisj := (List.pairwise_cons.mp hapart).1 _ List.mem_cons_self
      have hmem : (0 : ℤ) ∈ (sampleSegment "a" "[0:0_1:0)" 0 1).timerange.denote :=
        (TimeRange.mem_denote_bounded (by decide) (by decide) 0).mpr (by decide)
      exact Set.disjoint_left.mp hdisj hmem hmem
  exact ⟨.wrap [.text "metastore: InsertSegments: segments ", .int 0, .text " (", .str (lit "[0:0_1:0)"), .text ") and ",
    .int 1, .text " (", .str (lit "[0:0_1:0)"), .text ") overlap: "] (.sentinel .segmentOverlap), by decide +kernel,
    hall _ (by decide +kernel)⟩

def countedPost (k : Int64) : FlowSegmentPostBody :=
  .single { objectId := lit "o", timerange := lit "[0:0_1:0)", keyFrameCount := some k }

def countedParams (k : Int64) : RegisterParams :=
  { flowId := 0, segments := [{ sampleSegment "o" "[0:0_1:0)" 0 1 with keyFrameCount := some k }] }

/-- The column is 32 bits wide and the field of the request 64. -/
theorem insertSegments_count_out_of_range :
    registerParamsFromAPI (countedPost 2147483648) = .ok (countedParams 2147483648) ∧
    SegmentInv SegmentRow.WellStored oneFlow ∧ Writable 1 oneFlow ∧ FreshIds id oneFlow ∧
    ∃ e, ((insertSegments {} id ⟨1, (screen 0 (countedParams 2147483648).segments).survivors, lit "default"⟩).run 1
      oneFlow).1 = .error e ∧ ¬ ClientError e := by
  refine ⟨by decide +kernel, segmentInv_empty.of_eq segments_oneFlow, by decide +kernel, freshIds_oneFlow,
    .wrap [.text "metastore: InsertSegments: insert seg ", .int 0, .text ": "] (.sql .encode), by decide +kernel, ?_⟩
  rintro (h | h | ⟨a, h, -⟩)
  · cases h
  · cases h
  · cases h

/-! ## Panics -/

structure SegmentRow.Comparable (r : SegmentRow) : Prop where
  stored : r.WellStored
  bounded : ∀ s, r.objectTimerange = some s → parse s ≠ .ok .empty

def Request.NoEmptyObject : Request → Prop
  | .registerBatch _ req => ∀ seg ∈ req.segments, seg.objectTimerange ≠ some .empty
  | .store _ => True

theorem Request.Posted.stores_comparable {x : Request} (hx : x.Posted) (hne : x.NoEmptyObject) :
    x.Stores SegmentRow.Comparable := by
  have hstored := hx.stores
  cases x with
  | registerBatch nextval req =>
    intro seg hseg b hb lo hi hlo hhi i now
    refine ⟨hstored seg hseg b hb lo hi hlo hhi i now, fun s hs => ?_⟩
    obtain ⟨body, params, hbody, hsegs⟩ := hx
    obtain ⟨hv, s', hs', rfl⟩ := mem_survivors hseg
    obtain ⟨p, -, hc⟩ := Fallible.exists_of_forall₂ (registerParamsFromAPI_ok hbody).1 (hsegs ▸ hs')
    rw [(hc.recorded i req.flowId lo hi now).objectTimerange] at hs
    rcases Fallible.optional_cases hc.objectTimerange.2 with ⟨hnone, -⟩ | ⟨text, tr, htext, htr, hp⟩
    · cases hnone.symm.trans hs
    · cases htext.symm.trans hs
      intro hempty
      cases hp.symm.trans hempty
      exact hne s' hs' htr
  | store x => cases x <;> exact hx

theorem Refusal.Describes.panic_noBound {k : Refusal} (h : k.Describes .panic) : k = .noBound := by
  cases k with
  | noBound => rfl
  | outside =>
    obtain ⟨m, a, he, -⟩ := h
    cases he
  | idTaken =>
    obtain ⟨i, seg, s, he⟩ := h
    cases s <;> cases he
  | _ =>
    obtain ⟨m, he⟩ := h
    cases he

/-- **The comparison of object timeranges** has both bounds unless the stored range is the empty one and
the new range has a start. So no run of posted bodies without an empty object timerange can panic. -/
theorem objectTimerange_check_defined (c : Constraints) (storageId : Str) :
    (∀ s t outer inner, parse s = .ok outer → parse t = .ok inner →
      ((rangeContains outer inner).isSome ↔ ¬ (outer = .empty ∧ inner.denote.Nonempty ∧ inner.start ≠ none))) ∧
    ∀ h : List (Request × Time), (∀ x ∈ h, x.1.Posted ∧ x.1.NoEmptyObject) →
      ∀ nextval body params f t, registerParamsFromAPI body = .ok params →
        ((insertSegments c nextval ⟨f, (screen 0 params.segments).survivors, storageId⟩).run t
          (replay (Request.prog c storageId) DB.empty h)).1 ≠ .error .panic := by
  constructor
  · intro s t outer inner ho hi
    exact rangeContains_isSome (parse_text ho).1 (parse_text hi).1
  · intro h hh nextval body params f t hbody hpanic
    have hinv : SegmentInv SegmentRow.Comparable (replay (Request.prog c storageId) DB.empty h) :=
      segmentInv_replay fun x hx => (hh x hx).1.stores_comparable (hh x hx).2
    obtain ⟨k, href, hdesc⟩ :=
      refused_of_error (survivors_valid hbody) (fun r hr => (hinv.rows r hr).stored) hpanic
    cases hdesc.panic_noBound
    cases href with
    | noBound _ _ hs _ htr hst ho hc =>
      obtain ⟨r, hr, hrst⟩ := storedObjectTimerange_mem hst
      have hmem : _ ∈ (screen 0 params.segments).survivors := hs ▸ List.mem_append_cons_self
      obtain ⟨p, -, s, hconv, rfl, -⟩ := survivor_converts hbody hmem
      rcases Fallible.optional_cases hconv.objectTimerange.2 with ⟨-, hnone⟩ | ⟨text, tr', -, htr', hp⟩
      · cases hnone.symm.trans htr
      cases htr'.symm.trans htr
      have hsome := (rangeContains_isSome (parse_text ho).1 (parse_text hp).1).mpr fun he =>
        (hinv.rows r hr).bounded _ hrst (he.1 ▸ ho)
      rw [hc] at hsome
      cases hsome

def describingPost (timerange objectTimerange : String) : FlowSegmentPostBody :=
  .single { objectId := lit "o", timerange := lit timerange, objectTimerange := some (lit objectTimerange) }

def describingParams (timerange objectTimerange : String) (start : Int64) (tr : TimeRange) : RegisterParams where
  flowId := 0
  segments := [{ sampleSegment "o" timerange start (start + 1) with
    objectTimerange := some tr, objectTimerangeRaw := lit objectTimerange }]

def oneSecond : TimeRange := ⟨some ⟨0, 0⟩, .inclusive, some ⟨1, 0⟩, .exclusive⟩

def describingPosts (objectTimerange : String) (tr : TimeRange) : List (Request × Time) :=
  [(.store (.upsertFlow sampleFlow), 0),
    (.registerBatch id { describingParams "[0:0_1:0)" objectTimerange 0 tr with flowId := 1 }, 1)]

theorem objectTimerange_check_defined_described :
    (rangeContains oneSecond oneSecond).isSome ∧
    ((insertSegments {} (· + 1) ⟨1, (screen 0 (describingParams "[1:0_2:0)" "[0:0_1:0)" 1 oneSecond).segments).survivors,
      lit "default"⟩).run 2 (replay (Request.prog {} (lit "default")) DB.empty
        (describingPosts "[0:0_1:0)" oneSecond))).1 ≠ .error .panic := by
  have hp : parse (lit "[0:0_1:0)") = .ok oneSecond := by decide +kernel
  have hfirst : registerParamsFromAPI (describingPost "[0:0_1:0)" "[0:0_1:0)") =
    .ok (describingParams "[0:0_1:0)" "[0:0_1:0)" 0 oneSecond) := by decide +kernel
  have hsecond : registerParamsFromAPI (describingPost "[1:0_2:0)" "[0:0_1:0)") =
    .ok (describingParams "[1:0_2:0)" "[0:0_1:0)" 1 oneSecond) := by decide +kernel
  obtain ⟨hdef, hruns⟩ := objectTimerange_check_defined {} (lit "default")
  refine ⟨(hdef _ _ _ _ hp hp).mpr fun h => absurd h.1 (by decide), hruns _ ?_ _ _ _ 1 2 hsecond⟩
  intro x hx
  rcases List.mem_cons.mp hx with rfl | hx
  · exact ⟨trivial, trivial⟩
  · rw [List.mem_singleton.mp hx]
    refine ⟨⟨_, _, hfirst, rfl⟩, fun seg hs => ?_⟩
    rw [List.mem_singleton.mp hs]
    decide

/-- The first segment says that its object is empty, the second one that it lasts a second. -/
theorem empty_objectTimerange_panics :
    parse (lit "()") = .ok .empty ∧ parse (lit "[0:0_1:0)") = .ok oneSecond ∧ rangeContains .empty oneSecond = none ∧
    registerParamsFromAPI (describingPost "[0:0_1:0)" "()") = .ok (describingParams "[0:0_1:0)" "()" 0 .empty) ∧
    registerParamsFromAPI (describingPost "[1:0_2:0)" "[0:0_1:0)") =
      .ok (describingParams "[1:0_2:0)" "[0:0_1:0)" 1 oneSecond) ∧
    ((insertSegments {} (· + 1) ⟨1, (screen 0 (describingParams "[1:0_2:0)" "[0:0_1:0)" 1 oneSecond).segments).survivors,
      lit "default"⟩).run 2 (replay (Request.prog {} (lit "default")) DB.empty (describingPosts "()" .empty))).1 =
      .error .panic := by
  decide +kernel

end OpenTams
