import OpenTams.FlowSpan

/-!
# How a client splits its segments into batches

A list of segments goes into a flow as one batch exactly if it goes in as any
sequence of batches made of the same segments in any order, and both leave the
same segments, reference counts and flow timerange. The batch is described by
what it asks of the state (`Acceptable`), a condition that does not depend on the
order and comes apart at every cut.
-/

namespace OpenTams

open Sql Prog

/-! ## What an accepted batch asks -/

structure Segment.Plain (seg : Segment) : Prop where
  parsed : parse seg.timerangeRaw = .ok seg.timerange
  undescribed : seg.objectTimerange = none

structure FreshIds (nextval : Nat → Nat) (d : DB) : Prop where
  inj : Function.Injective nextval
  fresh : ∀ k, d.segments.get (nextval k) = none

structure Storable (c : Constraints) (seg : Segment) : Prop where
  raw : seg.timerangeRaw ≠ []
  bounds : seg.timerange.nsBounds = .ok seg.bounds
  fits : RowFits c (seg, seg.bounds)

/-- What a batch asks of the state: each segment can be stored, they lie apart from each
other and from the flow's rows, and their objects can be counted. -/
structure Acceptable (c : Constraints) (batch : InsertBatch) (d : DB) : Prop where
  storable : ∀ seg ∈ batch.segments, Storable c seg
  apart : batch.segments.Pairwise fun s s' => Disjoint s.timerange.denote s'.timerange.denote
  clear : ∀ seg ∈ batch.segments, ∀ r ∈ d.segmentsOf batch.flowId, Disjoint r.span seg.timerange.denote
  registrable : Registrable batch batch.segments d

section
variable {c : Constraints} {nextval : Nat → Nat} {t : Time} {v d d' : DB} {f : Uuid} {seg : Segment}

theorem Segment.denote_bounds (hp : parse seg.timerangeRaw = .ok seg.timerange)
    (hb : seg.timerange.nsBounds = .ok seg.bounds) :
    seg.bounds.denote = seg.timerange.denote ∧ seg.bounds.denote.Nonempty := by
  have hwf := (parse_text hp).1
  have heq := (TimeRange.nsBounds_denote hwf hb).1
  exact ⟨heq, heq ▸ TimeRange.denote_nonempty_of_nsBounds hwf hb⟩

theorem rowsHave_readable (hp : parse seg.timerangeRaw = .ok seg.timerange) {b : NsBounds}
    (hb : seg.timerange.nsBounds = .ok b) (f : Uuid) : RowsHave SegmentRow.Readable f (seg, b) := by
  intro lo hi hlo hhi i now
  have hwf := (parse_text hp).1
  obtain ⟨hden, hstart, hend⟩ := TimeRange.nsBounds_denote hwf hb
  refine ⟨?_, seg.timerange, hp, ?_, ?_⟩
  · obtain ⟨n, hn⟩ := TimeRange.denote_nonempty_of_nsBounds hwf hb
    rw [← hden, ← span_eq_denote hlo hhi i f seg now] at hn
    exact Int64.lt_iff_toInt_lt.mpr (hn.1.trans_lt hn.2)
  · cases hs : seg.timerange.start with
    | some s => rfl
    | none => simp [lowerParam, hstart, hs] at hlo
  · cases he : seg.timerange.endTs with
    | some e => rfl
    | none => simp [upperParam, hend, he] at hhi

theorem overlapProbe_none {b : NsBounds} : overlapProbe f b v = .ok none ↔
    int8rangeInvalid (lowerParam b) (upperParam b) = false ∧ (∀ r ∈ v.segmentsOf f, ¬ r.upperNs < r.lowerNs) ∧
      ∀ r ∈ v.segmentsOf f, Disjoint r.span b.denote := by
  unfold overlapProbe
  split
  · rename_i hbad
    simp only [reduceCtorEq, false_iff]
    rintro ⟨hi, hr, -⟩
    simp only [hi, Bool.false_or, List.any_eq_true, decide_eq_true_eq] at hbad
    obtain ⟨r, hmem, hlt⟩ := hbad
    exact hr r hmem hlt
  · rename_i hgood
    simp only [Bool.or_eq_true, not_or, Bool.not_eq_true, List.any_eq_false, decide_eq_true_eq] at hgood
    simp only [Except.ok.injEq, Option.map_eq_none_iff, List.find?_eq_none, Bool.not_eq_true, rowOverlaps_eq_false]
    exact ⟨fun h => ⟨hgood.1, hgood.2, h⟩, fun h => h.2.2⟩

theorem pairwise_bounds {segs : List Segment} (hp : ∀ seg ∈ segs, parse seg.timerangeRaw = .ok seg.timerange)
    (hb : ∀ seg ∈ segs, seg.timerange.nsBounds = .ok seg.bounds) :
    ((segs.map Segment.bounds).Pairwise fun a b => boundsOverlap a b = false) ↔
      segs.Pairwise fun s s' => Disjoint s.timerange.denote s'.timerange.denote := by
  rw [List.pairwise_map]
  refine List.Pairwise.iff_of_mem fun {seg seg'} hs hs' => ?_
  obtain ⟨heq, hne⟩ := Segment.denote_bounds (hp seg hs) (hb seg hs)
  obtain ⟨heq', hne'⟩ := Segment.denote_bounds (hp seg' hs') (hb seg' hs')
  rw [boundsOverlap_eq_false hne hne', heq, heq']

/-- Against rows that can be read back the probe answers, and finds what meets the segment. -/
theorem overlapProbe_segment (hp : parse seg.timerangeRaw = .ok seg.timerange)
    (hb : seg.timerange.nsBounds = .ok seg.bounds) (hfin : seg.bounds.Finite)
    (hrows : ∀ r ∈ v.segmentsOf f, r.Readable) :
    (∃ found, overlapProbe f seg.bounds v = .ok found) ∧
      (overlapProbe f seg.bounds v = .ok none ↔ ∀ r ∈ v.segmentsOf f, Disjoint r.span seg.timerange.denote) := by
  obtain ⟨heq, n, hn⟩ := Segment.denote_bounds hp hb
  obtain ⟨hlo, hhi⟩ := hfin.params
  have hparams : int8rangeInvalid (lowerParam seg.bounds) (upperParam seg.bounds) = false := by
    rw [← paramSet_params, hlo, hhi] at hn
    have h1 := hn.1 _ rfl
    have h2 := hn.2 _ rfl
    rw [hlo, hhi, int8rangeInvalid, decide_eq_false_iff_not, Int64.lt_iff_toInt_lt]
    omega
  have horder : ∀ r ∈ v.segmentsOf f, ¬ r.upperNs < r.lowerNs := by
    intro r hr hlt
    have := (hrows r hr).nonempty
    rw [Int64.lt_iff_toInt_lt] at hlt this
    omega
  constructor
  · unfold overlapProbe
    rw [if_neg]
    · exact ⟨_, rfl⟩
    · simp only [hparams, Bool.false_or, List.any_eq_true, decide_eq_true_eq, not_exists, not_and]
      exact horder
  · rw [overlapProbe_none, heq]
    exact ⟨fun h => h.2.2, fun h => ⟨hparams, horder, h⟩⟩

theorem insertRows_ok {i : Nat} {xs : List (Segment × NsBounds)} (hinj : Function.Injective nextval)
    (hids : ∀ k, v.segments.get (nextval (i + k)) = none) (hfits : ∀ x ∈ xs, RowFits c x)
    (hclear : ∀ x ∈ xs, ∀ r ∈ v.segmentsOf f, Disjoint r.span x.2.denote)
    (hpw : xs.Pairwise fun x y => Disjoint x.2.denote y.2.denote) (hflow : (v.flows.get f).isSome)
    (hobj : ∀ x ∈ xs, (v.objects.get x.1.objectId).isSome) :
    ∃ v', (forEach (insertSegment c nextval f) i xs).eval t v = .ok ((), v') := by
  induction xs generalizing i v with
  | nil => exact ⟨v, rfl⟩
  | cons x xs ih =>
    obtain ⟨hfit, hfits⟩ := List.forall_mem_cons.mp hfits
    obtain ⟨hx, hclear⟩ := List.forall_mem_cons.mp hclear
    obtain ⟨hxs, hpw⟩ := List.pairwise_cons.mp hpw
    obtain ⟨hlo, hhi⟩ := hfit.finite.params
    have hfresh : v.segments.get (nextval i) = none := hids 0
    have hfree : RowFree c (nextval i) f x v := by
      refine ⟨hfresh, fun _ r hr => ?_, hflow, hobj x List.mem_cons_self⟩
      rw [← hlo, ← hhi]
      exact rowOverlaps_eq_false.mpr (hx r hr)
    have hids' : ∀ k, (v.write (.putSegment (segmentRow (nextval i) f x.1 x.2.lower x.2.upper t))).segments.get
        (nextval (i + 1 + k)) = none := by
      intro k
      have hne : nextval i ≠ nextval (i + 1 + k) := fun h => by have := hinj h; omega
      refine (Table.get_put_ne v.segments (r := segmentRow (nextval i) f x.1 x.2.lower x.2.upper t) hne).trans ?_
      rw [Nat.add_assoc]
      exact hids (1 + k)
    have hclear' : ∀ y ∈ xs,
        ∀ r ∈ (v.write (.putSegment (segmentRow (nextval i) f x.1 x.2.lower x.2.upper t))).segmentsOf f,
        Disjoint r.span y.2.denote := by
      intro y hy r hr
      rw [segmentsOf_putSegment hfresh, List.mem_append] at hr
      rcases hr with hr | hr
      · exact hclear y hy r hr
      · simp only [segmentRow, if_true, List.mem_singleton] at hr
        subst hr
        exact span_eq_denote hlo hhi _ _ _ _ ▸ hxs y hy
    obtain ⟨v', hv'⟩ := ih (v := v.write (.putSegment (segmentRow (nextval i) f x.1 x.2.lower x.2.upper t))) hids' hfits
      hclear' hpw hflow fun y hy => hobj y (List.mem_cons_of_mem _ hy)
    exact ⟨v', eval_forEach_cons.mpr ⟨_, eval_insertSegment.mpr ⟨hfit, hfree, rfl⟩, hv'⟩⟩

section
variable {batch : InsertBatch}

theorem zip_bounds (segs : List Segment) : segs.zip (segs.map Segment.bounds) = segs.map fun seg => (seg, seg.bounds) :=
  List.map_prod_left_eq_zip.symm

theorem Inserted.acceptable {bounds : List NsBounds} (h : Inserted c nextval batch bounds t d d')
    (hplain : ∀ seg ∈ batch.segments, seg.Plain) : Acceptable c batch d := by
  obtain ⟨hb, rfl, hpw⟩ := checkBatch_iff.mp h.checked
  have hclear := h.clear
  have hfits := h.fits
  rw [zip_bounds, List.forall_mem_map] at hclear hfits
  refine ⟨fun seg hs => ⟨(hb seg hs).1, (hb seg hs).2, hfits seg hs⟩, ?_, fun seg hs => ?_, h.registrable⟩
  · exact (pairwise_bounds (fun seg hs => (hplain seg hs).parsed) fun seg hs => (hb seg hs).2).mp hpw
  · rw [← (Segment.denote_bounds (hplain seg hs).parsed (hb seg hs).2).1]
    exact (overlapProbe_none.mp (hclear seg hs)).2.2

theorem Acceptable.checked (h : Acceptable c batch d) (hplain : ∀ seg ∈ batch.segments, seg.Plain) :
    checkBatch batch = .ok (batch.segments.map Segment.bounds) := by
  refine checkBatch_iff.mpr ⟨fun seg hs => ⟨(h.storable seg hs).raw, (h.storable seg hs).bounds⟩, rfl, ?_⟩
  exact (pairwise_bounds (fun seg hs => (hplain seg hs).parsed) fun seg hs => (h.storable seg hs).bounds).mpr h.apart

theorem Acceptable.clear_bounds (h : Acceptable c batch d) (hplain : ∀ seg ∈ batch.segments, seg.Plain)
    (hrows : ∀ r ∈ d.segmentsOf batch.flowId, r.Readable) :
    ∀ seg ∈ batch.segments, overlapProbe batch.flowId seg.bounds d = .ok none := by
  intro seg hs
  have hst := h.storable seg hs
  exact (overlapProbe_segment (hplain seg hs).parsed hst.bounds hst.fits.finite hrows).2.mpr (h.clear seg hs)

theorem counted_isSome {segs : List Segment} {seg : Segment} (hs : seg ∈ segs) (x : Option ObjectRow) :
    (countedObject batch segs seg.objectId x).isSome := by
  cases x with
  | some x => rfl
  | none =>
    rw [countedObject, Option.isSome_map, List.find?_isSome]
    exact ⟨seg, hs, decide_eq_true rfl⟩

/-- The rows of the flow can be read back with the new ones among them. -/
theorem readable_insertRows {v' : DB} {segs : List Segment} (hp : ∀ seg ∈ segs, parse seg.timerangeRaw = .ok seg.timerange)
    (hb : ∀ seg ∈ segs, seg.timerange.nsBounds = .ok seg.bounds) (hrows : ∀ r ∈ v.segmentsOf f, r.Readable)
    (hv' : (forEach (insertSegment c nextval f) 0 (segs.map fun seg => (seg, seg.bounds))).eval t v = .ok ((), v')) :
    ∀ r ∈ v'.segmentsOf f, r.Readable := by
  obtain ⟨hfits, hrows', -⟩ := eval_insertRows hv'
  rw [List.forall_mem_map] at hfits
  intro r hr
  rw [DB.segmentsOf, hrows', List.filter_append, filter_newRows, if_pos rfl, List.mem_append] at hr
  rcases hr with hr | hr
  · exact hrows r hr
  · obtain ⟨k, y, hy, rfl⟩ := mem_newRows.mp hr
    obtain ⟨seg, hs, rfl⟩ := List.mem_map.mp (List.mem_of_getElem? hy)
    obtain ⟨hlo, hhi⟩ := (hfits seg hs).finite.params
    exact rowsHave_readable (hp seg hs) (hb seg hs) _ _ _ hlo hhi _ _

section
variable {t : Time} {v₁ : DB}

/-- Once the objects are there, any of the rows that fit go in. -/
theorem insertRows_registered (hp : ∀ seg ∈ batch.segments, parse seg.timerangeRaw = .ok seg.timerange)
    (hb : ∀ seg ∈ batch.segments, seg.timerange.nsBounds = .ok seg.bounds)
    (hapart : batch.segments.Pairwise fun s s' => Disjoint s.timerange.denote s'.timerange.denote)
    (hclear : ∀ seg ∈ batch.segments, ∀ r ∈ d.segmentsOf batch.flowId, Disjoint r.span seg.timerange.denote)
    (hflow : Writable batch.flowId d) (hfresh : FreshIds nextval d)
    (hv₁ : (forEach (registerObject batch) 0 batch.segments).eval t d = .ok ((), v₁)) {xs : List (Segment × NsBounds)}
    (hsub : xs.Sublist (batch.segments.map fun seg => (seg, seg.bounds))) (hfits : ∀ x ∈ xs, RowFits c x) :
    ∃ v₂, (forEach (insertSegment c nextval batch.flowId) 0 xs).eval t v₁ = .ok ((), v₂) := by
  obtain ⟨-, hobj, hframe⟩ := eval_registerObjects hv₁
  have hseg : v₁.segments = d.segments := by rw [hframe]
  have hflows : v₁.flows = d.flows := by rw [hframe]
  have hden : ∀ seg ∈ batch.segments, seg.bounds.denote = seg.timerange.denote := fun seg hs =>
    (Segment.denote_bounds (hp seg hs) (hb seg hs)).1
  have hall : ∀ P : Segment × NsBounds → Prop, (∀ seg ∈ batch.segments, P (seg, seg.bounds)) → ∀ x ∈ xs, P x :=
    fun P h x hx => List.forall_mem_map.mpr h x (hsub.subset hx)
  obtain ⟨r, hr, -⟩ := writable_iff.mp hflow
  refine insertRows_ok hfresh.inj (fun k => ?_) hfits (hall _ fun seg hs r hr => ?_) ?_ (by rw [hflows, hr]; rfl)
    (hall _ fun seg hs => ?_)
  · rw [hseg]
    exact hfresh.fresh _
  · rw [DB.segmentsOf, hseg] at hr
    rw [hden seg hs]
    exact hclear seg hs r hr
  · refine List.Pairwise.sublist hsub ?_
    rw [List.pairwise_map]
    exact hapart.imp_of_mem fun hs hs' hdisj => by rwa [hden _ hs, hden _ hs']
  · rw [hobj]
    exact counted_isSome hs _

end

theorem Acceptable.accepted (h : Acceptable c batch d) (hplain : ∀ seg ∈ batch.segments, seg.Plain)
    (hrows : ∀ r ∈ d.segmentsOf batch.flowId, r.Readable) (hflow : Writable batch.flowId d)
    (hfresh : FreshIds nextval d) (t : Time) : ∃ a d', (insertSegments c nextval batch).run t d = (.ok a, d') := by
  -- the objects, the rows, and the span of the flow with them
  obtain ⟨v₁, hv₁⟩ := registerObjects_ok (t := t) (i := 0) h.registrable
  obtain ⟨-, -, hframe⟩ := eval_registerObjects hv₁
  obtain ⟨v₂, hv₂⟩ := insertRows_registered (fun seg hs => (hplain seg hs).parsed)
    (fun seg hs => (h.storable seg hs).bounds) h.apart h.clear hflow hfresh hv₁ (List.Sublist.refl _)
    (List.forall_mem_map.mpr fun seg hs => (h.storable seg hs).fits)
  obtain ⟨-, -, hframe₂⟩ := eval_insertRows hv₂
  have hseg : v₁.segmentsOf batch.flowId = d.segmentsOf batch.flowId := by
    rw [hframe]
    rfl
  obtain ⟨span, hspan, -⟩ := spanRows_ok (readable_insertRows (fun seg hs => (hplain seg hs).parsed)
    (fun seg hs => (h.storable seg hs).bounds) (by rwa [hseg]) hv₂)
  obtain ⟨r, hr, hro⟩ := writable_iff.mp hflow
  have hr₂ : v₂.flows.get batch.flowId = some r := by rw [hframe₂, hframe, hr]
  refine ⟨{ acceptedIndices := List.range batch.segments.length },
    v₂.write (.putFlow { r with segmentsUpdated := some t, timerange := span }), ?_⟩
  rw [insertSegments, h.checked hplain]
  refine (run_inTx_ok (commits_insertBody ..)).mpr ?_
  rw [insertBody, zip_bounds, eval_guard]
  refine ⟨⟨r, hr, hro⟩, eval_bind_ok.mpr ⟨(), d, ?_, eval_bind_ok.mpr ⟨(), v₁, hv₁, eval_bind_ok.mpr ⟨(), v₁, ?_,
    eval_bind_ok.mpr ⟨(), v₂, hv₂, eval_bind_ok.mpr ⟨(), _, ?_, eval_commitThen ..⟩⟩⟩⟩⟩⟩
  · exact (eval_forEach_check (eval_overlapCheck _)).mpr
      ⟨rfl, List.forall_mem_map.mpr (h.clear_bounds hplain hrows)⟩
  · refine (eval_forEach_check eval_checkObjectTimerange).mpr ⟨rfl, fun seg hs tr htr => ?_⟩
    rw [(hplain seg hs).undescribed] at htr
    cases htr
  · exact (eval_refreshFlowTimerange hr₂).mpr ⟨span, hspan, rfl⟩

end

/-! ## Orders and cuts -/

section
variable {xs ys : List Segment} {storageId : Str} {bounds : List NsBounds}

theorem occurrences_append (xs ys : List Segment) (o : Str) :
    occurrences (xs ++ ys) o = occurrences xs o + occurrences ys o := by
  rw [occurrences, List.map_append, List.count_append]
  rfl

theorem occurrences_perm (h : xs.Perm ys) (o : Str) : occurrences xs o = occurrences ys o :=
  (h.map _).count_eq o

theorem Acceptable.perm (h : Acceptable c ⟨f, xs, storageId⟩ d) (hp : xs.Perm ys) :
    Acceptable c ⟨f, ys, storageId⟩ d where
  storable seg hs := h.storable seg (hp.mem_iff.mpr hs)
  apart := (hp.pairwise_iff fun h => h.symm).mp h.apart
  clear seg hs := h.clear seg (hp.mem_iff.mpr hs)
  registrable := {
    storage := fun seg hs => h.registrable.storage seg (hp.mem_iff.mpr hs)
    live := fun seg hs => h.registrable.live seg (hp.mem_iff.mpr hs)
    fits := fun o k hk hle => h.registrable.fits o k hk (occurrences_perm hp o ▸ hle) }

def countAfter (segs : List Segment) (o : Str) : Option ℤ → Option ℤ
  | some n => some (n + occurrences segs o)
  | none => if occurrences segs o = 0 then none else some (occurrences segs o)

theorem counted_refCount {segs : List Segment} {batch : InsertBatch} (o : Str) (x : Option ObjectRow) :
    (countedObject batch segs o x).map (·.refCount) = countAfter segs o (x.map (·.refCount)) := by
  cases x with
  | some r => rfl
  | none =>
    cases hfind : segs.find? (·.objectId = o) with
    | some seg =>
      have ho : seg.objectId = o := by simpa using List.find?_some hfind
      have hpos := occurrences_pos.mpr ⟨seg, List.mem_of_find?_eq_some hfind, ho⟩
      simp [countedObject, countAfter, hfind, Nat.pos_iff_ne_zero.mp hpos]
    | none =>
      have h0 : occurrences segs o = 0 := by
        by_contra hne
        obtain ⟨seg, hs, ho⟩ := occurrences_pos.mp (Nat.pos_of_ne_zero hne)
        exact List.find?_eq_none.mp hfind seg hs (decide_eq_true ho)
      simp [countedObject, countAfter, hfind, h0]

section
variable {batch : InsertBatch} {segs : List Segment} {o : Str}

theorem refCountOf_counted (h : d'.objects.get o = countedObject batch segs o (d.objects.get o)) :
    d'.refCountOf o = d.refCountOf o + occurrences segs o := by
  rw [DB.refCountOf, h, counted_refCount, DB.refCountOf]
  cases (d.objects.get o).map (·.refCount) with
  | some n => rfl
  | none =>
    by_cases h0 : occurrences segs o = 0
    · simp [countAfter, h0]
    · simp [countAfter, h0]

theorem live_counted (h : d'.objects.get o = countedObject batch segs o (d.objects.get o)) :
    (∀ r, d'.objects.get o = some r → r.reaping = false) ↔ ∀ r, d.objects.get o = some r → r.reaping = false := by
  rw [h]
  cases d.objects.get o with
  | some r => simp [countedObject]
  | none =>
    simp only [countedObject, Option.map_eq_some_iff, reduceCtorEq, false_implies, implies_true, iff_true]
    rintro r ⟨seg, -, rfl⟩
    rfl

end

/-- The second part can be counted after the first exactly if both can be together. -/
theorem Inserted.registrable_iff (h : Inserted c nextval ⟨f, xs, storageId⟩ bounds t d d') :
    Registrable ⟨f, ys, storageId⟩ ys d' ↔ Registrable ⟨f, xs ++ ys, storageId⟩ (xs ++ ys) d := by
  have hx := h.registrable
  constructor
  · intro hy
    refine ⟨fun seg hs => ?_, fun seg hs => ?_, fun o k hk hle => ?_⟩
    · exact (List.mem_append.mp hs).elim (hx.storage seg) (hy.storage seg)
    · exact (List.mem_append.mp hs).elim (hx.live seg) fun hs => (live_counted (h.objects _)).mp (hy.live seg hs)
    · rcases Nat.lt_or_ge (occurrences xs o) k with hlt | hge
      · have := hy.fits o (k - occurrences xs o) (by omega) (by rw [occurrences_append] at hle; omega)
        rwa [refCountOf_counted (h.objects o), Int.add_assoc, ← Int.natCast_add, Nat.add_sub_cancel' hlt.le] at this
      · exact hx.fits o k hk hge
  · intro hxy
    refine ⟨fun seg hs => hxy.storage seg (List.mem_append_right _ hs), fun seg hs => ?_, fun o k hk hle => ?_⟩
    · exact (live_counted (h.objects _)).mpr (hxy.live seg (List.mem_append_right _ hs))
    · have := hxy.fits o (occurrences xs o + k) (by omega) (by rw [occurrences_append]; omega)
      rwa [refCountOf_counted (h.objects o), Int.add_assoc, ← Int.natCast_add]

theorem Inserted.spans (h : Inserted c nextval ⟨f, xs, storageId⟩ bounds t d d') (hplain : ∀ seg ∈ xs, seg.Plain) :
    (∀ r ∈ d'.segmentsOf f, r ∈ d.segmentsOf f ∨ ∃ seg ∈ xs, r.span = seg.timerange.denote) ∧
      (∀ r ∈ d.segmentsOf f, r ∈ d'.segmentsOf f) ∧
      ∀ seg ∈ xs, ∃ r ∈ d'.segmentsOf f, r.span = seg.timerange.denote := by
  obtain ⟨hb, rfl, -⟩ := checkBatch_iff.mp h.checked
  have hof := h.segmentsOf f
  have hacc := h.acceptable hplain
  rw [if_pos rfl, zip_bounds] at hof
  have hspan : ∀ i seg, seg ∈ xs → (segmentRow (nextval i) f seg seg.bounds.lower seg.bounds.upper t).span =
      seg.timerange.denote := by
    intro i seg hs
    obtain ⟨hlo, hhi⟩ := (hacc.storable seg hs).fits.finite.params
    exact (span_eq_denote hlo hhi _ _ _ _).trans (Segment.denote_bounds (hplain seg hs).parsed (hb seg hs).2).1
  rw [hof]
  refine ⟨fun r hr => (List.mem_append.mp hr).imp_right fun hr => ?_, fun r hr => List.mem_append_left _ hr,
    fun seg hs => ?_⟩
  · obtain ⟨k, y, hy, rfl⟩ := mem_newRows.mp hr
    obtain ⟨seg, hs, rfl⟩ := List.mem_map.mp (List.mem_of_getElem? hy)
    exact ⟨seg, hs, hspan _ seg hs⟩
  · obtain ⟨k, hk⟩ := List.mem_iff_getElem?.mp hs
    refine ⟨_, List.mem_append_right _ (mem_newRows.mpr ⟨k, (seg, seg.bounds), ?_, rfl⟩), hspan _ seg hs⟩
    rw [List.getElem?_map, hk]
    rfl

/-- **Cut.** What is acceptable together is acceptable one after the other. -/
theorem Inserted.acceptable_iff (h : Inserted c nextval ⟨f, xs, storageId⟩ bounds t d d')
    (hplain : ∀ seg ∈ xs, seg.Plain) :
    Acceptable c ⟨f, ys, storageId⟩ d' ↔ Acceptable c ⟨f, xs ++ ys, storageId⟩ d := by
  have hx := h.acceptable hplain
  obtain ⟨hnew, hold, hrows⟩ := h.spans hplain
  constructor
  · intro hy
    refine ⟨fun seg hs => (List.mem_append.mp hs).elim (hx.storable seg) (hy.storable seg), ?_, fun seg hs r hr => ?_,
      h.registrable_iff.mp hy.registrable⟩
    · refine List.pairwise_append.mpr ⟨hx.apart, hy.apart, fun s hs s' hs' => ?_⟩
      obtain ⟨r, hr, hspan⟩ := hrows s hs
      exact hspan ▸ hy.clear s' hs' r hr
    · exact (List.mem_append.mp hs).elim (fun hs => hx.clear seg hs r hr) fun hs => hy.clear seg hs r (hold r hr)
  · intro hxy
    obtain ⟨-, hys, hcross⟩ := List.pairwise_append.mp hxy.apart
    refine ⟨fun seg hs => hxy.storable seg (List.mem_append_right _ hs), hys, fun seg hs r hr => ?_,
      h.registrable_iff.mpr hxy.registrable⟩
    rcases hnew r hr with hr | ⟨s, hs', hspan⟩
    · exact hxy.clear seg (List.mem_append_right _ hs) r hr
    · exact hspan ▸ hcross s hs' seg hs

theorem Acceptable.left (h : Acceptable c ⟨f, xs ++ ys, storageId⟩ d) : Acceptable c ⟨f, xs, storageId⟩ d where
  storable seg hs := h.storable seg (List.mem_append_left _ hs)
  apart := (List.pairwise_append.mp h.apart).1
  clear seg hs := h.clear seg (List.mem_append_left _ hs)
  registrable := {
    storage := fun seg hs => h.registrable.storage seg (List.mem_append_left _ hs)
    live := fun seg hs => h.registrable.live seg (List.mem_append_left _ hs)
    fits := fun o k hk hle => h.registrable.fits o k hk (by
      show k ≤ occurrences (xs ++ ys) o
      rw [occurrences_append]
      exact Nat.le_add_right_of_le hle) }

end

/-! ## Sequences of batches -/

/-- The batches one after the other, each at its time; `none` if one of them is refused. -/
def insertAll (c : Constraints) (storageId : Str) (f : Uuid) :
    (Nat → Nat) → List (List Segment × Time) → DB → Option DB
  | _, [], d => some d
  | nextval, (segs, t) :: parts, d => match (insertSegments c nextval ⟨f, segs, storageId⟩).run t d with
    | (.ok _, d') => insertAll c storageId f (fun k => nextval (segs.length + k)) parts d'
    | (.error _, _) => none

def Current (f : Uuid) (d : DB) : Prop :=
  ∃ r, d.flows.get f = some r ∧ renderSpan (spanRows d f).1 (spanRows d f).2 = .ok r.timerange

def Segment.extent (seg : Segment) : Str × Str × Int64 × Int64 :=
  (seg.objectId, seg.timerangeRaw, seg.bounds.lower, seg.bounds.upper)

structure Ready (f : Uuid) (nextval : Nat → Nat) (d : DB) : Prop where
  inv : SegmentInv SegmentRow.Readable d
  writable : Writable f d
  fresh : FreshIds nextval d

/-- What the segments have made of `d`. -/
structure Outcome (f : Uuid) (segs : List Segment) (d d' : DB) : Prop where
  inv : SegmentInv SegmentRow.Readable d'
  rows : (d'.segmentsOf f).map (·.extent) = (d.segmentsOf f).map (·.extent) ++ segs.map (·.extent)
  counts : ∀ o, (d'.objects.get o).map (·.refCount) = countAfter segs o ((d.objects.get o).map (·.refCount))
  current : segs ≠ [] ∨ Current f d → Current f d'

section
variable {segs : List Segment} {storageId : Str} {bounds : List NsBounds}

theorem extent_newRows (i : Nat) :
    (newRows nextval f t i (segs.map fun seg => (seg, seg.bounds))).map (·.extent) = segs.map (·.extent) := by
  induction segs generalizing i with
  | nil => rfl
  | cons seg segs ih => exact congrArg _ (ih (i + 1))

theorem Inserted.get_flow (h : Inserted c nextval ⟨f, segs, storageId⟩ bounds t d d') :
    ∃ r, d'.flows.get f = some r ∧ r.readOnly = false ∧
      renderSpan (spanRows d' f).1 (spanRows d' f).2 = .ok r.timerange := by
  obtain ⟨r, span, hr, hro, hspan, hput⟩ := h.flow
  refine ⟨{ r with segmentsUpdated := some t, timerange := span }, ?_, hro, hspan⟩
  rw [hput, ← show r.id = f from Table.key_of_get hr]
  exact Table.get_put_self d.flows { r with segmentsUpdated := some t, timerange := span }

theorem Inserted.outcome (h : Inserted c nextval ⟨f, segs, storageId⟩ bounds t d d')
    (hinv : SegmentInv SegmentRow.Readable d') : Outcome f segs d d' where
  inv := hinv
  rows := by
    obtain ⟨-, rfl, -⟩ := checkBatch_iff.mp h.checked
    rw [h.segmentsOf, if_pos rfl, zip_bounds, List.map_append, extent_newRows]
  counts o := by rw [h.objects, counted_refCount]
  current _ := by
    obtain ⟨r, hr, -, hspan⟩ := h.get_flow
    exact ⟨r, hr, hspan⟩

theorem Inserted.ready (h : Inserted c nextval ⟨f, segs, storageId⟩ bounds t d d')
    (hinv : SegmentInv SegmentRow.Readable d') (hr : Ready f nextval d) :
    Ready f (fun k => nextval (segs.length + k)) d' where
  inv := hinv
  writable := by
    obtain ⟨r, hr, hro, -⟩ := h.get_flow
    exact writable_iff.mpr ⟨r, hr, hro⟩
  fresh := by
    refine ⟨fun i j hij => ?_, fun k => Table.get_eq_none.mpr fun r hmem => ?_⟩
    · have := hr.fresh.inj hij
      omega
    · rw [h.segments, List.mem_append] at hmem
      rcases hmem with hmem | hmem
      · exact Table.get_eq_none.mp (hr.fresh.fresh _) r hmem
      · obtain ⟨i, x, hx, rfl⟩ := mem_newRows.mp hmem
        have hlt : i < (segs.zip bounds).length := (List.getElem?_eq_some_iff.mp hx).1
        rw [List.length_zip] at hlt
        intro hid
        have := hr.fresh.inj hid
        omega

theorem countAfter_append (xs ys : List Segment) (o : Str) (n : Option ℤ) :
    countAfter ys o (countAfter xs o n) = countAfter (xs ++ ys) o n := by
  cases n with
  | some n => simp [countAfter, occurrences_append, Int.add_assoc]
  | none =>
    by_cases hx : occurrences xs o = 0
    · simp [countAfter, occurrences_append, hx]
    · simp [countAfter, occurrences_append, hx]

theorem outcome_nil (hinv : SegmentInv SegmentRow.Readable d) : Outcome f [] d d where
  inv := hinv
  rows := (List.append_nil _).symm
  counts o := by cases d.objects.get o <;> simp [countAfter, occurrences]
  current hc := hc.resolve_left fun h => h rfl

theorem Outcome.trans {xs ys : List Segment} {d₁ d₂ : DB} (h : Outcome f xs d d₁) (h' : Outcome f ys d₁ d₂) :
    Outcome f (xs ++ ys) d d₂ where
  inv := h'.inv
  rows := by rw [h'.rows, h.rows, List.map_append, List.append_assoc]
  counts o := by rw [h'.counts, h.counts, countAfter_append]
  current hc := by
    refine h'.current ?_
    by_cases hy : ys = []
    · subst hy
      rw [List.append_nil] at hc
      exact Or.inr (h.current hc)
    · exact Or.inl hy

/-- **Sequences of batches** are accepted where all their segments are acceptable together. -/
theorem insertAll_spec (c : Constraints) (storageId : Str) {parts : List (List Segment × Time)}
    (hready : Ready f nextval d) (hplain : ∀ seg ∈ (parts.map Prod.fst).flatten, seg.Plain) :
    ((∃ d', insertAll c storageId f nextval parts d = some d') ↔
      Acceptable c ⟨f, (parts.map Prod.fst).flatten, storageId⟩ d) ∧
    ∀ d', insertAll c storageId f nextval parts d = some d' → Outcome f (parts.map Prod.fst).flatten d d' := by
  induction parts generalizing nextval d with
  | nil =>
    refine ⟨⟨fun _ => ?_, fun _ => ⟨d, rfl⟩⟩, fun d' hd' => ?_⟩
    · exact ⟨fun _ h => (by cases h), .nil, fun _ h => (by cases h), fun _ h => (by cases h), fun _ h => (by cases h),
        fun o k hk hle => absurd hle (Nat.not_le_of_lt hk)⟩
    · cases hd'
      exact outcome_nil hready.inv
  | cons p parts ih =>
    obtain ⟨segs, t⟩ := p
    simp only [List.map_cons, List.flatten_cons, insertAll] at hplain ⊢
    have hsegs : ∀ seg ∈ segs, seg.Plain := fun seg hs => hplain seg (List.mem_append_left _ hs)
    have hrest : ∀ seg ∈ (parts.map Prod.fst).flatten, seg.Plain :=
      fun seg hs => hplain seg (List.mem_append_right _ hs)
    rcases hrun : (insertSegments c nextval ⟨f, segs, storageId⟩).run t d with ⟨e | a, d₁⟩
    · refine ⟨⟨fun ⟨d', hd'⟩ => (by cases hd'), fun hacc => ?_⟩, fun d' hd' => by cases hd'⟩
      obtain ⟨a, d', hok⟩ := hacc.left.accepted hsegs
        (fun r hr => hready.inv.rows r (List.mem_filter.mp hr).1) hready.writable hready.fresh t
      rw [hrun] at hok
      cases hok
    · obtain ⟨bounds, hins⟩ := insertSegments_inserted hrun
      have hinv : SegmentInv SegmentRow.Readable d₁ := by
        have happly : SegmentInv SegmentRow.Readable ((insertSegments c nextval ⟨f, segs, storageId⟩).run t d).2 :=
          insertSegments_apart hready.inv fun seg hs b hb => rowsHave_readable (hsegs seg hs).parsed hb f
        rwa [hrun] at happly
      obtain ⟨hiff, hout⟩ := ih (hins.ready hinv hready) hrest
      exact ⟨hiff.trans (hins.acceptable_iff hsegs), fun d' hd' => (hins.outcome hinv).trans (hout d' hd')⟩

/-! ## The division into batches does not matter -/

/-- The parts are the segments, in some order, cut into batches that are not empty. -/
structure Divides (parts : List (List Segment × Time)) (segs : List Segment) : Prop where
  perm : (parts.map Prod.fst).flatten.Perm segs
  nonempty : ∀ p ∈ parts, p.1 ≠ []

structure SameOutcome (f : Uuid) (d d' : DB) : Prop where
  rows : ((d.segmentsOf f).map (·.extent)).Perm ((d'.segmentsOf f).map (·.extent))
  counts : ∀ o, (d.objects.get o).map (·.refCount) = (d'.objects.get o).map (·.refCount)
  timerange : (d.flows.get f).map (·.timerange) = (d'.flows.get f).map (·.timerange)

theorem Outcome.same {xs ys : List Segment} {d₁ d₂ : DB} (h : Outcome f xs d d₁) (h' : Outcome f ys d d₂)
    (hp : xs.Perm ys) (hcur : xs ≠ [] ∨ Current f d) : SameOutcome f d₁ d₂ := by
  have hrows : ((d₁.segmentsOf f).map (·.extent)).Perm ((d₂.segmentsOf f).map (·.extent)) := by
    rw [h.rows, h'.rows]
    exact (hp.map _).append_left _
  have hcur' : ys ≠ [] ∨ Current f d := hcur.imp_left fun hne he => hne (List.perm_nil.mp (he ▸ hp))
  refine ⟨hrows, fun o => ?_, ?_⟩
  · rw [h.counts, h'.counts]
    simp only [countAfter, occurrences_perm hp o]
  · obtain ⟨r, hr, hspan⟩ := h.current hcur
    obtain ⟨r', hr', hspan'⟩ := h'.current hcur'
    rw [spanRows_perm h.inv hrows, hspan', Except.ok.injEq] at hspan
    rw [hr, hr', Option.map_some, Option.map_some, hspan]

end

end

/-- **Batches do not matter.** On a writable flow whose rows lie apart and can be read back, segments
without object timeranges are accepted as one batch if and only if they are accepted as every sequence of
batches made of them in any order, at any times; and the flow's segments, all reference counts and the
flow's timerange are then the same. -/
theorem batches_irrelevant (c : Constraints) (storageId : Str) {f : Uuid} {d : DB} {segs : List Segment}
    {nextval : Nat → Nat} (hinv : SegmentInv SegmentRow.Readable d) (hflow : Writable f d)
    (hplain : ∀ seg ∈ segs, seg.Plain)
    (hspan : segs = [] → Current f d) (hfresh : FreshIds nextval d) (t : Time) :
    ((∃ a, ((insertSegments c nextval ⟨f, segs, storageId⟩).run t d).1 = .ok a) ↔
      ∀ nextval' parts, FreshIds nextval' d → Divides parts segs →
        ∃ d', insertAll c storageId f nextval' parts d = some d') ∧
    ∀ a nextval' parts d', ((insertSegments c nextval ⟨f, segs, storageId⟩).run t d).1 = .ok a → FreshIds nextval' d →
      Divides parts segs → insertAll c storageId f nextval' parts d = some d' →
      SameOutcome f ((insertSegments c nextval ⟨f, segs, storageId⟩).run t d).2 d' := by
  have hready : ∀ ids, FreshIds ids d → Ready f ids d := fun ids hids => ⟨hinv, hflow, hids⟩
  have hcur : segs ≠ [] ∨ Current f d := (em (segs = [])).symm.imp_right hspan
  have hdivided : ∀ parts, Divides parts segs → ∀ seg ∈ (parts.map Prod.fst).flatten, seg.Plain :=
    fun parts hdiv seg hs => hplain seg (hdiv.perm.mem_iff.mp hs)
  -- the one batch is a sequence of batches
  have hone : ∀ a, ((insertSegments c nextval ⟨f, segs, storageId⟩).run t d).1 = .ok a →
      insertAll c storageId f nextval [(segs, t)] d =
        some ((insertSegments c nextval ⟨f, segs, storageId⟩).run t d).2 := by
    intro a ha
    rcases hrun : (insertSegments c nextval ⟨f, segs, storageId⟩).run t d with ⟨r, d'⟩
    rw [hrun] at ha
    cases ha
    simp only [insertAll, hrun]
  have hspec : ((∃ d', insertAll c storageId f nextval [(segs, t)] d = some d') ↔ Acceptable c ⟨f, segs, storageId⟩ d) ∧
      ∀ d', insertAll c storageId f nextval [(segs, t)] d = some d' → Outcome f segs d d' := by
    have hflat : (([(segs, t)] : List (List Segment × Time)).map Prod.fst).flatten = segs := List.flatten_singleton
    have := insertAll_spec c storageId (hready nextval hfresh) (hflat.symm ▸ hplain)
    rwa [hflat] at this
  refine ⟨⟨fun ⟨a, ha⟩ ids parts hids hdiv => ?_, fun hall => ?_⟩, fun a ids parts d' ha hids hdiv hd' => ?_⟩
  · refine ((insertAll_spec c storageId (hready ids hids) (hdivided parts hdiv)).1).mpr ?_
    exact (hspec.1.mp ⟨_, hone a ha⟩).perm hdiv.perm.symm
  · have hacc : Acceptable c ⟨f, segs, storageId⟩ d := by
      by_cases hne : segs = []
      · subst hne
        have hnil : ∀ seg ∈ (([] : List (List Segment × Time)).map Prod.fst).flatten, seg.Plain :=
          fun _ hs => by cases hs
        exact (insertAll_spec c storageId (hready nextval hfresh) hnil).1.mp ⟨d, rfl⟩
      · obtain ⟨d', hd'⟩ := hall nextval [(segs, t)] hfresh ⟨by simp, by simpa using hne⟩
        exact hspec.1.mp ⟨d', hd'⟩
    obtain ⟨a, d', hrun⟩ := hacc.accepted hplain (fun r hr => hinv.rows r (List.mem_filter.mp hr).1) hflow hfresh t
    exact ⟨a, congrArg Prod.fst hrun⟩
  · have hparts := (insertAll_spec c storageId (hready ids hids) (hdivided parts hdiv)).2 d' hd'
    exact (hspec.2 _ (hone a ha)).same hparts hdiv.perm.symm hcur

/-! ## Two segments in one batch and in two -/

def splitBatch : List (List Segment × Time) :=
  [([sampleSegment "o" "[1:0_2:0)" 1 2], 5), ([sampleSegment "o" "[0:0_1:0)" 0 1], 9)]

theorem segments_oneFlow : oneFlow.segments = DB.empty.segments := by decide +kernel

theorem freshIds_oneFlow : FreshIds id oneFlow := by
  refine ⟨Function.injective_id, fun k => ?_⟩
  rw [segments_oneFlow]
  rfl

theorem sharedBatch_split : ∃ d', insertAll {} (lit "default") 1 id splitBatch oneFlow = some d' ∧
    SameOutcome 1 ((insertSegments {} id ⟨1, sharedBatch.segments, lit "default"⟩).run 1 oneFlow).2 d' := by
  have hinv : SegmentInv SegmentRow.Readable oneFlow := segmentInv_empty.of_eq segments_oneFlow
  have hflow : Writable 1 oneFlow := by decide +kernel
  have hids := freshIds_oneFlow
  have hplain : ∀ seg ∈ sharedBatch.segments, seg.Plain := by
    have : ∀ seg ∈ sharedBatch.segments, parse seg.timerangeRaw = .ok seg.timerange ∧ seg.objectTimerange = none := by
      decide +kernel
    exact fun seg hs => ⟨(this seg hs).1, (this seg hs).2⟩
  have hdiv : Divides splitBatch sharedBatch.segments := ⟨List.Perm.swap _ _ _, by decide⟩
  have hok : ((insertSegments {} id ⟨1, sharedBatch.segments, lit "default"⟩).run 1 oneFlow).1 =
      .ok { acceptedIndices := [0, 1] } := by decide +kernel
  obtain ⟨hiff, hsame⟩ := batches_irrelevant {} (lit "default") hinv hflow hplain (fun h => by cases h) hids 1
  obtain ⟨d', hd'⟩ := hiff.mp ⟨_, hok⟩ id splitBatch hids hdiv
  exact ⟨d', hd', hsame _ id splitBatch d' hok hids hdiv hd'⟩

def garbledStore : DB :=
  (oneFlow.write (.putObject ⟨lit "x", 1, none, false⟩)).write
    (.putSegment (segmentRow 0 1 (sampleSegment "x" "?" 10 11) 10000000000 11000000000 0))

/-- A segment before that row and one after it are accepted together, and not one by one. -/
theorem garbled_split :
    ((insertSegments {} (· + 1)
      ⟨1, [sampleSegment "o" "[5:0_6:0)" 5 6, sampleSegment "o" "[20:0_21:0)" 20 21],
        lit "default"⟩).run 1 garbledStore).1 =
      .ok { acceptedIndices := [0, 1] } ∧
    insertAll {} (lit "default") 1 (· + 1)
      [([sampleSegment "o" "[5:0_6:0)" 5 6], 1), ([sampleSegment "o" "[20:0_21:0)" 20 21], 2)] garbledStore = none := by
  decide +kernel

end OpenTams
