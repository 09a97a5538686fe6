import OpenTams.Containment
import OpenTams.InsertSound
import OpenTams.SegmentInv

/-!
# First description of an object

`InsertSegments` compares the `object_timerange` of each new segment with the
earliest one stored for the object before the batch, by `rangeContains`. So
descriptions of one object in one batch are never compared with each other: a
batch that describes a new object twice is stored whatever the two ranges are.
Where the descriptions of a batch agree on every object that has none yet, the
first description contains all later ones.
-/

namespace OpenTams

open Sql

/-! ## Descriptions -/

def Segment.Described (seg : Segment) : Prop :=
  match seg.objectTimerange with
  | none => seg.objectTimerangeRaw = []
  | some tr => parse seg.objectTimerangeRaw = .ok tr

instance : DecidablePred Segment.Described := fun seg => by
  unfold Segment.Described
  split <;> infer_instance

/-- Segments of the batch on an object without a stored description describe it alike. -/
def DescribesAlike (d : DB) (batch : InsertBatch) : Prop :=
  ∀ seg ∈ batch.segments, ∀ seg' ∈ batch.segments, seg.objectId = seg'.objectId →
    storedObjectTimerange d seg.objectId = none →
    ∀ tr tr', seg.objectTimerange = some tr → seg'.objectTimerange = some tr' → tr'.denote = tr.denote

def EarliestDescription (d : DB) (r : SegmentRow) : Prop :=
  r.objectTimerange.isSome ∧
    ∀ x ∈ d.segments.rows, x.objectId = r.objectId → x.objectTimerange.isSome → r.createdAt ≤ x.createdAt

instance (d : DB) (r : SegmentRow) : Decidable (EarliestDescription d r) := by
  unfold EarliestDescription
  infer_instance

/-- Every description of an object lies within its earliest one. -/
def FirstWins (d : DB) : Prop :=
  ∀ r ∈ d.segments.rows, EarliestDescription d r → ∀ r' ∈ d.segments.rows, r'.objectId = r.objectId →
    ∀ s s', r.objectTimerange = some s → r'.objectTimerange = some s' →
    ∃ tr tr', parse s = .ok tr ∧ parse s' = .ok tr' ∧ tr'.denote ⊆ tr.denote

theorem mem_descriptions {d : DB} {o : Str} {r : SegmentRow} :
    r ∈ (d.segmentsOn o).filter (·.objectTimerange.isSome) ↔
      r ∈ d.segments.rows ∧ r.objectId = o ∧ r.objectTimerange.isSome := by
  rw [List.mem_filter, DB.segmentsOn, List.mem_filter, decide_eq_true_eq, and_assoc]

theorem storedObjectTimerange_none {d : DB} {o : Str} (h : storedObjectTimerange d o = none) :
    ∀ r ∈ d.segments.rows, r.objectId = o → r.objectTimerange = none := by
  intro r hr ho
  unfold storedObjectTimerange at h
  cases hf : firstBy (fun a b : SegmentRow => a.createdAt < b.createdAt)
      ((d.segmentsOn o).filter (·.objectTimerange.isSome)) with
  | none =>
    by_contra hne
    have hmem := mem_descriptions.mpr ⟨hr, ho, Option.isSome_iff_ne_none.mpr hne⟩
    rw [firstBy_eq_none.mp hf] at hmem
    cases hmem
  | some x =>
    obtain ⟨-, -, hsome⟩ := mem_descriptions.mp (firstBy_mem hf)
    rw [hf, Option.bind_some] at h
    rw [h] at hsome
    cases hsome

theorem storedObjectTimerange_some {d : DB} {o s : Str} (h : storedObjectTimerange d o = some s) :
    ∃ r ∈ d.segments.rows, r.objectId = o ∧ r.objectTimerange = some s ∧ EarliestDescription d r := by
  obtain ⟨r, hf, hs⟩ := Option.bind_eq_some_iff.mp h
  obtain ⟨hr, ho, hsome⟩ := mem_descriptions.mp (firstBy_mem hf)
  refine ⟨r, hr, ho, hs, hsome, fun x hx hxo hxs => ?_⟩
  exact firstBy_le (·.createdAt) (fun a b => decide_eq_true_iff) hf x (mem_descriptions.mpr ⟨hx, hxo.trans ho, hxs⟩)

/-! ## Runs -/

section
variable {c : Constraints} {nextval : Nat → Nat} {batch : InsertBatch} {bounds : List NsBounds} {t : Time} {d d' : DB}

theorem described_newRow {r : SegmentRow} (hdesc : ∀ seg ∈ batch.segments, seg.Described)
    (hr : r ∈ newRows nextval batch.flowId t 0 (batch.segments.zip bounds)) :
    r.createdAt = t ∧ ∃ seg ∈ batch.segments, r.objectId = seg.objectId ∧
      ∀ s, r.objectTimerange = some s → ∃ tr, seg.objectTimerange = some tr ∧ parse s = .ok tr := by
  obtain ⟨k, x, hx, rfl⟩ := mem_newRows.mp hr
  have hmem : x.1 ∈ batch.segments := (List.of_mem_zip (List.mem_of_getElem? hx)).1
  refine ⟨rfl, x.1, hmem, rfl, fun s hs => ?_⟩
  have hd := hdesc x.1 hmem
  unfold Segment.Described at hd
  simp only [segmentRow, nullIfEmpty] at hs
  split at hs
  · cases hs
  · cases hs
    rename_i hraw
    cases htr : x.1.objectTimerange with
    | none => rw [htr] at hd; exact absurd hd hraw
    | some tr => rw [htr] at hd; exact ⟨tr, rfl, hd⟩

/-- **Step.** A batch whose descriptions agree keeps the first one first. -/
theorem Inserted.firstWins (h : Inserted c nextval batch bounds t d d') (hd : FirstWins d)
    (hlate : ∀ r ∈ d.segments.rows, r.createdAt < t) (hdesc : ∀ seg ∈ batch.segments, seg.Described)
    (halike : DescribesAlike d batch) : FirstWins d' := by
  intro r hr hfirst r' hr' ho s s' hs hs'
  have hold : ∀ x ∈ d.segments.rows, x ∈ d'.segments.rows := fun x hx => by
    rw [h.segments]
    exact List.mem_append_left _ hx
  rw [h.segments, List.mem_append] at hr hr'
  cases hstored : storedObjectTimerange d r.objectId with
  | none =>
    -- the object has no description yet, so both rows are new
    have hnone := storedObjectTimerange_none hstored
    have hr := hr.resolve_left fun hr => by cases hs.symm.trans (hnone r hr rfl)
    have hr' := hr'.resolve_left fun hr' => by cases hs'.symm.trans (hnone r' hr' ho)
    obtain ⟨-, seg, hseg, hso, hd⟩ := described_newRow hdesc hr
    obtain ⟨-, seg', hseg', hso', hd'⟩ := described_newRow hdesc hr'
    obtain ⟨tr, htr, hp⟩ := hd s hs
    obtain ⟨tr', htr', hp'⟩ := hd' s' hs'
    have heq := halike seg hseg seg' hseg' (by rw [← hso, ← hso', ho]) (hso ▸ hstored) tr tr' htr htr'
    exact ⟨tr, tr', hp, hp', heq.le⟩
  | some e =>
    obtain ⟨x, hx, hxo, hxe, -⟩ := storedObjectTimerange_some hstored
    -- the earliest description was stored before
    have hr : r ∈ d.segments.rows := by
      refine hr.resolve_right fun hnew => ?_
      have hle := hfirst.2 x (hold x hx) hxo (by rw [hxe]; rfl)
      rw [(described_newRow hdesc hnew).1] at hle
      exact absurd (hlate x hx) (Int.not_lt.mpr hle)
    have hfirst : EarliestDescription d r := ⟨hfirst.1, fun y hy => hfirst.2 y (hold y hy)⟩
    rcases hr' with hr' | hr'
    · exact hd r hr hfirst r' hr' ho s s' hs hs'
    · obtain ⟨-, seg, hseg, hso, hd'⟩ := described_newRow hdesc hr'
      obtain ⟨tr', htr', hp'⟩ := hd' s' hs'
      obtain ⟨outer, hpo, hc⟩ := h.described seg hseg tr' htr' e (by rw [← hso, ho, hstored])
      obtain ⟨tr, trx, hp, hpx, hsub⟩ := hd r hr hfirst x hx hxo s e hs hxe
      cases hpo.symm.trans hpx
      exact ⟨tr, tr', hp, hp', (rangeContains_subset (parse_text hpo).1 (parse_text hp').1 hc).trans hsub⟩

end

abbrev InsertCall := (Nat → Nat) × InsertBatch

def InsertCall.prog (c : Constraints) (x : InsertCall) : Tx InsertResult := insertSegments c x.1 x.2

def AcceptsAlike (c : Constraints) (d : DB) (x : InsertCall) : Prop :=
  ∀ t a, ((x.prog c).run t d).1 = .ok a → DescribesAlike d x.2

/-- **The first description wins.** In every run of `InsertSegments` calls at increasing times, from a
store without segments, in which the batches that are accepted describe each new object in one way, every
description of an object lies within its earliest one. -/
theorem first_description_wins {c : Constraints} {d : DB} (hempty : d.segments = .empty) {h : List (InsertCall × Time)}
    (htimes : (h.map Prod.snd).Pairwise (· < ·)) (hdesc : ∀ x ∈ h, ∀ seg ∈ x.1.2.segments, seg.Described)
    (halike : Meets (InsertCall.prog c) (AcceptsAlike c) d h) : FirstWins (replay (InsertCall.prog c) d h) := by
  -- from any state that is older than the calls
  suffices hgen : ∀ d, FirstWins d → (∀ x ∈ h, ∀ r ∈ d.segments.rows, r.createdAt < x.2) →
      Meets (InsertCall.prog c) (AcceptsAlike c) d h → FirstWins (replay (InsertCall.prog c) d h) by
    refine hgen d (fun r hr => ?_) (fun x _ r hr => ?_) halike
    · rw [hempty] at hr; cases hr
    · rw [hempty] at hr; cases hr
  clear halike hempty d
  induction h with
  | nil => exact fun d hd _ _ => hd
  | cons x h ih =>
    intro d hd hlate hmeets
    obtain ⟨hlt, htimes⟩ := List.pairwise_cons.mp htimes
    have hstep : FirstWins ((x.1.prog c).run x.2 d).2 ∧
        ∀ y ∈ h, ∀ r ∈ ((x.1.prog c).run x.2 d).2.segments.rows, r.createdAt < y.2 := by
      have hlate := hlate x List.mem_cons_self
      rcases hrun : (x.1.prog c).run x.2 d with ⟨e | a, d'⟩
      · have hsame : d' = d := by
          have := insertSegments_refused (congrArg Prod.fst hrun)
          rwa [← InsertCall.prog, hrun] at this
        rw [hsame]
        exact ⟨hd, fun y hy r hr => Int.lt_trans (hlate r hr) (hlt _ (List.mem_map_of_mem hy))⟩
      · obtain ⟨bounds, hins⟩ := insertSegments_inserted hrun
        have hdescx := hdesc x List.mem_cons_self
        refine ⟨hins.firstWins hd hlate hdescx (hmeets.1 x.2 a (congrArg Prod.fst hrun)), fun y hy r hr => ?_⟩
        have hxy : x.2 < y.2 := hlt _ (List.mem_map_of_mem hy)
        rw [hins.segments, List.mem_append] at hr
        rcases hr with hr | hr
        · exact Int.lt_trans (hlate r hr) hxy
        · rw [(described_newRow hdescx hr).1]
          exact hxy
    exact ih htimes (fun y hy => hdesc y (List.mem_cons_of_mem _ hy)) _ hstep.1 hstep.2 hmeets.2

/-! ## Batches that describe an object -/

def describing (r : String) (start stop : Int64) (described : String) (first last : Int64) : Segment :=
  { sampleSegment "o" r start stop with
    objectTimerange := some ⟨some ⟨first, 0⟩, .inclusive, some ⟨last, 0⟩, .exclusive⟩
    objectTimerangeRaw := lit described }

def describingCall : InsertCall := (id, ⟨1, [describing "[0:0_1:0)" 0 1 "[0:0_9:0)" 0 9], lit "default"⟩)

def refiningCall : InsertCall :=
  (fun i => i + 1, ⟨1, [describing "[1:0_2:0)" 1 2 "[0:0_1:0)" 0 1, describing "[2:0_3:0)" 2 3 "[5:0_9:0)" 5 9],
    lit "default"⟩)

def describingRun : List (InsertCall × Time) := [(describingCall, 1), (refiningCall, 2)]

theorem first_wins_describingRun :
    (replay (InsertCall.prog {}) oneFlow describingRun).segments.rows.map (·.objectTimerange) =
      [some (lit "[0:0_9:0)"), some (lit "[0:0_1:0)"), some (lit "[5:0_9:0)")] ∧
    FirstWins (replay (InsertCall.prog {}) oneFlow describingRun) := by
  refine ⟨by decide +kernel, first_description_wins rfl (by decide) (by decide +kernel)
    ⟨fun t a _ => ?_, fun t a _ => ?_, trivial⟩⟩
  · intro seg hseg seg' hseg' _ _ tr tr' htr htr'
    rw [List.mem_singleton.mp hseg] at htr
    rw [List.mem_singleton.mp hseg', htr] at htr'
    cases htr'
    rfl
  · intro seg hseg seg' _ _ hnone
    have hstored : ∀ seg ∈ refiningCall.2.segments,
        storedObjectTimerange ((describingCall.prog {}).run 1 oneFlow).2 seg.objectId ≠ none := by decide +kernel
    exact absurd hnone (hstored seg hseg)

def twiceDescribed : InsertBatch :=
  ⟨1, [describing "[0:0_1:0)" 0 1 "[0:0_1:0)" 0 1, describing "[1:0_2:0)" 1 2 "[5:0_6:0)" 5 6], lit "default"⟩

theorem twiceDescribed_stored :
    ((insertSegments {} id twiceDescribed).run 1 oneFlow).1 = .ok { acceptedIndices := [0, 1] } ∧
    ¬ FirstWins ((insertSegments {} id twiceDescribed).run 1 oneFlow).2 := by
  refine ⟨by decide +kernel, fun h => ?_⟩
  obtain ⟨tr, tr', hp, hp', hsub⟩ := h
    (segmentRow 0 1 (describing "[0:0_1:0)" 0 1 "[0:0_1:0)" 0 1) 0 1000000000 1) (by decide +kernel) (by decide +kernel)
    (segmentRow 1 1 (describing "[1:0_2:0)" 1 2 "[5:0_6:0)" 5 6) 1000000000 2000000000 1) (by decide +kernel) rfl
    (lit "[0:0_1:0)") (lit "[5:0_6:0)") (by decide) (by decide)
  have hfirst : parse (lit "[0:0_1:0)") = .ok ⟨some ⟨0, 0⟩, .inclusive, some ⟨1, 0⟩, .exclusive⟩ := by decide +kernel
  have hsecond : parse (lit "[5:0_6:0)") = .ok ⟨some ⟨5, 0⟩, .inclusive, some ⟨6, 0⟩, .exclusive⟩ := by decide +kernel
  cases hp.symm.trans hfirst
  cases hp'.symm.trans hsecond
  have hmem : (5000000000 : ℤ) ∈ (⟨some ⟨0, 0⟩, .inclusive, some ⟨1, 0⟩, .exclusive⟩ : TimeRange).denote :=
    hsub ((TimeRange.mem_denote_bounded (by decide) (by decide) _).mpr (by decide))
  rw [TimeRange.mem_denote_bounded (by decide) (by decide)] at hmem
  exact absurd hmem (by decide)

end OpenTams
