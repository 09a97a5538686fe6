import OpenTams.InsertSound
import OpenTams.RangeBuilt
import OpenTams.SegmentInv

/-!
# The span of a flow

`flowSpan` reads the strings of the first and the last segment of a flow by
`lower_ns` and renders the range from the start of the one to the end of the
other. It succeeds where the rows can be read back, and its result depends on
the rows only, not on the order in which they were inserted.
-/

namespace OpenTams

open Sql

/-- A row that can be read back: bounds in order, and a string with both ends. -/
structure SegmentRow.Readable (r : SegmentRow) : Prop where
  nonempty : r.lowerNs < r.upperNs
  bounded : ∃ tr, parse r.timerange = .ok tr ∧ tr.start.isSome ∧ tr.endTs.isSome

theorem SegmentRow.Canonical.readable {r : SegmentRow} (h : r.Canonical) : r.Readable := by
  obtain ⟨s, e, ety, hp, -⟩ := h.bounded
  exact ⟨h.nonempty, _, hp, rfl, rfl⟩

/-! ## It renders -/

theorem renderSpan_some {first last : SegmentRow} (hf : first.Readable) (hl : last.Readable) :
    ∃ tr tr' span, parse first.timerange = .ok tr ∧ parse last.timerange = .ok tr' ∧
      renderSpan (some first.timerange) (some last.timerange) = .ok (some span) ∧
        (joinSpan tr tr').Wf ∧ (joinSpan tr tr').string = some span := by
  obtain ⟨-, tr, hp, hs, he⟩ := hf
  obtain ⟨-, tr', hp', hs', he'⟩ := hl
  have hwf := wf_joinSpan (parse_text hp).1 (parse_text hp').1 hs hs'
  obtain ⟨text, ht, -⟩ := TimeRange.string_text hwf
  exact ⟨tr, tr', text, hp, hp', by simp only [renderSpan, hp, hp', ht], hwf, ht⟩

theorem spanRows_cases (v : DB) (f : Uuid) :
    v.segmentsOf f = [] ∧ spanRows v f = (none, none) ∨
    ∃ first ∈ v.segmentsOf f, ∃ last ∈ v.segmentsOf f, spanRows v f = (some first.timerange, some last.timerange) ∧
      ∀ r ∈ v.segmentsOf f, first.lowerNs.toInt ≤ r.lowerNs.toInt ∧ r.lowerNs.toInt ≤ last.lowerNs.toInt := by
  unfold spanRows
  cases hfirst : firstBy (fun a b : SegmentRow => decide (a.lowerNs < b.lowerNs)) (v.segmentsOf f) with
  | none =>
    have hnil := firstBy_eq_none.mp hfirst
    exact Or.inl ⟨hnil, by rw [hnil]; rfl⟩
  | some first =>
    cases hlast : firstBy (fun a b : SegmentRow => decide (b.lowerNs < a.lowerNs)) (v.segmentsOf f) with
    | none =>
      rw [firstBy_eq_none.mp hlast] at hfirst
      cases hfirst
    | some last =>
      refine Or.inr ⟨first, firstBy_mem hfirst, last, firstBy_mem hlast, rfl, fun r hr => ⟨?_, ?_⟩⟩
      · exact firstBy_le (·.lowerNs.toInt) (fun a b => by rw [decide_eq_true_iff, Int64.lt_iff_toInt_lt]) hfirst r hr
      · have := firstBy_le (-·.lowerNs.toInt)
          (fun a b => by rw [decide_eq_true_iff, Int64.lt_iff_toInt_lt, Int.neg_lt_neg_iff]) hlast r hr
        omega

theorem spanRows_ok {v : DB} {f : Uuid} (h : ∀ r ∈ v.segmentsOf f, r.Readable) :
    ∃ span, renderSpan (spanRows v f).1 (spanRows v f).2 = .ok span ∧ (span = none ↔ v.segmentsOf f = []) := by
  rcases spanRows_cases v f with ⟨hnil, hspan⟩ | ⟨first, hf, last, hl, hspan, -⟩
  · exact ⟨none, by rw [hspan]; rfl, fun _ => hnil, fun _ => rfl⟩
  · obtain ⟨-, -, span, -, -, hr, -⟩ := renderSpan_some (h first hf) (h last hl)
    refine ⟨some span, by rw [hspan]; exact hr, fun he => (by cases he), fun he => ?_⟩
    rw [he] at hf
    cases hf

/-! ## It is the span of the rows -/

/-- The nanoseconds from the start of one of the rows to the end of one of them. -/
def hull (rows : List SegmentRow) : Set ℤ := {n | ∃ r ∈ rows, ∃ r' ∈ rows, r.lowerNs.toInt ≤ n ∧ n < r'.upperNs.toInt}

theorem SegmentRow.Canonical.sides {r : SegmentRow} (h : r.Canonical) {tr : TimeRange}
    (hp : parse r.timerange = .ok tr) :
    lowerSet tr.start tr.startType = Set.Ici r.lowerNs.toInt ∧
      upperSet tr.endTs tr.endType = Set.Iio r.upperNs.toInt := by
  obtain ⟨s, e, ety, hp', hspan⟩ := h.bounded
  cases hp.symm.trans hp'
  have hety : ety ≠ .unbounded := side_ne_unbounded (sides_of_wf (parse_text hp).1 rfl).2 rfl
  have hlt := Int64.lt_iff_toInt_lt.mp h.nonempty
  have hmem : ∀ n, (r.lowerNs.toInt ≤ n ∧ n < r.upperNs.toInt) ↔ s.value ≤ n ∧ n < e.value + ety.endShift := by
    intro n
    have := TimeRange.mem_denote_bounded (s := s) (e := e) (by decide : BoundType.inclusive ≠ .unbounded) hety n
    rw [← hspan] at this
    simpa [SegmentRow.span, BoundType.startShift] using this
  have hlo := hmem r.lowerNs.toInt
  have hhi := hmem (r.upperNs.toInt - 1)
  have hs := hmem s.value
  have he := hmem (e.value + ety.endShift - 1)
  constructor
  · ext n
    show s.value ≤ n ↔ r.lowerNs.toInt ≤ n
    omega
  · ext n
    show n ∈ upperSet (some e) ety ↔ n < r.upperNs.toInt
    rw [mem_upperSet hety]
    omega

theorem SegmentInv.upper_le {v : DB} {f : Uuid} (h : SegmentInv SegmentRow.Canonical v) {r last : SegmentRow}
    (hr : r ∈ v.segmentsOf f) (hl : last ∈ v.segmentsOf f) (hle : r.lowerNs.toInt ≤ last.lowerNs.toInt) :
    r.upperNs.toInt ≤ last.upperNs.toInt := by
  by_cases hrl : r = last
  · rw [hrl]
  obtain ⟨hr, hf⟩ := List.mem_filter.mp hr
  obtain ⟨hl, hf'⟩ := List.mem_filter.mp hl
  have hdisj := h.disjoint hr hl hrl (by simpa using (of_decide_eq_true hf).trans (of_decide_eq_true hf').symm)
  have hlt := Int64.lt_iff_toInt_lt.mp (h.rows last hl).nonempty
  by_contra hgt
  exact Set.disjoint_left.mp hdisj ⟨hle, by omega⟩ ⟨le_rfl, hlt⟩

/-- The span of a flow with segments is rendered from a range that denotes the hull of the rows. -/
theorem SegmentInv.joined {v : DB} (h : SegmentInv SegmentRow.Canonical v) {f : Uuid} (hne : v.segmentsOf f ≠ []) :
    ∃ (tr : TimeRange) (span : Str), renderSpan (spanRows v f).1 (spanRows v f).2 = .ok (some span) ∧ tr.Wf ∧
      tr.string = some span ∧ tr.denote = hull (v.segmentsOf f) := by
  have hcan : ∀ r ∈ v.segmentsOf f, r.Canonical := fun r hr => h.rows r (List.mem_filter.mp hr).1
  rcases spanRows_cases v f with ⟨hnil, -⟩ | ⟨first, hf, last, hl, hspan, hle⟩
  · exact absurd hnil hne
  · obtain ⟨tr, tr', span, hp, hp', hr, hwf, hstr⟩ :=
      renderSpan_some (hcan first hf).readable (hcan last hl).readable
    refine ⟨joinSpan tr tr', span, by rw [hspan]; exact hr, hwf, hstr, ?_⟩
    rw [TimeRange.denote, joinSpan, ((hcan first hf).sides hp).1, ((hcan last hl).sides hp').2]
    ext n
    constructor
    · rintro ⟨hlo, hhi⟩
      exact ⟨first, hf, last, hl, hlo, hhi⟩
    · rintro ⟨r, hr, r', hr', hlo, hhi⟩
      exact ⟨(hle r hr).1.trans hlo, hhi.trans_le (h.upper_le hr' hl (hle r' hr').2)⟩

/-- **The span is the span of the rows**: absent where there are none, and else a string that denotes it. -/
theorem SegmentInv.flowSpan {v : DB} (h : SegmentInv SegmentRow.Canonical v) (f : Uuid) :
    ∃ span, renderSpan (spanRows v f).1 (spanRows v f).2 = .ok span ∧ (span = none ↔ v.segmentsOf f = []) ∧
      ∀ text, span = some text → RangeText text (hull (v.segmentsOf f)) := by
  rcases spanRows_cases v f with ⟨hnil, hspan⟩ | ⟨first, hf, -⟩
  · exact ⟨none, by rw [hspan]; rfl, ⟨fun _ => hnil, fun _ => rfl⟩, fun text ht => by cases ht⟩
  · have hne : v.segmentsOf f ≠ [] := List.ne_nil_of_mem hf
    obtain ⟨tr, span, hr, hwf, hstr, hden⟩ := h.joined hne
    refine ⟨some span, hr, ⟨fun he => (by cases he), fun he => absurd he hne⟩, fun text ht => ?_⟩
    obtain ⟨text', hstr', htext⟩ := TimeRange.string_text hwf
    cases ht
    cases hstr.symm.trans hstr'
    exact hden ▸ htext

/-! ## It depends on the rows only -/

def SegmentRow.extent (r : SegmentRow) : Str × Str × Int64 × Int64 := (r.objectId, r.timerange, r.lowerNs, r.upperNs)

theorem SegmentInv.starts_apart {d : DB} (h : SegmentInv SegmentRow.Readable d) {f : Uuid} :
    ∀ r ∈ d.segmentsOf f, ∀ r' ∈ d.segmentsOf f, r.lowerNs.toInt = r'.lowerNs.toInt → r = r' := by
  intro r hr r' hr' hl
  obtain ⟨hr, hf⟩ := List.mem_filter.mp hr
  obtain ⟨hr', hf'⟩ := List.mem_filter.mp hr'
  by_contra hne
  have hdisj := h.disjoint hr hr' hne (by simpa using (of_decide_eq_true hf).trans (of_decide_eq_true hf').symm)
  have hlt := Int64.lt_iff_toInt_lt.mp (h.rows r hr).nonempty
  have hlt' := Int64.lt_iff_toInt_lt.mp (h.rows r' hr').nonempty
  exact Set.disjoint_left.mp hdisj ⟨le_rfl, hlt⟩ ⟨hl.ge, by omega⟩

theorem spanRows_perm {d d' : DB} {f : Uuid} (h : SegmentInv SegmentRow.Readable d)
    (hp : ((d.segmentsOf f).map (·.extent)).Perm ((d'.segmentsOf f).map (·.extent))) :
    spanRows d f = spanRows d' f := by
  have htext : ∀ x : Option SegmentRow, x.map (·.timerange) = (x.map (·.extent)).map (·.2.1) := by
    intro x
    cases x <;> rfl
  have hlower : ∀ a b : SegmentRow, a.extent = b.extent → a.lowerNs = b.lowerNs := fun _ _ he => congrArg (·.2.2.1) he
  refine Prod.ext ?_ ?_
  · refine (htext _).trans ((congrArg _ ?_).trans (htext _).symm)
    exact firstBy_perm _ (·.lowerNs.toInt) (fun a b => by rw [decide_eq_true_iff, Int64.lt_iff_toInt_lt])
      (fun a b he => congrArg _ (hlower a b he)) h.starts_apart hp
  · refine (htext _).trans ((congrArg _ ?_).trans (htext _).symm)
    refine firstBy_perm _ (-·.lowerNs.toInt) (fun a b => ?_) (fun a b he => ?_) (fun a ha b hb he => ?_) hp
    · rw [decide_eq_true_iff, Int64.lt_iff_toInt_lt]
      omega
    · rw [hlower a b he]
    · exact h.starts_apart a ha b hb (by omega)

end OpenTams
