import OpenTams.ListedAsSent

/-!
# The ranges of a listing

A listing compares the bounds of the query range with those of the rows, as the
insert does with the stored rows and with the other segments of its batch. All
these tests, and `Overlaps`, ask whether two sets share a nanosecond. The page
that is listed reports the range from its first nanosecond to its last.
-/

namespace OpenTams

open Sql Sql.Prog Fallible

/-! ## Overlap tests -/

section
variable {text text' : Str} {s q : TimeRange} {a b : NsBounds} {r : SegmentRow}

theorem boundsOverlap_iff (ha : a.denote.Nonempty) (hb : b.denote.Nonempty) :
    boundsOverlap a b = true ↔ (a.denote ∩ b.denote).Nonempty := by
  rw [← Bool.not_eq_false, boundsOverlap_eq_false ha hb, Set.not_disjoint_iff_nonempty_inter]

theorem int8range_valid (hb : b.denote.Nonempty) : int8rangeInvalid (lowerParam b) (upperParam b) = false := by
  obtain ⟨n, hlo, hhi⟩ := hb
  unfold lowerParam upperParam
  cases hl : b.lowerUnbounded with
  | true => rfl
  | false =>
    cases hu : b.upperUnbounded with
    | true => rfl
    | false =>
      rw [hl] at hlo
      rw [hu] at hhi
      have hle := hlo.resolve_left Bool.false_ne_true
      have hlt := hhi.resolve_left Bool.false_ne_true
      refine decide_eq_false fun h => ?_
      rw [Int64.lt_iff_toInt_lt] at h
      omega

/-- **All overlap tests agree.** A row that has the bounds of `s` is found by the probe of the insert and by the
listing of `q` where the bounds overlap, where the ranges do, and where they share a nanosecond. -/
theorem overlap_tests_agree (hs : parse text = .ok s) (hstart : s.start.isSome) (hend : s.endTs.isSome)
    (hne : s.denote.Nonempty) (hfit : s.FitsInt64) (hq : parse text' = .ok q) (hne' : q.denote.Nonempty)
    (hfit' : q.FitsInt64) :
    ∃ a b v, s.nsBounds = .ok a ∧ q.nsBounds = .ok b ∧ lowerParam a = some a.lower ∧ upperParam a = some a.upper ∧
      queryBounds q = .ok (some (lowerParam b, upperParam b)) ∧
      int8rangeInvalid (lowerParam b) (upperParam b) = false ∧
      s.overlaps q = some v ∧ boundsOverlap a b = v ∧
      (∀ r : SegmentRow, r.lowerNs = a.lower → r.upperNs = a.upper →
        rowOverlaps (lowerParam b) (upperParam b) r = v ∧ overlapCond (lowerParam b) (upperParam b) r = v) ∧
      (v = true ↔ (s.denote ∩ q.denote).Nonempty) := by
  have hswf := (parse_text hs).1
  have hqwf := (parse_text hq).1
  obtain ⟨a, ha⟩ := TimeRange.nsBounds_ok hswf hne.ne_empty hfit
  obtain ⟨b, hb⟩ := TimeRange.nsBounds_ok hqwf hne'.ne_empty hfit'
  obtain ⟨had, hal, hau⟩ := TimeRange.nsBounds_denote hswf ha
  have hbd := (TimeRange.nsBounds_denote hqwf hb).1
  obtain ⟨v, hv, hiff⟩ := TimeRange.overlaps_iff hswf hqwf
  rw [Option.isNone_eq_false_iff.mpr hstart] at hal
  rw [Option.isNone_eq_false_iff.mpr hend] at hau
  rw [← had] at hne
  rw [← hbd] at hne'
  have hbounds : queryBounds q = .ok (some (lowerParam b, upperParam b)) := by
    rw [queryBounds, if_neg, hb]
    rw [TimeRange.isEmpty_iff hqwf, ← hbd]
    exact hne'.ne_empty
  refine ⟨a, b, v, ha, hb, ?_, ?_, hbounds, int8range_valid hne', hv, ?_, ?_, hiff⟩
  · rw [lowerParam, hal, if_neg Bool.false_ne_true]
  · rw [upperParam, hau, if_neg Bool.false_ne_true]
  · rw [Bool.eq_iff_iff, boundsOverlap_iff hne hne', hiff, had, hbd]
  · intro r hlo hhi
    have hspan : r.span = s.denote := by
      rw [← had]
      ext n
      simp [SegmentRow.span, NsBounds.denote, hlo, hhi, hal, hau]
    have hlt : r.lowerNs < r.upperNs := by
      rw [had, ← hspan] at hne
      obtain ⟨n, hn, hn'⟩ := hne
      rw [Int64.lt_iff_toInt_lt]
      omega
    constructor
    · rw [Bool.eq_iff_iff, rowOverlaps_iff, paramSet_params, hbd, hspan, hiff]
    · rw [Bool.eq_iff_iff, overlapCond_iff (by rwa [paramSet_params]) hlt, paramSet_params, hbd, hspan, hiff]

end

/-- Two ranges that touch at an excluded nanosecond. -/
theorem overlap_tests_touch :
    ∃ a b, (⟨some ⟨0, 0⟩, .inclusive, some ⟨1, 0⟩, .exclusive⟩ : TimeRange).nsBounds = .ok a ∧
      (⟨some ⟨0, 999999999⟩, .exclusive, none, .unbounded⟩ : TimeRange).nsBounds = .ok b ∧
      boundsOverlap a b = false := by
  have hs : parse (lit "[0:0_1:0)") = .ok ⟨some ⟨0, 0⟩, .inclusive, some ⟨1, 0⟩, .exclusive⟩ := by decide
  have hq : parse (lit "(0:999999999_") = .ok ⟨some ⟨0, 999999999⟩, .exclusive, none, .unbounded⟩ := by decide
  have hsb : (⟨some ⟨0, 0⟩, .inclusive, some ⟨1, 0⟩, .exclusive⟩ : TimeRange).nsBounds =
      .ok ⟨0, 1000000000, false, false⟩ := by decide
  have hqb : (⟨some ⟨0, 999999999⟩, .exclusive, none, .unbounded⟩ : TimeRange).nsBounds =
      .ok ⟨1000000000, 0, false, true⟩ := by decide
  have hswf := (parse_text hs).1
  have hqwf := (parse_text hq).1
  obtain ⟨a, b, v, ha, hb, -, -, -, -, hv, hbounds, -⟩ := overlap_tests_agree hs rfl rfl
    (TimeRange.denote_nonempty_of_nsBounds hswf hsb) (TimeRange.fitsInt64_of_nsBounds hswf hsb) hq
    (TimeRange.denote_nonempty_of_nsBounds hqwf hqb) (TimeRange.fitsInt64_of_nsBounds hqwf hqb)
  have hno : (⟨some ⟨0, 0⟩, .inclusive, some ⟨1, 0⟩, .exclusive⟩ : TimeRange).overlaps
      ⟨some ⟨0, 999999999⟩, .exclusive, none, .unbounded⟩ = some false := by decide
  cases hv.symm.trans hno
  exact ⟨a, b, ha, hb, hbounds⟩

/-! ## The range of a page -/

def SegmentPage.nanos (page : SegmentPage) : Set ℤ := {n | ∃ seg ∈ page.items, n ∈ seg.timerange.denote}

section
variable {R : JsonReader} {q : ListQuery} {t : Time} {d : DB} {page : SegmentPage}

theorem Scanned.denote {r : SegmentRow} {it : SegmentItem} (h : Scanned r it) (hr : r.Canonical) :
    lowerSet it.seg.timerange.start it.seg.timerange.startType = Set.Ici it.lowerNs.toInt ∧
      upperSet it.seg.timerange.endTs it.seg.timerange.endType = Set.Iio it.upperNs.toInt ∧
      it.lowerNs.toInt < it.upperNs.toInt := by
  obtain ⟨hlo, hhi⟩ := hr.sides h.seg.timerange
  rw [h.lowerNs, h.upperNs]
  exact ⟨hlo, hhi, Int64.lt_iff_toInt_lt.mp hr.nonempty⟩

/-- The span of items that denote their bounds is the hull of what they denote. -/
theorem pageSpan_hull {x : SegmentItem} {xs : List SegmentItem}
    (hrows : ∀ it ∈ x :: xs, ∃ r : SegmentRow, r.Canonical ∧ Scanned r it) :
    ∃ lo hi, IsLeast {n | ∃ it ∈ x :: xs, n ∈ it.seg.timerange.denote} lo ∧
      IsGreatest {n | ∃ it ∈ x :: xs, n ∈ it.seg.timerange.denote} hi ∧
      (pageSpan (x :: xs)).Wf ∧ (pageSpan (x :: xs)).denote = Set.Icc lo hi := by
  have hden : ∀ it ∈ x :: xs, ∀ n, n ∈ it.seg.timerange.denote ↔ it.lowerNs.toInt ≤ n ∧ n < it.upperNs.toInt := by
    intro it hit n
    obtain ⟨r, hr, hscan⟩ := hrows it hit
    obtain ⟨hlo, hhi, -⟩ := hscan.denote hr
    rw [TimeRange.denote, hlo, hhi]
    exact Iff.rfl
  have hlt : ∀ it ∈ x :: xs, it.lowerNs.toInt < it.upperNs.toInt := by
    intro it hit
    obtain ⟨r, hr, hscan⟩ := hrows it hit
    exact (hscan.denote hr).2.2
  obtain ⟨a, ha, b, hb, hspan, hends⟩ := pageSpan_cons x xs
  obtain ⟨ra, hra, hsa⟩ := hrows a ha
  obtain ⟨rb, hrb, hsb⟩ := hrows b hb
  refine ⟨a.lowerNs.toInt, b.upperNs.toInt - 1, ⟨⟨a, ha, ?_⟩, ?_⟩, ⟨⟨b, hb, ?_⟩, ?_⟩, ?_, ?_⟩
  · exact (hden a ha _).mpr ⟨le_rfl, hlt a ha⟩
  · rintro n ⟨it, hit, hn⟩
    exact (hends it hit).1.trans ((hden it hit n).mp hn).1
  · have := hlt b hb
    exact (hden b hb _).mpr ⟨by omega, by omega⟩
  · rintro n ⟨it, hit, hn⟩
    have := ((hden it hit n).mp hn).2
    have := (hends it hit).2
    omega
  · obtain ⟨-, tr, hp, hs, -⟩ := hra.readable
    obtain ⟨-, tr', hp', hs', -⟩ := hrb.readable
    cases hp.symm.trans hsa.seg.timerange
    cases hp'.symm.trans hsb.seg.timerange
    rw [hspan]
    exact wf_joinSpan (parse_text hp).1 (parse_text hp').1 hs hs'
  · rw [hspan, TimeRange.denote, joinSpan, (hsa.denote hra).1, (hsb.denote hrb).2.1]
    ext n
    show a.lowerNs.toInt ≤ n ∧ n < b.upperNs.toInt ↔ a.lowerNs.toInt ≤ n ∧ n ≤ b.upperNs.toInt - 1
    omega

/-- **The range of a page is the hull of its items**, and the header of the page denotes it. -/
theorem page_timerange_hull (hinv : SegmentInv SegmentRow.Canonical d)
    (h : ((listSegments R q).run t d).1 = .ok page) :
    (page.items ≠ [] → ∃ lo hi, IsLeast page.nanos lo ∧ IsGreatest page.nanos hi ∧
      page.timerange.denote = Set.Icc lo hi ∧
      ∃ text tr, page.timerange.string = some text ∧ parse text = .ok tr ∧ tr.denote = Set.Icc lo hi) ∧
    (page.items = [] → page.timerange.string = some (lit "()")) ∧
    ∀ s f g params body headers, listParamsFromAPI g = .ok params → q = flowQuery f params →
      ((Handler.getFlowSegments s R (some f) g).run t d).1 = .ok (.ok body headers) →
      headers.xPagingTimerange = page.timerange.string := by
  have hrun : (listSegments R q).run t d = (.ok page, d) := Prod.ext h listSegments_reads
  refine ⟨?_, ?_, ?_⟩
  · intro hne
    rcases listed_cases hrun with rfl | ⟨b, k, items, hitems, rfl⟩
    · exact absurd rfl hne
    have hrows : ∀ it ∈ (cutPage (listLimit q.limit) items).1, ∃ r : SegmentRow, r.Canonical ∧ Scanned r it := by
      intro it hit
      obtain ⟨r, hr, hscan⟩ := mem_cut_row hitems hit
      exact ⟨r, hinv.rows r (List.mem_filter.mp hr).1, hscan⟩
    have hnanos : (segmentPage (listLimit q.limit) items).nanos =
        {n | ∃ it ∈ (cutPage (listLimit q.limit) items).1, n ∈ it.seg.timerange.denote} := by
      ext n
      simp [SegmentPage.nanos, segmentPage]
    have hspan : (segmentPage (listLimit q.limit) items).timerange = pageSpan (cutPage (listLimit q.limit) items).1 := rfl
    have hitems' : (segmentPage (listLimit q.limit) items).items =
        (cutPage (listLimit q.limit) items).1.map (·.seg) := rfl
    rw [hnanos, hspan]
    rw [hitems'] at hne
    cases hcut : (cutPage (listLimit q.limit) items).1 with
    | nil => exact absurd (by rw [hcut]; rfl) hne
    | cons x xs =>
      rw [hcut] at hrows
      obtain ⟨lo, hi, hlo, hhi, hwf, hden⟩ := pageSpan_hull hrows
      obtain ⟨text, htext, -⟩ := TimeRange.string_text hwf
      obtain ⟨tr, htr, -, hden'⟩ := parse_string hwf htext
      exact ⟨lo, hi, hlo, hhi, hden, text, tr, htext, htr, hden'.trans hden⟩
  · intro hnil
    rcases listed_cases hrun with rfl | ⟨b, k, items, -, rfl⟩
    · rfl
    have hcut : (cutPage (listLimit q.limit) items).1 = [] := List.map_eq_nil_iff.mp hnil
    rw [segmentPage, hcut]
    rfl
  · rintro s f g params body headers hg rfl hget
    obtain ⟨-, page', text, hrun', htext, -, rfl⟩ := (get_ok_iff hg).mp hget
    cases hrun.symm.trans hrun'
    rw [htext, segmentsHeaders]
    cases optStr (sanitiseHeaderValue page.nextCursor) <;> rfl

end

def newestFirst : ListQuery := { flowId := 1, reverseOrder := true, limit := 9 }

/-- A page with both segments of `sharedStore`. -/
theorem page_timerange_shared :
    ∃ page lo hi, ((listSegments canonicalReader newestFirst).run 2 sharedStore).1 = .ok page ∧
      page.items.length = 2 ∧ IsLeast page.nanos lo ∧ IsGreatest page.nanos hi ∧
      page.timerange.denote = Set.Icc lo hi := by
  have hlength : ((listSegments canonicalReader newestFirst).run 2 sharedStore).1.toOption.map (·.items.length) =
      some 2 := by decide +kernel
  cases hpage : ((listSegments canonicalReader newestFirst).run 2 sharedStore).1 with
  | error e =>
    rw [hpage] at hlength
    cases hlength
  | ok page =>
    rw [hpage] at hlength
    have hlen : page.items.length = 2 := Option.some.inj hlength
    obtain ⟨lo, hi, hlo, hhi, hden, -⟩ := (page_timerange_hull sharedStore_segmentInv hpage).1
      (List.ne_nil_of_length_eq_add_one hlen)
    exact ⟨page, lo, hi, rfl, hlen, hlo, hhi, hden⟩

end OpenTams
