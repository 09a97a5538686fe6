import Mathlib.Order.Interval.Set.Disjoint
import OpenTams.ClientRange
import OpenTams.Containment
import OpenTams.SegmentPost
import OpenTams.SegmentRead

/-!
# Forking a flow with a slate

`overlaySegments` copies the segments of the parent that lie outside the window
and puts one segment on the slate object in it. It reads the ranges with
`ParseRange`, whose end wraps for the segment that has the last nanosecond of
`int64`: that segment never straddles an edge, and is taken for one inside every
window that does not start after it.
-/

namespace OpenTams

/-! ## opentamsedit -/

inductive ForkError where
  | parse (timerange : Str) (e : ParseError)
  | alignment (text : Str)
  deriving DecidableEq

def joinLines (lines : List Str) : Str := lines.flatMap (· ++ [10])

/-- `none` is the panic of `HalfOpenRange`. -/
def alignmentError (parent : List ApiSegment) (replaceStart replaceEnd : Int64) (which : String) : Option ForkError :=
  (halfOpenRange replaceStart replaceEnd).map fun range =>
    .alignment (lit "--replace " ++ range ++ lit " does not align with a chunk boundary at the " ++ lit which ++
      lit "; pick a range that begins and ends on one of the parent segment boundaries below:\n" ++
      joinLines (parent.map (lit "  " ++ ·.timerange)))

def checkAlignment (parent : List ApiSegment) (replaceStart replaceEnd : Int64) : Option (Except ForkError Unit) :=
  go parent
where
  go : List ApiSegment → Option (Except ForkError Unit)
    | [] => some (.ok ())
    | s :: rest => match parseRange s.timerange with
      | .error e => some (.error (.parse s.timerange e))
      | .ok (segStart, segEnd) =>
        if segStart < replaceStart && replaceStart < segEnd then
          (alignmentError parent replaceStart replaceEnd "start").map .error
        else if segStart < replaceEnd && replaceEnd < segEnd then
          (alignmentError parent replaceStart replaceEnd "end").map .error
        else go rest

def copySegment (s : ApiSegment) : FlowSegmentPost := { objectId := s.objectId, timerange := s.timerange }

def copySegments (replaceStart replaceEnd : Int64) : List ApiSegment → Except ForkError (List FlowSegmentPost)
  | [] => .ok []
  | s :: rest => match parseRange s.timerange with
    | .error e => .error (.parse s.timerange e)
    | .ok (segStart, segEnd) => (copySegments replaceStart replaceEnd rest).map fun out =>
      if replaceStart ≤ segStart && segEnd ≤ replaceEnd then out else copySegment s :: out

def overlaySegments (parent : List ApiSegment) (replaceStart replaceEnd : Int64) (slateObjectId : Str) :
    Option (Except ForkError (List FlowSegmentPost)) :=
  match checkAlignment parent replaceStart replaceEnd with
  | none => none
  | some (.error e) => some (.error e)
  | some (.ok ()) => match copySegments replaceStart replaceEnd parent with
    | .error e => some (.error e)
    | .ok out => (halfOpenRange replaceStart replaceEnd).map fun range =>
      .ok (out ++ [{ objectId := slateObjectId, timerange := range }])

/-! ## The timeline -/

def textSet (s : Str) : Set ℤ := {n | ∃ tr, parse s = .ok tr ∧ n ∈ tr.denote}

theorem textSet_eq {s : Str} {tr : TimeRange} (hp : parse s = .ok tr) : textSet s = tr.denote := by
  ext n
  constructor
  · rintro ⟨tr', hp', hn⟩
    cases hp.symm.trans hp'
    exact hn
  · exact fun hn => ⟨tr, hp, hn⟩

/-- Ranges that are not empty, lie apart and inside `int64`. -/
structure Timeline (parent : List ApiSegment) : Prop where
  nonempty : ∀ p ∈ parent, (textSet p.timerange).Nonempty
  inside : ∀ p ∈ parent, textSet p.timerange ⊆ Set.Ico (-2 ^ 63) (2 ^ 63)
  apart : parent.Pairwise fun p p' => Disjoint (textSet p.timerange) (textSet p'.timerange)

def Straddles (A : Set ℤ) (edge : Int64) : Prop := (∃ n ∈ A, n < edge.toInt) ∧ ∃ n ∈ A, edge.toInt ≤ n

/-- The parents outside the window are copied, and the window is one segment on the slate. -/
structure Overlaid (parent : List ApiSegment) (a b : Int64) (slate : Str) (out : List FlowSegmentPost) : Prop where
  apart : out.Pairwise fun x y => Disjoint (textSet x.timerange) (textSet y.timerange)
  cover : {n | ∃ x ∈ out, n ∈ textSet x.timerange} =
    ({n | ∃ p ∈ parent, n ∈ textSet p.timerange} \ Set.Ico a.toInt b.toInt) ∪ Set.Ico a.toInt b.toInt
  segments : ∃ (kept : List ApiSegment) (range : Str), kept.Sublist parent ∧
    (∀ p ∈ parent, p ∈ kept ↔ Disjoint (textSet p.timerange) (Set.Ico a.toInt b.toInt)) ∧
    out = kept.map copySegment ++ [{ objectId := slate, timerange := range }] ∧ textSet range = Set.Ico a.toInt b.toInt

def Misfits (parent : List ApiSegment) (a b : Int64) : Prop :=
  ∃ p ∈ parent, Straddles (textSet p.timerange) a ∨ Straddles (textSet p.timerange) b

structure CleanFork (parent : List ApiSegment) (a b : Int64) (slate : Str) : Prop where
  refused : (∃ e, overlaySegments parent a b slate = some (.error e)) ↔ Misfits parent a b
  overlaid : ¬ Misfits parent a b → ∃ out, overlaySegments parent a b slate = some (.ok out) ∧
    Overlaid parent a b slate out

/-! ## What the tools read -/

structure Converted (p : ApiSegment) (lo hi : ℤ) (x y : Int64) : Prop where
  read : parseRange p.timerange = .ok (x, y)
  set : textSet p.timerange = Set.Ico lo hi
  ordered : lo < hi
  lower : -2 ^ 63 ≤ lo
  upper : hi ≤ 2 ^ 63
  start : x.toInt = lo
  fits : hi < 2 ^ 63 → y.toInt = hi
  wraps : hi = 2 ^ 63 → y.toInt = -2 ^ 63

theorem bounded_of_inside {tr : TimeRange} (hs : SideWf tr.start tr.startType) (he : SideWf tr.endTs tr.endType)
    (hne : tr.denote.Nonempty) (hin : tr.denote ⊆ Set.Ico (-2 ^ 63) (2 ^ 63)) : tr.start ≠ none ∧ tr.endTs ≠ none := by
  obtain ⟨n, hn⟩ := hne
  constructor
  · intro hnone
    have hmem : min n (-2 ^ 63 - 1) ∈ tr.denote := by
      refine ⟨?_, isLowerSet_upperSet he (min_le_left _ _) hn.2⟩
      rcases hs with ⟨-, hty⟩ | ⟨ts, hts, -⟩
      · rw [hnone, hty]
        exact Set.mem_univ _
      · cases hnone.symm.trans hts
    have := (hin hmem).1
    omega
  · intro hnone
    have hmem : max n (2 ^ 63) ∈ tr.denote := by
      refine ⟨isUpperSet_lowerSet hs (le_max_left _ _) hn.1, ?_⟩
      rcases he with ⟨-, hty⟩ | ⟨ts, hts, -⟩
      · rw [hnone, hty]
        exact Set.mem_univ _
      · cases hnone.symm.trans hts
    have := (hin hmem).2
    omega

theorem Timeline.converted {parent : List ApiSegment} (h : Timeline parent) {p : ApiSegment} (hp : p ∈ parent) :
    ∃ lo hi x y, Converted p lo hi x y := by
  obtain ⟨n, tr, htr, -⟩ := h.nonempty p hp
  have hne := h.nonempty p hp
  have hin := h.inside p hp
  obtain ⟨x, y, hr, hx, hy⟩ := parseRange_ok htr
  have hset := textSet_eq htr
  rw [hset] at hne hin
  rcases (parse_text htr).1 with rfl | ⟨hs, he⟩
  · rw [TimeRange.denote_empty] at hne
    exact absurd hne Set.not_nonempty_empty
  obtain ⟨hstart, hend⟩ := bounded_of_inside hs he hne hin
  have hclip : tr.denote = tr.clipped := by
    ext n
    exact ⟨fun hn => ⟨hn, fun h => absurd h hstart, fun h => absurd h hend⟩, fun hn => hn.1⟩
  have hden := hclip.trans (TimeRange.clipped_eq hs he)
  have hlt : tr.halfOpenStart < tr.halfOpenEnd := by
    rw [hden] at hne
    exact Set.nonempty_Ico.mp hne
  rw [hden] at hin hset
  have hlo := (hin ⟨le_rfl, hlt⟩).1
  have hhi := (hin (⟨by omega, by omega⟩ : tr.halfOpenEnd - 1 ∈ Set.Ico tr.halfOpenStart tr.halfOpenEnd)).2
  refine ⟨_, _, x, y, hr, hset, hlt, hlo, by omega, ?_, fun hf => ?_, fun hw => ?_⟩
  · rw [hx]
    exact bmod64 hlo (by omega)
  · rw [hy]
    exact bmod64 (by omega) hf
  · rw [hy, hw]
    decide

/-! ## The two loops -/

def Misaligned (p : ApiSegment) (a b : Int64) : Prop :=
  ∃ x y, parseRange p.timerange = .ok (x, y) ∧ (x < a ∧ a < y ∨ x < b ∧ b < y)

def survives (a b : Int64) (p : ApiSegment) : Bool :=
  match parseRange p.timerange with
  | .error _ => true
  | .ok (x, y) => !(a ≤ x && y ≤ b)

section
variable {parent rest : List ApiSegment} {a b : Int64}

theorem alignmentError_some (parent : List ApiSegment) (hab : a < b) (which : String) :
    ∃ e, alignmentError parent a b which = some e := by
  obtain ⟨range, -, hrange, -⟩ := halfOpenRange_some hab
  rw [alignmentError, hrange]
  exact ⟨_, rfl⟩

theorem checkAlignment_cases (parent : List ApiSegment) (hab : a < b)
    (hread : ∀ p ∈ rest, ∃ x y, parseRange p.timerange = .ok (x, y)) :
    (∃ e, checkAlignment.go parent a b rest = some (.error e)) ∧ (∃ p ∈ rest, Misaligned p a b) ∨
      checkAlignment.go parent a b rest = some (.ok ()) ∧ ∀ p ∈ rest, ¬ Misaligned p a b := by
  induction rest with
  | nil => exact Or.inr ⟨rfl, fun _ h => by cases h⟩
  | cons p rest ih =>
    obtain ⟨⟨x, y, hp⟩, hread⟩ := List.forall_mem_cons.mp hread
    rw [checkAlignment.go, hp]
    dsimp only
    by_cases hstart : x < a ∧ a < y
    · obtain ⟨e, he⟩ := alignmentError_some parent hab "start"
      rw [if_pos (by simpa using hstart), he]
      exact Or.inl ⟨⟨e, rfl⟩, p, List.mem_cons_self, x, y, hp, Or.inl hstart⟩
    rw [if_neg (by simpa using hstart)]
    by_cases hend : x < b ∧ b < y
    · obtain ⟨e, he⟩ := alignmentError_some parent hab "end"
      rw [if_pos (by simpa using hend), he]
      exact Or.inl ⟨⟨e, rfl⟩, p, List.mem_cons_self, x, y, hp, Or.inr hend⟩
    rw [if_neg (by simpa using hend)]
    rcases ih hread with ⟨herr, p', hp', hmis⟩ | ⟨hok, hall⟩
    · exact Or.inl ⟨herr, p', List.mem_cons_of_mem p hp', hmis⟩
    · refine Or.inr ⟨hok, List.forall_mem_cons.mpr ⟨?_, hall⟩⟩
      rintro ⟨x', y', hp', hmis⟩
      cases hp.symm.trans hp'
      exact hmis.elim hstart hend

theorem copySegments_eq (hread : ∀ p ∈ rest, ∃ x y, parseRange p.timerange = .ok (x, y)) :
    copySegments a b rest = .ok ((rest.filter (survives a b)).map copySegment) := by
  induction rest with
  | nil => rfl
  | cons p rest ih =>
    obtain ⟨⟨x, y, hp⟩, hread⟩ := List.forall_mem_cons.mp hread
    rw [copySegments, hp, ih hread]
    by_cases hin : a ≤ x ∧ y ≤ b
    · have hno : survives a b p = false := by simp [survives, hp, hin]
      rw [List.filter_cons_of_neg (by rw [hno]; exact Bool.false_ne_true)]
      simp [Except.map, hin]
    · have hyes : survives a b p = true := by simpa [survives, hp, imp_iff_not_or, not_and_or] using hin
      rw [List.filter_cons_of_pos hyes]
      simp [Except.map, hin]

/-- An error where a segment is not aligned, and else the copies and the slate. -/
theorem overlaySegments_cases (slate : Str) (hab : a < b)
    (hread : ∀ p ∈ parent, ∃ x y, parseRange p.timerange = .ok (x, y)) :
    (∃ e, overlaySegments parent a b slate = some (.error e)) ∧ (∃ p ∈ parent, Misaligned p a b) ∨
      (∀ p ∈ parent, ¬ Misaligned p a b) ∧ ∃ range, textSet range = Set.Ico a.toInt b.toInt ∧
        overlaySegments parent a b slate = some (.ok ((parent.filter (survives a b)).map copySegment ++
          [{ objectId := slate, timerange := range }])) := by
  unfold overlaySegments checkAlignment
  rcases checkAlignment_cases parent hab hread with ⟨⟨e, he⟩, hmis⟩ | ⟨hok, hall⟩
  · rw [he]
    exact Or.inl ⟨⟨e, rfl⟩, hmis⟩
  · obtain ⟨range, tr, hrange, hp, hden⟩ := halfOpenRange_some hab
    rw [hok, copySegments_eq hread, hrange]
    exact Or.inr ⟨hall, range, (textSet_eq hp).trans hden, rfl⟩

end

/-! ## Edges -/

section
variable {p : ApiSegment} {lo hi : ℤ} {x y a b : Int64}

theorem straddles_Ico {edge : Int64} (h : lo < hi) :
    Straddles (Set.Ico lo hi) edge ↔ lo < edge.toInt ∧ edge.toInt < hi := by
  constructor
  · rintro ⟨⟨n, ⟨hn, -⟩, hlt⟩, m, ⟨-, hm⟩, hle⟩
    omega
  · rintro ⟨hlo, hhi⟩
    exact ⟨⟨lo, ⟨le_rfl, h⟩, hlo⟩, edge.toInt, ⟨hlo.le, hhi⟩, le_rfl⟩

namespace Converted

variable (h : Converted p lo hi x y)
include h

theorem last_iff : 2 ^ 63 - 1 ∈ textSet p.timerange ↔ hi = 2 ^ 63 := by
  have hord := h.ordered
  have hupper := h.upper
  rw [h.set, Set.mem_Ico]
  omega

theorem stop (hlast : 2 ^ 63 - 1 ∉ textSet p.timerange) : y.toInt = hi :=
  h.fits (lt_of_le_of_ne h.upper (mt h.last_iff.mpr hlast))

theorem misaligned_iff (hlast : 2 ^ 63 - 1 ∉ textSet p.timerange) :
    Misaligned p a b ↔ Straddles (textSet p.timerange) a ∨ Straddles (textSet p.timerange) b := by
  have hy := h.stop hlast
  have hmis : Misaligned p a b ↔ x < a ∧ a < y ∨ x < b ∧ b < y := by
    constructor
    · rintro ⟨x', y', hr, hmis⟩
      cases h.read.symm.trans hr
      exact hmis
    · exact fun hmis => ⟨x, y, h.read, hmis⟩
  rw [hmis, h.set, straddles_Ico h.ordered, straddles_Ico h.ordered]
  simp only [Int64.lt_iff_toInt_lt, h.start, hy]

/-- A segment whose end wraps passes the test. -/
theorem not_misaligned (hlast : 2 ^ 63 - 1 ∈ textSet p.timerange) : ¬ Misaligned p a b := by
  rintro ⟨x', y', hr, hmis⟩
  cases h.read.symm.trans hr
  have hy := h.wraps (h.last_iff.mp hlast)
  have ha := a.le_toInt
  have hb := b.le_toInt
  simp only [Int64.lt_iff_toInt_lt, hy] at hmis
  omega

theorem survives_iff_not : survives a b p = true ↔ ¬ (a.toInt ≤ lo ∧ y.toInt ≤ b.toInt) := by
  rw [← h.start, ← Int64.le_iff_toInt_le, ← Int64.le_iff_toInt_le]
  unfold survives
  rw [h.read]
  simp only [Bool.not_eq_true', ← Bool.not_eq_true, Bool.and_eq_true, decide_eq_true_eq]

theorem survives_iff (hlast : 2 ^ 63 - 1 ∉ textSet p.timerange) (hab : a < b)
    (hfit : ¬ (Straddles (textSet p.timerange) a ∨ Straddles (textSet p.timerange) b)) :
    survives a b p = true ↔ Disjoint (textSet p.timerange) (Set.Ico a.toInt b.toInt) := by
  have hord := h.ordered
  have hy := h.stop hlast
  rw [h.set, straddles_Ico hord, straddles_Ico hord] at hfit
  rw [h.survives_iff_not, h.set, Set.Ico_disjoint_Ico, hy]
  rw [Int64.lt_iff_toInt_lt] at hab
  omega

end Converted

end

/-! ## The fork -/

section
variable {parent : List ApiSegment} {a b : Int64} {slate range : Str}

theorem Timeline.read (h : Timeline parent) : ∀ p ∈ parent, ∃ x y, parseRange p.timerange = .ok (x, y) := by
  intro p hp
  obtain ⟨_, _, x, y, hc⟩ := h.converted hp
  exact ⟨x, y, hc.read⟩

theorem Timeline.overlaid (h : Timeline parent) (hrange : textSet range = Set.Ico a.toInt b.toInt)
    (hkept : ∀ p ∈ parent, survives a b p = true ↔ Disjoint (textSet p.timerange) (Set.Ico a.toInt b.toInt))
    (hdropped : ∀ p ∈ parent, survives a b p = false → textSet p.timerange ⊆ Set.Ico a.toInt b.toInt) :
    Overlaid parent a b slate ((parent.filter (survives a b)).map copySegment ++
      [{ objectId := slate, timerange := range }]) := by
  have hmem : ∀ p, p ∈ parent.filter (survives a b) ↔ p ∈ parent ∧ survives a b p = true := fun p => List.mem_filter
  refine ⟨?_, ?_, parent.filter (survives a b), range, List.filter_sublist, ?_, rfl, hrange⟩
  · rw [List.pairwise_append]
    refine ⟨List.pairwise_map.mpr (h.apart.sublist List.filter_sublist), List.pairwise_singleton .., ?_⟩
    intro x hx y hy
    obtain ⟨p, hp, rfl⟩ := List.mem_map.mp hx
    obtain ⟨hp, hsurv⟩ := (hmem p).mp hp
    rw [List.mem_singleton.mp hy]
    show Disjoint (textSet p.timerange) (textSet range)
    rw [hrange]
    exact (hkept p hp).mp hsurv
  · ext n
    constructor
    · rintro ⟨x, hx, hn⟩
      rcases List.mem_append.mp hx with hx | hx
      · obtain ⟨p, hp, rfl⟩ := List.mem_map.mp hx
        obtain ⟨hp, hsurv⟩ := (hmem p).mp hp
        exact Or.inl ⟨⟨p, hp, hn⟩, Set.disjoint_left.mp ((hkept p hp).mp hsurv) hn⟩
      · rw [List.mem_singleton.mp hx] at hn
        exact Or.inr (hrange ▸ hn)
    · rintro (⟨⟨p, hp, hn⟩, hout⟩ | hin)
      · have hsurv : survives a b p = true := by
          by_contra hno
          exact hout (hdropped p hp (by simpa using hno) hn)
        exact ⟨copySegment p, List.mem_append_left _ (List.mem_map_of_mem ((hmem p).mpr ⟨hp, hsurv⟩)), hn⟩
      · exact ⟨_, List.mem_append_right _ List.mem_cons_self, hrange ▸ hin⟩
  · intro p hp
    rw [hmem, ← hkept p hp]
    exact and_iff_right hp

/-- The code does what it should where no segment has the last nanosecond. -/
theorem Timeline.clean (h : Timeline parent) (hab : a < b) (hlast : ∀ p ∈ parent, 2 ^ 63 - 1 ∉ textSet p.timerange) :
    CleanFork parent a b slate := by
  have hmis : (∃ p ∈ parent, Misaligned p a b) ↔ Misfits parent a b := by
    constructor
    · rintro ⟨p, hp, hmis⟩
      obtain ⟨_, _, _, _, hc⟩ := h.converted hp
      exact ⟨p, hp, (hc.misaligned_iff (hlast p hp)).mp hmis⟩
    · rintro ⟨p, hp, hmis⟩
      obtain ⟨_, _, _, _, hc⟩ := h.converted hp
      exact ⟨p, hp, (hc.misaligned_iff (hlast p hp)).mpr hmis⟩
  rcases overlaySegments_cases slate hab h.read with ⟨herr, hex⟩ | ⟨hall, range, hrange, hok⟩
  · exact ⟨iff_of_true herr (hmis.mp hex), fun hno => absurd (hmis.mp hex) hno⟩
  · have hno : ¬ Misfits parent a b := by
      rw [← hmis]
      rintro ⟨p, hp, hp'⟩
      exact hall p hp hp'
    refine ⟨iff_of_false ?_ hno, fun _ => ⟨_, hok, h.overlaid hrange ?_ ?_⟩⟩
    · rintro ⟨e, he⟩
      cases hok.symm.trans he
    · intro p hp
      obtain ⟨_, _, _, _, hc⟩ := h.converted hp
      exact hc.survives_iff (hlast p hp) hab fun hs => hno ⟨p, hp, hs⟩
    · intro p hp hdrop
      obtain ⟨lo, hi, x, y, hc⟩ := h.converted hp
      have hin : a.toInt ≤ lo ∧ y.toInt ≤ b.toInt := by
        by_contra hout
        rw [hc.survives_iff_not.mpr hout] at hdrop
        cases hdrop
      rw [hc.stop (hlast p hp)] at hin
      rw [hc.set]
      exact Set.Ico_subset_Ico hin.1 hin.2

/-- A segment with the last nanosecond is lost or passes unnoticed, unless another is refused. -/
theorem Timeline.not_clean (h : Timeline parent) (hab : a < b) {z : ApiSegment} (hz : z ∈ parent)
    (hlast : 2 ^ 63 - 1 ∈ textSet z.timerange)
    (hothers : ∀ p ∈ parent, 2 ^ 63 - 1 ∉ textSet p.timerange →
      ¬ (Straddles (textSet p.timerange) a ∨ Straddles (textSet p.timerange) b)) :
    ¬ CleanFork parent a b slate := by
  intro hclean
  have hall : ∀ p ∈ parent, ¬ Misaligned p a b := by
    intro p hp
    obtain ⟨_, _, _, _, hc⟩ := h.converted hp
    by_cases hp' : 2 ^ 63 - 1 ∈ textSet p.timerange
    · exact hc.not_misaligned hp'
    · rw [hc.misaligned_iff hp']
      exact hothers p hp hp'
  rcases overlaySegments_cases slate hab h.read with ⟨-, p, hp, hmis⟩ | ⟨-, range, hrange, hok⟩
  · exact hall p hp hmis
  have hno : ¬ Misfits parent a b := by
    rw [← hclean.refused]
    rintro ⟨e, he⟩
    cases hok.symm.trans he
  obtain ⟨out, hout, hover⟩ := hclean.overlaid hno
  rw [hok] at hout
  cases hout
  obtain ⟨lo, hi, x, y, hc⟩ := h.converted hz
  -- it is not refused, so it lies after the window, and the wrapped end has it skipped
  have hafter : b.toInt ≤ lo := by
    have hb : ¬ Straddles (textSet z.timerange) b := fun hs => hno ⟨z, hz, Or.inr hs⟩
    have hlt := b.toInt_lt
    rw [hc.set, straddles_Ico hc.ordered, hc.last_iff.mp hlast] at hb
    omega
  have hskipped : ¬ survives a b z = true := by
    have hy := hc.wraps (hc.last_iff.mp hlast)
    have hb := b.le_toInt
    rw [Int64.lt_iff_toInt_lt] at hab
    rw [hc.survives_iff_not]
    omega
  have hcovered : 2 ^ 63 - 1 ∈ {n | ∃ x ∈ (parent.filter (survives a b)).map copySegment ++
      [({ objectId := slate, timerange := range } : FlowSegmentPost)], n ∈ textSet x.timerange} := by
    rw [hover.cover]
    refine Or.inl ⟨⟨z, hz, hlast⟩, fun hin => ?_⟩
    have hlt := b.toInt_lt
    have := hin.2
    omega
  obtain ⟨x', hx', hn⟩ := hcovered
  rcases List.mem_append.mp hx' with hx' | hx'
  · obtain ⟨p, hp, rfl⟩ := List.mem_map.mp hx'
    obtain ⟨hp, hsurv⟩ := List.mem_filter.mp hp
    have hne : p ≠ z := by
      rintro rfl
      exact hskipped hsurv
    have : Std.Symm fun p p' : ApiSegment => Disjoint (textSet p.timerange) (textSet p'.timerange) :=
      ⟨fun _ _ hd => hd.symm⟩
    exact Set.disjoint_left.mp (h.apart.forall hp hz hne) hn hlast
  · rw [List.mem_singleton.mp hx'] at hn
    have hlt := b.toInt_lt
    have := (hrange ▸ hn : 2 ^ 63 - 1 ∈ Set.Ico a.toInt b.toInt).2
    omega

/-- **A fork keeps a clean timeline**, exactly where no parent segment has the last nanosecond of `int64`, or one
that has it not straddles an edge of the window. -/
theorem overlaySegments_clean_iff (h : Timeline parent) (hab : a < b) (slate : Str) :
    CleanFork parent a b slate ↔
      (∀ p ∈ parent, 2 ^ 63 - 1 ∉ textSet p.timerange) ∨
        ∃ p ∈ parent, 2 ^ 63 - 1 ∉ textSet p.timerange ∧
          (Straddles (textSet p.timerange) a ∨ Straddles (textSet p.timerange) b) := by
  constructor
  · intro hclean
    by_contra hno
    rw [not_or] at hno
    obtain ⟨hsome, hnone⟩ := hno
    obtain ⟨z, hz⟩ := not_forall.mp hsome
    rw [Classical.not_imp, not_not] at hz
    exact h.not_clean hab hz.1 hz.2 (fun p hp hlast hs => hnone ⟨p, hp, hlast, hs⟩) hclean
  · rintro (hlast | ⟨p, hp, hlast, hs⟩)
    · exact h.clean hab hlast
    · obtain ⟨_, _, _, _, hc⟩ := h.converted hp
      have hmis : Misfits parent a b := ⟨p, hp, hs⟩
      rcases overlaySegments_cases slate hab h.read with ⟨herr, -⟩ | ⟨hall, -⟩
      · exact ⟨iff_of_true herr hmis, fun hno => absurd hmis hno⟩
      · exact absurd ((hc.misaligned_iff hlast).mpr hs) (hall p hp)

end

/-! ## A segment up to the last nanosecond -/

def plainSegment (object range : String) : ApiSegment where
  objectId := lit object
  timerange := lit range
  tsOffset := none
  objectTimerange := none
  lastDuration := none
  keyFrameCount := none
  sampleOffset := none
  sampleCount := none
  getUrls := none

theorem textSet_bounded {s : Str} {x y : Timestamp} {sty ety : BoundType}
    (hp : parse s = .ok ⟨some x, sty, some y, ety⟩) (hsty : sty ≠ .unbounded) (hety : ety ≠ .unbounded) :
    textSet s = Set.Ico (x.value + sty.startShift) (y.value + ety.endShift) := by
  rw [textSet_eq hp]
  ext n
  exact TimeRange.mem_denote_bounded hsty hety n

theorem timeline_nil : Timeline [] := ⟨nofun, nofun, List.Pairwise.nil⟩

theorem Timeline.cons {p : ApiSegment} {parent : List ApiSegment} {lo hi : ℤ} (h : Timeline parent)
    (hset : textSet p.timerange = Set.Ico lo hi) (hlt : lo < hi) (hlo : -2 ^ 63 ≤ lo) (hhi : hi ≤ 2 ^ 63)
    (hapart : ∀ p' ∈ parent, ∃ lo' hi', textSet p'.timerange = Set.Ico lo' hi' ∧ (hi ≤ lo' ∨ hi' ≤ lo)) :
    Timeline (p :: parent) := by
  refine ⟨List.forall_mem_cons.mpr ⟨?_, h.nonempty⟩, List.forall_mem_cons.mpr ⟨?_, h.inside⟩,
    List.pairwise_cons.mpr ⟨fun p' hp' => ?_, h.apart⟩⟩
  · rw [hset]
    exact Set.nonempty_Ico.mpr hlt
  · rw [hset]
    exact Set.Ico_subset_Ico hlo hhi
  · obtain ⟨lo', hi', hset', hsep⟩ := hapart p' hp'
    rw [hset, hset', Set.disjoint_left]
    intro n hn hn'
    have := hn.1.trans_lt hn'.2
    have := hn'.1.trans_lt hn.2
    omega

/-- Three segments, not in order; the window is the one in the middle. -/
def threeSeconds : List ApiSegment :=
  [plainSegment "c" "[2:0_3:0)", plainSegment "a" "[0:0_1:0)", plainSegment "b" "[1:0_2:0)"]

theorem overlaySegments_clean_middle :
    CleanFork threeSeconds 1000000000 2000000000 (lit "slate") ∧
      overlaySegments threeSeconds 1000000000 2000000000 (lit "slate") =
        some (.ok [{ objectId := lit "c", timerange := lit "[2:0_3:0)" },
          { objectId := lit "a", timerange := lit "[0:0_1:0)" },
          { objectId := lit "slate", timerange := lit "[1:0_2:0)" }]) := by
  have ha : textSet (plainSegment "a" "[0:0_1:0)").timerange = Set.Ico 0 1000000000 :=
    textSet_bounded (show parse (lit "[0:0_1:0)") = .ok ⟨some ⟨0, 0⟩, .inclusive, some ⟨1, 0⟩, .exclusive⟩ by decide)
      nofun nofun
  have hb : textSet (plainSegment "b" "[1:0_2:0)").timerange = Set.Ico 1000000000 2000000000 :=
    textSet_bounded (show parse (lit "[1:0_2:0)") = .ok ⟨some ⟨1, 0⟩, .inclusive, some ⟨2, 0⟩, .exclusive⟩ by decide)
      nofun nofun
  have hc : textSet (plainSegment "c" "[2:0_3:0)").timerange = Set.Ico 2000000000 3000000000 :=
    textSet_bounded (show parse (lit "[2:0_3:0)") = .ok ⟨some ⟨2, 0⟩, .inclusive, some ⟨3, 0⟩, .exclusive⟩ by decide)
      nofun nofun
  have htl₁ := timeline_nil.cons hb (by decide) (by decide) (by decide) nofun
  have htl₂ := htl₁.cons ha (by decide) (by decide) (by decide) (List.forall_mem_cons.mpr ⟨⟨_, _, hb, by decide⟩, nofun⟩)
  have htl : Timeline threeSeconds := htl₂.cons hc (by decide) (by decide) (by decide)
    (List.forall_mem_cons.mpr ⟨⟨_, _, ha, by decide⟩, List.forall_mem_cons.mpr ⟨⟨_, _, hb, by decide⟩, nofun⟩⟩)
  refine ⟨(overlaySegments_clean_iff htl (by decide) (lit "slate")).mpr (Or.inl ?_), by decide⟩
  simp only [threeSeconds, List.forall_mem_cons, ha, hb, hc]
  exact ⟨fun h => absurd h.2 (by decide), fun h => absurd h.2 (by decide), fun h => absurd h.2 (by decide), nofun⟩

/-- The segment of the parent lies after the window, ends with the last nanosecond, and is lost. -/
theorem overlaySegments_loses_last :
    Timeline [plainSegment "a" "[1:0_9223372036:854775807]"] ∧
      overlaySegments [plainSegment "a" "[1:0_9223372036:854775807]"] 0 1000000000 (lit "slate") =
        some (.ok [{ objectId := lit "slate", timerange := lit "[0:0_1:0)" }]) ∧
      ¬ CleanFork [plainSegment "a" "[1:0_9223372036:854775807]"] 0 1000000000 (lit "slate") := by
  have hset : textSet (plainSegment "a" "[1:0_9223372036:854775807]").timerange = Set.Ico 1000000000 (2 ^ 63) :=
    textSet_bounded (show parse (lit "[1:0_9223372036:854775807]") =
      .ok ⟨some ⟨1, 0⟩, .inclusive, some ⟨9223372036, 854775807⟩, .inclusive⟩ by decide) nofun nofun
  have hlast : 2 ^ 63 - 1 ∈ textSet (plainSegment "a" "[1:0_9223372036:854775807]").timerange := by
    rw [hset]
    exact ⟨by decide, by decide⟩
  have htl := timeline_nil.cons hset (by decide) (by decide) (by decide) nofun
  refine ⟨htl, by decide, htl.not_clean (by decide) List.mem_cons_self hlast fun p hp hno => ?_⟩
  cases List.mem_singleton.mp hp
  exact absurd hlast hno

end OpenTams
