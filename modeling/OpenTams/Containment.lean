import Mathlib.Order.UpperLower.Basic
import OpenTams.Segments
import OpenTams.TimerangeText

/-!
# Containment on nanoseconds

`rangeContains` compares the bounds as they are written, so it takes an
exclusive bound and the inclusive bound one nanosecond further in for different
ones. Its answer is exact apart from those pairs, and it has one unless the
outer range is the empty one without bounds.
-/

namespace OpenTams

/-! ## Intervals -/

/-- One interval lies in another if each of its ends does. -/
theorem inter_subset_inter_iff {α : Type*} [LinearOrder α] {A A' B B' : Set α} (hA : IsUpperSet A) (hA' : IsUpperSet A')
    (hB : IsLowerSet B) (hB' : IsLowerSet B') (hne : (A ∩ B).Nonempty) :
    A ∩ B ⊆ A' ∩ B' ↔ A ⊆ A' ∧ B ⊆ B' := by
  obtain ⟨k, hkA, hkB⟩ := hne
  constructor
  · intro h
    have hk := h ⟨hkA, hkB⟩
    refine ⟨?_, ?_⟩
    · intro n hn
      rcases le_total n k with hle | hle
      · exact (h ⟨hn, hB hle hkB⟩).1
      · exact hA' hle hk.1
    · intro n hn
      rcases le_total n k with hle | hle
      · exact hB' hle hk.2
      · exact (h ⟨hA hle hkA, hn⟩).2
  · rintro ⟨h, h'⟩
    exact Set.inter_subset_inter h h'

theorem isUpperSet_lowerSet {ts : Option Timestamp} {ty : BoundType} (h : SideWf ts ty) :
    IsUpperSet (lowerSet ts ty) := by
  rcases h with ⟨rfl, rfl⟩ | ⟨x, rfl, -, hty⟩
  · exact isUpperSet_univ
  · intro a b hab ha
    rw [mem_lowerSet hty] at ha ⊢
    omega

theorem isLowerSet_upperSet {ts : Option Timestamp} {ty : BoundType} (h : SideWf ts ty) :
    IsLowerSet (upperSet ts ty) := by
  rcases h with ⟨rfl, rfl⟩ | ⟨x, rfl, -, hty⟩
  · exact isLowerSet_univ
  · intro a b hab ha
    rw [mem_upperSet hty] at ha ⊢
    omega

/-! ## The comparisons -/

theorem compareTS_lt {a b : Timestamp} (ha : a.Valid) (hb : b.Valid) : compareTS a b < 0 ↔ a.value < b.value := by
  obtain ⟨h1, h2⟩ := ha
  obtain ⟨h3, h4⟩ := hb
  unfold compareTS Timestamp.value
  simp only [Int64.lt_iff_toInt_lt, Int32.lt_iff_toInt_lt]
  repeat' split
  all_goals omega

theorem compareTS_swap (a b : Timestamp) : compareTS a b = -compareTS b a := by
  unfold compareTS
  simp only [Int64.lt_iff_toInt_lt, Int32.lt_iff_toInt_lt]
  repeat' split
  all_goals omega

theorem compareTS_gt {a b : Timestamp} (ha : a.Valid) (hb : b.Valid) : 0 < compareTS a b ↔ b.value < a.value := by
  rw [← compareTS_lt hb ha, compareTS_swap a b]
  omega

def StartWithin (outer inner : TimeRange) : Prop :=
  outer.startType = .unbounded ∨ inner.startType ≠ .unbounded ∧ innerStartLess outer inner = some false

def EndWithin (outer inner : TimeRange) : Prop :=
  outer.endType = .unbounded ∨ inner.endType ≠ .unbounded ∧ innerEndGreater outer inner = some false

section
variable {outer inner : TimeRange}

theorem innerStartLess_false {o i : Timestamp} (ho : outer.start = some o) (hi : inner.start = some i) (hov : o.Valid)
    (hiv : i.Valid) :
    innerStartLess outer inner = some false ↔
      o.value ≤ i.value ∧ (o.value = i.value → ¬ (outer.startType = .exclusive ∧ inner.startType = .inclusive)) := by
  have hlt := compareTS_lt hiv hov
  have hgt := compareTS_gt hiv hov
  simp only [innerStartLess, ho, hi]
  split
  · simp only [Option.some.injEq, Bool.true_eq_false, false_iff]
    omega
  split
  · refine ⟨fun _ => ⟨by omega, fun he => by omega⟩, fun _ => rfl⟩
  · have heq : o.value = i.value := by omega
    simp [heq]

theorem innerEndGreater_false {o i : Timestamp} (ho : outer.endTs = some o) (hi : inner.endTs = some i) (hov : o.Valid)
    (hiv : i.Valid) :
    innerEndGreater outer inner = some false ↔
      i.value ≤ o.value ∧ (o.value = i.value → ¬ (outer.endType = .exclusive ∧ inner.endType = .inclusive)) := by
  have hlt := compareTS_lt hiv hov
  have hgt := compareTS_gt hiv hov
  simp only [innerEndGreater, ho, hi]
  split
  · simp only [Option.some.injEq, Bool.true_eq_false, false_iff]
    omega
  split
  · refine ⟨fun _ => ⟨by omega, fun he => by omega⟩, fun _ => rfl⟩
  · have heq : o.value = i.value := by omega
    simp [heq]

/-- The outer range starts with the nanosecond after the one that the inner range excludes. -/
def StartStep (outer inner : TimeRange) : Prop :=
  outer.startType = .inclusive ∧ inner.startType = .exclusive ∧
    ∃ o i, outer.start = some o ∧ inner.start = some i ∧ o.value = i.value + 1

def EndStep (outer inner : TimeRange) : Prop :=
  outer.endType = .inclusive ∧ inner.endType = .exclusive ∧
    ∃ o i, outer.endTs = some o ∧ inner.endTs = some i ∧ i.value = o.value + 1

theorem lowerSet_subset_iff (ho : SideWf outer.start outer.startType) (hi : SideWf inner.start inner.startType) :
    lowerSet inner.start inner.startType ⊆ lowerSet outer.start outer.startType ↔
      StartWithin outer inner ∨ StartStep outer inner := by
  rcases ho with ⟨ho, hoty⟩ | ⟨o, ho, hov, hoty⟩
  · rw [ho, hoty]
    exact ⟨fun _ => Or.inl (Or.inl hoty), fun _ => Set.subset_univ _⟩
  rcases hi with ⟨hi, hity⟩ | ⟨i, hi, hiv, hity⟩
  · -- no nanosecond lies before all of them
    have hnot : ¬ lowerSet inner.start inner.startType ⊆ lowerSet outer.start outer.startType := by
      intro hsub
      rw [hi, hity, ho] at hsub
      have := (mem_lowerSet hoty _).mp (hsub (Set.mem_univ (o.value + outer.startType.startShift - 1)))
      omega
    refine ⟨fun h => absurd h hnot, ?_⟩
    rintro (h | ⟨-, hex, -⟩)
    · exact absurd hity (h.resolve_left hoty).1
    · rw [hity] at hex
      cases hex
  · have hsub : lowerSet inner.start inner.startType ⊆ lowerSet outer.start outer.startType ↔
        o.value + outer.startType.startShift ≤ i.value + inner.startType.startShift := by
      rw [hi, ho]
      constructor
      · intro h
        exact (mem_lowerSet hoty _).mp (h ((mem_lowerSet hity _).mpr le_rfl))
      · intro h n hn
        rw [mem_lowerSet hity] at hn
        rw [mem_lowerSet hoty]
        omega
    rw [hsub, StartWithin, innerStartLess_false ho hi hov hiv]
    unfold StartStep BoundType.startShift
    simp only [ho, hi, Option.some.injEq]
    cases hot : outer.startType <;> cases hit : inner.startType <;> simp_all <;> omega

theorem upperSet_subset_iff (ho : SideWf outer.endTs outer.endType) (hi : SideWf inner.endTs inner.endType) :
    upperSet inner.endTs inner.endType ⊆ upperSet outer.endTs outer.endType ↔
      EndWithin outer inner ∨ EndStep outer inner := by
  rcases ho with ⟨ho, hoty⟩ | ⟨o, ho, hov, hoty⟩
  · rw [ho, hoty]
    exact ⟨fun _ => Or.inl (Or.inl hoty), fun _ => Set.subset_univ _⟩
  rcases hi with ⟨hi, hity⟩ | ⟨i, hi, hiv, hity⟩
  · have hnot : ¬ upperSet inner.endTs inner.endType ⊆ upperSet outer.endTs outer.endType := by
      intro hsub
      rw [hi, hity, ho] at hsub
      have := (mem_upperSet hoty _).mp (hsub (Set.mem_univ (o.value + outer.endType.endShift)))
      omega
    refine ⟨fun h => absurd h hnot, ?_⟩
    rintro (h | ⟨-, hex, -⟩)
    · exact absurd hity (h.resolve_left hoty).1
    · rw [hity] at hex
      cases hex
  · have hsub : upperSet inner.endTs inner.endType ⊆ upperSet outer.endTs outer.endType ↔
        i.value + inner.endType.endShift ≤ o.value + outer.endType.endShift := by
      rw [hi, ho]
      constructor
      · intro h
        have := (mem_upperSet hoty _).mp (h ((mem_upperSet hity (i.value + inner.endType.endShift - 1)).mpr (by omega)))
        omega
      · intro h n hn
        rw [mem_upperSet hity] at hn
        rw [mem_upperSet hoty]
        omega
    rw [hsub, EndWithin, innerEndGreater_false ho hi hov hiv]
    unfold EndStep BoundType.endShift
    simp only [ho, hi, Option.some.injEq]
    cases hot : outer.endType <;> cases hit : inner.endType <;> simp_all <;> omega

theorem StartStep.not_within (hos : SideWf outer.start outer.startType) (his : SideWf inner.start inner.startType)
    (h : StartStep outer inner) : ¬ StartWithin outer inner := by
  obtain ⟨hoty, hity, o, i, ho, hi, hval⟩ := h
  rw [ho] at hos
  rw [hi] at his
  have hov : o.Valid := by simpa [SideWf, hoty] using hos
  have hiv : i.Valid := by simpa [SideWf, hity] using his
  rw [StartWithin, innerStartLess_false ho hi hov hiv, hoty]
  rintro (h | ⟨-, hle, -⟩)
  · cases h
  · omega

theorem EndStep.not_within (hoe : SideWf outer.endTs outer.endType) (hie : SideWf inner.endTs inner.endType)
    (h : EndStep outer inner) : ¬ EndWithin outer inner := by
  obtain ⟨hoty, hity, o, i, ho, hi, hval⟩ := h
  rw [ho] at hoe
  rw [hi] at hie
  have hov : o.Valid := by simpa [SideWf, hoty] using hoe
  have hiv : i.Valid := by simpa [SideWf, hity] using hie
  rw [EndWithin, innerEndGreater_false ho hi hov hiv, hoty]
  rintro (h | ⟨-, hle, -⟩)
  · cases h
  · omega

/-! ## The answer -/

theorem lowerCheck (hos : SideWf outer.start outer.startType) (his : SideWf inner.start inner.startType) :
    ∃ b, (if outer.startType = .unbounded then some true
        else if inner.startType = .unbounded then some false
        else (innerStartLess outer inner).map not) = some b ∧ (b = true ↔ StartWithin outer inner) := by
  unfold StartWithin
  by_cases ho : outer.startType = .unbounded
  · exact ⟨true, if_pos ho, fun _ => Or.inl ho, fun _ => rfl⟩
  by_cases hi : inner.startType = .unbounded
  · refine ⟨false, by rw [if_neg ho, if_pos hi], ?_⟩
    simp [ho, hi]
  · obtain ⟨o, hos, -⟩ := hos.resolve_left fun h => ho h.2
    obtain ⟨i, his, -⟩ := his.resolve_left fun h => hi h.2
    rw [if_neg ho, if_neg hi]
    cases hless : innerStartLess outer inner with
    | none =>
      simp only [innerStartLess, hos, his] at hless
      split at hless
      · cases hless
      · split at hless <;> cases hless
    | some b => exact ⟨!b, rfl, by simp [ho, hi]⟩

theorem upperCheck (hoe : SideWf outer.endTs outer.endType) (hie : SideWf inner.endTs inner.endType) :
    ∃ b, (if outer.endType = .unbounded then some true
        else if inner.endType = .unbounded then some false
        else (innerEndGreater outer inner).map not) = some b ∧ (b = true ↔ EndWithin outer inner) := by
  unfold EndWithin
  by_cases ho : outer.endType = .unbounded
  · exact ⟨true, if_pos ho, fun _ => Or.inl ho, fun _ => rfl⟩
  by_cases hi : inner.endType = .unbounded
  · refine ⟨false, by rw [if_neg ho, if_pos hi], ?_⟩
    simp [ho, hi]
  · obtain ⟨o, hoe, -⟩ := hoe.resolve_left fun h => ho h.2
    obtain ⟨i, hie, -⟩ := hie.resolve_left fun h => hi h.2
    rw [if_neg ho, if_neg hi]
    cases hgreater : innerEndGreater outer inner with
    | none =>
      simp only [innerEndGreater, hoe, hie] at hgreater
      split at hgreater
      · cases hgreater
      · split at hgreater <;> cases hgreater
    | some b => exact ⟨!b, rfl, by simp [ho, hi]⟩

/-- Between ranges that are not the empty literal there is an answer, by the two comparisons. -/
theorem rangeContains_sides (hos : SideWf outer.start outer.startType) (hoe : SideWf outer.endTs outer.endType)
    (his : SideWf inner.start inner.startType) (hie : SideWf inner.endTs inner.endType)
    (hne : inner.isEmpty = false) :
    ∃ b, rangeContains outer inner = some b ∧ (b = true ↔ StartWithin outer inner ∧ EndWithin outer inner) := by
  obtain ⟨lo, hlo, hstart⟩ := lowerCheck hos his
  obtain ⟨hi, hhi, hend⟩ := upperCheck hoe hie
  have hall : ∀ {tr : TimeRange}, tr.isEternity = true ↔ tr.startType = .unbounded ∧ tr.endType = .unbounded := by
    simp [TimeRange.isEternity]
  unfold rangeContains
  by_cases ho : outer.isEternity = true
  · obtain ⟨hs, he⟩ := hall.mp ho
    exact ⟨true, if_pos ho, fun _ => ⟨Or.inl hs, Or.inl he⟩, fun _ => rfl⟩
  rw [if_neg ho, if_neg (by rw [hne]; exact Bool.false_ne_true)]
  by_cases hin : inner.isEternity = true
  · obtain ⟨hs, he⟩ := hall.mp hin
    refine ⟨false, if_pos hin, ?_⟩
    simp only [Bool.false_eq_true, false_iff]
    rintro ⟨hsw, hew⟩
    have hos := of_not_not (mt hsw.resolve_left fun h => h.1 hs)
    have hoe := of_not_not (mt hew.resolve_left fun h => h.1 he)
    exact ho (hall.mpr ⟨hos, hoe⟩)
  rw [if_neg hin]
  dsimp only
  rw [hlo, ← hstart, ← hend]
  cases lo with
  | false => exact ⟨false, rfl, by simp⟩
  | true => exact ⟨hi, hhi, by simp⟩

/-- The empty literal has no bounds to compare with. -/
theorem rangeContains_empty (hi : inner.Wf) :
    rangeContains .empty inner =
      if inner.isEmpty then some true else if inner.start = none then some false else none := by
  unfold rangeContains
  rw [if_neg (by decide)]
  by_cases hem : inner.isEmpty = true
  · rw [if_pos hem, if_pos hem]
  rw [if_neg hem, if_neg hem]
  rcases hi with rfl | ⟨his, -⟩
  · exact absurd rfl hem
  rcases his with ⟨hs, hty⟩ | ⟨i, hs, -, hty⟩
  · rw [if_pos hs]
    by_cases hin : inner.isEternity = true
    · rw [if_pos hin]
    · rw [if_neg hin]
      simp [TimeRange.empty, hty]
  · have hnot : ¬ inner.isEternity = true := by simp [TimeRange.isEternity, hty]
    rw [if_neg hnot]
    simp [TimeRange.empty, hty, innerStartLess, hs]

/-- **`rangeContains` is sound.** What it finds within the outer range is a part of it. -/
theorem rangeContains_subset (ho : outer.Wf) (hi : inner.Wf) (h : rangeContains outer inner = some true) :
    inner.denote ⊆ outer.denote := by
  by_cases hem : inner.isEmpty = true
  · rw [(TimeRange.isEmpty_iff hi).mp hem]
    exact Set.empty_subset _
  rcases ho with rfl | ⟨hos, hoe⟩
  · rw [rangeContains_empty hi, if_neg hem] at h
    split at h <;> cases h
  rcases hi with rfl | ⟨his, hie⟩
  · exact absurd rfl hem
  obtain ⟨b, hb, hiff⟩ := rangeContains_sides hos hoe his hie (by simpa using hem)
  rw [hb] at h
  obtain ⟨hs, he⟩ := hiff.mp (Option.some.inj h)
  exact Set.inter_subset_inter ((lowerSet_subset_iff hos his).mpr (Or.inl hs))
    ((upperSet_subset_iff hoe hie).mpr (Or.inl he))

theorem rangeContains_of_isEmpty (h : inner.isEmpty = true) : rangeContains outer inner = some true := by
  unfold rangeContains
  rw [if_pos h]
  split <;> rfl

/-- When the comparison has an answer. -/
theorem rangeContains_isSome (ho : outer.Wf) (hi : inner.Wf) :
    (rangeContains outer inner).isSome = true ↔
      ¬ (outer = .empty ∧ inner.denote.Nonempty ∧ inner.start ≠ none) := by
  by_cases hem : inner.isEmpty = true
  · rw [rangeContains_of_isEmpty hem, (TimeRange.isEmpty_iff hi).mp hem]
    simp
  have hne : inner.denote.Nonempty :=
    Set.nonempty_iff_ne_empty.mpr fun he => hem ((TimeRange.isEmpty_iff hi).mpr he)
  rcases ho with rfl | ⟨hos, hoe⟩
  · rw [rangeContains_empty hi, if_neg hem]
    by_cases hs : inner.start = none
    · simp [hs]
    · simp [hs, hne]
  rcases hi with rfl | ⟨his, hie⟩
  · exact absurd rfl hem
  obtain ⟨b, hb, -⟩ := rangeContains_sides hos hoe his hie (by simpa using hem)
  rw [hb]
  simp only [Option.isSome_some, true_iff]
  rintro ⟨rfl, -⟩
  rcases hos with ⟨-, hty⟩ | ⟨o, ho, -⟩
  · cases hty
  · cases ho

/-- **When containment is exact.** The answer for parsed ranges is that of the sets of nanoseconds, unless
a contained range excludes the nanosecond next to an inclusive bound of the outer one. -/
theorem rangeContains_exact_iff {s t : Str} (ho : parse s = .ok outer) (hi : parse t = .ok inner)
    (hne : outer.denote.Nonempty) :
    (rangeContains outer inner = some true ↔ inner.denote ⊆ outer.denote) ↔
      ¬ (inner.denote.Nonempty ∧ inner.denote ⊆ outer.denote ∧ (StartStep outer inner ∨ EndStep outer inner)) := by
  have hwf := (parse_text ho).1
  have hwf' := (parse_text hi).1
  by_cases hem : inner.isEmpty = true
  · rw [rangeContains_of_isEmpty hem, (TimeRange.isEmpty_iff hwf').mp hem]
    simp
  have hin : inner.denote.Nonempty :=
    Set.nonempty_iff_ne_empty.mpr fun he => hem ((TimeRange.isEmpty_iff hwf').mpr he)
  rcases hwf with rfl | ⟨hos, hoe⟩
  · rw [TimeRange.denote_empty] at hne
    exact absurd hne Set.not_nonempty_empty
  rcases hwf' with rfl | ⟨his, hie⟩
  · exact absurd rfl hem
  obtain ⟨b, hb, hiff⟩ := rangeContains_sides hos hoe his hie (by simpa using hem)
  have hsub : inner.denote ⊆ outer.denote ↔
      (StartWithin outer inner ∨ StartStep outer inner) ∧ (EndWithin outer inner ∨ EndStep outer inner) := by
    rw [← lowerSet_subset_iff hos his, ← upperSet_subset_iff hoe hie]
    exact inter_subset_inter_iff (isUpperSet_lowerSet his) (isUpperSet_lowerSet hos) (isLowerSet_upperSet hie)
      (isLowerSet_upperSet hoe) hin
  have hss : StartStep outer inner → ¬ StartWithin outer inner := StartStep.not_within hos his
  have hes : EndStep outer inner → ¬ EndWithin outer inner := EndStep.not_within hoe hie
  rw [hb, Option.some.injEq, hiff, hsub]
  constructor
  · rintro h ⟨-, hboth, hstep⟩
    obtain ⟨hsw, hew⟩ := h.mpr hboth
    rcases hstep with h | h
    · exact hss h hsw
    · exact hes h hew
  · intro h
    refine ⟨fun hwithin => ⟨Or.inl hwithin.1, Or.inl hwithin.2⟩, fun hboth => ⟨?_, ?_⟩⟩
    · exact hboth.1.resolve_right fun hstep => h ⟨hin, hboth, Or.inl hstep⟩
    · exact hboth.2.resolve_right fun hstep => h ⟨hin, hboth, Or.inr hstep⟩

end

/-- An inner range that excludes its first nanosecond, and is contained. -/
theorem rangeContains_exact_iff_exclusive :
    rangeContains ⟨some ⟨0, 0⟩, .inclusive, some ⟨10, 0⟩, .exclusive⟩ ⟨some ⟨0, 0⟩, .exclusive, some ⟨5, 0⟩, .exclusive⟩ =
      some true ↔
    (⟨some ⟨0, 0⟩, .exclusive, some ⟨5, 0⟩, .exclusive⟩ : TimeRange).denote ⊆
      (⟨some ⟨0, 0⟩, .inclusive, some ⟨10, 0⟩, .exclusive⟩ : TimeRange).denote := by
  have houter : parse (lit "[0:0_10:0)") = .ok ⟨some ⟨0, 0⟩, .inclusive, some ⟨10, 0⟩, .exclusive⟩ := by decide
  have hinner : parse (lit "(0:0_5:0)") = .ok ⟨some ⟨0, 0⟩, .exclusive, some ⟨5, 0⟩, .exclusive⟩ := by decide
  refine (rangeContains_exact_iff houter hinner ⟨0, ?_⟩).mpr ?_
  · exact (TimeRange.mem_denote_bounded (by decide) (by decide) 0).mpr (by decide)
  · rintro ⟨-, -, ⟨-, -, o, i, ho, hi, hval⟩ | ⟨hty, -⟩⟩
    · cases ho
      cases hi
      exact absurd hval (by decide)
    · cases hty

/-- `(0:0_5:0)` has no nanosecond before `0:1`, yet is not found within `[0:1_10:0)`. -/
theorem step_not_contained :
    ∃ outer inner, parse (lit "[0:1_10:0)") = .ok outer ∧ parse (lit "(0:0_5:0)") = .ok inner ∧
      outer.denote.Nonempty ∧ inner.denote ⊆ outer.denote ∧ rangeContains outer inner = some false := by
  refine ⟨⟨some ⟨0, 1⟩, .inclusive, some ⟨10, 0⟩, .exclusive⟩, ⟨some ⟨0, 0⟩, .exclusive, some ⟨5, 0⟩, .exclusive⟩,
    by decide, by decide, ⟨1, ?_⟩, ?_, by decide⟩
  · exact (TimeRange.mem_denote_bounded (by decide) (by decide) 1).mpr (by decide)
  · intro n hn
    rw [TimeRange.mem_denote_bounded (by decide) (by decide)] at hn ⊢
    change (0 : ℤ) + 1 ≤ n ∧ n < 5000000000 + 0 at hn
    change (1 : ℤ) + 0 ≤ n ∧ n < 10000000000 + 0
    omega

end OpenTams
