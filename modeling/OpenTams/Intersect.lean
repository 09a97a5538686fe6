import OpenTams.RangeParse

/-!
# Intersection of timeranges

`Intersect` of `internal/timerange`: the later start and the earlier end, an
exclusive bound before an inclusive one where they are equal. On ranges that the
parser makes it never dereferences a nil bound, and it denotes the intersection
of the two sets of nanoseconds.
-/

namespace OpenTams

namespace TimeRange

/-- The more restrictive start; `none` is the dereference of a nil bound. -/
def laterStart (a b : TimeRange) : Option (Option Timestamp × BoundType) :=
  if a.startType = .unbounded then some (b.start, b.startType)
  else if b.startType = .unbounded then some (a.start, a.startType)
  else match a.start, b.start with
    | some s, some s' =>
      if s.before s' then some (b.start, b.startType)
      else if s'.before s then some (a.start, a.startType)
      else some (a.start, if a.startType = .exclusive || b.startType = .exclusive then .exclusive else .inclusive)
    | _, _ => none

def earlierEnd (a b : TimeRange) : Option (Option Timestamp × BoundType) :=
  if a.endType = .unbounded then some (b.endTs, b.endType)
  else if b.endType = .unbounded then some (a.endTs, a.endType)
  else match a.endTs, b.endTs with
    | some e, some e' =>
      if e'.before e then some (b.endTs, b.endType)
      else if e.before e' then some (a.endTs, a.endType)
      else some (a.endTs, if a.endType = .exclusive || b.endType = .exclusive then .exclusive else .inclusive)
    | _, _ => none

/-- The end is before the start, or at it with an exclusive marker. -/
def crossed (tr : TimeRange) : Bool :=
  match tr.start, tr.endTs with
  | some s, some e => e.before s || e.equal s && (tr.startType = .exclusive || tr.endType = .exclusive)
  | _, _ => false

def intersect (a b : TimeRange) : Option TimeRange :=
  if a.isEmpty || b.isEmpty then some .empty
  else if a.isEternity then some b
  else if b.isEternity then some a
  else match laterStart a b, earlierEnd a b with
    | some (start, startType), some (endTs, endType) =>
      let result : TimeRange := ⟨start, startType, endTs, endType⟩
      if result.isEmpty then some .empty
      else if result.crossed then some .empty
      else some result
    | _, _ => none

def overlaps (tr other : TimeRange) : Option Bool := (tr.intersect other).map fun r => !r.isEmpty

/-! ## Sides -/

theorem lowerSet_subset {x y : Timestamp} {ty ty' : BoundType} (hty : ty ≠ .unbounded) (hty' : ty' ≠ .unbounded)
    (h : x.value < y.value) : lowerSet (some y) ty' ⊆ lowerSet (some x) ty := by
  intro n hn
  rw [mem_lowerSet hty'] at hn
  rw [mem_lowerSet hty]
  unfold BoundType.startShift at hn ⊢
  split at hn <;> split <;> omega

theorem upperSet_subset {x y : Timestamp} {ty ty' : BoundType} (hty : ty ≠ .unbounded) (hty' : ty' ≠ .unbounded)
    (h : y.value < x.value) : upperSet (some y) ty' ⊆ upperSet (some x) ty := by
  intro n hn
  rw [mem_upperSet hty'] at hn
  rw [mem_upperSet hty]
  unfold BoundType.endShift at hn ⊢
  split at hn <;> split <;> omega

theorem laterStart_spec {a b : TimeRange} (ha : SideWf a.start a.startType) (hb : SideWf b.start b.startType) :
    ∃ s ty, laterStart a b = some (s, ty) ∧ SideWf s ty ∧
      lowerSet s ty = lowerSet a.start a.startType ∩ lowerSet b.start b.startType := by
  unfold laterStart
  rcases ha with ⟨hs, hty⟩ | ⟨x, hs, hx, hty⟩
  · rw [if_pos hty]
    refine ⟨_, _, rfl, hb, ?_⟩
    rw [hs, hty, lowerSet, Set.univ_inter]
  · rw [if_neg hty]
    rcases hb with ⟨hs', hty'⟩ | ⟨y, hs', hy, hty'⟩
    · rw [if_pos hty']
      refine ⟨_, _, rfl, Or.inr ⟨x, hs, hx, hty⟩, ?_⟩
      rw [hs', hty', lowerSet, Set.inter_univ]
    · rw [if_neg hty', hs, hs']
      dsimp only
      by_cases hlt : x.before y = true
      · rw [if_pos hlt]
        have hsub := lowerSet_subset hty hty' ((Timestamp.before_iff hx hy).mp hlt)
        exact ⟨_, _, rfl, Or.inr ⟨y, rfl, hy, hty'⟩, (Set.inter_eq_right.mpr hsub).symm⟩
      · rw [if_neg hlt]
        by_cases hgt : y.before x = true
        · rw [if_pos hgt]
          have hsub := lowerSet_subset hty' hty ((Timestamp.before_iff hy hx).mp hgt)
          exact ⟨_, _, rfl, Or.inr ⟨x, rfl, hx, hty⟩, (Set.inter_eq_left.mpr hsub).symm⟩
        · rw [if_neg hgt]
          have hle := mt (Timestamp.before_iff hx hy).mpr hlt
          have hge := mt (Timestamp.before_iff hy hx).mpr hgt
          have hm : (if decide (a.startType = .exclusive) || decide (b.startType = .exclusive) then BoundType.exclusive
              else .inclusive) ≠ .unbounded := by
            split <;> decide
          refine ⟨_, _, rfl, Or.inr ⟨x, rfl, hx, hm⟩, ?_⟩
          ext n
          rw [Set.mem_inter_iff, mem_lowerSet hm, mem_lowerSet hty, mem_lowerSet hty']
          unfold BoundType.startShift
          by_cases h1 : a.startType = .exclusive <;> by_cases h2 : b.startType = .exclusive <;> simp [h1, h2] <;> omega

theorem earlierEnd_spec {a b : TimeRange} (ha : SideWf a.endTs a.endType) (hb : SideWf b.endTs b.endType) :
    ∃ e ty, earlierEnd a b = some (e, ty) ∧ SideWf e ty ∧
      upperSet e ty = upperSet a.endTs a.endType ∩ upperSet b.endTs b.endType := by
  unfold earlierEnd
  rcases ha with ⟨he, hty⟩ | ⟨x, he, hx, hty⟩
  · rw [if_pos hty]
    refine ⟨_, _, rfl, hb, ?_⟩
    rw [he, hty, upperSet, Set.univ_inter]
  · rw [if_neg hty]
    rcases hb with ⟨he', hty'⟩ | ⟨y, he', hy, hty'⟩
    · rw [if_pos hty']
      refine ⟨_, _, rfl, Or.inr ⟨x, he, hx, hty⟩, ?_⟩
      rw [he', hty', upperSet, Set.inter_univ]
    · rw [if_neg hty', he, he']
      dsimp only
      by_cases hlt : y.before x = true
      · rw [if_pos hlt]
        have hsub := upperSet_subset hty hty' ((Timestamp.before_iff hy hx).mp hlt)
        exact ⟨_, _, rfl, Or.inr ⟨y, rfl, hy, hty'⟩, (Set.inter_eq_right.mpr hsub).symm⟩
      · rw [if_neg hlt]
        by_cases hgt : x.before y = true
        · rw [if_pos hgt]
          have hsub := upperSet_subset hty' hty ((Timestamp.before_iff hx hy).mp hgt)
          exact ⟨_, _, rfl, Or.inr ⟨x, rfl, hx, hty⟩, (Set.inter_eq_left.mpr hsub).symm⟩
        · rw [if_neg hgt]
          have hle := mt (Timestamp.before_iff hy hx).mpr hlt
          have hge := mt (Timestamp.before_iff hx hy).mpr hgt
          have hm : (if decide (a.endType = .exclusive) || decide (b.endType = .exclusive) then BoundType.exclusive
              else .inclusive) ≠ .unbounded := by
            split <;> decide
          refine ⟨_, _, rfl, Or.inr ⟨x, rfl, hx, hm⟩, ?_⟩
          ext n
          rw [Set.mem_inter_iff, mem_upperSet hm, mem_upperSet hty, mem_upperSet hty']
          cases hta : a.endType <;> cases htb : b.endType <;> simp_all [BoundType.endShift] <;> omega

/-! ## Ranges -/

theorem wf_empty : TimeRange.empty.Wf := Or.inl rfl

theorem denote_eternity {tr : TimeRange} (h : tr.Wf) (he : tr.isEternity = true) : tr.denote = Set.univ := by
  simp only [isEternity, Bool.and_eq_true, decide_eq_true_eq] at he
  rcases h with rfl | ⟨⟨hs, -⟩ | ⟨x, -, -, hx⟩, ⟨ht, -⟩ | ⟨y, -, -, hy⟩⟩
  · cases he.1
  · rw [denote, hs, ht, he.1, he.2, lowerSet, upperSet, Set.univ_inter]
  · exact absurd he.2 hy
  · exact absurd he.1 hx
  · exact absurd he.1 hx

theorem isEmpty_of_crossed {tr : TimeRange} (hs : SideWf tr.start tr.startType) (he : SideWf tr.endTs tr.endType)
    (h : tr.crossed = true) : tr.isEmpty = true := by
  obtain ⟨start, sty, endTs, ety⟩ := tr
  unfold crossed at h
  rcases hs with ⟨rfl, -⟩ | ⟨s, rfl, hsv, -⟩
  · cases h
  rcases he with ⟨rfl, -⟩ | ⟨e, rfl, hev, hety⟩
  · cases h
  simp only [Bool.or_eq_true, Bool.and_eq_true, decide_eq_true_eq, Timestamp.before_iff hev hsv,
    Timestamp.equal_iff hev hsv] at h
  rw [isEmpty_bounded hsv hev hety]
  unfold BoundType.endShift BoundType.startShift
  rcases h with h | ⟨h, h' | h'⟩
  · split <;> split <;> omega
  · rw [if_pos h']
    split <;> omega
  · have hne : ety ≠ .inclusive := by
      rw [h']
      decide
    rw [if_neg hne]
    split <;> omega

/-- **Intersection is set intersection**, for all ranges the parser can make. -/
theorem intersect_spec {a b : TimeRange} (ha : a.Wf) (hb : b.Wf) :
    ∃ r, a.intersect b = some r ∧ r.Wf ∧ r.denote = a.denote ∩ b.denote := by
  unfold intersect
  by_cases hem : (a.isEmpty || b.isEmpty) = true
  · rw [if_pos hem]
    refine ⟨_, rfl, wf_empty, ?_⟩
    rw [denote_empty]
    rcases Bool.or_eq_true_iff.mp hem with h | h
    · rw [(isEmpty_iff ha).mp h, Set.empty_inter]
    · rw [(isEmpty_iff hb).mp h, Set.inter_empty]
  rw [if_neg hem]
  by_cases hae : a.isEternity = true
  · rw [if_pos hae]
    exact ⟨b, rfl, hb, by rw [denote_eternity ha hae, Set.univ_inter]⟩
  rw [if_neg hae]
  by_cases hbe : b.isEternity = true
  · rw [if_pos hbe]
    exact ⟨a, rfl, ha, by rw [denote_eternity hb hbe, Set.inter_univ]⟩
  rw [if_neg hbe]
  rcases ha with rfl | ⟨has, hae'⟩
  · exact absurd rfl hem
  rcases hb with rfl | ⟨hbs, hbe'⟩
  · exact absurd (Bool.or_true _) hem
  obtain ⟨s, sty, hs, hswf, hsd⟩ := laterStart_spec has hbs
  obtain ⟨e, ety, he, hewf, hed⟩ := earlierEnd_spec hae' hbe'
  rw [hs, he]
  dsimp only
  have hwf : (⟨s, sty, e, ety⟩ : TimeRange).Wf := Or.inr ⟨hswf, hewf⟩
  have hden : (⟨s, sty, e, ety⟩ : TimeRange).denote = a.denote ∩ b.denote := by
    rw [denote, hsd, hed]
    exact Set.inter_inter_inter_comm _ _ _ _
  by_cases hre : (⟨s, sty, e, ety⟩ : TimeRange).isEmpty = true
  · rw [if_pos hre]
    exact ⟨_, rfl, wf_empty, by rw [denote_empty, ← hden, (isEmpty_iff hwf).mp hre]⟩
  · rw [if_neg hre, if_neg fun hc => hre (isEmpty_of_crossed hswf hewf hc)]
    exact ⟨_, rfl, hwf, hden⟩

/-- The empty intersection has one form. -/
theorem intersect_eq_empty {a b r : TimeRange} (h : a.intersect b = some r) (hr : r.isEmpty = true) : r = .empty := by
  unfold intersect at h
  by_cases hem : (a.isEmpty || b.isEmpty) = true
  · rw [if_pos hem] at h
    cases h
    rfl
  rw [if_neg hem] at h
  rw [Bool.or_eq_true, not_or] at hem
  by_cases hae : a.isEternity = true
  · rw [if_pos hae] at h
    cases h
    exact absurd hr hem.2
  rw [if_neg hae] at h
  by_cases hbe : b.isEternity = true
  · rw [if_pos hbe] at h
    cases h
    exact absurd hr hem.1
  rw [if_neg hbe] at h
  split at h
  · rename_i start sty endTs ety _ _
    dsimp only at h
    by_cases hre : (⟨start, sty, endTs, ety⟩ : TimeRange).isEmpty = true
    · rw [if_pos hre] at h
      cases h
      rfl
    rw [if_neg hre] at h
    split at h
    · cases h
      rfl
    · cases h
      exact absurd hr hre
  · cases h

theorem overlaps_iff {a b : TimeRange} (ha : a.Wf) (hb : b.Wf) :
    ∃ v, a.overlaps b = some v ∧ (v = true ↔ (a.denote ∩ b.denote).Nonempty) := by
  obtain ⟨r, hr, hwf, hden⟩ := intersect_spec ha hb
  refine ⟨!r.isEmpty, by rw [overlaps, hr]; rfl, ?_⟩
  rw [Bool.not_eq_true', ← Bool.not_eq_true, isEmpty_iff hwf, hden, Set.nonempty_iff_ne_empty]

end TimeRange

section
variable {s s' s'' : Str} {a b c : TimeRange}

/-- **Intersection is set intersection.** For ranges that the parser makes it is defined, denotes the
intersection, is empty in one form only, commutes and associates up to what it denotes, and `Overlaps`
says whether it has a nanosecond. -/
theorem intersect_exact (ha : parse s = .ok a) (hb : parse s' = .ok b) (hc : parse s'' = .ok c) :
    (∃ ab, a.intersect b = some ab ∧ ab.denote = a.denote ∩ b.denote ∧ (ab.denote = ∅ ↔ ab = .empty) ∧
      (∃ ba, b.intersect a = some ba ∧ ba.denote = ab.denote) ∧
      ∃ bc left right, b.intersect c = some bc ∧ ab.intersect c = some left ∧ a.intersect bc = some right ∧
        left.denote = right.denote) ∧
    ∃ v, a.overlaps b = some v ∧ (v = true ↔ (a.denote ∩ b.denote).Nonempty) := by
  have hawf := (parse_text ha).1
  have hbwf := (parse_text hb).1
  have hcwf := (parse_text hc).1
  obtain ⟨ab, hab, habwf, habd⟩ := TimeRange.intersect_spec hawf hbwf
  obtain ⟨ba, hba, -, hbad⟩ := TimeRange.intersect_spec hbwf hawf
  obtain ⟨bc, hbc, hbcwf, hbcd⟩ := TimeRange.intersect_spec hbwf hcwf
  obtain ⟨left, hleft, -, hleftd⟩ := TimeRange.intersect_spec habwf hcwf
  obtain ⟨right, hright, -, hrightd⟩ := TimeRange.intersect_spec hawf hbcwf
  refine ⟨⟨ab, hab, habd, ⟨?_, ?_⟩, ⟨ba, hba, ?_⟩, bc, left, right, hbc, hleft, hright, ?_⟩,
    TimeRange.overlaps_iff hawf hbwf⟩
  · intro he
    exact TimeRange.intersect_eq_empty hab ((TimeRange.isEmpty_iff habwf).mpr he)
  · intro he
    rw [he, TimeRange.denote_empty]
  · rw [hbad, habd, Set.inter_comm]
  · rw [hleftd, hrightd, habd, hbcd, Set.inter_assoc]

end

/-- The last nanosecond of the one range is the one that the other excludes. -/
theorem intersect_exact_adjacent :
    parse (lit "[0:0_1:0)") = .ok ⟨some ⟨0, 0⟩, .inclusive, some ⟨1, 0⟩, .exclusive⟩ ∧
    parse (lit "(0:999999999_2:0)") = .ok ⟨some ⟨0, 999999999⟩, .exclusive, some ⟨2, 0⟩, .exclusive⟩ ∧
    (⟨some ⟨0, 0⟩, .inclusive, some ⟨1, 0⟩, .exclusive⟩ : TimeRange).denote ∩
      (⟨some ⟨0, 999999999⟩, .exclusive, some ⟨2, 0⟩, .exclusive⟩ : TimeRange).denote = ∅ := by
  have ha : parse (lit "[0:0_1:0)") = .ok ⟨some ⟨0, 0⟩, .inclusive, some ⟨1, 0⟩, .exclusive⟩ := by decide
  have hb : parse (lit "(0:999999999_2:0)") = .ok ⟨some ⟨0, 999999999⟩, .exclusive, some ⟨2, 0⟩, .exclusive⟩ := by
    decide
  have hempty : (⟨some ⟨0, 0⟩, .inclusive, some ⟨1, 0⟩, .exclusive⟩ : TimeRange).intersect
      ⟨some ⟨0, 999999999⟩, .exclusive, some ⟨2, 0⟩, .exclusive⟩ = some .empty := by decide
  obtain ⟨⟨ab, hab, hden, hiff, -⟩, -⟩ := intersect_exact ha hb ha
  cases hab.symm.trans hempty
  exact ⟨ha, hb, hden.symm.trans (hiff.mpr rfl)⟩

/-! ## The empty string -/

/-- `()` is the text of the empty set only. -/
theorem RangeText.eq_empty {A : Set ℤ} {s : Str} (h : RangeText s A) (hs : s = lit "()") : A = ∅ := by
  cases h with
  | empty => rfl
  | @instant m m' t v _ _ _ _ ht =>
    have hmem : ch ':' ∈ m ++ (t ++ m') := by
      cases ht <;> simp
    rw [hs] at hmem
    exact absurd hmem (by decide)
  | @span m m' a b A B _ _ _ _ =>
    have hmem : ch '_' ∈ m ++ (a ++ ch '_' :: b ++ m') := by simp
    rw [hs] at hmem
    exact absurd hmem (by decide)

theorem TimeRange.string_of_empty {tr : TimeRange} (h : tr.Wf) (he : tr.denote = ∅) : tr.string = some (lit "()") := by
  rw [TimeRange.string, if_pos ((TimeRange.isEmpty_iff h).mpr he)]

end OpenTams
