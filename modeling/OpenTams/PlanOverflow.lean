import OpenTams.Dataset
import OpenTams.Doubles

/-!
# Plans and overflow

What `Compose` computes against the integers it stands for. The product of the deep
flows is compared with the target after it may have wrapped, and the number of shallow
flows is the nearest integer to a quotient of doubles.
-/

namespace OpenTams.Dataset

open Doubles

/-! ## The number of shallow flows -/

/-- The quotient in doubles, rounded half up. -/
def nearestQuotient (a b : ℤ) : ℤ := ⌊nearest (nearest a / nearest b) + 1 / 2⌋

theorem round_isDouble {u : Float.Model.UnpackedFloat} {x : ℚ} {lo hi : ℤ} (h : IsDouble u x lo hi) :
    round u = ⌊x + 1 / 2⌋ := by
  obtain ⟨m, e, hm, rfl, -, -, -, rfl⟩ := h
  cases e with
  | ofNat e =>
    have hint : (m : ℚ) * 2 ^ Int.ofNat e = ((m * 2 ^ e : ℤ) : ℚ) := by
      push_cast
      rw [Int.ofNat_eq_natCast, zpow_natCast]
    rw [hint, Int.floor_intCast_add, Int.floor_eq_zero_iff.mpr (by norm_num), add_zero]
    rfl
  | negSucc e =>
    have hquot : (m : ℚ) * 2 ^ Int.negSucc e + 1 / 2 = ((m + 2 ^ e : ℕ) : ℤ) / ((2 ^ (e + 1) : ℕ) : ℚ) := by
      rw [zpow_negSucc]
      push_cast
      rw [pow_succ]
      field_simp
    rw [hquot, Rat.floor_intCast_div_natCast]
    push_cast
    rfl

theorem roundQuotient_eq {a b : Int64} (ha : 0 < a.toInt) (hb : 0 < b.toInt) :
    roundQuotient a b = Int64.ofInt (nearestQuotient a.toInt b.toInt) := by
  have hdiv := div_nearest (ofInt64_nearest ha) (ofInt64_nearest hb) (by omega) (by omega)
  rw [roundQuotient, round_isDouble hdiv, nearestQuotient]

theorem nearestQuotient_bounds {a b : ℤ} (ha : 0 < a) (hlt : a < 2 ^ 63) (hb : 0 < b) :
    0 ≤ nearestQuotient a b ∧ nearestQuotient a b ≤ 2 ^ 63 := by
  have ha' : (1 : ℚ) ≤ a := by exact_mod_cast ha
  have hb' : (1 : ℚ) ≤ b := by exact_mod_cast hb
  have hx := one_le_nearest ha'
  have hy := one_le_nearest hb'
  have hx' : nearest a ≤ 2 ^ (63 : ℤ) := nearest_le_two_zpow (by linarith) (by exact_mod_cast hlt.le)
  have hpos : 0 < nearest a / nearest b := div_pos (by linarith) (by linarith)
  have hle : nearest a / nearest b ≤ 2 ^ (63 : ℤ) := (div_le_self (by linarith) hy).trans hx'
  have hq := nearest_le_two_zpow hpos hle
  have hq' := (zpow_pos two_pos _).trans_le (nearest_bounds hpos).1
  rw [nearestQuotient]
  constructor
  · exact Int.floor_nonneg.mpr (by linarith)
  · refine Int.lt_add_one_iff.mp (Int.floor_lt.mpr ?_)
    push_cast at hq ⊢
    norm_num at hq ⊢
    linarith

/-- The quotient in doubles is off by little more than the rounding. -/
theorem nearestQuotient_mul_le {a b : ℤ} (ha : 0 < a) (hb : 0 < b) :
    (nearestQuotient a b : ℚ) * b ≤ a + a / 2 ^ 50 + b / 2 := by
  have ha' : (0 : ℚ) < a := by exact_mod_cast ha
  have hb' : (0 : ℚ) < b := by exact_mod_cast hb
  obtain ⟨-, hx⟩ := nearest_error ha'
  obtain ⟨hy, -⟩ := nearest_error hb'
  have hypos : 0 < nearest b := by linarith
  have hxpos : 0 < nearest a := (zpow_pos two_pos _).trans_le (nearest_bounds ha').1
  obtain ⟨-, hq⟩ := nearest_error (div_pos hxpos hypos)
  have hfloor : (nearestQuotient a b : ℚ) ≤ nearest (nearest a / nearest b) + 1 / 2 := Int.floor_le _
  generalize nearest (nearest a / nearest b) = q at hq hfloor
  -- the quotient `z` before its rounding, times `b`
  have hz : nearest a / nearest b * nearest b = nearest a := div_mul_cancel₀ _ hypos.ne'
  have hzpos := div_pos hxpos hypos
  generalize nearest a / nearest b = z at hq hz hzpos
  have hzb : z * (b - b / 2 ^ 53) ≤ a + a / 2 ^ 53 := by
    rw [← hz] at hx
    exact (mul_le_mul_of_nonneg_left hy hzpos.le).trans hx
  have hqb := mul_le_mul_of_nonneg_right hq hb'.le
  have hrb := mul_le_mul_of_nonneg_right hfloor hb'.le
  rw [add_mul] at hrb hqb
  have hzb' : z * b * (1 - 1 / 2 ^ 53) = z * (b - b / 2 ^ 53) := by ring
  have hdiv : z / 2 ^ 53 * b = z * b / 2 ^ 53 := by ring
  rw [hdiv] at hqb
  linarith

/-! ## The counts -/

def Knobs.deepTotal (k : Knobs) : ℤ := k.deepFlowCount.toInt * k.deepDepth.toInt

def Knobs.shallowFlows (k : Knobs) : ℤ :=
  if 0 < k.targetSegments.toInt - k.deepTotal then
    nearestQuotient (k.targetSegments.toInt - k.deepTotal) k.shallowDepth.toInt
  else 0

/-- The deep segments, all segments, and the flows with the members of a source are in the range of `int64`. -/
structure Knobs.InRange (k : Knobs) : Prop where
  deep : k.deepTotal < 2 ^ 63
  segments : k.deepTotal + k.shallowFlows * k.shallowDepth.toInt < 2 ^ 63
  flows : k.deepFlowCount.toInt + k.shallowFlows + k.renditionsPerSource.toInt < 2 ^ 63

/-- Every operation of `Compose` has the result that it has on integers, the deep segments are at most 110 percent of
the target, and no count is negative. -/
structure Plan.Unwrapped (p : Plan) : Prop where
  deepSegments : p.deepSegments.toInt = p.deepFlowCount.toInt * p.deepDepth.toInt
  limit : p.targetSegments.toInt + p.targetSegments.toInt / 10 < 2 ^ 63
  deepBound : 10 * p.deepSegments.toInt ≤ 11 * p.targetSegments.toInt
  shallowTarget : (p.targetSegments - p.deepSegments).toInt = p.targetSegments.toInt - p.deepSegments.toInt
  shallowFlows : p.shallowFlowCount.toInt = p.toKnobs.shallowFlows
  shallowSegments : p.shallowSegments.toInt = p.shallowFlowCount.toInt * p.shallowDepth.toInt
  totalSegments : p.totalSegments.toInt = p.deepSegments.toInt + p.shallowSegments.toInt
  totalFlows : p.totalFlows.toInt = p.deepFlowCount.toInt + p.shallowFlowCount.toInt
  members : 0 < p.totalFlows.toInt → p.totalFlows.toInt + p.renditionsPerSource.toInt < 2 ^ 63
  sources : p.sourcesCount.toInt =
    (p.totalFlows.toInt + p.renditionsPerSource.toInt - 1) / p.renditionsPerSource.toInt
  collectionRows : p.flowCollectionRows.toInt = p.totalFlows.toInt - p.sourcesCount.toInt
  nonneg : 0 ≤ p.totalSegments.toInt ∧ 0 ≤ p.totalFlows.toInt ∧ 0 ≤ p.flowCollectionRows.toInt

section
variable {a b : Int64}

theorem toInt_add_eq (hlow : -2 ^ 63 ≤ a.toInt + b.toInt) (hhigh : a.toInt + b.toInt < 2 ^ 63) :
    (a + b).toInt = a.toInt + b.toInt := by
  rw [Int64.toInt_add]
  exact bmod64 hlow hhigh

theorem toInt_sub_eq (hlow : -2 ^ 63 ≤ a.toInt - b.toInt) (hhigh : a.toInt - b.toInt < 2 ^ 63) :
    (a - b).toInt = a.toInt - b.toInt := by
  rw [Int64.toInt_sub]
  exact bmod64 hlow hhigh

theorem toInt_mul_eq (hlow : -2 ^ 63 ≤ a.toInt * b.toInt) (hhigh : a.toInt * b.toInt < 2 ^ 63) :
    (a * b).toInt = a.toInt * b.toInt := by
  rw [Int64.toInt_mul]
  exact bmod64 hlow hhigh

theorem toInt_div_eq (ha : 0 ≤ a.toInt) (hb : 0 < b.toInt) : (a / b).toInt = a.toInt / b.toInt := by
  have hlt := a.toInt_lt
  have hlow := Int.ediv_nonneg ha hb.le
  have hhigh := Int.ediv_le_self b.toInt ha
  rw [Int64.toInt_div, Int.tdiv_eq_ediv_of_nonneg ha]
  exact bmod64 (by omega) (by omega)

end

section
variable {p : Plan}

theorem deepTotal_nonneg (hc : p.Checked) : 0 ≤ p.deepTotal := mul_nonneg hc.deepFlows hc.deepDepth.le

/-- The target with a tenth of it, where the sum has wrapped, is below every product that has not. -/
theorem deep_bound (hc : p.Checked) (hp : p.Computed) (hdeep : p.deepTotal < 2 ^ 63) :
    p.deepSegments.toInt = p.deepTotal ∧ p.targetSegments.toInt + p.targetSegments.toInt / 10 < 2 ^ 63 ∧
      p.deepTotal ≤ p.targetSegments.toInt + p.targetSegments.toInt / 10 := by
  have hnonneg := deepTotal_nonneg hc
  have htarget := hp.target
  have hlt := p.targetSegments.toInt_lt
  have hdeepSegments : p.deepSegments.toInt = p.deepTotal := by
    rw [hp.deepSegments]
    exact toInt_mul_eq (by rw [Knobs.deepTotal] at hnonneg; omega) hdeep
  have htenth : (p.targetSegments / 10).toInt = p.targetSegments.toInt / 10 := toInt_div_eq htarget.le (by decide)
  have hbound := Int64.le_iff_toInt_le.mp hp.bound
  rw [hdeepSegments, Int64.toInt_add, htenth] at hbound
  have hfits : p.targetSegments.toInt + p.targetSegments.toInt / 10 < 2 ^ 63 := by
    by_contra hge
    rw [Int.bmod_def] at hbound
    split at hbound <;> omega
  rw [bmod64 (by omega) hfits] at hbound
  exact ⟨hdeepSegments, hfits, hbound⟩

theorem shallowFlows_nonneg (hc : p.Checked) : 0 ≤ p.shallowFlows := by
  have hlt := p.targetSegments.toInt_lt
  have hnonneg := deepTotal_nonneg hc
  rw [Knobs.shallowFlows]
  split
  · rename_i hpos
    exact (nearestQuotient_bounds hpos (by omega) hc.shallowDepth).1
  · exact le_refl 0

/-- The number of shallow flows as it is before the conversion to `int64`. -/
theorem shallowFlowCount_eq (hc : p.Checked) (hp : p.Computed) (hdeep : p.deepSegments.toInt = p.deepTotal) :
    (p.targetSegments - p.deepSegments).toInt = p.targetSegments.toInt - p.deepTotal ∧
      p.shallowFlowCount = Int64.ofInt p.shallowFlows := by
  have hlt := p.targetSegments.toInt_lt
  have htarget := hp.target
  have hnonneg := deepTotal_nonneg hc
  have hmax := p.deepSegments.toInt_lt
  have hsub : (p.targetSegments - p.deepSegments).toInt = p.targetSegments.toInt - p.deepTotal := by
    rw [toInt_sub_eq (by omega) (by omega), hdeep]
  have hiff : 0 < p.targetSegments - p.deepSegments ↔ 0 < p.targetSegments.toInt - p.deepTotal := by
    rw [Int64.lt_iff_toInt_lt, hsub, Int64.toInt_zero]
  refine ⟨hsub, ?_⟩
  rw [hp.shallowFlows, Knobs.shallowFlows]
  by_cases hpos : 0 < p.targetSegments.toInt - p.deepTotal
  · rw [if_pos (hiff.mpr hpos), if_pos hpos, roundQuotient_eq (by rwa [hsub]) hc.shallowDepth, hsub]
  · rw [if_neg (mt hiff.mp hpos), if_neg hpos]
    rfl

/-- Whatever has wrapped, a positive number of flows is the sum of the two. -/
theorem flows_of_pos (hc : p.Checked) (hp : p.Computed) (h : 0 < p.totalFlows.toInt) :
    0 ≤ p.shallowFlowCount.toInt ∧ p.totalFlows.toInt = p.deepFlowCount.toInt + p.shallowFlowCount.toInt := by
  have hdeep := hc.deepFlows
  have hlt := p.deepFlowCount.toInt_lt
  have hlt' := p.shallowFlowCount.toInt_lt
  have hcount : 0 ≤ p.shallowFlowCount.toInt ∨ p.shallowFlowCount.toInt = -2 ^ 63 := by
    rw [hp.shallowFlows]
    split
    · rename_i hpos
      rw [Int64.lt_iff_toInt_lt, Int64.toInt_zero] at hpos
      obtain ⟨hlow, hhigh⟩ := nearestQuotient_bounds hpos (Int64.toInt_lt _) hc.shallowDepth
      rw [roundQuotient_eq hpos hc.shallowDepth, Int64.toInt_ofInt, show Int64.size = 2 ^ 64 from rfl, Int.bmod_def]
      split <;> omega
    · exact Or.inl (le_refl 0)
  rw [hp.totalFlows, Int64.toInt_add, Int.bmod_def] at h ⊢
  split at h
  · rename_i hsmall
    rw [if_pos hsmall]
    omega
  · omega

theorem sources_eq (hc : p.Checked) (hnonneg : 0 ≤ p.totalFlows.toInt)
    (hmembers : p.totalFlows.toInt + p.renditionsPerSource.toInt < 2 ^ 63) :
    p.sourcesCount.toInt = (p.totalFlows.toInt + p.renditionsPerSource.toInt - 1) / p.renditionsPerSource.toInt := by
  have hrends := hc.renditions
  rw [hc.sources]
  by_cases hpos : 0 < p.totalFlows
  · have hsum : (p.totalFlows + p.renditionsPerSource).toInt = p.totalFlows.toInt + p.renditionsPerSource.toInt :=
      toInt_add_eq (by omega) hmembers
    have hpred : (p.totalFlows + p.renditionsPerSource - 1).toInt =
        p.totalFlows.toInt + p.renditionsPerSource.toInt - 1 := by
      rw [toInt_sub_eq (by rw [hsum, Int64.toInt_one]; omega) (by rw [hsum, Int64.toInt_one]; omega), hsum,
        Int64.toInt_one]
    rw [if_pos hpos, toInt_div_eq (by rw [hpred]; omega) hrends, hpred]
  · rw [Int64.lt_iff_toInt_lt, Int64.toInt_zero] at hpos
    rw [if_neg (by rwa [Int64.lt_iff_toInt_lt, Int64.toInt_zero]), Int64.toInt_zero,
      Int.ediv_eq_zero_of_lt (by omega) (by omega)]

/-- There are as many sources as flows at most, so that the rows of the collections are not negative. -/
theorem collectionRows_eq (hc : p.Checked) (hnonneg : 0 ≤ p.totalFlows.toInt)
    (hmembers : p.totalFlows.toInt + p.renditionsPerSource.toInt < 2 ^ 63) :
    0 ≤ p.flowCollectionRows.toInt ∧ p.flowCollectionRows.toInt = p.totalFlows.toInt - p.sourcesCount.toInt := by
  have hrends := hc.renditions
  have hsources := sources_eq hc hnonneg hmembers
  have hpos : 0 ≤ p.sourcesCount.toInt := by
    rw [hsources]
    exact Int.ediv_nonneg (by omega) hrends.le
  have hle : p.sourcesCount.toInt ≤ p.totalFlows.toInt := by
    have hmul : p.totalFlows.toInt ≤ p.totalFlows.toInt * p.renditionsPerSource.toInt :=
      le_mul_of_one_le_right hnonneg hrends
    rw [hsources]
    exact Int.lt_add_one_iff.mp (Int.ediv_lt_of_lt_mul hrends (by rw [Int.add_mul]; omega))
  have hrows : p.flowCollectionRows.toInt = p.totalFlows.toInt - p.sourcesCount.toInt := by
    rw [hc.collections]
    exact toInt_sub_eq (by omega) (by omega)
  exact ⟨by omega, hrows⟩

theorem unwrapped_of_inRange (hc : p.Checked) (hp : p.Computed) (h : p.toKnobs.InRange) : p.Unwrapped := by
  obtain ⟨hdeep, hsegments, hflows⟩ := h
  obtain ⟨hdeepSegments, hlimit, hbound⟩ := deep_bound hc hp hdeep
  obtain ⟨hsub, hcount⟩ := shallowFlowCount_eq hc hp hdeepSegments
  have hnonneg := deepTotal_nonneg hc
  have hshallow := shallowFlows_nonneg hc
  have hdepth := hc.shallowDepth
  have hcountFlows := hc.deepFlows
  have hrends := hc.renditions
  have hproduct : p.shallowFlows ≤ p.shallowFlows * p.shallowDepth.toInt := le_mul_of_one_le_right hshallow hdepth
  have hshallowFlows : p.shallowFlowCount.toInt = p.shallowFlows := by
    rw [hcount, Int64.toInt_ofInt]
    exact bmod64 (by omega) (by omega)
  have hshallowSegments : p.shallowSegments.toInt = p.shallowFlowCount.toInt * p.shallowDepth.toInt := by
    rw [hp.shallowSegments]
    exact toInt_mul_eq (by rw [hshallowFlows]; omega) (by rw [hshallowFlows]; omega)
  have htotalSegments : p.totalSegments.toInt = p.deepSegments.toInt + p.shallowSegments.toInt := by
    rw [hp.totalSegments]
    exact toInt_add_eq (by rw [hdeepSegments, hshallowSegments, hshallowFlows]; omega)
      (by rw [hdeepSegments, hshallowSegments, hshallowFlows]; exact hsegments)
  have htotalFlows : p.totalFlows.toInt = p.deepFlowCount.toInt + p.shallowFlowCount.toInt := by
    rw [hp.totalFlows]
    exact toInt_add_eq (by omega) (by omega)
  obtain ⟨hrowsNonneg, hrows⟩ := collectionRows_eq hc (by omega) (by omega)
  exact {
    deepSegments := hdeepSegments
    limit := hlimit
    deepBound := by omega
    shallowTarget := by rw [hsub, hdeepSegments]
    shallowFlows := hshallowFlows
    shallowSegments := hshallowSegments
    totalSegments := htotalSegments
    totalFlows := htotalFlows
    members := fun _ => by omega
    sources := sources_eq hc (by omega) (by omega)
    collectionRows := hrows
    nonneg := ⟨by rw [htotalSegments, hdeepSegments, hshallowSegments, hshallowFlows]; omega, by omega, hrowsNonneg⟩ }

theorem inRange_of_unwrapped (h : p.Unwrapped) : p.toKnobs.InRange := by
  have hdeep : p.deepSegments.toInt = p.deepTotal := h.deepSegments
  have hshallow := h.shallowSegments
  rw [h.shallowFlows] at hshallow
  refine ⟨?_, ?_, ?_⟩
  · rw [← hdeep]
    exact p.deepSegments.toInt_lt
  · rw [← hdeep, ← hshallow, ← h.totalSegments]
    exact p.totalSegments.toInt_lt
  · have hflows := h.totalFlows
    rw [h.shallowFlows] at hflows
    rw [← hflows]
    by_cases hpos : 0 < p.totalFlows.toInt
    · exact h.members hpos
    · have hlt := p.renditionsPerSource.toInt_lt
      omega

end

/-- The plan that `Compose` returns is that of the integers if and only if they are in the range of `int64`. -/
theorem compose_unwrapped_iff {k : Knobs} {p : Plan} (hp : compose k = .ok p) : p.Unwrapped ↔ k.InRange := by
  obtain ⟨rfl, hc, hcomputed⟩ := compose_ok hp
  exact ⟨inRange_of_unwrapped, unwrapped_of_inRange hc hcomputed⟩

/-- Below 2^62 the product of the deep flows is the only count that can wrap. -/
theorem inRange_of_le {k : Knobs} {p : Plan} (hp : compose k = .ok p) (hdeep : k.deepTotal < 2 ^ 63)
    (htarget : k.targetSegments.toInt ≤ 2 ^ 62) (hdepth : k.shallowDepth.toInt ≤ 2 ^ 62)
    (hrends : k.renditionsPerSource.toInt ≤ 2 ^ 60) : k.InRange := by
  obtain ⟨rfl, hc, hcomputed⟩ := compose_ok hp
  obtain ⟨-, -, hbound⟩ := deep_bound hc hcomputed hdeep
  have hnonneg := deepTotal_nonneg hc
  have hflows : p.deepFlowCount.toInt ≤ p.deepTotal := le_mul_of_one_le_right hc.deepFlows hc.deepDepth
  by_cases hpos : 0 < p.targetSegments.toInt - p.deepTotal
  · have hshallow : p.shallowFlows = nearestQuotient (p.targetSegments.toInt - p.deepTotal) p.shallowDepth.toInt :=
      if_pos hpos
    have hmul : p.shallowFlows ≤ p.shallowFlows * p.shallowDepth.toInt :=
      le_mul_of_one_le_right (shallowFlows_nonneg hc) hc.shallowDepth
    have hle : p.shallowFlows * p.shallowDepth.toInt ≤ p.targetSegments.toInt - p.deepTotal + 2 ^ 12 + 2 ^ 61 := by
      have hq := nearestQuotient_mul_le hpos hc.shallowDepth
      have ht : ((p.targetSegments.toInt - p.deepTotal : ℤ) : ℚ) ≤ 2 ^ 62 := by exact_mod_cast (by omega)
      have hd : (p.shallowDepth.toInt : ℚ) ≤ 2 ^ 62 := by exact_mod_cast hdepth
      rw [← hshallow] at hq
      generalize p.targetSegments.toInt - p.deepTotal = t at hq ht
      have hcast : ((p.shallowFlows * p.shallowDepth.toInt : ℤ) : ℚ) ≤ ((t + 2 ^ 12 + 2 ^ 61 : ℤ) : ℚ) := by
        push_cast
        linarith
      exact_mod_cast hcast
    exact ⟨hdeep, by omega, by omega⟩
  · have hshallow : p.shallowFlows = 0 := if_neg hpos
    exact ⟨hdeep, by rw [hshallow]; omega, by rw [hshallow]; omega⟩

theorem smallKnobs_unwrapped : compose smallKnobs = .ok smallPlan ∧ smallPlan.Unwrapped :=
  ⟨compose_smallKnobs, (compose_unwrapped_iff compose_smallKnobs).mpr
    (inRange_of_le compose_smallKnobs (by decide) (by decide) (by decide) (by decide))⟩

def wrappedKnobs : Knobs := ⟨10, 6, 4294967296, 3, 4294967296, 2⟩

def wrappedPlan : Plan := { wrappedKnobs with
  deepSegments := 0
  shallowFlowCount := 3
  shallowSegments := 9
  totalSegments := 9
  totalFlows := 4294967299
  sourcesCount := 2147483650
  flowCollectionRows := 2147483649
  objectsCount := 9 }

/-- A target of 10 segments, and 2^64 deep ones that are counted as none. -/
theorem wrappedPlan_accepted : compose wrappedKnobs = .ok wrappedPlan ∧ ¬ wrappedPlan.Unwrapped := by
  have hp : compose wrappedKnobs = .ok wrappedPlan := by decide +kernel
  exact ⟨hp, fun h => absurd h.deepSegments (by decide)⟩

end OpenTams.Dataset
