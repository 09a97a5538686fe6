import Mathlib.Data.Int.ConditionallyCompleteOrder
import Mathlib.Order.CompletePartialOrder
import Mathlib.Order.ConditionallyCompleteLattice.Basic
import Mathlib.Order.Interval.Set.Basic
import OpenTams.Intersect
import OpenTams.TimestampExact

/-!
# Membership and bounds on whole nanoseconds

`IsEmpty`, `Contains` and `NsBounds` compare and convert pairs of seconds and
nanoseconds; what they answer is what the set of integers that the range denotes
says. Each is restated with its machine operations done over the integers and
their results required to fit, in the order in which the source evaluates them,
and answers the same.
-/

namespace OpenTams

/-! ## Membership -/

namespace Timestamp

def nextExact (ts : Timestamp) : Option Timestamp :=
  if ts.nanoseconds.toInt64 < nsPerSec - 1 then do
    let nanoseconds ← exact32 (ts.nanoseconds.toInt + 1)
    some ⟨ts.seconds, nanoseconds⟩
  else do
    let seconds ← exact64 (ts.seconds.toInt + 1)
    some ⟨seconds, 0⟩

variable {ts other : Timestamp}

theorem nextExact_eq (h : ts.Valid) (h' : other.Valid) (hlt : ts.value < other.value) :
    ts.nextExact = some ts.next := by
  obtain ⟨h1, h2⟩ := h
  obtain ⟨h3, h4⟩ := h'
  have hmax := other.seconds.toInt_lt
  have hmin := ts.seconds.le_toInt
  have hlast : (nsPerSec - 1).toInt = 999999999 := by decide
  unfold value at hlt
  unfold nextExact next
  by_cases hn : ts.nanoseconds.toInt64 < nsPerSec - 1
  · rw [if_pos hn, if_pos hn]
    rw [exact32_eq (toInt_succ32 (by omega))]
    rfl
  · rw [if_neg hn, if_neg hn]
    rw [Int64.lt_iff_toInt_lt, Int32.toInt_toInt64, hlast] at hn
    rw [exact64_eq (toInt_succ64 (by omega))]
    rfl

end Timestamp

namespace TimeRange

def isEmptyExact (tr : TimeRange) : Option Bool :=
  match tr.start, tr.endTs with
  | none, none => some (tr.startType ≠ .unbounded || tr.endType ≠ .unbounded)
  | none, some _ => some false
  | some _, none => some false
  | some s, some e =>
    if e.before s then some true
    else if s.equal e then some (tr.startType = .exclusive || tr.endType = .exclusive)
    else if tr.startType = .exclusive && tr.endType = .exclusive then do
      let next ← s.nextExact
      some (e.equal next)
    else some false

def containsExact (tr : TimeRange) (ts : Timestamp) : Option Bool := do
  let empty ← tr.isEmptyExact
  some (if empty then false
    else if tr.isEternity then true
    else if tr.startsAfter ts then false
    else if tr.endsBefore ts then false
    else true)

variable {tr : TimeRange} {ts : Timestamp}

theorem isEmptyExact_eq (h : tr.Wf) : tr.isEmptyExact = some tr.isEmpty := by
  rcases h with rfl | ⟨hs, he⟩
  · rfl
  obtain ⟨start, sty, endTs, ety⟩ := tr
  unfold isEmptyExact isEmpty
  rcases hs with ⟨rfl, -⟩ | ⟨s, rfl, hsv, -⟩
  · rcases he with ⟨rfl, -⟩ | ⟨e, rfl, -, -⟩
    · rfl
    · rfl
  rcases he with ⟨rfl, -⟩ | ⟨e, rfl, hev, -⟩
  · rfl
  dsimp only
  by_cases hb : e.before s = true
  · rw [if_pos hb, if_pos hb]
  rw [if_neg hb, if_neg hb]
  by_cases heq : s.equal e = true
  · rw [if_pos heq, if_pos heq]
  rw [if_neg heq, if_neg heq]
  by_cases hx : (decide (sty = .exclusive) && decide (ety = .exclusive)) = true
  · rw [if_pos hx, if_pos hx]
    -- the end is a later timestamp
    rw [Timestamp.before_iff hev hsv] at hb
    rw [Timestamp.equal_iff hsv hev] at heq
    rw [Timestamp.nextExact_eq hsv hev (by omega)]
    rfl
  · rw [if_neg hx, if_neg hx]

theorem containsExact_eq (h : tr.Wf) (ts : Timestamp) : tr.containsExact ts = some (tr.contains ts) := by
  rw [containsExact, isEmptyExact_eq h]
  rfl

theorem startsAfter_iff (h : SideWf tr.start tr.startType) (hts : ts.Valid) :
    tr.startsAfter ts = false ↔ ts.value ∈ lowerSet tr.start tr.startType := by
  unfold startsAfter
  rcases h with ⟨hs, hty⟩ | ⟨s, hs, hsv, hty⟩
  · rw [hs, hty]
    simp [lowerSet]
  rw [hs]
  cases hk : tr.startType with
  | unbounded => exact absurd hk hty
  | inclusive =>
    show ts.before s = false ↔ s.value ≤ ts.value
    rw [← Bool.not_eq_true, Timestamp.before_iff hts hsv]
    omega
  | exclusive =>
    show (ts.before s || ts.equal s) = false ↔ s.value < ts.value
    rw [← Bool.not_eq_true, Bool.or_eq_true, Timestamp.before_iff hts hsv, Timestamp.equal_iff hts hsv]
    omega

theorem endsBefore_iff (h : SideWf tr.endTs tr.endType) (hts : ts.Valid) :
    tr.endsBefore ts = false ↔ ts.value ∈ upperSet tr.endTs tr.endType := by
  unfold endsBefore
  rcases h with ⟨he, hty⟩ | ⟨e, he, hev, hty⟩
  · rw [he, hty]
    simp [upperSet]
  rw [he]
  cases hk : tr.endType with
  | unbounded => exact absurd hk hty
  | inclusive =>
    show e.before ts = false ↔ ts.value ≤ e.value
    rw [← Bool.not_eq_true, Timestamp.before_iff hev hts]
    omega
  | exclusive =>
    show (e.before ts || e.equal ts) = false ↔ ts.value < e.value
    rw [← Bool.not_eq_true, Bool.or_eq_true, Timestamp.before_iff hev hts, Timestamp.equal_iff hev hts]
    omega

theorem contains_iff (h : tr.Wf) (hts : ts.Valid) : tr.contains ts = true ↔ ts.value ∈ tr.denote := by
  unfold contains
  by_cases hem : tr.isEmpty = true
  · rw [if_pos hem, (isEmpty_iff h).mp hem]
    simp
  rw [if_neg hem]
  by_cases het : tr.isEternity = true
  · rw [if_pos het, denote_eternity h het]
    simp
  rw [if_neg het]
  rcases h with rfl | ⟨hs, he⟩
  · exact absurd rfl hem
  rw [denote, Set.mem_inter_iff, ← startsAfter_iff hs hts, ← endsBefore_iff he hts]
  cases tr.startsAfter ts <;> cases tr.endsBefore ts <;> simp

end TimeRange

section
variable {s : Str} {tr : TimeRange} {ts : Timestamp}

/-- **Emptiness and membership are exact on whole nanoseconds**, and no addition of `next` overflows. -/
theorem membership_exact (h : parse s = .ok tr) (hts : ts.Valid) :
    (tr.isEmpty = true ↔ tr.denote = ∅) ∧ (tr.contains ts = true ↔ ts.value ∈ tr.denote) ∧
      tr.isEmptyExact = some tr.isEmpty ∧ tr.containsExact ts = some (tr.contains ts) := by
  have hwf := (parse_text h).1
  exact ⟨TimeRange.isEmpty_iff hwf, TimeRange.contains_iff hwf hts, TimeRange.isEmptyExact_eq hwf,
    TimeRange.containsExact_eq hwf ts⟩

end

/-- A range between two neighbours at the greatest second. -/
theorem membership_exact_last :
    ∃ tr, parse (lit "(9223372036854775807:999999998_9223372036854775807:999999999)") = .ok tr ∧ tr.denote = ∅ ∧
      tr.isEmptyExact = some true := by
  have hp : parse (lit "(9223372036854775807:999999998_9223372036854775807:999999999)") =
      .ok ⟨some ⟨Int64.maxValue, 999999998⟩, .exclusive, some ⟨Int64.maxValue, 999999999⟩, .exclusive⟩ := by decide
  have hts : (⟨0, 0⟩ : Timestamp).Valid := ⟨by decide, by decide⟩
  obtain ⟨hempty, -, hexact, -⟩ := membership_exact hp hts
  exact ⟨_, hp, hempty.mp (by decide), hexact⟩

/-! ## Bounds -/

def overMax (v ns : Int64) : Option Bool :=
  if 0 < ns then do
    let limit ← exact64 (Int64.maxValue.toInt - ns.toInt)
    some (decide (limit < v))
  else some false

def underMin (v ns : Int64) : Option Bool :=
  if ns < 0 then do
    let limit ← exact64 (Int64.minValue.toInt - ns.toInt)
    some (decide (v < limit))
  else some false

/-- `v + ns`, if it fits; the second check is made where the first does not hold. -/
def sumFit (v ns : Int64) : Option (Option Int64) := do
  let above ← overMax v ns
  let below ← if above then some false else underMin v ns
  if above || below then some none
  else do
    let sum ← exact64 (v.toInt + ns.toInt)
    some (some sum)

def nanosFit (s ns : Int64) : Option (Option Int64) :=
  if Int64.maxValue / nsPerSec < s || s < Int64.minValue / nsPerSec then some none
  else do
    let v ← exact64 (s.toInt * nsPerSec.toInt)
    sumFit v ns

def Timestamp.nanosExact (ts : Timestamp) : Option (Option Int64) :=
  if ts.seconds < 0 && 0 < ts.nanoseconds.toInt64 then do
    let s ← exact64 (ts.seconds.toInt + 1)
    let ns ← exact64 (ts.nanoseconds.toInt - nsPerSec.toInt)
    nanosFit s ns
  else do
    let ns ← exact64 ts.nanoseconds.toInt
    nanosFit ts.seconds ns

def boundNanosExact (ts : Timestamp) (addOne : Bool) : Option (Option Int64) := do
  let v ← ts.nanosExact
  match v with
  | none => some none
  | some v =>
    if addOne && v = Int64.maxValue then some none
    else if addOne then do
      let next ← exact64 (v.toInt + 1)
      some (some next)
    else some (some v)

def sideExact (side : Option Timestamp) (addOne : Bool) : Option (Option (Int64 × Bool)) :=
  match side with
  | none => some (some (0, true))
  | some ts => do
    let v ← boundNanosExact ts addOne
    some (v.map (·, false))

def TimeRange.nsBoundsExact (tr : TimeRange) : Option (Except NsError NsBounds) := do
  let empty ← tr.isEmptyExact
  if empty then some (.error .emptyRange)
  else
    let lower ← sideExact tr.start (tr.startType = .exclusive)
    match lower with
    | none => some (.error .startOutOfRange)
    | some (lo, lu) =>
      let upper ← sideExact tr.endTs (tr.endType = .inclusive)
      match upper with
      | none => some (.error .endOutOfRange)
      | some (hi, uu) => some (.ok ⟨lo, hi, lu, uu⟩)

section
variable {s v ns : Int64}

theorem overMax_eq : overMax v ns = some (decide (0 < ns) && decide (Int64.maxValue - ns < v)) := by
  unfold overMax
  by_cases hpos : 0 < ns
  · rw [if_pos hpos, exact64_eq (toInt_maxValue_sub hpos), decide_eq_true hpos, Bool.true_and]
    rfl
  · rw [if_neg hpos, decide_eq_false hpos, Bool.false_and]

theorem underMin_eq : underMin v ns = some (decide (ns < 0) && decide (v < Int64.minValue - ns)) := by
  unfold underMin
  by_cases hneg : ns < 0
  · rw [if_pos hneg, exact64_eq (toInt_minValue_sub hneg), decide_eq_true hneg, Bool.true_and]
    rfl
  · rw [if_neg hneg, decide_eq_false hneg, Bool.false_and]

theorem sum_lt_of_not_over (h : ¬ (0 < ns ∧ Int64.maxValue - ns < v)) : v.toInt + ns.toInt < 2 ^ 63 := by
  have hhi := v.toInt_lt
  by_cases hpos : 0 < ns
  · have hv : ¬ Int64.maxValue - ns < v := fun hv => h ⟨hpos, hv⟩
    rw [Int64.lt_iff_toInt_lt, toInt_maxValue_sub hpos, Int64.toInt_maxValue] at hv
    omega
  · rw [Int64.lt_iff_toInt_lt, Int64.toInt_zero] at hpos
    omega

theorem le_sum_of_not_under (h : ¬ (ns < 0 ∧ v < Int64.minValue - ns)) : -2 ^ 63 ≤ v.toInt + ns.toInt := by
  have hlo := v.le_toInt
  by_cases hneg : ns < 0
  · have hv : ¬ v < Int64.minValue - ns := fun hv => h ⟨hneg, hv⟩
    rw [Int64.lt_iff_toInt_lt, toInt_minValue_sub hneg, Int64.toInt_minValue] at hv
    omega
  · rw [Int64.lt_iff_toInt_lt, Int64.toInt_zero] at hneg
    omega

theorem sumFit_eq :
    sumFit v ns = some (if (0 < ns && Int64.maxValue - ns < v) || (ns < 0 && v < Int64.minValue - ns) then none
      else some (v + ns)) := by
  unfold sumFit
  rw [overMax_eq, underMin_eq]
  by_cases hover : 0 < ns ∧ Int64.maxValue - ns < v
  · simp only [hover.1, hover.2, decide_true, Bool.and_self, if_true, Bool.true_or, Option.bind_eq_bind,
      Option.bind_some]
  by_cases hunder : ns < 0 ∧ v < Int64.minValue - ns
  · simp only [← Bool.decide_and, hover, hunder, decide_true, decide_false, if_true, Bool.false_eq_true, if_false,
      Bool.and_self, Bool.or_true, Option.bind_eq_bind, Option.bind_some]
  have hsum : (v + ns).toInt = v.toInt + ns.toInt := by
    rw [Int64.toInt_add]
    exact bmod64 (le_sum_of_not_under hunder) (sum_lt_of_not_over hover)
  simp only [← Bool.decide_and, hover, hunder, decide_false, Bool.false_eq_true, if_false, Bool.or_self,
    Option.bind_eq_bind, Option.bind_some, exact64_eq hsum]

theorem nanosFit_eq :
    nanosFit s ns = some (if Int64.maxValue / nsPerSec < s || s < Int64.minValue / nsPerSec then none
      else if (0 < ns && Int64.maxValue - ns < s * nsPerSec) || (ns < 0 && s * nsPerSec < Int64.minValue - ns) then none
      else some (s * nsPerSec + ns)) := by
  have hmax : (Int64.maxValue / nsPerSec).toInt = 9223372036 := by decide
  have hmin : (Int64.minValue / nsPerSec).toInt = -9223372036 := by decide
  unfold nanosFit
  by_cases hs : (decide (Int64.maxValue / nsPerSec < s) || decide (s < Int64.minValue / nsPerSec)) = true
  · rw [if_pos hs, if_pos hs]
  rw [if_neg hs, if_neg hs]
  simp only [Bool.or_eq_true, decide_eq_true_eq, not_or, Int64.lt_iff_toInt_lt, hmax, hmin] at hs
  have hmul : (s * nsPerSec).toInt = s.toInt * nsPerSec.toInt := by
    rw [Int64.toInt_mul, toInt_nsPerSec]
    apply bmod64 <;> omega
  rw [exact64_eq hmul, Option.bind_eq_bind, Option.bind_some, sumFit_eq]

end

section
variable {ts : Timestamp} (h : ts.Valid)
include h

theorem Timestamp.nanosExact_eq : ts.nanosExact = some ts.nanos := by
  obtain ⟨h1, h2⟩ := h
  have hn : ts.nanoseconds.toInt64.toInt = ts.nanoseconds.toInt := Int32.toInt_toInt64 _
  unfold nanosExact nanos
  by_cases hb : (decide (ts.seconds < 0) && decide (0 < ts.nanoseconds.toInt64)) = true
  · simp only [hb, if_true]
    rw [Bool.and_eq_true, decide_eq_true_eq, decide_eq_true_eq, Int64.lt_iff_toInt_lt, Int64.lt_iff_toInt_lt, hn,
      Int64.toInt_zero] at hb
    have hmin := ts.seconds.le_toInt
    have hsec := toInt_succ64 (x := ts.seconds) (by omega)
    have hns : (ts.nanoseconds.toInt64 - nsPerSec).toInt = ts.nanoseconds.toInt - nsPerSec.toInt := by
      rw [Int64.toInt_sub, hn, toInt_nsPerSec]
      apply bmod64 <;> omega
    rw [exact64_eq hsec, exact64_eq hns, Option.bind_eq_bind, Option.bind_some, Option.bind_some]
    rw [nanosFit_eq]
  · simp only [hb]
    rw [exact64_eq hn, Option.bind_eq_bind, Option.bind_some, nanosFit_eq]
    rfl

theorem boundNanosExact_eq (addOne : Bool) : boundNanosExact ts addOne = some (boundNanos ts addOne) := by
  unfold boundNanosExact boundNanos
  rw [ts.nanosExact_eq h, Option.bind_eq_bind, Option.bind_some]
  cases ts.nanos with
  | none => rfl
  | some v =>
    dsimp only
    by_cases hmax : (addOne && decide (v = Int64.maxValue)) = true
    · rw [if_pos hmax, if_pos hmax]
    rw [if_neg hmax, if_neg hmax]
    cases addOne with
    | false => rfl
    | true =>
      have hne : v.toInt ≠ 2 ^ 63 - 1 := by
        intro he
        have hv : v = Int64.maxValue := Int64.toInt_inj.mp (he.trans (by decide))
        exact hmax (by simp [hv])
      have hlo := v.le_toInt
      have hhi := v.toInt_lt
      rw [exact64_eq (toInt_succ64 (by omega))]
      rfl

end

theorem sideExact_eq {side : Option Timestamp} {ty : BoundType} (h : SideWf side ty) (addOne : Bool) :
    sideExact side addOne = some (TimeRange.sideBound side addOne) := by
  unfold sideExact
  cases side with
  | none => rfl
  | some ts =>
    dsimp only
    rw [boundNanosExact_eq (h.valid rfl).1]
    rfl

namespace TimeRange

def BoundOutside (tr : TimeRange) : Prop :=
  (∃ s, tr.start = some s ∧ ∃ v, (v = s.value ∨ v = s.value + tr.startType.startShift) ∧ (v < -2 ^ 63 ∨ 2 ^ 63 ≤ v)) ∨
    ∃ e, tr.endTs = some e ∧ ∃ v, (v = e.value ∨ v = e.value + tr.endType.endShift) ∧ (v < -2 ^ 63 ∨ 2 ^ 63 ≤ v)

variable {tr : TimeRange}

theorem startShift_cases (ty : BoundType) : ty.startShift = 0 ∨ ty.startShift = 1 := by
  cases ty <;> simp [BoundType.startShift]

theorem endShift_cases (ty : BoundType) : ty.endShift = 0 ∨ ty.endShift = 1 := by
  cases ty <;> simp [BoundType.endShift]

theorem boundOutside_iff : tr.BoundOutside ↔ ¬ tr.FitsInt64 := by
  have hs := startShift_cases tr.startType
  have he := endShift_cases tr.endType
  constructor
  · rintro (⟨s, hstart, v, hv, hout⟩ | ⟨e, hend, v, hv, hout⟩) hf
    · have := hf.1 s hstart
      omega
    · have := hf.2 e hend
      omega
  · intro hf
    by_contra hout
    apply hf
    constructor
    · intro s hstart
      constructor
      · by_contra hv
        exact hout (Or.inl ⟨s, hstart, _, Or.inl rfl, by omega⟩)
      · by_contra hv
        exact hout (Or.inl ⟨s, hstart, _, Or.inr rfl, by omega⟩)
    · intro e hend
      constructor
      · by_contra hv
        exact hout (Or.inr ⟨e, hend, _, Or.inl rfl, by omega⟩)
      · by_contra hv
        exact hout (Or.inr ⟨e, hend, _, Or.inr rfl, by omega⟩)

theorem nsBounds_empty_iff (h : tr.Wf) : tr.nsBounds = .error .emptyRange ↔ tr.denote = ∅ := by
  rw [← isEmpty_iff h, nsBounds_eq]
  by_cases he : tr.isEmpty = true
  · simp [he]
  · rw [if_neg he]
    cases sideBound tr.start (tr.startType = .exclusive) with
    | none => simp [he]
    | some lo => cases sideBound tr.endTs (tr.endType = .inclusive) <;> simp [he]

theorem nsBounds_outside_iff (h : tr.Wf) (hne : tr.denote.Nonempty) :
    (tr.nsBounds = .error .startOutOfRange ∨ tr.nsBounds = .error .endOutOfRange) ↔ tr.BoundOutside := by
  rw [boundOutside_iff]
  constructor
  · intro herr hf
    obtain ⟨b, hb⟩ := nsBounds_ok h hne.ne_empty hf
    rw [hb] at herr
    rcases herr with herr | herr <;> cases herr
  · intro hf
    cases hb : tr.nsBounds with
    | ok b => exact absurd (fitsInt64_of_nsBounds h hb) hf
    | error e =>
      cases e with
      | emptyRange => exact absurd ((nsBounds_empty_iff h).mp hb) hne.ne_empty
      | startOutOfRange => exact Or.inl rfl
      | endOutOfRange => exact Or.inr rfl

theorem nsBoundsExact_eq (h : tr.Wf) : tr.nsBoundsExact = some tr.nsBounds := by
  rw [nsBoundsExact, nsBounds_eq, isEmptyExact_eq h, Option.bind_eq_bind, Option.bind_some]
  by_cases hem : tr.isEmpty = true
  · rw [if_pos hem, if_pos hem]
  rw [if_neg hem, if_neg hem]
  rcases h with rfl | ⟨hs, he⟩
  · exact absurd rfl hem
  rw [sideExact_eq hs, sideExact_eq he]
  cases sideBound tr.start (tr.startType = .exclusive) with
  | none => rfl
  | some lo => cases sideBound tr.endTs (tr.endType = .inclusive) <;> rfl

end TimeRange

section
variable {s : Str} {tr : TimeRange}

/-- **`NsBounds` is exact**: it refuses exactly the ranges it has to, and no 64-bit operation on the way wraps. -/
theorem nsBounds_exact (h : parse s = .ok tr) :
    (tr.nsBounds = .error .emptyRange ↔ tr.denote = ∅) ∧
      (tr.denote.Nonempty →
        ((tr.nsBounds = .error .startOutOfRange ∨ tr.nsBounds = .error .endOutOfRange) ↔ tr.BoundOutside)) ∧
      (tr.denote.Nonempty → ¬ tr.BoundOutside →
        ∃ b, tr.nsBounds = .ok b ∧ b.denote = tr.denote ∧
          (b.lowerUnbounded = false → b.upperUnbounded = false → b.lower < b.upper)) ∧
      tr.nsBoundsExact = some tr.nsBounds ∧
      ∀ ts, tr.start = some ts ∨ tr.endTs = some ts → ts.stringExact = some ts.string := by
  have hwf := (parse_text h).1
  refine ⟨TimeRange.nsBounds_empty_iff hwf, TimeRange.nsBounds_outside_iff hwf, ?_, TimeRange.nsBoundsExact_eq hwf, ?_⟩
  · intro hne hout
    rw [TimeRange.boundOutside_iff, not_not] at hout
    obtain ⟨b, hb⟩ := TimeRange.nsBounds_ok hwf hne.ne_empty hout
    have hden := (TimeRange.nsBounds_denote hwf hb).1
    refine ⟨b, hb, hden, fun hlo hhi => ?_⟩
    rw [← hden] at hne
    obtain ⟨n, hl, hu⟩ := hne
    rw [hlo] at hl
    rw [hhi] at hu
    rw [Int64.lt_iff_toInt_lt]
    simp only [Bool.false_eq_true, false_or] at hl hu
    omega
  · intro ts hts
    apply Timestamp.stringExact_eq
    rcases hwf with rfl | ⟨hstart, hend⟩
    · rcases hts with hts | hts <;> cases hts
    · rcases hts with hts | hts
      · exact (hstart.valid hts).1
      · exact (hend.valid hts).1

end

/-- The range of all `int64` nanoseconds but the last, whose end moves by one to the greatest. -/
theorem nsBounds_exact_limits :
    ∃ tr b, parse (lit "[-9223372036:854775808_9223372036:854775806]") = .ok tr ∧ tr.nsBounds = .ok b ∧
      b.denote = Set.Ico (-2 ^ 63) (2 ^ 63 - 1) ∧ tr.denote = b.denote := by
  have hp : parse (lit "[-9223372036:854775808_9223372036:854775806]") =
      .ok ⟨some ⟨-9223372037, 145224192⟩, .inclusive, some ⟨9223372036, 854775806⟩, .inclusive⟩ := by decide
  have hb : (⟨some ⟨-9223372037, 145224192⟩, .inclusive, some ⟨9223372036, 854775806⟩, .inclusive⟩ :
      TimeRange).nsBounds = .ok ⟨Int64.minValue, Int64.maxValue, false, false⟩ := by decide
  obtain ⟨-, hout, hok, -⟩ := nsBounds_exact hp
  have hne := TimeRange.denote_nonempty_of_nsBounds (parse_text hp).1 hb
  obtain ⟨b, hb', hden, -⟩ := hok hne fun h => by
    rcases (hout hne).mpr h with he | he <;> cases hb.symm.trans he
  cases hb.symm.trans hb'
  refine ⟨_, _, hp, hb, ?_, hden.symm⟩
  ext n
  simp only [NsBounds.denote, Bool.false_eq_true, false_or, Set.mem_ofPred_eq, Int64.toInt_minValue,
    Int64.toInt_maxValue, Set.mem_Ico]

end OpenTams
