import Mathlib.Data.Set.Basic
import Mathlib.Tactic.Ring
import OpenTams.Timerange

/-!
# What timeranges denote

A timestamp is an integer number of nanoseconds and a timerange a set of them.
The text of a range denotes a set by its grammar; the parser, the emptiness
test and the conversion to half-open bounds agree with that set.
-/

namespace OpenTams

/-! ## Machine integers -/

theorem bmod64 {x : ℤ} (h₁ : -2 ^ 63 ≤ x) (h₂ : x < 2 ^ 63) : x.bmod (2 ^ 64) = x :=
  Int.bmod_eq_of_le (by simpa using h₁) (by simpa using h₂)

theorem bmod32 {x : ℤ} (h₁ : -2 ^ 31 ≤ x) (h₂ : x < 2 ^ 31) : x.bmod (2 ^ 32) = x :=
  Int.bmod_eq_of_le (by simpa using h₁) (by simpa using h₂)

theorem toInt_toInt64 (x : UInt64) : x.toInt64.toInt = (x.toNat : ℤ).bmod (2 ^ 64) :=
  BitVec.toInt_eq_toNat_bmod _

@[simp] theorem toInt_nsPerSec : nsPerSec.toInt = 1000000000 := by decide

theorem toInt_succ64 {x : Int64} (h : x.toInt + 1 < 2 ^ 63) : (x + 1).toInt = x.toInt + 1 := by
  have hmin := x.le_toInt
  rw [Int64.toInt_add, Int64.toInt_one]
  exact bmod64 (by omega) h

theorem toInt_succ32 {x : Int32} (h : x.toInt + 1 < 2 ^ 31) : (x + 1).toInt = x.toInt + 1 := by
  have hmin := x.le_toInt
  rw [Int32.toInt_add, Int32.toInt_one]
  exact bmod32 (by omega) h

theorem toInt_maxValue_sub {x : Int64} (h : 0 < x) : (Int64.maxValue - x).toInt = Int64.maxValue.toInt - x.toInt := by
  have hmax := x.toInt_lt
  rw [Int64.lt_iff_toInt_lt, Int64.toInt_zero] at h
  rw [Int64.toInt_sub, Int64.toInt_maxValue]
  exact bmod64 (by omega) (by omega)

theorem toInt_minValue_sub {x : Int64} (h : x < 0) : (Int64.minValue - x).toInt = Int64.minValue.toInt - x.toInt := by
  have hmin := x.le_toInt
  rw [Int64.lt_iff_toInt_lt, Int64.toInt_zero] at h
  rw [Int64.toInt_sub, Int64.toInt_minValue]
  exact bmod64 (by omega) (by omega)

/-! ## Values of timestamps -/

def Timestamp.value (ts : Timestamp) : ℤ := ts.seconds.toInt * 1000000000 + ts.nanoseconds.toInt

/-- Floor-normalised, as every timestamp the parser makes. -/
def Timestamp.Valid (ts : Timestamp) : Prop :=
  0 ≤ ts.nanoseconds.toInt ∧ ts.nanoseconds.toInt < 1000000000

namespace Timestamp

variable {ts other : Timestamp}

theorem before_iff (h : ts.Valid) (h' : other.Valid) : ts.before other = true ↔ ts.value < other.value := by
  obtain ⟨h1, h2⟩ := h
  obtain ⟨h3, h4⟩ := h'
  unfold before value
  by_cases hs : ts.seconds = other.seconds
  · simp only [hs, ne_eq, not_true_eq_false, if_false, decide_eq_true_eq, Int32.lt_iff_toInt_lt]
    omega
  · have hne : ts.seconds.toInt ≠ other.seconds.toInt := fun e => hs (Int64.toInt_inj.mp e)
    simp only [ne_eq, hs, not_false_eq_true, if_true, decide_eq_true_eq, Int64.lt_iff_toInt_lt]
    omega

theorem value_inj (h : ts.Valid) (h' : other.Valid) (he : ts.value = other.value) : ts = other := by
  obtain ⟨h1, h2⟩ := h
  obtain ⟨h3, h4⟩ := h'
  unfold value at he
  have hs : ts.seconds = other.seconds := Int64.toInt_inj.mp (by omega)
  have hn : ts.nanoseconds = other.nanoseconds := Int32.toInt_inj.mp (by omega)
  cases ts; cases other
  cases hs; cases hn
  rfl

theorem equal_iff (h : ts.Valid) (h' : other.Valid) : ts.equal other = true ↔ ts.value = other.value := by
  constructor
  · intro he
    simp only [equal, Bool.and_eq_true, decide_eq_true_eq] at he
    unfold value
    rw [he.1, he.2]
  · intro he
    rw [value_inj h h' he]
    simp [equal]

theorem next_valid_value (h : ts.Valid) (h' : other.Valid) (hlt : ts.value < other.value) :
    ts.next.Valid ∧ ts.next.value = ts.value + 1 := by
  obtain ⟨h1, h2⟩ := h
  obtain ⟨h3, h4⟩ := h'
  have hmax := other.seconds.toInt_lt
  have hmin := ts.seconds.le_toInt
  have hc : ((nsPerSec : Int64) - 1).toInt = 999999999 := by decide
  unfold value at hlt
  unfold next
  by_cases hn : ts.nanoseconds.toInt64 < nsPerSec - 1
  · rw [if_pos hn]
    rw [Int64.lt_iff_toInt_lt, Int32.toInt_toInt64, hc] at hn
    have hadd := toInt_succ32 (x := ts.nanoseconds) (by omega)
    refine ⟨⟨?_, ?_⟩, ?_⟩
    · simp only [hadd]; omega
    · simp only [hadd]; omega
    · simp only [value, hadd]; omega
  · rw [if_neg hn]
    rw [Int64.lt_iff_toInt_lt, Int32.toInt_toInt64, hc] at hn
    have hadd := toInt_succ64 (x := ts.seconds) (by omega)
    refine ⟨⟨?_, ?_⟩, ?_⟩
    · simp only [Int32.toInt_zero]; omega
    · simp only [Int32.toInt_zero]; omega
    · simp only [value, hadd, Int32.toInt_zero]; omega

theorem nanos_fit (s ns : Int64) (h₁ : -1000000000 < ns.toInt) (h₂ : ns.toInt < 1000000000)
    (hpos : 0 < s.toInt → 0 ≤ ns.toInt) (hneg : s.toInt < 0 → ns.toInt ≤ 0) {r : Option Int64}
    (hr : r = if Int64.maxValue / nsPerSec < s || s < Int64.minValue / nsPerSec then none
      else if (0 < ns && Int64.maxValue - ns < s * nsPerSec) || (ns < 0 && s * nsPerSec < Int64.minValue - ns) then none
      else some (s * nsPerSec + ns)) :
    (∃ v, r = some v ∧ v.toInt = s.toInt * 1000000000 + ns.toInt) ∨
      (r = none ∧ (s.toInt * 1000000000 + ns.toInt < -2 ^ 63 ∨ 2 ^ 63 ≤ s.toInt * 1000000000 + ns.toInt)) := by
  have hmax : (Int64.maxValue / nsPerSec).toInt = 9223372036 := by decide
  have hmin : (Int64.minValue / nsPerSec).toInt = -9223372036 := by decide
  have hmaxsub : 0 < ns.toInt → (Int64.maxValue - ns).toInt = 2 ^ 63 - 1 - ns.toInt := fun hn =>
    Int64.toInt_maxValue ▸ toInt_maxValue_sub (Int64.lt_iff_toInt_lt.mpr hn)
  have hminsub : ns.toInt < 0 → (Int64.minValue - ns).toInt = -2 ^ 63 - ns.toInt := fun hn =>
    Int64.toInt_minValue ▸ toInt_minValue_sub (Int64.lt_iff_toInt_lt.mpr hn)
  by_cases hs : Int64.maxValue / nsPerSec < s ∨ s < Int64.minValue / nsPerSec
  · rw [if_pos (by simpa using hs)] at hr
    rw [Int64.lt_iff_toInt_lt, Int64.lt_iff_toInt_lt, hmax, hmin] at hs
    exact Or.inr ⟨hr, by omega⟩
  · rw [if_neg (by simpa using hs)] at hr
    rw [Int64.lt_iff_toInt_lt, Int64.lt_iff_toInt_lt, hmax, hmin] at hs
    have hmul : (s * nsPerSec).toInt = s.toInt * 1000000000 := by
      rw [Int64.toInt_mul, toInt_nsPerSec]
      exact bmod64 (by omega) (by omega)
    by_cases hv : (0 < ns ∧ Int64.maxValue - ns < s * nsPerSec) ∨ (ns < 0 ∧ s * nsPerSec < Int64.minValue - ns)
    · rw [if_pos (by simpa using hv)] at hr
      refine Or.inr ⟨hr, ?_⟩
      simp only [Int64.lt_iff_toInt_lt, hmul, Int64.toInt_zero] at hv
      omega
    · rw [if_neg (by simpa using hv)] at hr
      refine Or.inl ⟨_, hr, ?_⟩
      simp only [Int64.lt_iff_toInt_lt, hmul, Int64.toInt_zero, not_or, not_and, not_lt] at hv
      rw [Int64.toInt_add, hmul]
      exact bmod64 (by omega) (by omega)

theorem nanos_spec (h : ts.Valid) :
    (∃ v, ts.nanos = some v ∧ v.toInt = ts.value) ∨
      (ts.nanos = none ∧ (ts.value < -2 ^ 63 ∨ 2 ^ 63 ≤ ts.value)) := by
  obtain ⟨h1, h2⟩ := h
  have hn : ts.nanoseconds.toInt64.toInt = ts.nanoseconds.toInt := Int32.toInt_toInt64 _
  by_cases hb : ts.seconds < 0 ∧ 0 < ts.nanoseconds.toInt64
  · have hb' : (ts.seconds < 0 && 0 < ts.nanoseconds.toInt64 : Bool) = true := by simpa using hb
    rw [Int64.lt_iff_toInt_lt, Int64.lt_iff_toInt_lt, Int64.toInt_zero, hn] at hb
    have hsec := toInt_succ64 (x := ts.seconds) (by omega)
    have hns : (ts.nanoseconds.toInt64 - nsPerSec).toInt = ts.nanoseconds.toInt - 1000000000 := by
      rw [Int64.toInt_sub, hn, toInt_nsPerSec]
      exact bmod64 (by omega) (by omega)
    have hval : ts.value = (ts.seconds + 1).toInt * 1000000000 + (ts.nanoseconds.toInt64 - nsPerSec).toInt := by
      rw [hsec, hns]; unfold value; ring
    rw [hval]
    refine nanos_fit _ _ (by omega) (by omega) (by omega) (by omega) ?_
    simp only [nanos, hb', if_true]
  · have hb' : (ts.seconds < 0 && 0 < ts.nanoseconds.toInt64 : Bool) = false := by
      simpa only [Bool.and_eq_false_iff, decide_eq_false_iff_not, not_and_or] using hb
    rw [Int64.lt_iff_toInt_lt, Int64.lt_iff_toInt_lt, Int64.toInt_zero, hn] at hb
    have hval : ts.value = ts.seconds.toInt * 1000000000 + ts.nanoseconds.toInt64.toInt := by rw [hn]; rfl
    rw [hval]
    refine nanos_fit _ _ (by omega) (by omega) (by omega) (by omega) ?_
    simp only [nanos, hb', Bool.false_eq_true, if_false]

end Timestamp

theorem boundNanos_spec {ts : Timestamp} (h : ts.Valid) (addOne : Bool) :
    (∃ v, boundNanos ts addOne = some v ∧ v.toInt = ts.value + if addOne then 1 else 0) ∨
      (boundNanos ts addOne = none ∧
        (ts.value < -2 ^ 63 ∨ 2 ^ 63 ≤ ts.value + if addOne then 1 else 0)) := by
  unfold boundNanos
  rcases ts.nanos_spec h with ⟨v, hv, hval⟩ | ⟨hv, hout⟩
  · rw [hv]
    cases addOne with
    | false => exact Or.inl ⟨v, rfl, by simpa using hval⟩
    | true =>
      by_cases he : v = Int64.maxValue
      · right
        subst he
        refine ⟨rfl, Or.inr ?_⟩
        rw [if_pos rfl, ← hval, Int64.toInt_maxValue]
        omega
      · left
        have hne : v.toInt ≠ 2 ^ 63 - 1 := fun e => he (Int64.toInt_inj.mp (e.trans Int64.toInt_maxValue.symm))
        have hlt := v.toInt_lt
        refine ⟨v + 1, by simp [he], ?_⟩
        rw [if_pos rfl, ← hval]
        exact toInt_succ64 (by omega)
  · rw [hv]
    refine Or.inr ⟨rfl, hout.imp_right fun h => ?_⟩
    split <;> omega

theorem boundNanos_value {ts : Timestamp} (h : ts.Valid) {addOne : Bool} {v : Int64}
    (hb : boundNanos ts addOne = some v) : v.toInt = ts.value + (if addOne then 1 else 0) ∧ -2 ^ 63 ≤ ts.value := by
  constructor
  · rcases boundNanos_spec h addOne with ⟨w, hw, hval⟩ | ⟨hw, -⟩
    · cases hb.symm.trans hw
      exact hval
    · cases hb.symm.trans hw
  · rcases ts.nanos_spec h with ⟨w, -, hval⟩ | ⟨hw, -⟩
    · exact hval ▸ w.le_toInt
    · unfold boundNanos at hb
      rw [hw] at hb
      cases hb

/-! ## Ranges as sets of nanoseconds -/

def lowerSet : Option Timestamp → BoundType → Set ℤ
  | some ts, .inclusive => {n | ts.value ≤ n}
  | some ts, .exclusive => {n | ts.value < n}
  | none, .unbounded => Set.univ
  | _, _ => ∅

def upperSet : Option Timestamp → BoundType → Set ℤ
  | some ts, .inclusive => {n | n ≤ ts.value}
  | some ts, .exclusive => {n | n < ts.value}
  | none, .unbounded => Set.univ
  | _, _ => ∅

/-- An exclusive start and an inclusive end move the half-open bound by one. -/
def BoundType.startShift (ty : BoundType) : ℤ := if ty = .exclusive then 1 else 0

def BoundType.endShift (ty : BoundType) : ℤ := if ty = .inclusive then 1 else 0

theorem mem_lowerSet {ts : Timestamp} {ty : BoundType} (h : ty ≠ .unbounded) (n : ℤ) :
    n ∈ lowerSet (some ts) ty ↔ ts.value + ty.startShift ≤ n := by
  cases ty with
  | inclusive => simp [lowerSet, BoundType.startShift]
  | exclusive =>
    show ts.value < n ↔ ts.value + 1 ≤ n
    omega
  | unbounded => exact absurd rfl h

theorem mem_upperSet {ts : Timestamp} {ty : BoundType} (h : ty ≠ .unbounded) (n : ℤ) :
    n ∈ upperSet (some ts) ty ↔ n < ts.value + ty.endShift := by
  cases ty with
  | inclusive =>
    show n ≤ ts.value ↔ n < ts.value + 1
    omega
  | exclusive => simp [upperSet, BoundType.endShift]
  | unbounded => exact absurd rfl h

def SideWf (ts : Option Timestamp) (ty : BoundType) : Prop :=
  (ts = none ∧ ty = .unbounded) ∨ ∃ x, ts = some x ∧ x.Valid ∧ ty ≠ .unbounded

theorem SideWf.valid {side : Option Timestamp} {ty : BoundType} (h : SideWf side ty) {ts : Timestamp}
    (hs : side = some ts) : ts.Valid ∧ ty ≠ .unbounded := by
  rcases h with ⟨hnone, -⟩ | ⟨x, hx, hv, hty⟩
  · cases hs.symm.trans hnone
  · cases hs.symm.trans hx
    exact ⟨hv, hty⟩

theorem side_ne_unbounded {ts : Option Timestamp} {ty : BoundType} (h : SideWf ts ty) (hs : ts.isSome) :
    ty ≠ .unbounded := by
  rcases h with ⟨rfl, -⟩ | ⟨x, -, -, hty⟩
  · cases hs
  · exact hty

def NsBounds.denote (b : NsBounds) : Set ℤ :=
  {n | (b.lowerUnbounded = true ∨ b.lower.toInt ≤ n) ∧ (b.upperUnbounded = true ∨ n < b.upper.toInt)}

namespace TimeRange

def denote (tr : TimeRange) : Set ℤ := lowerSet tr.start tr.startType ∩ upperSet tr.endTs tr.endType

/-- What the parser makes: the empty range, or two well-formed sides. -/
def Wf (tr : TimeRange) : Prop :=
  tr = .empty ∨ SideWf tr.start tr.startType ∧ SideWf tr.endTs tr.endType

theorem isEmpty_bounded {s e : Timestamp} {sty ety : BoundType} (hs : s.Valid) (he : e.Valid)
    (hety : ety ≠ .unbounded) :
    (⟨some s, sty, some e, ety⟩ : TimeRange).isEmpty = true ↔
      e.value + ety.endShift ≤ s.value + sty.startShift := by
  have hsh : ety.endShift = (if ety = .exclusive then 0 else 1) := by
    cases ety with
    | unbounded => exact absurd rfl hety
    | _ => rfl
  have hsh' : sty.startShift = (if sty = .exclusive then 1 else 0) := rfl
  rw [hsh, hsh']
  unfold isEmpty
  by_cases hb : e.before s = true
  · have hlt := (Timestamp.before_iff he hs).mp hb
    simp only [hb, if_true, true_iff]
    split <;> split <;> omega
  · have hle : s.value ≤ e.value := not_lt.mp fun h => hb ((Timestamp.before_iff he hs).mpr h)
    simp only [hb, Bool.false_eq_true, if_false]
    by_cases heq : s.equal e = true
    · have hval := (Timestamp.equal_iff hs he).mp heq
      simp only [heq, if_true, Bool.or_eq_true, decide_eq_true_eq]
      by_cases h1 : sty = .exclusive <;> by_cases h2 : ety = .exclusive <;> simp [h1, h2, hval]
    · have hne : s.value ≠ e.value := fun h => heq ((Timestamp.equal_iff hs he).mpr h)
      -- a later timestamp exists, so `next` does not overflow
      obtain ⟨hnv, hnext⟩ := Timestamp.next_valid_value hs he (by omega)
      simp only [heq, Bool.false_eq_true, if_false]
      by_cases hty : sty = .exclusive ∧ ety = .exclusive
      · rw [if_pos (by simpa using hty), Timestamp.equal_iff he hnv, hnext]
        simp only [hty, if_true]
        omega
      · rw [if_neg (by simpa using hty)]
        simp only [Bool.false_eq_true, false_iff, not_le]
        rw [not_and_or] at hty
        rcases hty with h | h <;> simp only [h, if_false] <;> split <;> omega

theorem denote_empty : TimeRange.empty.denote = ∅ := by
  simp [denote, empty, lowerSet]

theorem mem_denote_bounded {s e : Timestamp} {sty ety : BoundType} (hsty : sty ≠ .unbounded)
    (hety : ety ≠ .unbounded) (n : ℤ) :
    n ∈ (⟨some s, sty, some e, ety⟩ : TimeRange).denote ↔
      s.value + sty.startShift ≤ n ∧ n < e.value + ety.endShift := by
  rw [denote, Set.mem_inter_iff, mem_lowerSet hsty, mem_upperSet hety]

/-- The emptiness test is exact on whole nanoseconds. -/
theorem isEmpty_iff {tr : TimeRange} (h : tr.Wf) : tr.isEmpty = true ↔ tr.denote = ∅ := by
  rcases h with rfl | ⟨hs, he⟩
  · simp [isEmpty, empty, denote, lowerSet]
  obtain ⟨start, sty, endTs, ety⟩ := tr
  simp only at hs he
  rcases hs with ⟨rfl, rfl⟩ | ⟨s, rfl, hsv, hsty⟩ <;> rcases he with ⟨rfl, rfl⟩ | ⟨e, rfl, hev, hety⟩
  · simp [isEmpty, denote, lowerSet, upperSet]
  · have : (⟨none, .unbounded, some e, ety⟩ : TimeRange).denote ≠ ∅ :=
      Set.nonempty_iff_ne_empty.mp ⟨e.value + ety.endShift - 1, trivial, (mem_upperSet hety _).mpr (by omega)⟩
    simpa [isEmpty] using this
  · have : (⟨some s, sty, none, .unbounded⟩ : TimeRange).denote ≠ ∅ :=
      Set.nonempty_iff_ne_empty.mp ⟨s.value + sty.startShift, (mem_lowerSet hsty _).mpr le_rfl, trivial⟩
    simpa [isEmpty] using this
  · rw [isEmpty_bounded hsv hev hety, Set.eq_empty_iff_forall_notMem]
    constructor
    · intro h n hn
      rw [mem_denote_bounded hsty hety] at hn
      omega
    · intro h
      have := h (s.value + sty.startShift)
      rw [mem_denote_bounded hsty hety] at this
      omega

def sideBound (side : Option Timestamp) (addOne : Bool) : Option (Int64 × Bool) :=
  side.elim (some (0, true)) fun ts => (boundNanos ts addOne).map (·, false)

theorem sideBound_some {ts : Timestamp} {addOne : Bool} {v : Int64} {u : Bool} :
    sideBound (some ts) addOne = some (v, u) ↔ boundNanos ts addOne = some v ∧ u = false := by
  rw [sideBound, Option.elim_some, Option.map_eq_some_iff]
  constructor
  · rintro ⟨w, hw, he⟩
    cases he
    exact ⟨hw, rfl⟩
  · rintro ⟨hv, rfl⟩
    exact ⟨v, hv, rfl⟩

theorem nsBounds_eq (tr : TimeRange) : tr.nsBounds =
    if tr.isEmpty then .error .emptyRange
    else (sideBound tr.start (tr.startType = .exclusive)).elim (.error .startOutOfRange) fun lo =>
      (sideBound tr.endTs (tr.endType = .inclusive)).elim (.error .endOutOfRange) fun hi =>
        .ok ⟨lo.1, hi.1, lo.2, hi.2⟩ := by
  obtain ⟨start, sty, endTs, ety⟩ := tr
  unfold nsBounds sideBound
  cases start with
  | none =>
    cases endTs with
    | none => rfl
    | some e =>
      dsimp only [Option.elim_some]
      cases boundNanos e (ety = .inclusive) <;> rfl
  | some s =>
    dsimp only [Option.elim_some]
    cases boundNanos s (sty = .exclusive) with
    | none => rfl
    | some lo =>
      cases endTs with
      | none => rfl
      | some e =>
        dsimp only [Option.elim_some]
        cases boundNanos e (ety = .inclusive) <;> rfl

/-- Bounds are answered only where each side was converted. -/
theorem sideBound_of_nsBounds {tr : TimeRange} {b : NsBounds} (hb : tr.nsBounds = .ok b) :
    ¬ tr.isEmpty = true ∧ sideBound tr.start (tr.startType = .exclusive) = some (b.lower, b.lowerUnbounded) ∧
      sideBound tr.endTs (tr.endType = .inclusive) = some (b.upper, b.upperUnbounded) := by
  rw [nsBounds_eq] at hb
  by_cases he : tr.isEmpty = true
  · rw [if_pos he] at hb
    cases hb
  rw [if_neg he] at hb
  cases hlower : sideBound tr.start (tr.startType = .exclusive) with
  | none =>
    rw [hlower] at hb
    cases hb
  | some lo =>
    cases hupper : sideBound tr.endTs (tr.endType = .inclusive) with
    | none =>
      rw [hlower, hupper] at hb
      cases hb
    | some hi =>
      rw [hlower, hupper] at hb
      cases hb
      exact ⟨he, rfl, rfl⟩

theorem lowerBound_spec {start : Option Timestamp} {sty : BoundType} (hs : SideWf start sty) {lo : Int64} {lu : Bool}
    (hl : sideBound start (sty = .exclusive) = some (lo, lu)) :
    lu = start.isNone ∧ ∀ n : ℤ, (lu = true ∨ lo.toInt ≤ n) ↔ n ∈ lowerSet start sty := by
  rcases hs with ⟨rfl, rfl⟩ | ⟨s, rfl, hsv, hsty⟩
  · cases hl
    exact ⟨rfl, fun n => by simp [lowerSet]⟩
  · obtain ⟨hv, rfl⟩ := sideBound_some.mp hl
    refine ⟨rfl, fun n => ?_⟩
    rw [mem_lowerSet hsty, (boundNanos_value hsv hv).1]
    simp [BoundType.startShift]

theorem upperBound_spec {endTs : Option Timestamp} {ety : BoundType} (he : SideWf endTs ety) {hi : Int64} {uu : Bool}
    (hl : sideBound endTs (ety = .inclusive) = some (hi, uu)) :
    uu = endTs.isNone ∧ ∀ n : ℤ, (uu = true ∨ n < hi.toInt) ↔ n ∈ upperSet endTs ety := by
  rcases he with ⟨rfl, rfl⟩ | ⟨e, rfl, hev, hety⟩
  · cases hl
    exact ⟨rfl, fun n => by simp [upperSet]⟩
  · obtain ⟨hv, rfl⟩ := sideBound_some.mp hl
    refine ⟨rfl, fun n => ?_⟩
    rw [mem_upperSet hety, (boundNanos_value hev hv).1]
    simp [BoundType.endShift]

/-- The half-open bounds denote the same nanoseconds as the range. -/
theorem nsBounds_denote {tr : TimeRange} {b : NsBounds} (h : tr.Wf) (hb : tr.nsBounds = .ok b) :
    b.denote = tr.denote ∧ b.lowerUnbounded = tr.start.isNone ∧ b.upperUnbounded = tr.endTs.isNone := by
  obtain ⟨hne, hlo, hhi⟩ := sideBound_of_nsBounds hb
  rcases h with rfl | ⟨hs, he⟩
  · exact absurd rfl hne
  have hlower := lowerBound_spec hs hlo
  have hupper := upperBound_spec he hhi
  refine ⟨?_, hlower.1, hupper.1⟩
  ext n
  exact and_congr (hlower.2 n) (hupper.2 n)

theorem denote_nonempty_of_nsBounds {tr : TimeRange} {b : NsBounds} (h : tr.Wf) (hb : tr.nsBounds = .ok b) :
    tr.denote.Nonempty := by
  rw [Set.nonempty_iff_ne_empty]
  exact fun he => (sideBound_of_nsBounds hb).1 ((isEmpty_iff h).mpr he)

/-- Its bounds, and the half-open bounds made of them, are nanoseconds that fit 64 bits. -/
def FitsInt64 (tr : TimeRange) : Prop :=
  (∀ s, tr.start = some s → -2 ^ 63 ≤ s.value ∧ s.value + tr.startType.startShift < 2 ^ 63) ∧
    ∀ e, tr.endTs = some e → -2 ^ 63 ≤ e.value ∧ e.value + tr.endType.endShift < 2 ^ 63

theorem sideBound_ok {side : Option Timestamp} {ty : BoundType} (h : SideWf side ty) (addOne : Bool)
    (hf : ∀ ts, side = some ts → -2 ^ 63 ≤ ts.value ∧ ts.value + (if addOne then 1 else 0) < 2 ^ 63) :
    ∃ v, sideBound side addOne = some v := by
  cases side with
  | none => exact ⟨_, rfl⟩
  | some ts =>
    obtain ⟨hlo, hhi⟩ := hf ts rfl
    rcases boundNanos_spec (h.valid rfl).1 addOne with ⟨v, hv, -⟩ | ⟨-, hout⟩
    · exact ⟨_, sideBound_some.mpr ⟨hv, rfl⟩⟩
    · omega

theorem nsBounds_ok {tr : TimeRange} (h : tr.Wf) (hne : tr.denote ≠ ∅) (hf : tr.FitsInt64) :
    ∃ b, tr.nsBounds = .ok b := by
  have hem : ¬ tr.isEmpty = true := fun he => hne ((isEmpty_iff h).mp he)
  rcases h with rfl | ⟨hs, he⟩
  · exact absurd rfl hem
  obtain ⟨lo, hlo⟩ := sideBound_ok hs (tr.startType = .exclusive) (by simpa [BoundType.startShift] using hf.1)
  obtain ⟨hi, hhi⟩ := sideBound_ok he (tr.endType = .inclusive) (by simpa [BoundType.endShift] using hf.2)
  rw [nsBounds_eq, if_neg hem, hlo, hhi]
  exact ⟨_, rfl⟩

theorem nsBounds_values {tr : TimeRange} {b : NsBounds} (h : tr.Wf) (hb : tr.nsBounds = .ok b) :
    (∀ s, tr.start = some s → b.lower.toInt = s.value + tr.startType.startShift ∧ -2 ^ 63 ≤ s.value) ∧
      ∀ e, tr.endTs = some e → b.upper.toInt = e.value + tr.endType.endShift ∧ -2 ^ 63 ≤ e.value := by
  obtain ⟨-, hlo, hhi⟩ := sideBound_of_nsBounds hb
  rcases h with rfl | ⟨hs, he⟩
  · cases hb
  constructor
  · intro s hstart
    rw [hstart] at hlo
    simpa [BoundType.startShift] using boundNanos_value (hs.valid hstart).1 (sideBound_some.mp hlo).1
  · intro e hend
    rw [hend] at hhi
    simpa [BoundType.endShift] using boundNanos_value (he.valid hend).1 (sideBound_some.mp hhi).1

theorem fitsInt64_of_nsBounds {tr : TimeRange} {b : NsBounds} (h : tr.Wf) (hb : tr.nsBounds = .ok b) :
    tr.FitsInt64 := by
  obtain ⟨hlo, hhi⟩ := nsBounds_values h hb
  have hlower := b.lower.toInt_lt
  have hupper := b.upper.toInt_lt
  constructor
  · intro s hs
    obtain ⟨hval, hmin⟩ := hlo s hs
    exact ⟨hmin, hval ▸ hlower⟩
  · intro e he
    obtain ⟨hval, hmin⟩ := hhi e he
    exact ⟨hmin, hval ▸ hupper⟩

end TimeRange

end OpenTams
