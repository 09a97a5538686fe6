import OpenTams.RangeExact

/-!
# The ranges of the tools

The tools have a conversion of their own between strings and half-open intervals
of `int64` nanoseconds. It multiplies and adds without checks, and takes a bound
that is absent for an open side, whatever the range. What it computes are the
half-open bounds modulo 2^64.
-/

namespace OpenTams

/-! ## opentamsclient -/

def clientNanos (ts : Timestamp) (addOne : Bool) : Int64 :=
  let ns := ts.seconds * nsPerSec + ts.nanoseconds.toInt64
  if addOne then ns + 1 else ns

def parseRange (s : Str) : Except ParseError (Int64 × Int64) :=
  match parse s with
  | .error e => .error e
  | .ok tr =>
    .ok (tr.start.elim Int64.minValue fun ts => clientNanos ts (tr.startType = .exclusive),
      tr.endTs.elim Int64.maxValue fun ts => clientNanos ts (tr.endType = .inclusive))

def offsetTimestamp (ns : Int64) : Timestamp :=
  let ts : Timestamp := ⟨ns / nsPerSec, (ns % nsPerSec).toInt32⟩
  if ns < 0 && ts.nanoseconds ≠ 0 then ⟨ts.seconds - 1, ts.nanoseconds + nsPerSec.toInt32⟩ else ts

def formatTS (ns : Int64) : Str := (offsetTimestamp ns).string

/-- `none` is the panic on a range that is empty or inverted. -/
def halfOpenRange (startNs endNs : Int64) : Option Str :=
  if endNs ≤ startNs then none else some (ch '[' :: formatTS startNs ++ ch '_' :: formatTS endNs ++ [ch ')'])

/-! ## What ParseRange computes -/

namespace TimeRange

def halfOpenStart (tr : TimeRange) : ℤ := tr.start.elim (-2 ^ 63) fun ts => ts.value + tr.startType.startShift

def halfOpenEnd (tr : TimeRange) : ℤ := tr.endTs.elim (2 ^ 63 - 1) fun ts => ts.value + tr.endType.endShift

/-- The nanoseconds of the range, with a missing side taken as the limit of `int64`. -/
def clipped (tr : TimeRange) : Set ℤ :=
  {n | n ∈ tr.denote ∧ (tr.start = none → -2 ^ 63 ≤ n) ∧ (tr.endTs = none → n < 2 ^ 63 - 1)}

theorem clipped_eq {tr : TimeRange} (hs : SideWf tr.start tr.startType) (he : SideWf tr.endTs tr.endType) :
    tr.clipped = Set.Ico tr.halfOpenStart tr.halfOpenEnd := by
  have hlower : ∀ n : ℤ, (n ∈ lowerSet tr.start tr.startType ∧ (tr.start = none → -2 ^ 63 ≤ n)) ↔
      tr.halfOpenStart ≤ n := by
    intro n
    unfold halfOpenStart
    rcases hs with ⟨hnone, hty⟩ | ⟨ts, hts, -, hty⟩
    · rw [hnone, hty]
      simp [lowerSet]
    · rw [hts, mem_lowerSet hty]
      simp
  have hupper : ∀ n : ℤ, (n ∈ upperSet tr.endTs tr.endType ∧ (tr.endTs = none → n < 2 ^ 63 - 1)) ↔
      n < tr.halfOpenEnd := by
    intro n
    unfold halfOpenEnd
    rcases he with ⟨hnone, hty⟩ | ⟨ts, hts, -, hty⟩
    · rw [hnone, hty]
      simp [upperSet]
    · rw [hts, mem_upperSet hty]
      simp
  ext n
  rw [Set.mem_Ico, ← hlower, ← hupper]
  exact and_and_and_comm

end TimeRange

theorem toInt_clientNanos (ts : Timestamp) (addOne : Bool) :
    (clientNanos ts addOne).toInt = (ts.value + if addOne then 1 else 0).bmod (2 ^ 64) := by
  have hns : (ts.seconds * nsPerSec + ts.nanoseconds.toInt64).toInt = ts.value.bmod (2 ^ 64) := by
    rw [Int64.toInt_add, Int64.toInt_mul, Int.bmod_add_bmod, toInt_nsPerSec, Int32.toInt_toInt64, Timestamp.value]
  unfold clientNanos
  cases addOne with
  | false =>
    rw [if_neg Bool.false_ne_true, if_neg Bool.false_ne_true, add_zero]
    exact hns
  | true =>
    rw [if_pos rfl, if_pos rfl, Int64.toInt_add, hns, Int.bmod_add_bmod]
    rfl

section
variable {s : Str} {tr : TimeRange}

theorem parseRange_ok (hp : parse s = .ok tr) :
    ∃ a b, parseRange s = .ok (a, b) ∧ a.toInt = tr.halfOpenStart.bmod (2 ^ 64) ∧
      b.toInt = tr.halfOpenEnd.bmod (2 ^ 64) := by
  refine ⟨_, _, by rw [parseRange, hp], ?_, ?_⟩
  · unfold TimeRange.halfOpenStart
    cases tr.start with
    | none =>
      rw [Option.elim_none, Option.elim_none]
      decide
    | some ts =>
      rw [Option.elim_some, Option.elim_some, toInt_clientNanos, BoundType.startShift]
      simp only [decide_eq_true_eq]
  · unfold TimeRange.halfOpenEnd
    cases tr.endTs with
    | none =>
      rw [Option.elim_none, Option.elim_none]
      decide
    | some ts =>
      rw [Option.elim_some, Option.elim_some, toInt_clientNanos, BoundType.endShift]
      simp only [decide_eq_true_eq]

theorem TimeRange.FitsInt64.halfOpen (h : tr.FitsInt64) :
    tr.halfOpenStart.bmod (2 ^ 64) = tr.halfOpenStart ∧ tr.halfOpenEnd.bmod (2 ^ 64) = tr.halfOpenEnd := by
  have hs := TimeRange.startShift_cases tr.startType
  have he := TimeRange.endShift_cases tr.endType
  constructor
  · unfold TimeRange.halfOpenStart
    cases hstart : tr.start with
    | none =>
      rw [Option.elim_none]
      decide
    | some ts =>
      have := h.1 ts hstart
      rw [Option.elim_some]
      apply bmod64 <;> omega
  · unfold TimeRange.halfOpenEnd
    cases hend : tr.endTs with
    | none =>
      rw [Option.elim_none]
      decide
    | some ts =>
      have := h.2 ts hend
      rw [Option.elim_some]
      apply bmod64 <;> omega

end

/-! ## Agreement with the parser -/

/-- A forward interval is that of a range that is not empty and has its finite bounds in `int64`, and has the same
nanoseconds; eternity is refused. -/
structure RangeAgrees (s : Str) : Prop where
  forward : ∀ tr a b, parse s = .ok tr → parseRange s = .ok (a, b) → a < b →
    tr.denote.Nonempty ∧ Set.Ico a.toInt b.toInt = tr.clipped ∧
      ∀ ts, tr.start = some ts ∨ tr.endTs = some ts → -2 ^ 63 ≤ ts.value ∧ ts.value < 2 ^ 63
  eternity : ∀ tr, parse s = .ok tr → tr.isEternity = true → ∃ e, parseRange s = .error e

section
variable {s : Str} {tr : TimeRange}

theorem RangeAgrees.bounded (h : RangeAgrees s) (hp : parse s = .ok tr) : tr.start.isSome ∨ tr.endTs.isSome := by
  obtain ⟨a, b, hr, ha, hb⟩ := parseRange_ok hp
  by_contra hnone
  rw [not_or, Option.not_isSome_iff_eq_none, Option.not_isSome_iff_eq_none] at hnone
  rcases (parse_text hp).1 with rfl | ⟨hs, he⟩
  · -- the empty range has no bounds either
    have hlt : a < b := by
      rw [Int64.lt_iff_toInt_lt, ha, hb]
      decide
    obtain ⟨n, hn⟩ := (h.forward _ a b hp hr hlt).1
    rw [TimeRange.denote_empty] at hn
    exact hn
  · have hstart : tr.startType = .unbounded := by
      rcases hs with ⟨-, hty⟩ | ⟨ts, hts, -⟩
      · exact hty
      · cases hnone.1.symm.trans hts
    have hend : tr.endType = .unbounded := by
      rcases he with ⟨-, hty⟩ | ⟨ts, hts, -⟩
      · exact hty
      · cases hnone.2.symm.trans hts
    obtain ⟨e, herr⟩ := h.eternity tr hp (by simp [TimeRange.isEternity, hstart, hend])
    cases hr.symm.trans herr

theorem RangeAgrees.fits (h : RangeAgrees s) (hp : parse s = .ok tr)
    (hlt : tr.halfOpenStart.bmod (2 ^ 64) < tr.halfOpenEnd.bmod (2 ^ 64)) : tr.FitsInt64 := by
  obtain ⟨a, b, hr, ha, hb⟩ := parseRange_ok hp
  rw [← ha, ← hb] at hlt
  obtain ⟨-, hset, hinside⟩ := h.forward tr a b hp hr (Int64.lt_iff_toInt_lt.mpr hlt)
  have hs := TimeRange.startShift_cases tr.startType
  have he := TimeRange.endShift_cases tr.endType
  have hmin := a.le_toInt
  have hlimit : ((2 : ℤ) ^ 63).bmod (2 ^ 64) = -2 ^ 63 := by decide
  constructor
  · intro ts hts
    obtain ⟨hlo, hhi⟩ := hinside ts (Or.inl hts)
    refine ⟨hlo, ?_⟩
    by_contra hout
    -- the interval would start below every nanosecond of the range
    have hval : ts.value + tr.startType.startShift = 2 ^ 63 := by omega
    rw [TimeRange.halfOpenStart, hts, Option.elim_some, hval, hlimit] at ha
    have hmem : a.toInt ∈ tr.clipped := hset ▸ ⟨le_rfl, hlt⟩
    rcases (parse_text hp).1 with rfl | ⟨hwf, -⟩
    · cases hts
    have hlower := hmem.1.1
    rw [hts, mem_lowerSet (hwf.valid hts).2] at hlower
    omega
  · intro ts hts
    obtain ⟨hlo, hhi⟩ := hinside ts (Or.inr hts)
    refine ⟨hlo, ?_⟩
    by_contra hout
    have hval : ts.value + tr.endType.endShift = 2 ^ 63 := by omega
    rw [TimeRange.halfOpenEnd, hts, Option.elim_some, hval, hlimit] at hb
    omega

theorem agrees_of_fits (hbounded : tr.start.isSome ∨ tr.endTs.isSome) (hp : parse s = .ok tr) (hfit : tr.FitsInt64)
    {a b : Int64} (hr : parseRange s = .ok (a, b)) (hlt : a < b) :
    tr.denote.Nonempty ∧ Set.Ico a.toInt b.toInt = tr.clipped ∧
      ∀ ts, tr.start = some ts ∨ tr.endTs = some ts → -2 ^ 63 ≤ ts.value ∧ ts.value < 2 ^ 63 := by
  obtain ⟨a', b', hr', ha, hb⟩ := parseRange_ok hp
  cases hr.symm.trans hr'
  rw [hfit.halfOpen.1] at ha
  rw [hfit.halfOpen.2] at hb
  rw [Int64.lt_iff_toInt_lt] at hlt
  rcases (parse_text hp).1 with rfl | ⟨hs, he⟩
  · rcases hbounded with h | h <;> cases h
  have hset := TimeRange.clipped_eq hs he
  rw [← ha, ← hb] at hset
  have hfirst : a.toInt ∈ tr.clipped := hset ▸ ⟨le_rfl, hlt⟩
  refine ⟨⟨a.toInt, hfirst.1⟩, hset.symm, fun ts hts => ?_⟩
  have hshift := TimeRange.startShift_cases tr.startType
  have hshift' := TimeRange.endShift_cases tr.endType
  rcases hts with hts | hts
  · have := hfit.1 ts hts
    omega
  · have := hfit.2 ts hts
    omega

end

/-- **`ParseRange` agrees with `Parse`** exactly on the ranges that have a finite bound, and whose half-open bounds fit
`int64` if they are in order modulo 2^64. -/
theorem parseRange_agrees_iff (s : Str) :
    RangeAgrees s ↔ ∀ tr, parse s = .ok tr → (tr.start.isSome ∨ tr.endTs.isSome) ∧
      (tr.halfOpenStart.bmod (2 ^ 64) < tr.halfOpenEnd.bmod (2 ^ 64) → tr.FitsInt64) := by
  constructor
  · intro h tr hp
    exact ⟨h.bounded hp, h.fits hp⟩
  · intro h
    constructor
    · intro tr a b hp hr hlt
      obtain ⟨hbounded, hfits⟩ := h tr hp
      obtain ⟨a', b', hr', ha, hb⟩ := parseRange_ok hp
      cases hr.symm.trans hr'
      refine agrees_of_fits hbounded hp (hfits ?_) hr hlt
      rwa [← ha, ← hb, ← Int64.lt_iff_toInt_lt]
    · intro tr hp het
      obtain ⟨hbounded, -⟩ := h tr hp
      simp only [TimeRange.isEternity, Bool.and_eq_true, decide_eq_true_eq] at het
      rcases (parse_text hp).1 with rfl | ⟨hs, he⟩
      · rcases hbounded with h | h <;> cases h
      rcases hbounded with hstart | hend
      · exact absurd het.1 (side_ne_unbounded hs hstart)
      · exact absurd het.2 (side_ne_unbounded he hend)

/-- The empty range and eternity give the widest interval, and an end far outside gives a short one. -/
theorem parseRange_disagrees :
    (parseRange (lit "()") = .ok (Int64.minValue, Int64.maxValue) ∧ ¬ RangeAgrees (lit "()")) ∧
      (parseRange (lit "_") = .ok (Int64.minValue, Int64.maxValue) ∧ ¬ RangeAgrees (lit "_")) ∧
      parseRange (lit "[0:0_18446744074:0)") = .ok (0, 290448384) ∧ ¬ RangeAgrees (lit "[0:0_18446744074:0)") := by
  have hempty : parse (lit "()") = .ok .empty := by decide
  have heternity : parse (lit "_") = .ok ⟨none, .unbounded, none, .unbounded⟩ := by decide
  have hlong : parse (lit "[0:0_18446744074:0)") =
      .ok ⟨some ⟨0, 0⟩, .inclusive, some ⟨18446744074, 0⟩, .exclusive⟩ := by decide
  have hshort : parseRange (lit "[0:0_18446744074:0)") = .ok (0, 290448384) := by decide
  refine ⟨⟨by decide, fun h => ?_⟩, ⟨by decide, fun h => ?_⟩, hshort, fun h => ?_⟩
  · rcases h.bounded hempty with hb | hb <;> cases hb
  · rcases h.bounded heternity with hb | hb <;> cases hb
  · have hend := (h.forward _ _ _ hlong hshort (by decide)).2.2 ⟨18446744074, 0⟩ (Or.inr rfl)
    exact absurd hend.2 (by decide)

/-! ## HalfOpenRange -/

theorem offsetTimestamp_spec (ns : Int64) : (offsetTimestamp ns).Valid ∧ (offsetTimestamp ns).value = ns.toInt := by
  have hlo := ns.le_toInt
  have hhi := ns.toInt_lt
  have hsplit := Int.mul_tdiv_add_tmod ns.toInt 1000000000
  have hlt := Int.tmod_lt_of_pos ns.toInt (by decide : (0 : ℤ) < 1000000000)
  have hgt := Int.lt_tmod_of_pos ns.toInt (by decide : (0 : ℤ) < 1000000000)
  have hmod : (ns % nsPerSec).toInt32.toInt = ns.toInt.tmod 1000000000 := by
    rw [Int64.toInt_toInt32, Int64.toInt_mod, toInt_nsPerSec]
    apply bmod32 <;> omega
  have hdiv : (ns / nsPerSec).toInt = ns.toInt.tdiv 1000000000 := by
    rw [Int64.toInt_div, toInt_nsPerSec]
    apply bmod64 <;> omega
  unfold offsetTimestamp Timestamp.Valid Timestamp.value
  dsimp only
  by_cases hborrow : ns < 0 ∧ (ns % nsPerSec).toInt32 ≠ 0
  · rw [if_pos (by simpa using hborrow)]
    obtain ⟨hneg, hne⟩ := hborrow
    rw [Int64.lt_iff_toInt_lt, Int64.toInt_zero] at hneg
    rw [← Int32.toInt_inj.ne, hmod, Int32.toInt_zero] at hne
    have hnonpos : ns.toInt.tmod 1000000000 ≤ 0 := by
      have := Int.tmod_nonneg 1000000000 (by omega : 0 ≤ -ns.toInt)
      rw [Int.neg_tmod] at this
      omega
    have hsec : (ns / nsPerSec - 1).toInt = ns.toInt.tdiv 1000000000 - 1 := by
      rw [Int64.toInt_sub, hdiv]
      apply bmod64 <;> simp <;> omega
    have hns : ((ns % nsPerSec).toInt32 + nsPerSec.toInt32).toInt = ns.toInt.tmod 1000000000 + 1000000000 := by
      have hstep : nsPerSec.toInt32.toInt = 1000000000 := by decide
      rw [Int32.toInt_add, hmod, hstep]
      apply bmod32 <;> omega
    dsimp only
    rw [hsec, hns]
    omega
  · rw [if_neg (by simpa using hborrow)]
    have hnonneg : 0 ≤ ns.toInt.tmod 1000000000 := by
      by_cases hneg : ns < 0
      · have hzero : (ns % nsPerSec).toInt32 = 0 := by
          by_contra hne
          exact hborrow ⟨hneg, hne⟩
        rw [← hmod, hzero]
        decide
      · rw [Int64.lt_iff_toInt_lt, Int64.toInt_zero] at hneg
        exact Int.tmod_nonneg _ (by omega)
    dsimp only
    rw [hmod, hdiv]
    omega

/-- The rendering of the two bounds is read back. -/
theorem halfOpenRange_parse {a b : Int64} (h : a < b) :
    ∃ text, halfOpenRange a b = some text ∧
      parse text = .ok ⟨some (offsetTimestamp a), .inclusive, some (offsetTimestamp b), .exclusive⟩ := by
  obtain ⟨hav, ha⟩ := offsetTimestamp_spec a
  obtain ⟨hbv, hb⟩ := offsetTimestamp_spec b
  rw [Int64.lt_iff_toInt_lt] at h
  have hwf : (⟨some (offsetTimestamp a), .inclusive, some (offsetTimestamp b), .exclusive⟩ : TimeRange).Wf :=
    Or.inr ⟨Or.inr ⟨_, rfl, hav, nofun⟩, Or.inr ⟨_, rfl, hbv, nofun⟩⟩
  have hempty : (⟨some (offsetTimestamp a), .inclusive, some (offsetTimestamp b), .exclusive⟩ : TimeRange).isEmpty =
      false := by
    rw [← Bool.not_eq_true, TimeRange.isEmpty_bounded hav hbv (by decide), ha, hb]
    simpa [BoundType.startShift, BoundType.endShift] using h
  have hequal : (offsetTimestamp a).equal (offsetTimestamp b) = false := by
    rw [← Bool.not_eq_true, Timestamp.equal_iff hav hbv]
    omega
  have htext : (⟨some (offsetTimestamp a), .inclusive, some (offsetTimestamp b), .exclusive⟩ : TimeRange).string =
      some (ch '[' :: formatTS a ++ ch '_' :: formatTS b ++ [ch ')']) := by
    unfold TimeRange.string
    simp [hempty, hequal, TimeRange.isEternity, TimeRange.string.startPart, TimeRange.string.endPart, formatTS]
  have hsome : halfOpenRange a b = some (ch '[' :: formatTS a ++ ch '_' :: formatTS b ++ [ch ')']) := by
    rw [halfOpenRange, if_neg]
    rw [Int64.le_iff_toInt_le]
    omega
  refine ⟨_, hsome, ?_⟩
  rw [parse_string_eq hwf htext, hempty, if_neg Bool.false_ne_true]

theorem denote_offsetTimestamp (a b : Int64) :
    (⟨some (offsetTimestamp a), .inclusive, some (offsetTimestamp b), .exclusive⟩ : TimeRange).denote =
      Set.Ico a.toInt b.toInt := by
  ext n
  rw [TimeRange.mem_denote_bounded (by decide) (by decide), (offsetTimestamp_spec a).2, (offsetTimestamp_spec b).2]
  simp [BoundType.startShift, BoundType.endShift]

/-- The text is that of the half-open range. -/
theorem halfOpenRange_some {a b : Int64} (h : a < b) :
    ∃ text tr, halfOpenRange a b = some text ∧ parse text = .ok tr ∧ tr.denote = Set.Ico a.toInt b.toInt := by
  obtain ⟨text, htext, hp⟩ := halfOpenRange_parse h
  exact ⟨text, _, htext, hp, denote_offsetTimestamp a b⟩

/-! ## Durations -/

/-- `TimestampFromDuration` of `internal/timerange`. -/
def timestampFromDuration (d : Int64) : Timestamp :=
  let s := d / nsPerSec
  let ns := d % nsPerSec
  if ns < 0 then ⟨s - 1, (ns + nsPerSec).toInt32⟩ else ⟨s, ns.toInt32⟩

/-- The remainder has the sign of the duration, so the two conversions borrow in the same cases. -/
theorem timestampFromDuration_eq (n : Int64) : timestampFromDuration n = offsetTimestamp n := by
  have hrem : (n % nsPerSec).toInt = n.toInt.tmod 1000000000 := by
    rw [Int64.toInt_mod, toInt_nsPerSec]
  have hlt := Int.tmod_lt_of_pos n.toInt (by decide : (0 : ℤ) < 1000000000)
  have hgt := Int.lt_tmod_of_pos n.toInt (by decide : (0 : ℤ) < 1000000000)
  have hsmall : (n % nsPerSec).toInt32.toInt = n.toInt.tmod 1000000000 := by
    rw [Int64.toInt_toInt32, hrem]
    apply bmod32 <;> omega
  have hborrow : n % nsPerSec < 0 ↔ n < 0 ∧ (n % nsPerSec).toInt32 ≠ 0 := by
    rw [Int64.lt_iff_toInt_lt, Int64.lt_iff_toInt_lt, Int64.toInt_zero, hrem, ← Int32.toInt_inj.ne, hsmall,
      Int32.toInt_zero]
    have hnonneg : 0 ≤ n.toInt → 0 ≤ n.toInt.tmod 1000000000 := Int.tmod_nonneg _
    have hnonpos : n.toInt < 0 → n.toInt.tmod 1000000000 ≤ 0 := by
      intro hneg
      have := Int.tmod_nonneg 1000000000 (by omega : 0 ≤ -n.toInt)
      rw [Int.neg_tmod] at this
      omega
    omega
  unfold timestampFromDuration offsetTimestamp
  dsimp only
  by_cases hb : n % nsPerSec < 0
  · rw [if_pos hb, if_pos (by simpa using hborrow.mp hb), Int64.toInt32_add]
  · rw [if_neg hb, if_neg (by simpa using mt hborrow.mpr hb)]

/-- **Nanosecond integers and timestamps convert back and forth exactly.** -/
theorem conversions_exact :
    (∀ n : Int64, (timestampFromDuration n).Valid ∧ (timestampFromDuration n).nanos = some n ∧
      formatTS n = (timestampFromDuration n).string) ∧
    ∀ a b : Int64, a < b → ∃ text, halfOpenRange a b = some text ∧ parseRange text = .ok (a, b) := by
  constructor
  · intro n
    rw [timestampFromDuration_eq]
    obtain ⟨hv, hval⟩ := offsetTimestamp_spec n
    refine ⟨hv, ?_, rfl⟩
    rcases (offsetTimestamp n).nanos_spec hv with ⟨v, hv, hval'⟩ | ⟨-, hout⟩
    · rw [hv, Int64.toInt_inj.mp (hval'.trans hval)]
    · have hlo := n.le_toInt
      have hhi := n.toInt_lt
      omega
  · intro a b hab
    obtain ⟨text, htext, hp⟩ := halfOpenRange_parse hab
    obtain ⟨x, y, hr, hx, hy⟩ := parseRange_ok hp
    have hstart : BoundType.inclusive ≠ .exclusive := by decide
    -- the bounds are computed modulo 2^64, and those of the range are `a` and `b`
    rw [TimeRange.halfOpenStart, Option.elim_some, (offsetTimestamp_spec a).2, BoundType.startShift,
      if_neg hstart, add_zero, bmod64 a.le_toInt a.toInt_lt] at hx
    rw [TimeRange.halfOpenEnd, Option.elim_some, (offsetTimestamp_spec b).2, BoundType.endShift,
      if_neg hstart.symm, add_zero, bmod64 b.le_toInt b.toInt_lt] at hy
    rw [Int64.toInt_inj.mp hx, Int64.toInt_inj.mp hy] at hr
    exact ⟨text, htext, hr⟩

/-- The whole of `int64`, where the product of the start wraps. -/
theorem conversions_exact_limits :
    Int64.minValue < Int64.maxValue ∧ ∃ text, halfOpenRange Int64.minValue Int64.maxValue = some text ∧
      parseRange text = .ok (Int64.minValue, Int64.maxValue) :=
  ⟨by decide, conversions_exact.2 _ _ (by decide)⟩

end OpenTams
