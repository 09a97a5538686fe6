import Mathlib

/-!
# Doubles

The number with 53 binary digits that is nearest to a rational, and that the conversion
of an integer and the division of `Float.Model` give it. The exponents are those of
numbers far from the greatest and the least double.
-/

namespace Doubles

open Float.Model Float.Model.UnpackedFloat

/-! ## The nearest double -/

def roundEven (x : ℚ) : ℤ :=
  if Int.fract x < 1 / 2 then ⌊x⌋ else if 1 / 2 < Int.fract x then ⌊x⌋ + 1 else ⌊x⌋ + ⌊x⌋ % 2

/-- The exponent with which `x` has 53 binary digits before the point. -/
def exponent (x : ℚ) : ℤ := Int.log 2 x - 52

def nearest (x : ℚ) : ℚ := roundEven (x / 2 ^ exponent x) * 2 ^ exponent x

theorem roundEven_bounds (x : ℚ) : x - 1 / 2 ≤ roundEven x ∧ (roundEven x : ℚ) ≤ x + 1 / 2 := by
  have hx := Int.floor_add_fract x
  have hmod : ⌊x⌋ % 2 = 0 ∨ ⌊x⌋ % 2 = 1 := Int.emod_two_eq_zero_or_one ⌊x⌋
  unfold roundEven
  split
  · have := Int.fract_nonneg x
    constructor <;> linarith
  split
  · have := Int.fract_lt_one x
    push_cast
    constructor <;> linarith
  · push_cast
    rcases hmod with h | h <;> rw [h] <;> push_cast <;> constructor <;> linarith

theorem roundEven_mem {x : ℚ} {a b : ℤ} (ha : a ≤ x) (hb : x < b) : a ≤ roundEven x ∧ roundEven x ≤ b := by
  have hfloor : a ≤ ⌊x⌋ := Int.le_floor.mpr ha
  have hfloor' : ⌊x⌋ < b := Int.floor_lt.mpr hb
  have hmod : ⌊x⌋ % 2 = 0 ∨ ⌊x⌋ % 2 = 1 := Int.emod_two_eq_zero_or_one ⌊x⌋
  unfold roundEven
  split
  · omega
  split <;> omega

theorem digits {x : ℚ} (h : 0 < x) : 2 ^ 52 ≤ x / 2 ^ exponent x ∧ x / 2 ^ exponent x < 2 ^ 53 := by
  have hlow := Int.zpow_log_le_self (b := 2) Nat.one_lt_two h
  have hhigh := Int.lt_zpow_succ_log_self (b := 2) Nat.one_lt_two x
  have hpos : (0 : ℚ) < 2 ^ exponent x := zpow_pos two_pos _
  push_cast at hlow hhigh
  rw [le_div_iff₀ hpos, div_lt_iff₀ hpos, ← zpow_natCast, ← zpow_natCast, ← zpow_add₀ two_ne_zero,
    ← zpow_add₀ two_ne_zero]
  constructor
  · convert hlow using 2
    rw [exponent]
    push_cast
    ring
  · convert hhigh using 2
    rw [exponent]
    push_cast
    ring

theorem nearest_bounds {x : ℚ} (h : 0 < x) : 2 ^ Int.log 2 x ≤ nearest x ∧ nearest x ≤ 2 ^ (Int.log 2 x + 1) := by
  obtain ⟨hlow, hhigh⟩ := digits h
  have hpos : (0 : ℚ) < 2 ^ exponent x := zpow_pos two_pos _
  obtain ⟨hlow', hhigh'⟩ := roundEven_mem (a := 2 ^ 52) (b := 2 ^ 53) (by exact_mod_cast hlow) (by exact_mod_cast hhigh)
  have hlog : Int.log 2 x = 52 + exponent x := by
    rw [exponent]
    ring
  have hlog' : Int.log 2 x + 1 = 53 + exponent x := by
    rw [exponent]
    ring
  rw [nearest, hlog', hlog, zpow_add₀ two_ne_zero, zpow_add₀ two_ne_zero]
  constructor
  · exact mul_le_mul_of_nonneg_right (by exact_mod_cast hlow') hpos.le
  · exact mul_le_mul_of_nonneg_right (by exact_mod_cast hhigh') hpos.le

theorem roundEven_intCast (n : ℤ) : roundEven n = n := by
  rw [roundEven, Int.fract_intCast, if_pos (by norm_num), Int.floor_intCast]

theorem nearest_le_two_zpow {x : ℚ} (h : 0 < x) {n : ℤ} (hx : x ≤ 2 ^ n) : nearest x ≤ 2 ^ n := by
  rcases hx.lt_or_eq with hlt | rfl
  · have hlog := (Int.lt_zpow_iff_log_lt (b := 2) Nat.one_lt_two h).mp (by exact_mod_cast hlt)
    exact (nearest_bounds h).2.trans (zpow_le_zpow_right₀ one_le_two (by omega))
  · -- a power of two is a double
    have hexp : exponent (2 ^ n) = n - 52 := by
      have hlog := Int.log_zpow (R := ℚ) (b := 2) Nat.one_lt_two n
      push_cast at hlog
      rw [exponent, hlog]
    have hdigits : (2 : ℚ) ^ n / 2 ^ (n - 52) = ((2 ^ 52 : ℤ) : ℚ) := by
      rw [← zpow_sub₀ two_ne_zero, sub_sub_cancel]
      norm_num
    rw [nearest, hexp, hdigits, roundEven_intCast, ← hdigits, div_mul_cancel₀ _ (zpow_ne_zero _ two_ne_zero)]

theorem one_le_nearest {x : ℚ} (h : 1 ≤ x) : 1 ≤ nearest x := by
  have hpos := zero_lt_one.trans_le h
  have hlog : 0 ≤ Int.log 2 x := (Int.zpow_le_iff_le_log (b := 2) Nat.one_lt_two hpos).mp (by simpa using h)
  exact (one_le_zpow₀ one_le_two hlog).trans (nearest_bounds hpos).1

/-- The nearest double is off by the part `2 ^ (-53)` at most. -/
theorem nearest_error {x : ℚ} (h : 0 < x) : x - x / 2 ^ 53 ≤ nearest x ∧ nearest x ≤ x + x / 2 ^ 53 := by
  obtain ⟨hlow, -⟩ := digits h
  obtain ⟨hbelow, habove⟩ := roundEven_bounds (x / 2 ^ exponent x)
  have hpos : (0 : ℚ) < 2 ^ exponent x := zpow_pos two_pos _
  have hx : x / 2 ^ exponent x * 2 ^ exponent x = x := div_mul_cancel₀ x hpos.ne'
  have hhalf : 1 / 2 * 2 ^ exponent x ≤ x / 2 ^ 53 := by
    have := mul_le_mul_of_nonneg_right hlow hpos.le
    rw [hx] at this
    linarith
  have hbelow' := mul_le_mul_of_nonneg_right hbelow hpos.le
  have habove' := mul_le_mul_of_nonneg_right habove hpos.le
  rw [sub_mul, hx] at hbelow'
  rw [add_mul, hx] at habove'
  rw [nearest]
  constructor <;> linarith

/-! ## Extended mantissas -/

/-- The mantissa and the two bits behind it are those of `y`. -/
structure Holds (em : ExtendedMantissa) (y : ℚ) : Prop where
  mantissa : ⌊y⌋ = em.mantissa
  roundBit : em.roundBit = true ↔ 1 / 2 ≤ Int.fract y
  stickyBit : em.stickyBit = true ↔ Int.fract y ≠ 0 ∧ Int.fract y ≠ 1 / 2

section
variable {em : ExtendedMantissa} {y : ℚ}

theorem Holds.roundedMantissa (h : Holds em y) : (em.roundedMantissa : ℤ) = roundEven y := by
  obtain ⟨m, r, s⟩ := em
  obtain ⟨hm, hr, hs⟩ := h
  unfold roundEven
  rw [hm]
  cases r with
  | false =>
    have hlt : Int.fract y < 1 / 2 := lt_of_not_ge fun hge => Bool.false_ne_true (hr.mpr hge)
    rw [if_pos hlt]
    cases s <;> rfl
  | true =>
    have hge := hr.mp rfl
    rw [if_neg (not_lt.mpr hge)]
    cases s with
    | false =>
      have heq : Int.fract y = 1 / 2 := by
        by_contra hne
        exact Bool.false_ne_true (hs.mpr ⟨by linarith, hne⟩)
      rw [if_neg (by rw [heq]; exact lt_irrefl _)]
      rfl
    | true =>
      rw [if_pos (lt_of_le_of_ne hge (hs.mp rfl).2.symm)]
      rfl

/-- Half of a number with the fraction `f`. -/
theorem floor_fract_of_eq {z : ℚ} {q : ℕ} {f : ℚ} (hz : z = q + f) (hlow : 0 ≤ f) (hhigh : f < 1) :
    ⌊z⌋ = q ∧ Int.fract z = f := by
  have hfloor : ⌊z⌋ = q := by
    rw [hz, Int.floor_eq_iff]
    push_cast
    constructor <;> linarith
  refine ⟨hfloor, ?_⟩
  rw [Int.fract, hfloor, hz]
  push_cast
  ring

theorem Holds.shiftRightOne (h : Holds em y) : Holds em.shiftRightOne (y / 2) := by
  obtain ⟨m, r, s⟩ := em
  obtain ⟨hm, hr, hs⟩ := h
  have hy := Int.floor_add_fract y
  have hlow := Int.fract_nonneg y
  have hhigh := Int.fract_lt_one y
  dsimp only at hm hr hs
  rw [hm] at hy
  generalize Int.fract y = f at hr hs hy hlow hhigh
  have hbits : (r || s) = true ↔ f ≠ 0 := by
    rw [Bool.or_eq_true, hr, hs]
    constructor
    · rintro (h | ⟨h, -⟩) h0
      · linarith
      · exact h h0
    · intro h
      by_cases hf : 1 / 2 ≤ f
      · exact Or.inl hf
      · exact Or.inr ⟨h, fun e => hf e.ge⟩
  obtain ⟨q, rfl | rfl⟩ := Nat.even_or_odd' m
  · obtain ⟨hfloor, hfract⟩ := floor_fract_of_eq (z := y / 2) (q := q) (f := f / 2) (by rw [← hy]; push_cast; ring)
      (by linarith) (by linarith)
    refine ⟨?_, ?_, ?_⟩
    · rw [hfloor]
      exact congrArg Nat.cast (Nat.mul_div_cancel_left q two_pos).symm
    · rw [hfract]
      refine iff_of_false ?_ (by linarith)
      simp [ExtendedMantissa.shiftRightOne]
    · rw [hfract]
      refine hbits.trans ⟨fun h => ⟨fun e => h (by linarith), fun e => ?_⟩, fun h e => h.1 (by linarith)⟩
      linarith
  · obtain ⟨hfloor, hfract⟩ := floor_fract_of_eq (z := y / 2) (q := q) (f := (1 + f) / 2)
      (by rw [← hy]; push_cast; ring) (by linarith) (by linarith)
    refine ⟨?_, ?_, ?_⟩
    · rw [hfloor]
      refine congrArg Nat.cast ?_
      simp only [ExtendedMantissa.shiftRightOne]
      omega
    · rw [hfract]
      refine iff_of_true ?_ (by linarith)
      simp [ExtendedMantissa.shiftRightOne]
    · rw [hfract]
      refine hbits.trans ⟨fun h => ⟨fun e => ?_, fun e => h (by linarith)⟩, fun h e => h.2 (by linarith)⟩
      linarith

theorem shiftRight_succ (em : ExtendedMantissa) (k : ℕ) : em >>> (k + 1) = (em >>> k).shiftRightOne := rfl

theorem Holds.shiftRight (h : Holds em y) (k : ℕ) : Holds (em >>> k) (y / 2 ^ k) := by
  induction k with
  | zero =>
    rw [pow_zero, div_one]
    exact h
  | succ k ih =>
    rw [shiftRight_succ, pow_succ, ← div_div]
    exact ih.shiftRightOne

/-- The accuracy of a fraction, as division has it. -/
theorem holds_fraction (q : ℕ) {r d : ℕ} (h : r < d) :
    Holds (.ofMantissaAndAccuracy q (accuracyOfFraction r d)) (q + r / d) := by
  have hd : (0 : ℚ) < d := by exact_mod_cast (Nat.zero_le r).trans_lt h
  obtain ⟨hfloor, hfract⟩ := floor_fract_of_eq (z := q + (r : ℚ) / d) rfl (by positivity)
    ((div_lt_one hd).mpr (by exact_mod_cast h))
  have hround : 1 / 2 ≤ Int.fract (q + (r : ℚ) / d) ↔ d ≤ 2 * r := by
    rw [hfract, div_le_div_iff₀ two_pos hd, one_mul, mul_comm]
    exact_mod_cast Iff.rfl
  have hzero : Int.fract (q + (r : ℚ) / d) = 0 ↔ r = 0 := by
    rw [hfract, div_eq_zero_iff, or_iff_left hd.ne']
    exact_mod_cast Iff.rfl
  have hhalf : Int.fract (q + (r : ℚ) / d) = 1 / 2 ↔ 2 * r = d := by
    rw [hfract, div_eq_div_iff hd.ne' two_ne_zero, one_mul, mul_comm]
    exact_mod_cast Iff.rfl
  have hbits : ExtendedMantissa.ofMantissaAndAccuracy q (accuracyOfFraction r d) =
      ⟨q, decide (d ≤ 2 * r), decide (r ≠ 0 ∧ 2 * r ≠ d)⟩ := by
    rw [accuracyOfFraction]
    by_cases h0 : r = 0
    · rw [if_pos h0, decide_eq_false (by omega), decide_eq_false (by omega)]
      rfl
    rw [if_neg h0]
    rcases Nat.lt_trichotomy (2 * r) d with hlt | heq | hgt
    · rw [Nat.compare_eq_lt.mpr hlt, decide_eq_false (by omega), decide_eq_true (by omega)]
      rfl
    · rw [Nat.compare_eq_eq.mpr heq, decide_eq_true (by omega), decide_eq_false (by omega)]
      rfl
    · rw [Nat.compare_eq_gt.mpr hgt, decide_eq_true (by omega), decide_eq_true (by omega)]
      rfl
  rw [hbits]
  exact ⟨hfloor, decide_eq_true_iff.trans hround.symm, decide_eq_true_iff.trans (and_congr hzero.not hhalf.not).symm⟩

theorem mantissa_of (m : ℕ) (acc : Accuracy) : (ExtendedMantissa.ofMantissaAndAccuracy m acc).mantissa = m := by
  cases acc with
  | exact => rfl
  | inexact o => cases o <;> rfl

theorem holds_exact (m : ℕ) : Holds (.ofMantissaAndAccuracy m .exact) m := by
  have h := holds_fraction m Nat.one_pos
  rwa [Nat.cast_zero, zero_div, add_zero] at h

end

/-! ## Rounding -/

def IsDouble (u : UnpackedFloat) (x : ℚ) (lo hi : ℤ) : Prop :=
  ∃ (m : ℕ) (e : ℤ) (h : 0 < m), u = .finite .positive m e h ∧ m.log2 = 52 ∧ lo ≤ e ∧ e ≤ hi ∧ x = m * 2 ^ e

theorem IsDouble.mono {u : UnpackedFloat} {x : ℚ} {lo hi lo' hi' : ℤ} (h : IsDouble u x lo hi) (hlo : lo' ≤ lo)
    (hhi : hi ≤ hi') : IsDouble u x lo' hi' := by
  obtain ⟨m, e, hm, hu, hlog, hle, hge, hx⟩ := h
  exact ⟨m, e, hm, hu, hlog, hlo.trans hle, hge.trans hhi, hx⟩

theorem shiftToTargetExponent_eq {m k : ℕ} {e : ℤ} (hk : m.log2 = 52 + k) (he : -1074 ≤ e + k) (acc : Accuracy) :
    shiftToTargetExponent .binary64 m e acc = (ExtendedMantissa.ofMantissaAndAccuracy m acc >>> k, e + k) := by
  have htarget : Format.binary64.targetExponent (totalExponent m e) = e + k := by
    have hmin : Format.binary64.minExponent = -1074 := rfl
    have hbits : Format.binary64.mantissaBits = 53 := rfl
    rw [Format.targetExponent, totalExponent, hmin, hbits, hk]
    omega
  have hshift : (e + k - e).toNat = k := by omega
  unfold shiftToTargetExponent shiftToExponent
  rw [htarget]
  dsimp only
  rw [hshift]

theorem log_of_floor {m : ℕ} (hm : m ≠ 0) {y : ℚ} (hy : ⌊y⌋ = m) (e : ℤ) : Int.log 2 (y * 2 ^ e) = m.log2 + e := by
  have hpow : (0 : ℚ) < 2 ^ e := zpow_pos two_pos e
  have hlow : (2 : ℚ) ^ m.log2 ≤ y := by
    have hle : (m : ℚ) ≤ y := by
      have := (Int.floor_eq_iff.mp hy).1
      exact_mod_cast this
    exact le_trans (by exact_mod_cast Nat.log2_self_le hm) hle
  have hhigh : y < (2 : ℚ) ^ (m.log2 + 1) := by
    have hlt : y < (m : ℚ) + 1 := by
      have := (Int.floor_eq_iff.mp hy).2
      exact_mod_cast this
    exact lt_of_lt_of_le hlt (by exact_mod_cast Nat.lt_log2_self)
  have hpos : 0 < y * 2 ^ e := mul_pos (lt_of_lt_of_le (pow_pos two_pos _) hlow) hpow
  have hlow' : (2 : ℚ) ^ (m.log2 + e) ≤ y * 2 ^ e := by
    rw [zpow_add₀ two_ne_zero, zpow_natCast]
    exact mul_le_mul_of_nonneg_right hlow hpow.le
  have hhigh' : y * 2 ^ e < (2 : ℚ) ^ (m.log2 + e + 1) := by
    rw [add_right_comm, zpow_add₀ two_ne_zero]
    exact mul_lt_mul_of_pos_right (by exact_mod_cast hhigh) hpow
  have hge := (Int.zpow_le_iff_le_log (b := 2) Nat.one_lt_two hpos).mp (by exact_mod_cast hlow')
  have hlt := (Int.lt_zpow_iff_log_lt (b := 2) Nat.one_lt_two hpos).mp (by exact_mod_cast hhigh')
  omega

/-- The only thing the second shift can do is to take a carry out of the mantissa. -/
theorem shift_carry {r : ℕ} {e : ℤ} (hlow : 2 ^ 52 ≤ r) (hhigh : r ≤ 2 ^ 53) (he : -1074 ≤ e) :
    ∃ m c : ℕ, c ≤ 1 ∧ m.log2 = 52 ∧ shiftToTargetExponent .binary64 r e .exact = (⟨m, false, false⟩, e + c) ∧
      (m : ℚ) * 2 ^ (e + c) = r * 2 ^ e := by
  rcases Nat.lt_or_ge r (2 ^ 53) with hlt | hge
  · have hlog : r.log2 = 52 := (Nat.log2_eq_iff (by omega)).mpr ⟨hlow, hlt⟩
    refine ⟨r, 0, Nat.zero_le 1, hlog, shiftToTargetExponent_eq (k := 0) hlog (by omega) .exact, ?_⟩
    rw [Nat.cast_zero, add_zero]
  · obtain rfl : r = 2 ^ 53 := by omega
    refine ⟨2 ^ 52, 1, le_refl 1, Nat.log2_two_pow,
      shiftToTargetExponent_eq (k := 1) Nat.log2_two_pow (by omega) .exact, ?_⟩
    rw [zpow_add₀ two_ne_zero]
    push_cast
    ring

theorem roundWithAccuracy_nearest {m k : ℕ} {e : ℤ} {acc : Accuracy} {y : ℚ}
    (hy : Holds (.ofMantissaAndAccuracy m acc) y) (hk : m.log2 = 52 + k) (he : -1074 ≤ e + k) :
    IsDouble (roundWithAccuracy .binary64 .positive m e acc) (nearest (y * 2 ^ e)) (e + k) (e + k + 1) := by
  have hm : ⌊y⌋ = m := hy.mantissa.trans (congrArg Nat.cast (mantissa_of m acc))
  have hm0 : m ≠ 0 := by
    rintro rfl
    rw [Nat.log2_zero] at hk
    omega
  have hexp : exponent (y * 2 ^ e) = e + k := by
    rw [exponent, log_of_floor hm0 hm, hk]
    push_cast
    ring
  have hscaled : y * 2 ^ e / 2 ^ exponent (y * 2 ^ e) = y / 2 ^ k := by
    rw [hexp, zpow_add₀ two_ne_zero, zpow_natCast, mul_comm y, mul_div_mul_left _ _ (zpow_pos two_pos e).ne']
  have hround := (hy.shiftRight k).roundedMantissa
  have hpos : 0 < y * 2 ^ e := by
    have hle : ((m : ℤ) : ℚ) ≤ y := (Int.floor_eq_iff.mp hm).1
    exact mul_pos (lt_of_lt_of_le (by exact_mod_cast Nat.pos_of_ne_zero hm0) hle) (zpow_pos two_pos e)
  obtain ⟨hlow, hhigh⟩ := digits hpos
  rw [hscaled] at hlow hhigh
  obtain ⟨hlow', hhigh'⟩ := roundEven_mem (x := y / 2 ^ k) (a := 2 ^ 52) (b := 2 ^ 53) (by exact_mod_cast hlow)
    (by exact_mod_cast hhigh)
  rw [← hround] at hlow' hhigh'
  obtain ⟨n, c, hc, hlog, hshift, hvalue⟩ := shift_carry (e := e + k) (by exact_mod_cast hlow') (by exact_mod_cast hhigh') he
  have hn : n ≠ 0 := by
    rintro rfl
    cases hlog
  refine ⟨n, e + k + c, Nat.pos_of_ne_zero hn, ?_, hlog, by omega, by omega, ?_⟩
  · unfold roundWithAccuracy
    rw [shiftToTargetExponent_eq hk he]
    dsimp only
    rw [hshift]
    exact dif_neg hn
  · rw [nearest, hscaled, hexp, ← hround, hvalue, Int.cast_natCast]

/-! ## Conversion and division -/

section
variable {m b : ℕ} {e : ℤ}

theorem pack_normal (hm : 0 < m) (hlog : m.log2 = 52) (hb : e + 1075 = b) (hmax : b < 2046) :
    UnpackedFloat.pack .binary64 (.finite .positive m e hm) =
      packComponents .binary64 .positive (BitVec.ofNat 11 b) (BitVec.ofNat 52 m) := by
  have hbias : Format.binary64.exponentBias = 1023 := rfl
  have hbiased : (e + (1023 : ℕ) + (52 : ℕ)).toNat = b := by omega
  have hexp : ¬ 2 ^ 11 ≤ b + 1 := by omega
  have hbits : m.log2 + 1 = Format.binary64.mantissaBits := by
    rw [hlog]
    rfl
  simp only [UnpackedFloat.pack, hbias, hbiased, hexp, hbits, if_true, if_false]

theorem unpack_normal (hm : 0 < m) (hlog : m.log2 = 52) (hb : e + 1075 = b) (hpos : 0 < b) (hmax : b < 2046) :
    UnpackedFloat.unpack .binary64 (packComponents .binary64 .positive (BitVec.ofNat 11 b) (BitVec.ofNat 52 m)) =
      .finite .positive m e hm := by
  obtain ⟨hlow, hhigh⟩ := (Nat.log2_eq_iff hm.ne').mp hlog
  have hbias : Format.binary64.exponentBias = 1023 := rfl
  have hbits : (BitVec.ofNat 11 b).toNat = b := by
    rw [BitVec.toNat_ofNat]
    exact Nat.mod_eq_of_lt (by omega)
  have hne (c : BitVec 11) (hc : b ≠ c.toNat) : BitVec.ofNat 11 b ≠ c := by
    rintro rfl
    exact hc hbits.symm
  have hmantissa : (1#1 ++ BitVec.ofNat 52 m).toNat = m := by
    rw [BitVec.toNat_append, BitVec.toNat_ofNat, BitVec.toNat_ofNat,
      ← Nat.shiftLeft_add_eq_or_of_lt (Nat.mod_lt _ (by decide)), Nat.shiftLeft_eq]
    omega
  have hexp : (b : ℤ) - ((1023 : ℕ) + (52 : ℕ)) = e := by omega
  have hfull := hne (-1#11) (Nat.ne_of_lt (Nat.lt_of_lt_of_le hmax (by decide)))
  have hzero := hne 0#11 (Nat.ne_of_gt hpos)
  simp only [UnpackedFloat.unpack, unpackExponent_packComponents, unpackMantissa_packComponents,
    unpackSign_packComponents, hbias, hbits, hfull, hzero, hmantissa, hexp, if_false]
  rfl

end

theorem IsDouble.unpack_pack {u : UnpackedFloat} {x : ℚ} {lo hi : ℤ} (h : IsDouble u x lo hi) (hlo : -1074 ≤ lo)
    (hhi : hi ≤ 970) : IsDouble (Float.Model.pack u).unpack x lo hi := by
  obtain ⟨m, e, hm, rfl, hlog, hle, hge, hx⟩ := h
  obtain ⟨b, hb⟩ : ∃ b : ℕ, e + 1075 = b := ⟨(e + 1075).toNat, by omega⟩
  refine ⟨m, e, hm, ?_, hlog, hle, hge, hx⟩
  rw [Float.Model.unpack, Float.Model.pack, UInt64.toBitVec_ofBitVec, pack_normal hm hlog hb (by omega)]
  exact unpack_normal hm hlog hb (by omega) (by omega)

theorem log2_shiftLeft {n : ℕ} (hn : 0 < n) (k : ℕ) : (n <<< k).log2 = n.log2 + k := by
  obtain ⟨hlow, hhigh⟩ := (Nat.log2_eq_iff hn.ne').mp rfl
  rw [Nat.shiftLeft_eq, Nat.log2_eq_iff (Nat.mul_pos hn (Nat.two_pow_pos k)).ne']
  constructor
  · rw [Nat.pow_add]
    exact Nat.mul_le_mul_right _ hlow
  · rw [Nat.add_right_comm, Nat.pow_add]
    exact Nat.mul_lt_mul_of_pos_right hhigh (Nat.two_pow_pos k)

/-- The conversion of an integer. -/
theorem ofInt64_nearest {n : Int64} (h : 0 < n.toInt) :
    IsDouble (Float.Model.ofInt64 n).unpack (nearest n.toInt) (-52) 11 := by
  have hlt := n.toInt_lt
  obtain ⟨N, hN⟩ : ∃ N : ℕ, n.toInt = N := ⟨n.toInt.toNat, by omega⟩
  have hpos : 0 < N := by omega
  have hlog : N.log2 < 63 := (Nat.log2_lt hpos.ne').mpr (by omega)
  have htarget : Format.binary64.targetExponent (totalExponent N 0) = N.log2 - 52 := by
    have hmin : Format.binary64.minExponent = -1074 := rfl
    have hbits : Format.binary64.mantissaBits = 53 := rfl
    rw [Format.targetExponent, totalExponent, hmin, hbits]
    omega
  have hshift : (0 - ((N.log2 : ℤ) - 52)).toNat = 52 - N.log2 := by omega
  have hround : UnpackedFloat.ofInt64 .binary64 n =
      roundWithAccuracy .binary64 .positive (N <<< (52 - N.log2)) (0 - (52 - N.log2 : ℕ)) .exact := by
    have hcompare : compare n.toInt 0 = .gt := Int.compare_eq_gt.mpr h
    unfold UnpackedFloat.ofInt64 UnpackedFloat.ofInt UnpackedFloat.normalize
    rw [hcompare, hN, Int.toNat_natCast]
    dsimp only
    unfold UnpackedFloat.round decreaseExponent
    rw [htarget]
    dsimp only
    rw [hshift]
  have hlog' : (N <<< (52 - N.log2)).log2 = 52 + (N.log2 - 52) := by
    rw [log2_shiftLeft hpos]
    omega
  have hvalue : ((N <<< (52 - N.log2) : ℕ) : ℚ) * 2 ^ ((0 : ℤ) - (52 - N.log2 : ℕ)) = n.toInt := by
    rw [Nat.shiftLeft_eq, hN, zero_sub, zpow_neg, zpow_natCast]
    push_cast
    rw [mul_assoc, mul_inv_cancel₀ (pow_ne_zero _ two_ne_zero), mul_one]
  have hdouble := roundWithAccuracy_nearest (e := 0 - (52 - N.log2 : ℕ)) (holds_exact _) hlog' (by omega)
  rw [hvalue] at hdouble
  rw [Float.Model.ofInt64, hround]
  exact (hdouble.mono (by omega) (by omega)).unpack_pack (by omega) (by omega)

section
variable {m n : ℕ} {e e' : ℤ}

theorem divCore_eq (hm : m.log2 = 52) (hn : n.log2 = 52) (he : -1021 ≤ e - e') : divCore .binary64 m e n e' =
    (m <<< 53 / n, e - e' - 53, accuracyOfFraction (m <<< 53 % n) n) := by
  have htarget : Format.binary64.targetExponent (totalExponent m e - totalExponent n e') = e - e' - 53 := by
    have hmin : Format.binary64.minExponent = -1074 := rfl
    have hbits : Format.binary64.mantissaBits = 53 := rfl
    rw [Format.targetExponent, totalExponent, totalExponent, hmin, hbits, hm, hn]
    omega
  have hmin : min (e - e') (e - e' - 53) = e - e' - 53 := by omega
  have hshift : (e - e' - (e - e' - 53)).toNat = 53 := by omega
  unfold divCore
  rw [htarget, hmin]
  dsimp only
  rw [hshift]

/-- The quotient has a digit for each of the mantissa, and one more at most. -/
theorem quotient_log2 (hm : 0 < m) (hmlog : m.log2 = 52) (hn : 0 < n) (hnlog : n.log2 = 52) :
    ∃ k ≤ 1, (m <<< 53 / n).log2 = 52 + k := by
  obtain ⟨hmlow, hmhigh⟩ := (Nat.log2_eq_iff hm.ne').mp hmlog
  obtain ⟨hnlow, hnhigh⟩ := (Nat.log2_eq_iff hn.ne').mp hnlog
  have hlow : 2 ^ 52 ≤ m <<< 53 / n := by
    rw [Nat.shiftLeft_eq, Nat.le_div_iff_mul_le hn]
    omega
  have hhigh : m <<< 53 / n < 2 ^ 54 := by
    rw [Nat.shiftLeft_eq, Nat.div_lt_iff_lt_mul hn]
    omega
  have hne : m <<< 53 / n ≠ 0 := by omega
  rcases Nat.lt_or_ge (m <<< 53 / n) (2 ^ 53) with hlt | hge
  · exact ⟨0, Nat.zero_le 1, (Nat.log2_eq_iff hne).mpr ⟨hlow, hlt⟩⟩
  · exact ⟨1, le_refl 1, (Nat.log2_eq_iff hne).mpr ⟨hge, hhigh⟩⟩

theorem quotient_exact (m : ℕ) (hn : 0 < n) (e e' : ℤ) :
    ((m <<< 53 / n : ℕ) + (m <<< 53 % n : ℕ) / n : ℚ) * 2 ^ (e - e' - 53) = m * 2 ^ e / (n * 2 ^ e') := by
  have hn' : (n : ℚ) ≠ 0 := by exact_mod_cast hn.ne'
  have hsum : ((m <<< 53 / n : ℕ) + (m <<< 53 % n : ℕ) / n : ℚ) = m * 2 ^ 53 / n := by
    rw [eq_div_iff hn', add_mul, div_mul_cancel₀ _ hn']
    have hdiv := Nat.div_add_mod' (m <<< 53) n
    rw [Nat.shiftLeft_eq] at hdiv ⊢
    exact_mod_cast hdiv
  rw [hsum, zpow_sub₀ two_ne_zero, zpow_sub₀ two_ne_zero]
  field_simp

end

/-- Division. -/
theorem div_nearest {a b : Float.Model} {x y : ℚ} {lo hi lo' hi' : ℤ} (ha : IsDouble a.unpack x lo hi)
    (hb : IsDouble b.unpack y lo' hi') (hlow : -1021 ≤ lo - hi') (hhigh : hi - lo' ≤ 1021) :
    IsDouble (a / b).unpack (nearest (x / y)) (lo - hi' - 53) (hi - lo' - 51) := by
  obtain ⟨m, e, hm, hma, hmlog, hle, hge, rfl⟩ := ha
  obtain ⟨n, e', hn, hnb, hnlog, hle', hge', rfl⟩ := hb
  obtain ⟨k, hk, hlog⟩ := quotient_log2 hm hmlog hn hnlog
  have hdouble := roundWithAccuracy_nearest (e := e - e' - 53) (holds_fraction _ (Nat.mod_lt (m <<< 53) hn)) hlog
    (by omega)
  rw [quotient_exact m hn e e'] at hdouble
  change IsDouble (Float.Model.pack (UnpackedFloat.div .binary64 a.unpack b.unpack)).unpack _ _ _
  rw [hma, hnb, UnpackedFloat.div, divCore_eq hmlog hnlog (by omega)]
  exact (hdouble.mono (by omega) (by omega)).unpack_pack (by omega) (by omega)

end Doubles
