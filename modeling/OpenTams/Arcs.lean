import Mathlib.Data.Nat.ModEq

/-!
# Arcs of a circle

A circle of `N` positions that is cut open before the position `h`, and arcs of `c`
positions on it, the arc `x` from the position `x * c` on. Places are counted from the
cut. An arc is the interval from its own first place to that of the next arc, so that
one that goes on up to the cut is empty.
-/

namespace Arcs

section
variable (N h c : ℕ)

def first (x : ℕ) : ℕ := (x * c + (N - h)) % N

def Has (x t : ℕ) : Prop := first N h c x ≤ t ∧ t < first N h c (x + 1)

def Meet (x y : ℕ) : Prop := ∃ t, Has N h c x t ∧ Has N h c y t

def Whole (x : ℕ) : Prop := first N h c x + c < N

/-- Arcs with the position `q` end before the cut and begin after it. -/
def Far (q : ℕ) : Prop := c ≤ (q + (N - h)) % N ∧ (q + (N - h)) % N + c < N

end

section
variable {N h c x y : ℕ}

theorem Meet.symm (hmeet : Meet N h c x y) : Meet N h c y x := by
  obtain ⟨t, hx, hy⟩ := hmeet
  exact ⟨t, hy, hx⟩

/-- The place of a position of the arc. -/
theorem place_add (x i : ℕ) : (x * c + i + (N - h)) % N = (first N h c x + i) % N := by
  rw [first, Nat.mod_add_mod, Nat.add_right_comm]

theorem has_iff (hc : c < N) (t : ℕ) : Has N h c x t ↔ Whole N h c x ∧ ∃ i < c, t = first N h c x + i := by
  have hsucc : first N h c (x + 1) = (first N h c x + c) % N := by
    rw [← place_add, ← Nat.succ_mul]
    rfl
  have hlt : first N h c x < N := Nat.mod_lt _ (by omega)
  have hinterval : (∃ i < c, t = first N h c x + i) ↔ first N h c x ≤ t ∧ t < first N h c x + c :=
    ⟨by rintro ⟨i, hi, rfl⟩; omega, fun ht => ⟨t - first N h c x, by omega, by omega⟩⟩
  rw [Has, Whole, hsucc, hinterval]
  by_cases hw : first N h c x + c < N
  · rw [Nat.mod_eq_of_lt hw]
    omega
  · rw [Nat.mod_eq_sub_mod (by omega), Nat.mod_eq_of_lt (by omega)]
    omega

theorem Whole.place {i : ℕ} (hw : Whole N h c x) (hi : i < c) :
    (x * c + i + (N - h)) % N = first N h c x + i := by
  unfold Whole at hw
  rw [place_add, Nat.mod_eq_of_lt (by omega)]

theorem Meet.whole (hc : c < N) (hmeet : Meet N h c x y) : Whole N h c x ∧ Whole N h c y := by
  obtain ⟨t, hx, hy⟩ := hmeet
  exact ⟨((has_iff hc t).mp hx).1, ((has_iff hc t).mp hy).1⟩

/-- Arcs that meet have a position of the circle in common. -/
theorem Meet.positions (hc : c < N) (hmeet : Meet N h c x y) : ∃ i < c, ∃ j < c, (x * c + i) % N = (y * c + j) % N := by
  obtain ⟨t, hx, hy⟩ := hmeet
  obtain ⟨hwx, i, hi, hti⟩ := (has_iff hc t).mp hx
  obtain ⟨hwy, j, hj, htj⟩ := (has_iff hc t).mp hy
  rw [← hwx.place hi] at hti
  rw [← hwy.place hj] at htj
  exact ⟨i, hi, j, hj, Nat.ModEq.add_right_cancel' (N - h) (hti.symm.trans htj)⟩

theorem meet_of_mem {q r : ℕ} (hwx : Whole N h c x) (hwy : Whole N h c y) (hq : x * c ≤ q) (hq' : q < x * c + c)
    (hr : y * c ≤ r) (hr' : r < y * c + c) (heq : q % N = r % N) : Meet N h c x y := by
  have hplace {z p : ℕ} (hw : Whole N h c z) (hp : z * c ≤ p) (hp' : p < z * c + c) :
      Has N h c z ((p + (N - h)) % N) := by
    obtain ⟨i, rfl⟩ := Nat.exists_eq_add_of_le hp
    have hi : i < c := by omega
    rw [has_iff (by unfold Whole at hw; omega)]
    exact ⟨hw, i, hi, hw.place hi⟩
  have hsame : (q + (N - h)) % N = (r + (N - h)) % N := Nat.ModEq.add_right (N - h) heq
  exact ⟨_, hplace hwx hq hq', hsame ▸ hplace hwy hr hr'⟩

theorem Far.whole {q : ℕ} (hfar : Far N h c q) (hq : x * c ≤ q) (hq' : q < x * c + c) : Whole N h c x := by
  obtain ⟨i, rfl⟩ := Nat.exists_eq_add_of_le hq
  obtain ⟨hlow, hhigh⟩ := hfar
  have hlt : first N h c x < N := Nat.mod_lt _ (by omega)
  rw [place_add] at hlow hhigh
  unfold Whole
  by_cases hover : first N h c x + i < N
  · rw [Nat.mod_eq_of_lt hover] at hhigh
    omega
  · rw [Nat.mod_eq_sub_mod (by omega), Nat.mod_eq_of_lt (by omega)] at hlow
    omega

theorem Far.of_eq {q r : ℕ} (hfar : Far N h c q) (heq : q % N = r % N) : Far N h c r := by
  have hsame : (q + (N - h)) % N = (r + (N - h)) % N := Nat.ModEq.add_right (N - h) heq
  unfold Far at hfar ⊢
  rwa [← hsame]

/-- Near the cut, two arcs further on is not near it. -/
theorem far_or (hc : 4 * c ≤ N) (hpos : 0 < c) (q : ℕ) : Far N h c q ∨ Far N h c (q + 2 * c) := by
  have hlt : (q + (N - h)) % N < N := Nat.mod_lt _ (by omega)
  have hnext : (q + 2 * c + (N - h)) % N = ((q + (N - h)) % N + 2 * c) % N := by
    rw [Nat.mod_add_mod, Nat.add_right_comm]
  unfold Far
  rw [hnext]
  generalize (q + (N - h)) % N = u at hlt
  by_cases hu : u + 2 * c < N
  · rw [Nat.mod_eq_of_lt hu]
    omega
  · rw [Nat.mod_eq_sub_mod (by omega), Nat.mod_eq_of_lt (by omega)]
    omega

/-! ## Arcs that do not meet -/

/-- Arcs of a stretch that fits into the circle. -/
theorem not_meet_of_lt (hc : c < N) (hxy : x < y) (hfit : (y + 1 - x) * c ≤ N) : ¬ Meet N h c x y := by
  intro hmeet
  obtain ⟨i, hi, j, hj, heq⟩ := hmeet.positions hc
  obtain ⟨d, rfl⟩ : ∃ d, y = x + d + 1 := ⟨y - x - 1, by omega⟩
  have hwidth : x + d + 1 + 1 - x = d + 2 := by omega
  have hend : (x + d + 1) * c = x * c + d * c + c := by rw [Nat.succ_mul, Nat.add_mul]
  rw [hwidth, Nat.add_mul] at hfit
  rw [hend] at heq
  generalize x * c = p at heq
  generalize d * c = w at hfit heq
  -- the two positions are less than a turn apart
  have hdvd := (Nat.modEq_iff_dvd' (by omega)).mp (show p + i ≡ p + w + c + j [MOD N] from heq)
  have hle := Nat.le_of_dvd (by omega) hdvd
  omega

theorem not_meet_of_near {w : ℕ} (hc : c < N) (hxy : x ≠ y) (hx : x < y + w) (hy : y < x + w) (hfit : w * c ≤ N) :
    ¬ Meet N h c x y := by
  have hwidth (z z' : ℕ) (hz : z < z' + w) : (z + 1 - z') * c ≤ N := (Nat.mul_le_mul_right c (by omega)).trans hfit
  rcases Nat.lt_or_gt_of_ne hxy with hlt | hgt
  · exact not_meet_of_lt hc hlt (hwidth y x hy)
  · exact fun hmeet => not_meet_of_lt hc hgt (hwidth x y hx) hmeet.symm

/-! ## A stretch that is longer than the circle -/

variable {d k : ℕ}

/-- One of the arcs from `d` on has the position `t`, and with it meets the arc `z`. -/
theorem exists_meet_at (hc : 0 < c) {z r t : ℕ} (hfar : Far N h c t) (hr : z * c ≤ r) (hr' : r < z * c + c)
    (ht : d * c ≤ t) (ht' : t < (d + k) * c) (heq : t % N = r % N) : ∃ o < k, Meet N h c (d + o) z := by
  have hlow : d ≤ t / c := (Nat.le_div_iff_mul_le hc).mpr ht
  have hhigh : t / c < d + k := (Nat.div_lt_iff_lt_mul hc).mpr ht'
  refine ⟨t / c - d, by omega, ?_⟩
  rw [Nat.add_sub_cancel' hlow]
  have hle : t / c * c ≤ t := Nat.div_mul_le_self t c
  have hlt : t < t / c * c + c := Nat.lt_div_mul_add hc
  exact meet_of_mem (hfar.whole hle hlt) ((hfar.of_eq heq).whole hr hr') hle hlt hr hr' heq

theorem far_turn (hh : c < h) (hN : h + c ≤ N) : Far N h c N := by
  have hplace : (N + (N - h)) % N = N - h := by
    rw [Nat.add_mod_left, Nat.mod_eq_of_lt (by omega)]
  unfold Far
  rw [hplace]
  omega

/-- In a stretch that is longer than the circle an arc at its end meets one before. -/
theorem exists_meet (hc : 0 < c) (hh : c < h) (hN : h + c ≤ N) (hsmall : 4 * c ≤ N) (hd : 0 < d) (hk : 3 ≤ k)
    (hlong : N < (d + k) * c) : ∃ o < k, ∃ y < d, Meet N h c (d + o) y := by
  by_cases hle : d * c ≤ N
  · -- the arc over the end of the circle meets the first one
    obtain ⟨o, ho, hmeet⟩ := exists_meet_at (z := 0) (r := 0) hc (far_turn hh hN) (by omega) (by omega) hle hlong
      (by rw [Nat.mod_self, Nat.zero_mod])
    exact ⟨o, ho, 0, hd, hmeet⟩
  · have hmeet (t : ℕ) (hfar : Far N h c t) (ht : d * c ≤ t) (ht' : t < (d + k) * c) (hback : t - N < d * c) :
        ∃ o < k, ∃ y < d, Meet N h c (d + o) y := by
      obtain ⟨o, ho, hmeet⟩ := exists_meet_at (z := (t - N) / c) (r := t - N) hc hfar (Nat.div_mul_le_self _ c)
        (Nat.lt_div_mul_add hc) ht ht' (Nat.mod_eq_sub_mod (by omega))
      exact ⟨o, ho, _, (Nat.div_lt_iff_lt_mul hc).mpr hback, hmeet⟩
    have hthree : 3 * c ≤ k * c := Nat.mul_le_mul_right c hk
    have hend : (d + k) * c = d * c + k * c := Nat.add_mul d k c
    rcases far_or (h := h) hsmall hc (d * c) with hfar | hfar
    · exact hmeet _ hfar (by omega) (by omega) (by omega)
    · exact hmeet _ hfar (by omega) (by omega) (by omega)

/-! ## A stretch from a position on -/

variable {e : ℕ}

theorem first_eq (he : d * c % N = e) (o : ℕ) : first N h c (d + o) = (e + o * c + (N - h)) % N := by
  rw [first, Nat.add_mul, Nat.add_assoc, Nat.add_mod, he, Nat.add_mod_mod, Nat.add_assoc]

/-- The interval of `c` positions from `p` on goes over the cut or up to it. -/
def Cut (h c p : ℕ) : Prop := p < h ∧ h ≤ p + c

instance (p : ℕ) : Decidable (Cut h c p) := inferInstanceAs (Decidable (_ ∧ _))

theorem place_add_lt_iff (hh : 0 < h) (hN : h ≤ N) {p : ℕ} (hp : p + c ≤ N) :
    (p + (N - h)) % N + c < N ↔ ¬ Cut h c p := by
  unfold Cut
  by_cases hlt : p < h
  · rw [Nat.mod_eq_of_lt (by omega)]
    omega
  · have hback : p + (N - h) = (p - h) + N := by omega
    rw [hback, Nat.add_mod_right]
    by_cases hfull : p - h < N
    · rw [Nat.mod_eq_of_lt hfull]
      omega
    · omega

theorem whole_iff (hh : 0 < h) (hN : h ≤ N) (hx : x * c + c ≤ N) : Whole N h c x ↔ ¬ Cut h c (x * c) :=
  place_add_lt_iff hh hN hx

theorem whole_stretch_iff (hh : 0 < h) (hN : h ≤ N) (he : d * c % N = e) {o : ℕ} (ho : e + o * c + c ≤ N) :
    Whole N h c (d + o) ↔ ¬ Cut h c (e + o * c) := by
  rw [Whole, first_eq he]
  exact place_add_lt_iff hh hN ho

/-- An arc that ends before one of the stretch begins. -/
theorem not_meet_before (hc : c < N) (he : d * c % N = e) {o z : ℕ} (hend : e + o * c + c ≤ N)
    (hz : z * c + c ≤ e + o * c) : ¬ Meet N h c (d + o) z := by
  intro hmeet
  obtain ⟨i, hi, j, hj, heq⟩ := hmeet.positions hc
  rw [Nat.add_mul, Nat.add_assoc, Nat.add_mod, he, Nat.add_mod_mod, Nat.mod_eq_of_lt (by omega),
    Nat.mod_eq_of_lt (by omega)] at heq
  omega

/-- The stretch goes on to the end of the circle, where the first arc begins again. -/
theorem exists_meet_turn (hc : 0 < c) (hh : c < h) (hN : h + c ≤ N) (he : d * c % N = e) (hend : N < e + k * c) :
    ∃ o < k, Meet N h c (d + o) 0 := by
  have hlt : e < N := he ▸ Nat.mod_lt _ (by omega)
  have hmod : (d * c + (N - e)) % N = N % N := by
    rw [Nat.add_mod, he, Nat.add_mod_mod, Nat.add_sub_cancel' hlt.le]
  exact exists_meet_at (z := 0) (r := 0) hc ((far_turn hh hN).of_eq hmod.symm) (by omega) (by omega)
    (Nat.le_add_right _ _) (by rw [Nat.add_mul]; omega) (by rw [hmod, Nat.mod_self, Nat.zero_mod])

def wholeFrom (h c e : ℕ) : ℕ := if Cut h c e then e + c else e

/-- An arc that ends after that meets one of the stretch. -/
theorem exists_meet_after (hc : 0 < c) (hh : 0 < h) (hN : h ≤ N) (he : d * c % N = e) {z : ℕ} (hz : Whole N h c z)
    (hlow : wholeFrom h c e < z * c + c) (hhigh : z * c + c ≤ e + k * c) (hend : e + k * c ≤ N) :
    ∃ o < k, Meet N h c (d + o) z := by
  have hcut := (whole_iff hh hN (hhigh.trans hend)).mp hz
  have hmeet (o : ℕ) (hstart : e + o * c < z * c + c) (hover : z * c < e + o * c + c)
      (hwhole : ¬ Cut h c (e + o * c)) : ∃ o < k, Meet N h c (d + o) z := by
    have ho : o < k := by
      by_contra hge
      have := Nat.mul_le_mul_right c (Nat.le_of_not_lt hge)
      omega
    have hnext : o * c + c ≤ k * c := by
      rw [← Nat.succ_mul]
      exact Nat.mul_le_mul_right c ho
    have hdo : (d + o) * c = d * c + o * c := Nat.add_mul d o c
    -- a position of both
    obtain ⟨q, hq⟩ : ∃ q, q = max (e + o * c) (z * c) := ⟨_, rfl⟩
    refine ⟨o, ho, meet_of_mem (q := d * c + (q - e)) (r := q) ((whole_stretch_iff hh hN he (by omega)).mpr hwhole) hz
      (by omega) (by omega) (by omega) (by omega) ?_⟩
    rw [Nat.add_mod, he, Nat.add_mod_mod, Nat.add_sub_cancel' (by omega)]
  have hfrom : Cut h c e ∧ wholeFrom h c e = e + c ∨ ¬ Cut h c e ∧ wholeFrom h c e = e := by
    unfold wholeFrom
    split
    · rename_i hfirst
      exact Or.inl ⟨hfirst, rfl⟩
    · rename_i hfirst
      exact Or.inr ⟨hfirst, rfl⟩
  generalize wholeFrom h c e = w at hlow hfrom
  -- the arc of the stretch in which the arc `z` begins, or the first one
  obtain ⟨q, hq⟩ : ∃ q, q = max w (z * c) := ⟨_, rfl⟩
  obtain ⟨o, ho⟩ : ∃ o, o = (q - e) / c := ⟨_, rfl⟩
  have hle : o * c ≤ q - e := ho ▸ Nat.div_mul_le_self _ c
  have hlt : q - e < o * c + c := ho ▸ Nat.lt_div_mul_add hc
  by_cases hwhole : Cut h c (e + o * c)
  · have hpos : c ≤ o * c := by
      apply Nat.le_mul_of_pos_left
      by_contra hzero
      rw [Nat.eq_zero_of_not_pos hzero, Nat.zero_mul] at hwhole hlt
      rcases hfrom with ⟨-, hw⟩ | ⟨hfirst, -⟩
      · omega
      · exact hfirst hwhole
    unfold Cut at hwhole hcut hfrom
    -- the arc `z` goes on beyond the arc that is empty
    have hsucc : (o + 1) * c = o * c + c := Nat.succ_mul o c
    exact hmeet (o + 1) (by omega) (by omega) (by unfold Cut; omega)
  · exact hmeet o (by omega) (by omega) hwhole

end

end Arcs
