import OpenTams.TimerangeText

/-!
# Canonical strings

The strings that `String` renders are in the language of timerange strings and
denote the value they are rendered from: digits of numbers, timestamps with
their sign in front of the magnitude, and ranges.
-/

namespace OpenTams

/-! ## Digits -/

theorem toNat_ch {c : Char} (h : c.isDigit = true) : (ch c).toNat = c.toNat ∧ 48 ≤ c.toNat ∧ c.toNat ≤ 57 := by
  simp only [Char.isDigit, Bool.and_eq_true, decide_eq_true_eq, ge_iff_le, UInt32.le_iff_toNat_le] at h
  have hlo : 48 ≤ c.toNat := h.1
  have hhi : c.toNat ≤ 57 := h.2
  refine ⟨?_, hlo, hhi⟩
  show c.toNat % 256 = c.toNat
  omega

theorem isDigit_ch {c : Char} (h : c.isDigit = true) : isDigit (ch c) = true := by
  obtain ⟨heq, hlo, hhi⟩ := toNat_ch h
  simp only [isDigit, Bool.and_eq_true, decide_eq_true_eq, UInt8.le_iff_toNat_le, heq]
  exact ⟨hlo, hhi⟩

theorem isDigit_toDigits {n : ℕ} {c : Char} (h : c ∈ Nat.toDigits 10 n) : c.isDigit = true :=
  Nat.isDigit_of_mem_toDigits (by decide) (by decide) h

theorem decStr_ne_nil (n : ℕ) : decStr n ≠ [] := by
  simp [decStr, Nat.toDigits_ne_nil]

theorem decStr_digits (n : ℕ) : (decStr n).all isDigit = true := by
  simp only [decStr, List.all_map, List.all_eq_true, Function.comp]
  exact fun c hc => isDigit_ch (isDigit_toDigits hc)

theorem decVal_decStr (n : ℕ) : decVal (decStr n) = n := by
  have hfold : ∀ (l : List Char) (k : ℕ), (∀ c ∈ l, c.isDigit = true) →
      (l.map ch).foldl (fun n b => 10 * n + (b.toNat - 48)) k = Nat.ofDigitChars 10 l k := by
    intro l
    induction l with
    | nil => exact fun _ _ => rfl
    | cons c l ih =>
      intro k h
      obtain ⟨hc, hl⟩ := List.forall_mem_cons.mp h
      rw [List.map_cons, List.foldl_cons, (toNat_ch hc).1]
      exact ih _ hl
  rw [decVal, decStr, hfold _ _ fun c hc => isDigit_toDigits hc, Nat.ofDigitChars_ten_toDigits]

theorem toDigits_head {n : ℕ} (h : 0 < n) : ∃ d l, Nat.toDigits 10 n = Nat.digitChar d :: l ∧ 0 < d ∧ d < 10 := by
  induction n using Nat.strong_induction_on with
  | _ n ih =>
    rcases Nat.lt_or_ge n 10 with hlt | hge
    · exact ⟨n, [], Nat.toDigits_of_lt_base hlt, h, hlt⟩
    · obtain ⟨d, l, hd, hpos⟩ := ih (n / 10) (by omega) (by omega)
      refine ⟨d, l ++ [(n % 10).digitChar], ?_, hpos⟩
      rw [Nat.toDigits_of_base_le (by decide) hge, hd, List.cons_append]

theorem decStr_pos {n : ℕ} (h : 0 < n) :
    ∃ b s, decStr n = b :: s ∧ (¬ b < ch '1' ∧ ¬ ch '9' < b) ∧ s.all isDigit = true := by
  obtain ⟨d, l, hl, hpos, hlt⟩ := toDigits_head h
  have hdigits := decStr_digits n
  rw [decStr, hl, List.map_cons, List.all_cons, Bool.and_eq_true] at hdigits
  have hbyte : ∀ d < 10, 0 < d → ¬ ch (Nat.digitChar d) < ch '1' ∧ ¬ ch '9' < ch (Nat.digitChar d) := by decide
  exact ⟨ch d.digitChar, l.map ch, by rw [decStr, hl, List.map_cons], hbyte d hlt hpos, hdigits.2⟩

theorem validInt_decStr (n : ℕ) : validInt (decStr n) = true := by
  rcases Nat.eq_zero_or_pos n with rfl | hn
  · decide
  · obtain ⟨b, s, hs, ⟨hlo, hhi⟩, hdigits⟩ := decStr_pos hn
    rw [hs, validInt]
    split
    · rfl
    · simp only [hlo, hhi, decide_false, Bool.or_self, Bool.false_eq_true, if_false]
      exact hdigits

theorem validNano_decStr {n : ℕ} (h : n < 1000000000) : validNano (decStr n) = true := by
  rcases Nat.eq_zero_or_pos n with rfl | hn
  · decide
  · have hlen : (decStr n).length ≤ 9 := by
      rw [decStr, List.length_map]
      exact (Nat.length_toDigits_le_iff (by decide) (by decide)).mpr h
    obtain ⟨b, s, hs, ⟨hlo, hhi⟩, hdigits⟩ := decStr_pos hn
    rw [hs] at hlen ⊢
    rw [validNano]
    split
    · rfl
    · simp only [hlo, hhi, decide_false, Bool.or_self, Bool.false_eq_true, if_false, Nat.not_lt.mpr hlen]
      exact hdigits

theorem intStr_nonneg {i : ℤ} (h : 0 ≤ i) : intStr i = decStr i.toNat := by
  rw [intStr, if_neg (by omega)]

/-! ## Timestamps -/

theorem toNat_toUInt64 {x : Int64} (h : 0 ≤ x.toInt) : (x.toUInt64.toNat : ℤ) = x.toInt := by
  have hx : x.toInt = (x.toUInt64.toNat : ℤ).bmod (2 ^ 64) := BitVec.toInt_eq_toNat_bmod _
  have hlt := x.toUInt64.toNat_lt
  rw [hx] at h ⊢
  rw [Int.bmod_def] at h ⊢
  split at h <;> omega

theorem toNat_neg_succ {x : Int64} (h : x.toInt < 0) : ((-(x + 1)).toUInt64.toNat : ℤ) = -(x.toInt + 1) := by
  have hlo := x.le_toInt
  have hadd := toInt_succ64 (x := x) (by omega)
  have hneg : (-(x + 1)).toInt = -(x.toInt + 1) := by
    rw [Int64.toInt_neg, hadd]
    exact bmod64 (by omega) (by omega)
  rw [toNat_toUInt64 (by omega), hneg]

theorem string_neg {ts : Timestamp} (h : ts.Valid) (hsec : ts.seconds.toInt < 0) :
    ∃ sec ns : ℕ, ts.string = ch '-' :: (decStr sec ++ ch ':' :: decStr ns) ∧ ns < 1000000000 ∧
      -((sec : ℤ) * 1000000000 + ns) = ts.value := by
  obtain ⟨hns, hns'⟩ := h
  have hmag := toNat_neg_succ hsec
  have hlo := ts.seconds.le_toInt
  unfold Timestamp.string Timestamp.value
  rw [if_neg (by rw [Int64.le_iff_toInt_le]; exact Int.not_le.mpr hsec)]
  by_cases hz : ts.nanoseconds = 0
  · simp only [hz, if_true]
    refine ⟨((-(ts.seconds + 1)).toUInt64 + 1).toNat, 0, rfl, by omega, ?_⟩
    have hadd : ((-(ts.seconds + 1)).toUInt64 + 1).toNat = (-(ts.seconds + 1)).toUInt64.toNat + 1 := by
      rw [UInt64.toNat_add]
      exact Nat.mod_eq_of_lt (by rw [UInt64.toNat_one]; omega)
    rw [hadd, Nat.cast_add, hmag]
    simp only [Nat.cast_one, Nat.cast_zero, Int32.toInt_zero]
    omega
  · simp only [hz, if_false]
    have hsub : (nsPerSec - ts.nanoseconds.toInt64).toInt = 1000000000 - ts.nanoseconds.toInt := by
      rw [Int64.toInt_sub, Int32.toInt_toInt64]
      exact bmod64 (by simp [nsPerSec]; omega) (by simp [nsPerSec]; omega)
    have hpos : ts.nanoseconds.toInt ≠ 0 := fun h => hz (Int32.toInt_inj.mp h)
    refine ⟨_, (1000000000 - ts.nanoseconds.toInt).toNat, by rw [hsub, intStr_nonneg (by omega)]; rfl, by omega, ?_⟩
    rw [hmag, Int.toNat_of_nonneg (by omega)]
    omega

theorem Timestamp.string_text {ts : Timestamp} (h : ts.Valid) : TimestampText ts.string ts.value := by
  rcases Int.lt_or_le ts.seconds.toInt 0 with hsec | hsec
  · obtain ⟨sec, ns, hs, hlt, hv⟩ := string_neg h hsec
    have htext := TimestampText.neg (validInt_decStr sec) (validNano_decStr hlt)
    rw [decVal_decStr, decVal_decStr, hv] at htext
    exact hs ▸ htext
  · obtain ⟨hns, hns'⟩ := h
    have htext := TimestampText.pos (validInt_decStr ts.seconds.toInt.toNat)
      (validNano_decStr (n := ts.nanoseconds.toInt.toNat) (by omega))
    rw [decVal_decStr, decVal_decStr, Int.toNat_of_nonneg hsec, Int.toNat_of_nonneg hns] at htext
    rw [Timestamp.string, if_pos (by rw [Int64.le_iff_toInt_le]; exact hsec), intStr_nonneg hsec, intStr_nonneg hns]
    exact htext

/-! ## Ranges -/

def startMark (ty : BoundType) : UInt8 := if ty = .exclusive then ch '(' else ch '['

def endMark (ty : BoundType) : UInt8 := if ty = .exclusive then ch ')' else ch ']'

theorem opening_nil : Opening [] := Or.inl rfl

theorem closing_nil : Closing [] := Or.inl rfl

theorem opening_startMark (ty : BoundType) : Opening [startMark ty] := by
  cases ty with
  | exclusive => exact Or.inr (Or.inr rfl)
  | _ => exact Or.inr (Or.inl rfl)

theorem closing_endMark (ty : BoundType) : Closing [endMark ty] := by
  cases ty with
  | exclusive => exact Or.inr (Or.inr rfl)
  | _ => exact Or.inr (Or.inl rfl)

theorem startText_string {s : Timestamp} {ty : BoundType} (h : s.Valid) (hty : ty ≠ .unbounded) :
    StartText [startMark ty] s.string (lowerSet (some s) ty) := by
  refine Or.inr ⟨_, s.string_text h, ?_⟩
  cases ty with
  | inclusive => rfl
  | exclusive => rfl
  | unbounded => exact absurd rfl hty

theorem endText_string {e : Timestamp} {ty : BoundType} (h : e.Valid) (hty : ty ≠ .unbounded) :
    EndText [endMark ty] e.string (upperSet (some e) ty) := by
  refine Or.inr ⟨_, e.string_text h, ?_⟩
  cases ty with
  | inclusive => rfl
  | exclusive => rfl
  | unbounded => exact absurd rfl hty

theorem startText_omitted {m : Str} : StartText m [] Set.univ := Or.inl ⟨rfl, rfl⟩

theorem endText_omitted {m : Str} : EndText m [] Set.univ := Or.inl ⟨rfl, rfl⟩

theorem denote_instant {s e : Timestamp} {sty ety : BoundType} (hs : s.Valid) (he : e.Valid) (hsty : sty ≠ .unbounded)
    (hety : ety ≠ .unbounded) (heq : s.equal e = true)
    (hne : (⟨some s, sty, some e, ety⟩ : TimeRange).denote.Nonempty) :
    (⟨some s, sty, some e, ety⟩ : TimeRange).denote = {s.value} := by
  have hval := (Timestamp.equal_iff hs he).mp heq
  have hsh : 0 ≤ sty.startShift := by cases sty <;> decide
  have hsh' : ety.endShift ≤ 1 := by cases ety <;> decide
  obtain ⟨k, hk⟩ := hne
  rw [TimeRange.mem_denote_bounded hsty hety] at hk
  ext n
  rw [TimeRange.mem_denote_bounded hsty hety, Set.mem_singleton_iff]
  omega

/-- **The rendering is exact**: a well-formed range is rendered, and as a string that denotes it. -/
theorem TimeRange.string_text {tr : TimeRange} (h : tr.Wf) :
    ∃ text, tr.string = some text ∧ RangeText text tr.denote := by
  unfold TimeRange.string
  by_cases hem : tr.isEmpty = true
  · rw [if_pos hem, (isEmpty_iff h).mp hem]
    exact ⟨_, rfl, RangeText.empty (opening_startMark .exclusive) (closing_endMark .exclusive) (by decide)⟩
  rw [if_neg hem]
  have hne : tr.denote.Nonempty := Set.nonempty_iff_ne_empty.mpr fun he => hem ((isEmpty_iff h).mpr he)
  rcases h with rfl | ⟨hs, he⟩
  · exact absurd rfl hem
  obtain ⟨start, sty, endTs, ety⟩ := tr
  simp only at hs he
  rcases hs with ⟨rfl, rfl⟩ | ⟨s, rfl, hsv, hsty⟩ <;> rcases he with ⟨rfl, rfl⟩ | ⟨e, rfl, hev, hety⟩
  · exact ⟨_, rfl, RangeText.span opening_nil closing_nil startText_omitted endText_omitted⟩
  · refine ⟨ch '_' :: (e.string ++ [endMark ety]), ?_, ?_⟩
    · simp [isEternity, hety, string.endPart, endMark]
    · exact RangeText.span opening_nil (closing_endMark ety) startText_omitted (endText_string hev hety)
  · refine ⟨startMark sty :: s.string ++ [ch '_'], ?_, ?_⟩
    · simp [isEternity, hsty, string.startPart, startMark]
    · have := RangeText.span (opening_startMark sty) closing_nil (startText_string hsv hsty) endText_omitted
      simpa [denote, upperSet] using this
  · simp only [isEternity, hsty, hety, Option.isNone_some, decide_false, Bool.and_self, Bool.false_eq_true,
      if_false, ne_eq, not_true_eq_false, Bool.or_self]
    by_cases heq : s.equal e = true
    · refine ⟨_, if_pos heq, ?_⟩
      rw [denote_instant hsv hev hsty hety heq hne]
      exact RangeText.instant (opening_startMark .inclusive) (closing_endMark .inclusive) (by decide) (by decide)
        (s.string_text hsv)
    · refine ⟨_, if_neg heq, ?_⟩
      have := RangeText.span (opening_startMark sty) (closing_endMark ety) (startText_string hsv hsty)
        (endText_string hev hety)
      simpa [denote, string.startPart, string.endPart, startMark, endMark] using this

end OpenTams
