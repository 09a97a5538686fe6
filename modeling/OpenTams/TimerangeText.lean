import OpenTams.TimerangeSound

/-!
# The text of timeranges

The documented language of timerange strings, with the set of nanoseconds each
string denotes, read off the text alone. The parser accepts only strings of
this language and answers a well-formed range that denotes the same set.
-/

namespace OpenTams

/-! ## The language -/

/-- `{sign?}{seconds}:{nanoseconds}`: the sign applies to the whole value. -/
inductive TimestampText : Str → ℤ → Prop
  | pos {sec ns : Str} : validInt sec = true → validNano ns = true →
      TimestampText (sec ++ ch ':' :: ns) (decVal sec * 1000000000 + decVal ns)
  | neg {sec ns : Str} : validInt sec = true → validNano ns = true →
      TimestampText (ch '-' :: (sec ++ ch ':' :: ns)) (-(decVal sec * 1000000000 + decVal ns))

def Opening (m : Str) : Prop := m = [] ∨ m = [ch '['] ∨ m = [ch '(']

def Closing (m : Str) : Prop := m = [] ∨ m = [ch ']'] ∨ m = [ch ')']

/-- The start of a range after marker `m`: omitted, or a timestamp, inclusive unless `m` says otherwise. -/
def StartText (m a : Str) (A : Set ℤ) : Prop :=
  (a = [] ∧ A = Set.univ) ∨ ∃ v, TimestampText a v ∧ A = {n | if m = [ch '('] then v < n else v ≤ n}

def EndText (m b : Str) (B : Set ℤ) : Prop :=
  (b = [] ∧ B = Set.univ) ∨ ∃ v, TimestampText b v ∧ B = {n | if m = [ch ')'] then n < v else n ≤ v}

inductive RangeText : Str → Set ℤ → Prop
  | empty {m m' : Str} : Opening m → Closing m' → m ++ m' ≠ [] → RangeText (m ++ m') ∅
  | instant {m m' s : Str} {v : ℤ} : Opening m → Closing m' → m ≠ [ch '('] → m' ≠ [ch ')'] →
      TimestampText s v → RangeText (m ++ (s ++ m')) {v}
  | span {m m' a b : Str} {A B : Set ℤ} : Opening m → Closing m' → StartText m a A → EndText m' b B →
      RangeText (m ++ (a ++ ch '_' :: b ++ m')) (A ∩ B)

/-! ## Cutting strings -/

theorem cut_true {sep : UInt8} : ∀ {s a b : Str}, cut sep s = (a, b, true) → s = a ++ sep :: b
  | [], a, b, h => by cases h
  | c :: s, a, b, h => by
    unfold cut at h
    split at h
    · rename_i hc; subst hc; cases h; rfl
    · simp only [Prod.mk.injEq] at h
      obtain ⟨rfl, h2, h3⟩ := h
      have := cut_true (s := s) (a := (cut sep s).1) (b := b) (by rw [← h2, ← h3])
      rw [List.cons_append, ← this]

theorem cut_false {sep : UInt8} : ∀ {s a b : Str}, cut sep s = (a, b, false) → s = a
  | [], a, b, h => by cases h; rfl
  | c :: s, a, b, h => by
    unfold cut at h
    split at h
    · cases h
    · simp only [Prod.mk.injEq] at h
      obtain ⟨rfl, h2, h3⟩ := h
      have := cut_false (s := s) (a := (cut sep s).1) (b := b) (by rw [← h2, ← h3])
      rw [← this]

theorem startMarker_eq {s body : Str} {m : Option UInt8} (h : startMarker s = (m, body)) :
    s = m.toList ++ body ∧ Opening m.toList := by
  unfold startMarker at h
  split at h
  · cases h; exact ⟨rfl, Or.inl rfl⟩
  · split at h
    · rename_i hb
      cases h
      simp only [Bool.or_eq_true, decide_eq_true_eq] at hb
      exact ⟨rfl, Or.inr (hb.imp (by rintro rfl; rfl) (by rintro rfl; rfl))⟩
    · cases h; exact ⟨rfl, Or.inl rfl⟩

theorem endMarker_eq {s body : Str} {m : Option UInt8} (h : endMarker s = (m, body)) :
    s = body ++ m.toList ∧ Closing m.toList := by
  unfold endMarker at h
  split at h
  · cases h; exact ⟨by simp, Or.inl rfl⟩
  · rename_i b hl
    split at h
    · rename_i hb
      cases h
      simp only [Bool.or_eq_true, decide_eq_true_eq] at hb
      refine ⟨?_, Or.inr (hb.imp (by rintro rfl; rfl) (by rintro rfl; rfl))⟩
      obtain ⟨ys, rfl⟩ := List.getLast?_eq_some_iff.mp hl
      simp
    · cases h; exact ⟨by simp, Or.inl rfl⟩

/-! ## Timestamps -/

theorem foldl_digits_lt {s : Str} (h : s.all isDigit = true) (n : ℕ) :
    s.foldl (fun n b => 10 * n + (b.toNat - 48)) n < (n + 1) * 10 ^ s.length := by
  induction s generalizing n with
  | nil => simp
  | cons b s ih =>
    simp only [List.all_cons, Bool.and_eq_true] at h
    have hb : b.toNat ≤ 57 := by
      have := h.1
      simp only [isDigit, Bool.and_eq_true, decide_eq_true_eq, UInt8.le_iff_toNat_le] at this
      exact this.2
    have := ih h.2 (10 * n + (b.toNat - 48))
    simp only [List.foldl_cons, List.length_cons, pow_succ]
    calc _ < (10 * n + (b.toNat - 48) + 1) * 10 ^ s.length := this
      _ ≤ ((n + 1) * 10) * 10 ^ s.length := Nat.mul_le_mul_right _ (by omega)
      _ = _ := by ring

theorem decVal_validNano {s : Str} (h : validNano s = true) : decVal s < 1000000000 := by
  have hd : s.all isDigit = true ∧ s.length ≤ 9 := by
    unfold validNano at h
    split at h
    · cases h
    · rename_i b s
      split at h
      · rename_i he; rw [he]; exact ⟨by decide, by decide⟩
      · split at h
        · cases h
        · rename_i hb
          split at h
          · cases h
          · rename_i hl
            have h0 : (ch '0').toNat = 48 := rfl
            have h1 : (ch '1').toNat = 49 := rfl
            have h9 : (ch '9').toNat = 57 := rfl
            simp only [Bool.or_eq_true, decide_eq_true_eq, UInt8.lt_iff_toNat_lt] at hb
            refine ⟨?_, by omega⟩
            simp only [List.all_cons, h, Bool.and_true, isDigit, Bool.and_eq_true, decide_eq_true_eq,
              UInt8.le_iff_toNat_le]
            omega
  have := foldl_digits_lt hd.1 0
  calc decVal s < (0 + 1) * 10 ^ s.length := this
    _ ≤ (0 + 1) * 10 ^ 9 := Nat.mul_le_mul_left _ (Nat.pow_le_pow_right (by omega) hd.2)
    _ = 1000000000 := by norm_num

theorem parseUint_eq {s : Str} {mag : UInt64} (h : parseUint s = some mag) : mag.toNat = decVal s := by
  unfold parseUint at h
  split at h
  · rename_i hlt
    cases h
    rw [UInt64.toNat_ofNat']
    exact Nat.mod_eq_of_lt hlt
  · cases h

theorem maxInt64_not_lt {m : UInt64} : ¬ maxInt64 < m ↔ m.toNat < 2 ^ 63 := by
  rw [UInt64.lt_iff_toNat_lt, show maxInt64.toNat = 2 ^ 63 - 1 by decide]
  omega

theorem maxInt64_succ_not_lt {m : UInt64} : ¬ maxInt64 + 1 < m ↔ m.toNat ≤ 2 ^ 63 := by
  rw [UInt64.lt_iff_toNat_lt, show (maxInt64 + 1).toNat = 2 ^ 63 by decide]
  omega

theorem toInt_ofNat_nanos {n : ℕ} (h : n < 1000000000) : (Int64.ofNat n).toInt = n := by
  rw [Int64.toInt_ofNat']
  exact bmod64 (by omega) (by omega)

theorem ofNat_nanos_eq_zero {n : ℕ} (h : n < 1000000000) : Int64.ofNat n = 0 ↔ n = 0 := by
  rw [← Int64.toInt_inj, toInt_ofNat_nanos h, Int64.toInt_zero]
  omega

theorem toInt64_of_le {m : UInt64} (h : m.toNat < 2 ^ 63) : m.toInt64.toInt = m.toNat := by
  rw [toInt_toInt64]
  exact bmod64 (by omega) (by omega)

theorem toInt_neg_sub_one {m : UInt64} (h : m.toNat < 2 ^ 63) : (-m.toInt64 - 1).toInt = -(m.toNat : ℤ) - 1 := by
  have hneg : (-(m.toNat : ℤ)).bmod (2 ^ 64) = -(m.toNat : ℤ) := bmod64 (by omega) (by omega)
  rw [Int64.toInt_sub, Int64.toInt_neg, toInt64_of_le h, hneg, Int64.toInt_one]
  exact bmod64 (by omega) (by omega)

section
variable {mag : UInt64} {ns : Int64} {n : ℕ}

theorem toInt32_nanos (hns : ns.toInt = n) (hn : n < 1000000000) : ns.toInt32.toInt = n := by
  rw [Int64.toInt_toInt32, hns]
  exact bmod32 (by omega) (by omega)

theorem value_nonneg (hmag : mag.toNat < 2 ^ 63) (hns : ns.toInt = n) (hn : n < 1000000000) :
    (⟨mag.toInt64, ns.toInt32⟩ : Timestamp).Valid ∧
      (⟨mag.toInt64, ns.toInt32⟩ : Timestamp).value = mag.toNat * 1000000000 + n := by
  have hns32 := toInt32_nanos hns hn
  refine ⟨⟨?_, ?_⟩, ?_⟩
  · simp only [hns32]; omega
  · simp only [hns32]; omega
  · simp only [Timestamp.value, toInt64_of_le hmag, hns32]

theorem value_wholeNeg (hpos : 1 ≤ mag.toNat) (hmag : mag.toNat ≤ 2 ^ 63) :
    (⟨-(mag - 1).toInt64 - 1, 0⟩ : Timestamp).Valid ∧
      (⟨-(mag - 1).toInt64 - 1, 0⟩ : Timestamp).value = -(mag.toNat * 1000000000 : ℤ) := by
  have hsub : (mag - 1).toNat = mag.toNat - 1 :=
    UInt64.toNat_sub_of_le _ _ (UInt64.le_iff_toNat_le.mpr (by simpa using hpos))
  have hval : (-(mag - 1).toInt64 - 1).toInt = -(mag.toNat : ℤ) := by
    rw [toInt_neg_sub_one (by omega), hsub]
    omega
  have hz32 : (0 : Int32).toInt = 0 := by decide
  refine ⟨⟨?_, ?_⟩, ?_⟩
  · simp only [hz32]; omega
  · simp only [hz32]; omega
  · simp only [Timestamp.value, hval, hz32]
    ring

theorem value_fracNeg (hmag : mag.toNat < 2 ^ 63) (hns : ns.toInt = n) (hpos : 0 < n) (hn : n < 1000000000) :
    (⟨-mag.toInt64 - 1, (nsPerSec - ns).toInt32⟩ : Timestamp).Valid ∧
      (⟨-mag.toInt64 - 1, (nsPerSec - ns).toInt32⟩ : Timestamp).value = -(mag.toNat * 1000000000 + n : ℤ) := by
  -- the fraction counts up from the floor
  have hfrac : (nsPerSec - ns).toInt32.toInt = 1000000000 - (n : ℤ) := by
    rw [Int64.toInt_toInt32, Int64.toInt_sub, toInt_nsPerSec, hns, bmod64 (by omega) (by omega)]
    exact bmod32 (by omega) (by omega)
  refine ⟨⟨?_, ?_⟩, ?_⟩
  · simp only [hfrac]; omega
  · simp only [hfrac]; omega
  · simp only [Timestamp.value, toInt_neg_sub_one hmag, hfrac]
    ring

end

/-- The parser of timestamps answers a valid timestamp with the value of the text. -/
theorem parseTimestamp_text {s : Str} {ts : Timestamp} (h : parseTimestamp s = .ok ts) :
    ts.Valid ∧ TimestampText s ts.value := by
  unfold parseTimestamp at h
  obtain ⟨secStr, nsStr, ok, hcut⟩ :
      ∃ a b ok, cut (ch ':') (if s.head? = some (ch '-') then s.tail else s) = (a, b, ok) := ⟨_, _, _, rfl⟩
  simp only [hcut] at h
  split at h
  · cases h
  rename_i hok
  split at h
  · cases h
  rename_i hsec
  split at h
  · cases h
  rename_i hnano
  simp only [Bool.not_eq_true', Bool.not_eq_false] at hok hsec hnano
  subst hok
  have htext := cut_true hcut
  split at h
  · cases h
  rename_i mag hmag
  have hmag := parseUint_eq hmag
  have hlt := decVal_validNano hnano
  have hns := toInt_ofNat_nanos hlt
  have hns0 := ofNat_nanos_eq_zero hlt
  generalize Int64.ofNat (decVal nsStr) = ns at h hns hns0
  by_cases hneg : s.head? = some (ch '-')
  · rw [if_pos hneg] at htext
    have hs : s = ch '-' :: (secStr ++ ch ':' :: nsStr) := by
      rw [← htext]
      exact (List.cons_head?_tail hneg).symm
    have htxt := TimestampText.neg hsec hnano
    rw [← hs, ← hmag] at htxt
    simp only [hneg, decide_true, Bool.not_true, Bool.false_or] at h
    split at h
    · -- zero with a sign
      rename_i hzero
      simp only [Bool.and_eq_true, decide_eq_true_eq, hns0] at hzero
      split at h
      · cases h
      rename_i hle
      cases h
      obtain ⟨hvalid, hval⟩ := value_nonneg (maxInt64_not_lt.mp hle) hns hlt
      refine ⟨hvalid, ?_⟩
      have hmag0 : mag.toNat = 0 := by rw [hzero.1]; rfl
      rw [hmag0, hzero.2] at htxt hval
      rw [hval]
      exact htxt
    · rename_i hzero
      simp only [Bool.and_eq_true, decide_eq_true_eq, hns0, not_and] at hzero
      split at h
      · -- whole seconds: the magnitude may be `2 ^ 63`
        rename_i hns0'
        rw [hns0] at hns0'
        have hpos : 1 ≤ mag.toNat := by
          by_contra hlt
          exact hzero (UInt64.toNat_inj.mp (by simp; omega)) hns0'
        split at h
        · cases h
        rename_i hle
        cases h
        obtain ⟨hvalid, hval⟩ := value_wholeNeg hpos (maxInt64_succ_not_lt.mp hle)
        refine ⟨hvalid, ?_⟩
        rw [hns0', Nat.cast_zero, add_zero] at htxt
        rwa [hval]
      · rename_i hns0'
        rw [hns0] at hns0'
        split at h
        · cases h
        rename_i hle
        cases h
        obtain ⟨hvalid, hval⟩ := value_fracNeg (maxInt64_not_lt.mp hle) hns (by omega) hlt
        exact ⟨hvalid, by rwa [hval]⟩
  · rw [if_neg hneg] at htext
    have htxt := TimestampText.pos hsec hnano
    rw [← htext, ← hmag] at htxt
    simp only [hneg, decide_false, Bool.not_false, Bool.true_or, if_true] at h
    split at h
    · cases h
    rename_i hle
    cases h
    obtain ⟨hvalid, hval⟩ := value_nonneg (maxInt64_not_lt.mp hle) hns hlt
    exact ⟨hvalid, by rwa [hval]⟩

/-! ## Ranges -/

/-- A side is empty or a timestamp. -/
theorem parseSide_ok {s side : Str} {exclusive : Bool} {ts : Option Timestamp} {ty : BoundType}
    (h : parseSide s side exclusive = .ok (ts, ty)) :
    side = [] ∧ ts = none ∧ ty = .unbounded ∨
      ∃ x, parseTimestamp side = .ok x ∧ ts = some x ∧ ty = if exclusive then .exclusive else .inclusive := by
  unfold parseSide at h
  split at h
  · rename_i he
    cases h
    exact Or.inl ⟨he, rfl, rfl⟩
  · split at h
    · cases h
    · rename_i x hx
      cases h
      exact Or.inr ⟨x, hx, rfl, rfl⟩

theorem parseSide_start {s side m : Str} {ts : Option Timestamp} {ty : BoundType}
    (h : parseSide s side (m = [ch '(']) = .ok (ts, ty)) :
    SideWf ts ty ∧ StartText m side (lowerSet ts ty) := by
  obtain ⟨he, rfl, rfl⟩ | ⟨x, hx, rfl, rfl⟩ := parseSide_ok h
  · exact ⟨Or.inl ⟨rfl, rfl⟩, Or.inl ⟨he, rfl⟩⟩
  · obtain ⟨hv, ht⟩ := parseTimestamp_text hx
    refine ⟨Or.inr ⟨x, rfl, hv, ?_⟩, Or.inr ⟨x.value, ht, ?_⟩⟩
    · split <;> simp
    · by_cases hm : m = [ch '('] <;> simp [hm, lowerSet]

theorem parseSide_end {s side m : Str} {ts : Option Timestamp} {ty : BoundType}
    (h : parseSide s side (m = [ch ')']) = .ok (ts, ty)) :
    SideWf ts ty ∧ EndText m side (upperSet ts ty) := by
  obtain ⟨he, rfl, rfl⟩ | ⟨x, hx, rfl, rfl⟩ := parseSide_ok h
  · exact ⟨Or.inl ⟨rfl, rfl⟩, Or.inl ⟨he, rfl⟩⟩
  · obtain ⟨hv, ht⟩ := parseTimestamp_text hx
    refine ⟨Or.inr ⟨x, rfl, hv, ?_⟩, Or.inr ⟨x.value, ht, ?_⟩⟩
    · split <;> simp
    · by_cases hm : m = [ch ')'] <;> simp [hm, upperSet]

theorem toList_eq_singleton {m : Option UInt8} {b : UInt8} : m.toList = [b] ↔ m = some b := by
  cases m <;> simp

/-- **The parser is sound.** What it accepts is in the language, and its answer
is well formed and denotes the set the text denotes. -/
theorem parse_text {s : Str} {tr : TimeRange} (h : parse s = .ok tr) : tr.Wf ∧ RangeText s tr.denote := by
  unfold parse at h
  split at h
  · cases h
  rename_i hne
  obtain ⟨m, body, hm⟩ : ∃ m body, startMarker s = (m, body) := ⟨_, _, rfl⟩
  obtain ⟨m', mid, hm'⟩ : ∃ m' mid, endMarker body = (m', mid) := ⟨_, _, rfl⟩
  obtain ⟨a, b, sep, hcut⟩ : ∃ a b sep, cut (ch '_') mid = (a, b, sep) := ⟨_, _, _, rfl⟩
  obtain ⟨hs, hop⟩ := startMarker_eq hm
  obtain ⟨hbody, hcl⟩ := endMarker_eq hm'
  simp only [hm, hm', hcut] at h
  rw [hbody] at hs
  split at h
  · rename_i hsep
    simp only [Bool.not_eq_true'] at hsep
    subst hsep
    have hmid := cut_false hcut
    subst hmid
    split at h
    · rename_i hnil
      cases h
      subst hnil
      refine ⟨Or.inl rfl, ?_⟩
      rw [TimeRange.denote_empty, hs]
      exact .empty hop hcl (by simpa [hs] using hne)
    · split at h
      · cases h
      · rename_i hmark
        split at h
        · cases h
        · rename_i ts hts
          cases h
          obtain ⟨hv, ht⟩ := parseTimestamp_text hts
          simp only [Bool.or_eq_true, decide_eq_true_eq, not_or, ← toList_eq_singleton] at hmark
          refine ⟨Or.inr ⟨Or.inr ⟨ts, rfl, hv, by simp⟩, Or.inr ⟨ts, rfl, hv, by simp⟩⟩, ?_⟩
          have : (⟨some ts, .inclusive, some ts, .inclusive⟩ : TimeRange).denote = {ts.value} := by
            ext n
            simp [TimeRange.denote, lowerSet, upperSet, le_antisymm_iff, and_comm]
          rw [this, hs]
          exact .instant hop hcl hmark.1 hmark.2 ht
  · rename_i hsep
    simp only [Bool.not_eq_true', Bool.not_eq_false] at hsep
    subst hsep
    have hmid := cut_true hcut
    split at h
    · cases h
    · rename_i st sty hst
      split at h
      · cases h
      · rename_i en ety hen
        cases h
        simp only [← toList_eq_singleton] at hst hen
        obtain ⟨hw, ht⟩ := parseSide_start hst
        obtain ⟨hw', ht'⟩ := parseSide_end hen
        refine ⟨Or.inr ⟨hw, hw'⟩, ?_⟩
        rw [hs, hmid]
        exact .span hop hcl ht ht'

end OpenTams
