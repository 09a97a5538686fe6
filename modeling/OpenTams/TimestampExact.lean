import Mathlib.Data.List.Induction
import OpenTams.RangeParse

/-!
# Timestamps and their text are inverse

A text of the timestamp language is determined by its value, up to the sign of
zero, so rendering what was parsed gives the text back. `ParseTimestamp` and
`String` are restated with every machine operation done over the integers and
its result required to fit; they answer the same, so no operation wraps.
-/

namespace OpenTams

/-! ## Digits -/

theorem digit_of_toNat {b : UInt8} (h : isDigit b = true) :
    b.toNat - 48 < 10 ∧ ch (Nat.digitChar (b.toNat - 48)) = b := by
  have h0 : (ch '0').toNat = 48 := rfl
  have h9 : (ch '9').toNat = 57 := rfl
  simp only [isDigit, Bool.and_eq_true, decide_eq_true_eq, UInt8.le_iff_toNat_le] at h
  have hd : ∀ d < 10, ch (Nat.digitChar d) = UInt8.ofNat (48 + d) := by decide
  refine ⟨by omega, ?_⟩
  rw [hd _ (by omega), show 48 + (b.toNat - 48) = b.toNat by omega]
  exact UInt8.ofNat_toNat

theorem decVal_append (s : Str) (b : UInt8) : decVal (s ++ [b]) = 10 * decVal s + (b.toNat - 48) := by
  rw [decVal, List.foldl_append]
  rfl

theorem decStr_decVal_pos {s : Str} (hd : ∀ c ∈ s, isDigit c = true) (hz : s.head? ≠ some (ch '0')) (hne : s ≠ []) :
    0 < decVal s ∧ decStr (decVal s) = s := by
  -- a number is rendered from its last digit backwards
  induction s using List.reverseRecOn with
  | nil => exact absurd rfl hne
  | append_singleton s b ih =>
    obtain ⟨hlt, hb⟩ := digit_of_toNat (hd b (by simp))
    rw [decVal_append]
    by_cases hs : s = []
    · subst hs
      have hpos : b.toNat - 48 ≠ 0 := by
        intro h0
        rw [h0] at hb
        exact hz (by rw [← hb]; rfl)
      show 0 < 10 * 0 + (b.toNat - 48) ∧ decStr (10 * 0 + (b.toNat - 48)) = [b]
      rw [Nat.mul_zero, Nat.zero_add, decStr, Nat.toDigits_of_lt_base hlt, List.map_singleton, hb]
      exact ⟨by omega, rfl⟩
    · obtain ⟨hpos, hstr⟩ := ih (fun c hc => hd c (by simp [hc])) (by rwa [List.head?_append_of_ne_nil s hs] at hz) hs
      refine ⟨by omega, ?_⟩
      rw [decStr, Nat.toDigits_of_base_le (by decide) (by omega), List.map_append, List.map_singleton,
        show (10 * decVal s + (b.toNat - 48)) / 10 = decVal s by omega,
        show (10 * decVal s + (b.toNat - 48)) % 10 = b.toNat - 48 by omega, hb]
      exact congrArg (· ++ [b]) hstr

theorem decStr_decVal {s : Str} (h : validInt s = true) : decStr (decVal s) = s := by
  obtain ⟨hne, hd⟩ := validInt_digits h
  by_cases hz : s = lit "0"
  · rw [hz]
    decide
  · refine (decStr_decVal_pos hd ?_ hne).2
    cases s with
    | nil => exact absurd rfl hne
    | cons b s =>
      rw [validInt, if_neg hz] at h
      split at h
      · cases h
      · rename_i hb
        intro h0
        rw [Option.some.inj h0] at hb
        exact hb (by decide)

theorem decVal_inj {s s' : Str} (h : validInt s = true) (h' : validInt s' = true) (he : decVal s = decVal s') :
    s = s' := by
  rw [← decStr_decVal h, he, decStr_decVal h']

/-! ## A text and its value -/

theorem fields_inj {sec ns sec' ns' : Str} (hsec : validInt sec = true) (hns : validNano ns = true)
    (hsec' : validInt sec' = true) (hns' : validNano ns' = true)
    (he : (decVal sec * 1000000000 + decVal ns : ℤ) = decVal sec' * 1000000000 + decVal ns') :
    sec = sec' ∧ ns = ns' := by
  have := decVal_validNano hns
  have := decVal_validNano hns'
  exact ⟨decVal_inj hsec hsec' (by omega),
    decVal_inj (validInt_of_validNano hns) (validInt_of_validNano hns') (by omega)⟩

theorem fields_zero {sec ns : Str} (hsec : validInt sec = true) (hns : validNano ns = true)
    (he : (decVal sec * 1000000000 + decVal ns : ℤ) = 0) : sec = lit "0" ∧ ns = lit "0" := by
  have hz : validInt (lit "0") = true := by decide
  exact ⟨decVal_inj hsec hz (show decVal sec = 0 by omega),
    decVal_inj (validInt_of_validNano hns) hz (show decVal ns = 0 by omega)⟩

theorem TimestampText.inj {s s' : Str} {v : ℤ} (h : TimestampText s v) (h' : TimestampText s' v)
    (hs : s ≠ lit "-0:0") (hs' : s' ≠ lit "-0:0") : s = s' := by
  generalize hw : v = w at h'
  cases h with
  | pos hsec hns =>
    cases h' with
    | pos hsec' hns' =>
      obtain ⟨rfl, rfl⟩ := fields_inj hsec hns hsec' hns' hw
      rfl
    | neg hsec' hns' =>
      obtain ⟨rfl, rfl⟩ := fields_zero hsec' hns' (by omega)
      exact absurd rfl hs'
  | neg hsec hns =>
    cases h' with
    | pos hsec' hns' =>
      obtain ⟨rfl, rfl⟩ := fields_zero hsec hns (by omega)
      exact absurd rfl hs
    | neg hsec' hns' =>
      obtain ⟨rfl, rfl⟩ := fields_inj hsec hns hsec' hns' (by omega)
      rfl

theorem Timestamp.string_ne_negZero {ts : Timestamp} (h : ts.Valid) : ts.string ≠ lit "-0:0" := by
  intro he
  have hp := parseTimestamp_string h
  rw [he, show parseTimestamp (lit "-0:0") = .ok ⟨0, 0⟩ by decide] at hp
  rw [← Except.ok.inj hp] at he
  exact absurd he (by decide)

theorem string_of_parseTimestamp {s : Str} {ts : Timestamp} (h : parseTimestamp s = .ok ts) (hs : s ≠ lit "-0:0") :
    ts.string = s := by
  obtain ⟨hv, ht⟩ := parseTimestamp_text h
  exact (ts.string_text hv).inj ht (ts.string_ne_negZero hv) hs

/-! ## Exact arithmetic -/

def exact {α : Type} (ofInt : ℤ → α) (toInt : α → ℤ) (i : ℤ) : Option α :=
  if toInt (ofInt i) = i then some (ofInt i) else none

def exact64 : ℤ → Option Int64 := exact Int64.ofInt Int64.toInt

def exact32 : ℤ → Option Int32 := exact Int32.ofInt Int32.toInt

def exactU64 : ℤ → Option UInt64 := exact UInt64.ofInt fun x => x.toNat

/-- `ParseTimestamp`, with no answer where a conversion or an operation would wrap. -/
def parseTimestampExact (s : Str) : Option (Except ParseError Timestamp) :=
  let neg := s.head? = some (ch '-')
  let (secStr, nsStr, ok) := cut (ch ':') (if neg then s.tail else s)
  if !ok then some (.error (.expectedColon s))
  else if !validInt secStr then some (.error (.badSeconds s))
  else if !validNano nsStr then some (.error (.badNanoseconds s))
  else match parseUint secStr with
    | none => some (.error (.secondsOutOfRange s))
    | some mag => do
      let ns ← exact64 (decVal nsStr)
      if !neg || (mag = 0 && ns = 0) then
        if maxInt64 < mag then some (.error (.secondsOutOfRange s))
        else do
          let seconds ← exact64 mag.toNat
          let nanoseconds ← exact32 ns.toInt
          some (.ok ⟨seconds, nanoseconds⟩)
      else if ns = 0 then
        if maxInt64 + 1 < mag then some (.error (.secondsOutOfRange s))
        else do
          let less ← exactU64 (mag.toNat - 1)
          let less ← exact64 less.toNat
          let minus ← exact64 (-less.toInt)
          let seconds ← exact64 (minus.toInt - 1)
          some (.ok ⟨seconds, 0⟩)
      else
        if maxInt64 < mag then some (.error (.secondsOutOfRange s))
        else do
          let sec ← exact64 mag.toNat
          let minus ← exact64 (-sec.toInt)
          let seconds ← exact64 (minus.toInt - 1)
          let rest ← exact64 (nsPerSec.toInt - ns.toInt)
          let nanoseconds ← exact32 rest.toInt
          some (.ok ⟨seconds, nanoseconds⟩)

def Timestamp.stringExact (ts : Timestamp) : Option Str :=
  if 0 ≤ ts.seconds then
    some (intStr ts.seconds.toInt ++ ch ':' :: intStr ts.nanoseconds.toInt)
  else do
    let succ ← exact64 (ts.seconds.toInt + 1)
    let minus ← exact64 (-succ.toInt)
    let magSec ← exactU64 minus.toInt
    let ns ← exact64 ts.nanoseconds.toInt
    let magNs ← exact64 (nsPerSec.toInt - ns.toInt)
    if ts.nanoseconds = 0 then do
      let magSec ← exactU64 (magSec.toNat + 1)
      some (ch '-' :: decStr magSec.toNat ++ ch ':' :: intStr (0 : Int64).toInt)
    else some (ch '-' :: decStr magSec.toNat ++ ch ':' :: intStr magNs.toInt)

section
variable {i : ℤ}

theorem exact_eq {α : Type} {ofInt : ℤ → α} {toInt : α → ℤ} {x : α} (hx : ofInt (toInt x) = x) (h : toInt x = i) :
    exact ofInt toInt i = some x := by
  subst h
  rw [exact, hx, if_pos rfl]

theorem exact64_eq {x : Int64} (h : x.toInt = i) : exact64 i = some x := exact_eq (Int64.ofInt_toInt x) h

theorem exact32_eq {x : Int32} (h : x.toInt = i) : exact32 i = some x := exact_eq (Int32.ofInt_toInt x) h

theorem exactU64_eq {x : UInt64} (h : (x.toNat : ℤ) = i) : exactU64 i = some x := by
  subst h
  have hx : UInt64.ofInt (x.toNat : ℤ) = x := by
    have hlt := x.toNat_lt
    rw [UInt64.ofInt, ← UInt64.toNat_inj, UInt64.toNat_ofNat']
    omega
  rw [exactU64, exact]
  simp only [hx, if_true]

end

theorem toInt_neg_of_lt {x : Int64} (h : -2 ^ 63 < x.toInt) : (-x).toInt = -x.toInt := by
  have := x.toInt_lt
  rw [Int64.toInt_neg]
  exact bmod64 (by omega) (by omega)

theorem toInt_sub_one {x : Int64} (h : -2 ^ 63 < x.toInt) : (x - 1).toInt = x.toInt - 1 := by
  have := x.toInt_lt
  rw [Int64.toInt_sub, Int64.toInt_one]
  exact bmod64 (by omega) (by omega)

theorem toInt_rest {n : Int64} (hlo : 0 ≤ n.toInt) (hhi : n.toInt < 1000000000) :
    (nsPerSec - n).toInt = nsPerSec.toInt - n.toInt := by
  rw [Int64.toInt_sub, toInt_nsPerSec]
  exact bmod64 (by omega) (by omega)

section
variable {m : UInt64} {n : Int64}

theorem exact_nonneg (hmag : m.toNat < 2 ^ 63) (hlo : 0 ≤ n.toInt) (hhi : n.toInt < 1000000000) :
    exact64 m.toNat = some m.toInt64 ∧ exact32 n.toInt = some n.toInt32 := by
  refine ⟨exact64_eq (toInt64_of_le hmag), exact32_eq ?_⟩
  rw [Int64.toInt_toInt32]
  exact bmod32 (by omega) (by omega)

theorem exact_wholeNeg (hpos : 1 ≤ m.toNat) (hmag : m.toNat ≤ 2 ^ 63) :
    exactU64 (m.toNat - 1) = some (m - 1) ∧ exact64 (m - 1).toNat = some (m - 1).toInt64 ∧
      exact64 (-(m - 1).toInt64.toInt) = some (-(m - 1).toInt64) ∧
      exact64 ((-(m - 1).toInt64).toInt - 1) = some (-(m - 1).toInt64 - 1) := by
  have hsub : (m - 1).toNat = m.toNat - 1 :=
    UInt64.toNat_sub_of_le _ _ (UInt64.le_iff_toNat_le.mpr (by simpa using hpos))
  have hless : (m - 1).toInt64.toInt = (m - 1).toNat := toInt64_of_le (by omega)
  have hminus := toInt_neg_of_lt (x := (m - 1).toInt64) (by omega)
  have hseconds := toInt_sub_one (x := -(m - 1).toInt64) (by omega)
  exact ⟨exactU64_eq (by omega), exact64_eq hless, exact64_eq hminus, exact64_eq hseconds⟩

theorem exact_fracNeg (hmag : m.toNat < 2 ^ 63) (hlo : 0 < n.toInt) (hhi : n.toInt < 1000000000) :
    exact64 m.toNat = some m.toInt64 ∧ exact64 (-m.toInt64.toInt) = some (-m.toInt64) ∧
      exact64 ((-m.toInt64).toInt - 1) = some (-m.toInt64 - 1) ∧
      exact64 (nsPerSec.toInt - n.toInt) = some (nsPerSec - n) ∧
      exact32 (nsPerSec - n).toInt = some (nsPerSec - n).toInt32 := by
  have hsec : m.toInt64.toInt = m.toNat := toInt64_of_le hmag
  have hminus := toInt_neg_of_lt (x := m.toInt64) (by omega)
  have hseconds := toInt_sub_one (x := -m.toInt64) (by omega)
  have hrest := toInt_rest (n := n) (by omega) (by omega)
  refine ⟨exact64_eq hsec, exact64_eq hminus, exact64_eq hseconds, exact64_eq hrest, exact32_eq ?_⟩
  rw [Int64.toInt_toInt32, hrest, toInt_nsPerSec]
  exact bmod32 (by omega) (by omega)

end

/-- **No operation of the parser wraps.** -/
theorem parseTimestampExact_eq (s : Str) : parseTimestampExact s = some (parseTimestamp s) := by
  unfold parseTimestampExact parseTimestamp
  obtain ⟨secStr, nsStr, ok, hcut⟩ :
      ∃ a b ok, cut (ch ':') (if s.head? = some (ch '-') then s.tail else s) = (a, b, ok) := ⟨_, _, _, rfl⟩
  simp only [hcut]
  by_cases hok : (!ok) = true
  · rw [if_pos hok, if_pos hok]
  by_cases hsec : (!validInt secStr) = true
  · rw [if_neg hok, if_neg hok, if_pos hsec, if_pos hsec]
  by_cases hnano : (!validNano nsStr) = true
  · rw [if_neg hok, if_neg hok, if_neg hsec, if_neg hsec, if_pos hnano, if_pos hnano]
  rw [if_neg hok, if_neg hok, if_neg hsec, if_neg hsec, if_neg hnano, if_neg hnano]
  cases hmag : parseUint secStr with
  | none => rfl
  | some mag =>
    simp only [Bool.not_eq_true', Bool.not_eq_false] at hnano
    have hlt := decVal_validNano hnano
    have hint := toInt_ofNat_nanos hlt
    have hns := ofNat_nanos_eq_zero hlt
    dsimp only
    rw [exact64_eq hint, Option.bind_eq_bind, Option.bind_some]
    generalize Int64.ofNat (decVal nsStr) = ns at hint hns
    by_cases hzero : (!decide (s.head? = some (ch '-')) || (decide (mag = 0) && decide (ns = 0))) = true
    · rw [if_pos hzero, if_pos hzero]
      by_cases hle : maxInt64 < mag
      · rw [if_pos hle, if_pos hle]
      · rw [if_neg hle, if_neg hle]
        obtain ⟨h1, h2⟩ := exact_nonneg (maxInt64_not_lt.mp hle) (n := ns) (by omega) (by omega)
        rw [h1, h2]
        rfl
    rw [if_neg hzero, if_neg hzero]
    by_cases hns0 : ns = 0
    · rw [if_pos hns0, if_pos hns0]
      by_cases hle : maxInt64 + 1 < mag
      · rw [if_pos hle, if_pos hle]
      · rw [if_neg hle, if_neg hle]
        have hpos : 1 ≤ mag.toNat := by
          by_contra hz
          have hmag0 : mag = 0 := UInt64.toNat_inj.mp (by simp; omega)
          exact hzero (by simp [hmag0, hns0])
        obtain ⟨h1, h2, h3, h4⟩ := exact_wholeNeg hpos (maxInt64_succ_not_lt.mp hle)
        simp only [h1, h2, h3, h4, Option.bind_eq_bind, Option.bind_some]
    · rw [if_neg hns0, if_neg hns0]
      by_cases hle : maxInt64 < mag
      · rw [if_pos hle, if_pos hle]
      · rw [if_neg hle, if_neg hle]
        rw [hns] at hns0
        obtain ⟨h1, h2, h3, h4, h5⟩ := exact_fracNeg (maxInt64_not_lt.mp hle) (n := ns) (by omega) (by omega)
        simp only [h1, h2, h3, Option.bind_eq_bind, Option.bind_some]
        rw [h4, Option.bind_some, h5, Option.bind_some]

/-- **No operation of the renderer wraps.** -/
theorem Timestamp.stringExact_eq {ts : Timestamp} (h : ts.Valid) : ts.stringExact = some ts.string := by
  unfold Timestamp.stringExact Timestamp.string
  by_cases hsec : 0 ≤ ts.seconds
  · rw [if_pos hsec, if_pos hsec]
  rw [if_neg hsec, if_neg hsec]
  have hneg : ts.seconds.toInt < 0 := by
    rw [Int64.le_iff_toInt_le] at hsec
    exact Int.not_le.mp hsec
  obtain ⟨hlo, hhi⟩ := h
  have hmin := ts.seconds.le_toInt
  have hsucc := toInt_succ64 (x := ts.seconds) (by omega)
  have hminus := toInt_neg_of_lt (x := ts.seconds + 1) (by omega)
  have hmag := toNat_toUInt64 (x := -(ts.seconds + 1)) (by omega)
  have hns := Int32.toInt_toInt64 ts.nanoseconds
  have hrest := toInt_rest (n := ts.nanoseconds.toInt64) (by omega) (by omega)
  simp only [exact64_eq hsucc, exact64_eq hminus, exactU64_eq hmag, exact64_eq hns, Option.bind_eq_bind,
    Option.bind_some]
  rw [exact64_eq hrest, Option.bind_some]
  by_cases hz : ts.nanoseconds = 0
  · rw [if_pos hz, if_pos hz]
    have hadd : (((-(ts.seconds + 1)).toUInt64 + 1).toNat : ℤ) = (-(ts.seconds + 1)).toUInt64.toNat + 1 := by
      rw [UInt64.toNat_add, UInt64.toNat_one]
      omega
    rw [exactU64_eq hadd, Option.bind_some]
  · rw [if_neg hz, if_neg hz]

/-- **Timestamps and their text are inverse**: rendering then parsing is the identity; parsing then rendering
too, but for the negative zero; the value is that of the text, and no machine operation of either wraps. -/
theorem timestamp_text_inverse :
    (∀ ts : Timestamp, ts.Valid → parseTimestamp ts.string = .ok ts ∧ ts.stringExact = some ts.string) ∧
    ∀ (s : Str) (ts : Timestamp), parseTimestamp s = .ok ts →
      (s ≠ lit "-0:0" → ts.string = s) ∧ TimestampText s ts.value ∧ parseTimestampExact s = some (.ok ts) := by
  refine ⟨?_, ?_⟩
  · intro ts hv
    exact ⟨parseTimestamp_string hv, Timestamp.stringExact_eq hv⟩
  · intro s ts h
    refine ⟨string_of_parseTimestamp h, (parseTimestamp_text h).2, ?_⟩
    rw [parseTimestampExact_eq, h]

/-- The least timestamp: the one negative value whose magnitude has no `int64`. -/
theorem timestamp_text_inverse_min :
    parseTimestamp (⟨Int64.minValue, 0⟩ : Timestamp).string = .ok ⟨Int64.minValue, 0⟩ ∧
      (⟨Int64.minValue, 0⟩ : Timestamp).string = lit "-9223372036854775808:0" ∧
      parseTimestampExact (lit "-9223372036854775808:0") = some (.ok ⟨Int64.minValue, 0⟩) := by
  obtain ⟨hback, -⟩ := timestamp_text_inverse.1 ⟨Int64.minValue, 0⟩ ⟨by decide, by decide⟩
  obtain ⟨hs, -, he⟩ := timestamp_text_inverse.2 (lit "-9223372036854775808:0") ⟨Int64.minValue, 0⟩ (by decide)
  exact ⟨hback, hs (by decide), he⟩

end OpenTams
