import Mathlib.Algebra.Order.Group.Nat
import Mathlib.Data.List.DropRight

/-!
# Numbers, dates and times as text

Numbers in a base up to sixteen with a fixed number of digits, the Gregorian
calendar, and the text of a time in RFC 3339: UTC, a year of four digits, and
the fraction of a second that the time needs. Each writer has a reader that
undoes it.
-/

namespace TextFormat

/-! ## Separators -/

def upTo (sep : UInt8) : List UInt8 → Option (List UInt8 × List UInt8)
  | [] => none
  | b :: s => if b = sep then some ([], s) else (upTo sep s).map fun r => (b :: r.1, r.2)

theorem upTo_append {sep : UInt8} {a : List UInt8} (h : sep ∉ a) (b : List UInt8) :
    upTo sep (a ++ sep :: b) = some (a, b) := by
  induction a with
  | nil => simp [upTo]
  | cons x a ih =>
    rw [List.mem_cons, not_or] at h
    rw [List.cons_append, upTo, if_neg (Ne.symm h.1), ih h.2, Option.map_some]

theorem upTo_eq_none {sep : UInt8} {a : List UInt8} (h : sep ∉ a) : upTo sep a = none := by
  induction a with
  | nil => rfl
  | cons x a ih =>
    rw [List.mem_cons, not_or] at h
    rw [upTo, if_neg (Ne.symm h.1), ih h.2, Option.map_none]

/-! ## Numbers of fixed width -/

def digitsOf (b : ℕ) : ℕ → ℕ → List ℕ
  | 0, _ => []
  | k + 1, n => digitsOf b k (n / b) ++ [n % b]

def ofDigits (b : ℕ) (l : List ℕ) : ℕ := l.foldl (fun a d => b * a + d) 0

theorem ofDigits_digitsOf (b k n : ℕ) : ofDigits b (digitsOf b k n) = n % b ^ k := by
  induction k generalizing n with
  | zero => simp [digitsOf, ofDigits, Nat.mod_one]
  | succ k ih =>
    have ih := ih (n / b)
    unfold ofDigits at ih ⊢
    rw [digitsOf, List.foldl_append, ih, List.foldl_cons, List.foldl_nil, pow_succ, Nat.mul_comm (b ^ k) b, Nat.mod_mul]
    omega

theorem digitsOf_lt {b : ℕ} (hb : 0 < b) (k n : ℕ) : ∀ d ∈ digitsOf b k n, d < b := by
  induction k generalizing n with
  | zero => exact fun d hd => by cases hd
  | succ k ih =>
    intro d hd
    rcases List.mem_append.mp hd with hd | hd
    · exact ih _ d hd
    · rw [List.mem_singleton.mp hd]
      exact Nat.mod_lt n hb

def digit (d : ℕ) : UInt8 := UInt8.ofNat (if d < 10 then 48 + d else 87 + d)

def digitVal (b : UInt8) : Option ℕ :=
  if 48 ≤ b.toNat ∧ b.toNat ≤ 57 then some (b.toNat - 48)
  else if 97 ≤ b.toNat ∧ b.toNat ≤ 102 then some (b.toNat - 87)
  else none

def fixed (b k n : ℕ) : List UInt8 := (digitsOf b k n).map digit

def readFixed (b : ℕ) (s : List UInt8) : Option ℕ := (s.mapM digitVal).map (ofDigits b)

theorem digitVal_digit {d : ℕ} (h : d < 16) : digitVal (digit d) = some d := by
  have hall : ∀ d < 16, digitVal (digit d) = some d := by decide
  exact hall d h

theorem readFixed_fixed {b k n : ℕ} (hb : 0 < b) (hb' : b ≤ 16) (hn : n < b ^ k) :
    readFixed b (fixed b k n) = some n := by
  have hvals : ∀ l : List ℕ, (∀ d ∈ l, d < 16) → (l.map digit).mapM digitVal = some l := by
    intro l
    induction l with
    | nil => exact fun _ => rfl
    | cons d l ih =>
      intro h
      obtain ⟨hd, hl⟩ := List.forall_mem_cons.mp h
      simp [digitVal_digit hd, ih hl]
  rw [readFixed, fixed, hvals _ fun d hd => (digitsOf_lt hb k n d hd).trans_le hb', Option.map_some, ofDigits_digitsOf,
    Nat.mod_eq_of_lt hn]

theorem not_mem_fixed {b k n : ℕ} (hb : 0 < b) {c : UInt8} (hc : ∀ d < b, digit d ≠ c) : c ∉ fixed b k n := by
  intro h
  obtain ⟨d, hd, he⟩ := List.mem_map.mp h
  exact hc d (digitsOf_lt hb k n d hd) he

/-! ## Dates -/

structure Date where
  year : ℤ
  month : ℕ
  day : ℕ
  deriving DecidableEq

/-- The year of an era of 400 years and the day of that year; years start on 1 March, so that a leap day
is the last of its year. -/
def yearDay (dayOfEra : ℕ) : ℕ × ℕ :=
  let century := min (dayOfEra / 36524) 3
  let rest := dayOfEra - 36524 * century
  let one := min (rest % 1461 / 365) 3
  (100 * century + 4 * (rest / 1461) + one, rest % 1461 - 365 * one)

def dateOf (days : ℤ) : Date :=
  let era := (days + 719468) / 146097
  let x := yearDay ((days + 719468) % 146097).toNat
  let m := (5 * x.2 + 2) / 153
  { year := 400 * era + x.1 + (if m < 10 then 0 else 1)
    month := if m < 10 then m + 3 else m - 9
    day := x.2 - (153 * m + 2) / 5 + 1 }

def daysOf (d : Date) : ℤ :=
  let year := if 2 < d.month then d.year else d.year - 1
  let yearOfEra := (year % 400).toNat
  let m := if 2 < d.month then d.month - 3 else d.month + 9
  let dayOfYear := (153 * m + 2) / 5 + d.day - 1
  146097 * (year / 400) + (365 * yearOfEra + yearOfEra / 4 - yearOfEra / 100 + dayOfYear : ℕ) - 719468

theorem yearDay_eq {n : ℕ} (h : n < 146097) :
    (yearDay n).1 < 400 ∧ (yearDay n).2 < 366 ∧
      365 * (yearDay n).1 + (yearDay n).1 / 4 - (yearDay n).1 / 100 + (yearDay n).2 = n := by
  unfold yearDay
  dsimp only
  generalize hc : min (n / 36524) 3 = century
  have hcent : century ≤ 3 ∧ 36524 * century ≤ n ∧ n - 36524 * century < 36525 := by omega
  generalize hr : n - 36524 * century = rest at hcent ⊢
  have hfour : rest / 1461 ≤ 24 ∧ rest = 1461 * (rest / 1461) + rest % 1461 := by omega
  have hrest := Nat.mod_lt rest (by decide : 0 < 1461)
  generalize rest / 1461 = four at hfour ⊢
  generalize rest % 1461 = days at hfour hrest ⊢
  generalize ho : min (days / 365) 3 = one
  have hone : one ≤ 3 ∧ 365 * one ≤ days ∧ days - 365 * one < 366 := by omega
  have h4 : (100 * century + 4 * four + one) / 4 = 25 * century + four := by omega
  have h100 : (100 * century + 4 * four + one) / 100 = century := by omega
  refine ⟨by omega, hone.2.2, ?_⟩
  rw [h4, h100]
  omega

theorem daysOf_dateOf (days : ℤ) : daysOf (dateOf days) = days := by
  have hera : 146097 * ((days + 719468) / 146097) + ((days + 719468) % 146097).toNat = days + 719468 := by omega
  obtain ⟨hyear, hday, heq⟩ := yearDay_eq (n := ((days + 719468) % 146097).toNat) (by omega)
  unfold daysOf dateOf
  dsimp only
  generalize yearDay ((days + 719468) % 146097).toNat = x at hyear hday heq ⊢
  generalize (days + 719468) / 146097 = era at hera ⊢
  have hm : (5 * x.2 + 2) / 153 < 12 ∧ (153 * ((5 * x.2 + 2) / 153) + 2) / 5 ≤ x.2 := by omega
  by_cases hlt : (5 * x.2 + 2) / 153 < 10
  · have hy : (400 * era + x.1 + 0) % 400 = x.1 ∧ (400 * era + x.1 + 0) / 400 = era := by omega
    simp only [hlt, if_true, show 2 < (5 * x.2 + 2) / 153 + 3 by omega, hy, Int.toNat_natCast, Nat.add_sub_cancel]
    omega
  · have hy : (400 * era + x.1 + 1 - 1) % 400 = x.1 ∧ (400 * era + x.1 + 1 - 1) / 400 = era := by omega
    simp only [hlt, if_false, show ¬ 2 < (5 * x.2 + 2) / 153 - 9 by omega, hy, Int.toNat_natCast,
      Nat.sub_add_cancel (show 9 ≤ (5 * x.2 + 2) / 153 by omega)]
    omega

example : dateOf 0 = ⟨1970, 1, 1⟩ ∧ dateOf 19782 = ⟨2024, 2, 29⟩ ∧ dateOf (-719528) = ⟨0, 1, 1⟩ := by decide

theorem dateOf_bounds (days : ℤ) : (dateOf days).month < 13 ∧ (dateOf days).day < 100 := by
  obtain ⟨-, hday, -⟩ := yearDay_eq (n := ((days + 719468) % 146097).toNat) (by omega)
  unfold dateOf
  dsimp only
  generalize yearDay ((days + 719468) % 146097).toNat = x at hday ⊢
  constructor
  · split <;> omega
  · omega

/-! ## Times -/

def trimZeros (s : List UInt8) : List UInt8 := s.rdropWhile (· = 48)

def fraction (micros : ℕ) : List UInt8 := if micros = 0 then [] else 46 :: trimZeros (fixed 10 6 micros)

def readFraction (s : List UInt8) : Option ℕ := readFixed 10 (s ++ List.replicate (6 - s.length) 48)

def dateText (date : Date) : List UInt8 :=
  fixed 10 4 date.year.toNat ++ 45 :: (fixed 10 2 date.month ++ 45 :: fixed 10 2 date.day)

def readDate (s : List UInt8) : Option Date := do
  let (year, s) ← upTo 45 s
  let (month, day) ← upTo 45 s
  some ⟨← readFixed 10 year, ← readFixed 10 month, ← readFixed 10 day⟩

def clockText (clock micros : ℕ) : List UInt8 :=
  fixed 10 2 (clock / 3600) ++ 58 :: (fixed 10 2 (clock / 60 % 60) ++ 58 ::
    (fixed 10 2 (clock % 60) ++ fraction micros))

def readClock (s : List UInt8) : Option ℕ := do
  let (hour, s) ← upTo 58 s
  let (minute, s) ← upTo 58 s
  let (second, micros) := (upTo 46 s).getD (s, [])
  some (((← readFixed 10 hour) * 3600 + (← readFixed 10 minute) * 60 + (← readFixed 10 second)) * 1000000 +
    (← readFraction micros))

/-- A time in microseconds from 1970; a year outside four digits has no text. -/
def rfc3339 (t : ℤ) : Option (List UInt8) :=
  let seconds := t / 1000000
  let date := dateOf (seconds / 86400)
  if date.year < 0 ∨ 9999 < date.year then none
  else some (dateText date ++ 84 :: (clockText (seconds % 86400).toNat (t % 1000000).toNat ++ 90 :: []))

def readRfc3339 (s : List UInt8) : Option ℤ := do
  let (date, s) ← upTo 84 s
  let (clock, _) ← upTo 90 s
  some (daysOf (← readDate date) * 86400000000 + (← readClock clock))

example : rfc3339 1709212275120000 = some ("2024-02-29T13:11:15.12Z".toList.map fun c => c.toNat.toUInt8) := by decide

theorem length_fixed (b k n : ℕ) : (fixed b k n).length = k := by
  rw [fixed, List.length_map]
  induction k generalizing n with
  | zero => rfl
  | succ k ih => rw [digitsOf, List.length_append, ih]; rfl

theorem trimZeros_append (s : List UInt8) : trimZeros s ++ List.replicate (s.length - (trimZeros s).length) 48 = s := by
  have happend : trimZeros s ++ s.rtakeWhile (· = 48) = s := List.rdropWhile_append_rtakeWhile
  have hzeros : s.rtakeWhile (· = 48) = List.replicate (s.rtakeWhile (· = 48)).length 48 :=
    List.eq_replicate_of_mem fun x hx => by simpa using List.mem_rtakeWhile_imp hx
  have hlen := congrArg List.length happend
  rw [List.length_append] at hlen
  rw [show s.length - (trimZeros s).length = (s.rtakeWhile (· = 48)).length by omega, ← hzeros, happend]

theorem readFraction_trimZeros {n : ℕ} (h : n < 1000000) : readFraction (trimZeros (fixed 10 6 n)) = some n := by
  have := trimZeros_append (fixed 10 6 n)
  rw [length_fixed] at this
  rw [readFraction, this, readFixed_fixed (by decide) (by decide) (by simpa using h)]

theorem not_mem_decimal {c : UInt8} {k n : ℕ} (hc : ∀ d < 10, digit d ≠ c) : c ∉ fixed 10 k n :=
  not_mem_fixed (by decide) hc

theorem upTo_decimal {c : UInt8} (hc : ∀ d < 10, digit d ≠ c) (k n : ℕ) (rest : List UInt8) :
    upTo c (fixed 10 k n ++ c :: rest) = some (fixed 10 k n, rest) :=
  upTo_append (not_mem_decimal hc) rest

theorem not_mem_fraction {c : UInt8} {n : ℕ} (hc : ∀ d < 10, digit d ≠ c) (hdot : c ≠ 46) : c ∉ fraction n := by
  unfold fraction
  split
  · exact List.not_mem_nil
  · rw [List.mem_cons, not_or]
    refine ⟨hdot, fun hm => ?_⟩
    exact not_mem_decimal hc ((List.rdropWhile_prefix _ _).subset hm)

theorem readSeconds {k n : ℕ} (hn : n < 1000000) :
    ∃ micros, (upTo 46 (fixed 10 2 k ++ fraction n)).getD (fixed 10 2 k ++ fraction n, []) = (fixed 10 2 k, micros) ∧
      readFraction micros = some n := by
  have hdot : (46 : UInt8) ∉ fixed 10 2 k := not_mem_decimal (by decide)
  unfold fraction
  split
  · rename_i h0
    subst h0
    rw [List.append_nil, upTo_eq_none hdot]
    exact ⟨[], rfl, by decide⟩
  · rw [upTo_append hdot]
    exact ⟨_, rfl, readFraction_trimZeros hn⟩

section
variable {c : UInt8}

theorem not_mem_dateText (hc : ∀ d < 10, digit d ≠ c) (hdash : c ≠ 45) (date : Date) : c ∉ dateText date := by
  simp only [dateText, List.mem_append, List.mem_cons, not_mem_decimal hc, hdash, or_false, not_false_eq_true]

theorem not_mem_clockText (hc : ∀ d < 10, digit d ≠ c) (hcolon : c ≠ 58) (hdot : c ≠ 46) (clock micros : ℕ) :
    c ∉ clockText clock micros := by
  simp only [clockText, List.mem_append, List.mem_cons, not_mem_decimal hc, not_mem_fraction hc hdot, hcolon, or_false,
    not_false_eq_true]

theorem not_mem_rfc3339 {t : ℤ} {text : List UInt8} (h : rfc3339 t = some text) (hc : ∀ d < 10, digit d ≠ c)
    (hsep : c ∉ ([45, 84, 58, 46, 90] : List UInt8)) : c ∉ text := by
  simp only [List.mem_cons, List.not_mem_nil, or_false, not_or] at hsep
  obtain ⟨h45, h84, h58, h46, h90⟩ := hsep
  unfold rfc3339 at h
  dsimp only at h
  split at h
  · cases h
  cases h
  simp only [List.mem_append, List.mem_cons, List.not_mem_nil, not_mem_dateText hc h45,
    not_mem_clockText hc h58 h46, h84, h90, or_false, not_false_eq_true]

end

theorem readDecimal {k n : ℕ} (hn : n < 10 ^ k) : readFixed 10 (fixed 10 k n) = some n :=
  readFixed_fixed (by decide) (by decide) hn

theorem readDate_dateText {date : Date} (hyear : 0 ≤ date.year ∧ date.year ≤ 9999) (hmonth : date.month < 100)
    (hday : date.day < 100) : readDate (dateText date) = some date := by
  obtain ⟨year, month, day⟩ := date
  dsimp only at hyear hmonth hday
  have hdash := upTo_decimal (c := 45) (by decide)
  unfold readDate dateText
  rw [hdash]
  dsimp only [Option.bind_eq_bind, Option.bind_some]
  rw [hdash]
  dsimp only [Option.bind_some]
  rw [readDecimal (by omega), readDecimal (by omega), readDecimal (by omega)]
  dsimp only [Option.bind_some]
  rw [Int.toNat_of_nonneg hyear.1]

theorem readClock_clockText {clock micros : ℕ} (hclock : clock < 86400) (hmicros : micros < 1000000) :
    readClock (clockText clock micros) = some (clock * 1000000 + micros) := by
  have hcolon := upTo_decimal (c := 58) (by decide)
  obtain ⟨rest, hsplit, hread⟩ := readSeconds (k := clock % 60) hmicros
  unfold readClock clockText
  rw [hcolon]
  dsimp only [Option.bind_eq_bind, Option.bind_some]
  rw [hcolon]
  dsimp only [Option.bind_some]
  rw [hsplit]
  dsimp only
  rw [readDecimal (by omega), readDecimal (by omega), readDecimal (by omega), hread]
  dsimp only [Option.bind_some]
  refine congrArg some ?_
  omega

/-- **A time is read back** from its text. -/
theorem readRfc3339_rfc3339 {t : ℤ} {text : List UInt8} (h : rfc3339 t = some text) : readRfc3339 text = some t := by
  unfold rfc3339 at h
  dsimp only at h
  split at h
  · cases h
  rename_i hyear
  rw [not_or, Int.not_lt, Int.not_lt] at hyear
  cases h
  obtain ⟨hmonth, hday⟩ := dateOf_bounds (t / 1000000 / 86400)
  have hdate := upTo_append (not_mem_dateText (c := 84) (by decide) (by decide) (dateOf (t / 1000000 / 86400)))
  have hclock := upTo_append (not_mem_clockText (c := 90) (by decide) (by decide) (by decide)
    (t / 1000000 % 86400).toNat (t % 1000000).toNat)
  unfold readRfc3339
  rw [hdate]
  dsimp only [Option.bind_eq_bind, Option.bind_some]
  rw [hclock]
  dsimp only [Option.bind_some]
  rw [readDate_dateText hyear (by omega) (by omega), readClock_clockText (by omega) (by omega)]
  dsimp only [Option.bind_some]
  rw [daysOf_dateOf]
  refine congrArg some ?_
  omega

end TextFormat
