import OpenTams.Regex
import OpenTams.TimestampExact

/-!
# The language the parser accepts

The patterns of `api/schemas/timestamp.json` and `api/schemas/timerange.json` as
regular expressions over bytes, and the parser compared with them: it accepts a
string of the pattern unless a timestamp of it leaves the 64-bit seconds or a
lone timestamp carries an exclusive marker.
-/

namespace OpenTams

open RegularExpression Regex

/-! ## The patterns -/

def digitPattern : RegularExpression UInt8 := oneOf (lit "0123456789")

def nonzeroPattern : RegularExpression UInt8 := oneOf (lit "123456789")

/-- `(0|[1-9][0-9]*)` -/
def secondsPattern : RegularExpression UInt8 := char (ch '0') + nonzeroPattern * digitPattern.star

/-- `(0|[1-9][0-9]{0,8})` -/
def nanosPattern : RegularExpression UInt8 := char (ch '0') + nonzeroPattern * upTo digitPattern 8

/-- `-?(0|[1-9][0-9]*):(0|[1-9][0-9]{0,8})` -/
def timestampPattern : RegularExpression UInt8 :=
  opt (char (ch '-')) * (secondsPattern * (char (ch ':') * nanosPattern))

/-- `(\[|\()?(timestamp)?(_(timestamp)?)?(\]|\))?` -/
def timerangePattern : RegularExpression UInt8 :=
  opt (char (ch '[') + char (ch '(')) * (opt timestampPattern *
    (opt (char (ch '_') * opt timestampPattern) * opt (char (ch ']') + char (ch ')'))))

def timestamps (s : Str) : List Str := (s.splitOnP fun b => !plain b).filter fun t => !t.isEmpty

def FloorFits (v : ℤ) : Prop := -2 ^ 63 ≤ v / 1000000000 ∧ v / 1000000000 < 2 ^ 63

/-- A timestamp without a separator that has an exclusive marker. -/
def ExclusiveInstant (s : Str) : Prop := ch '_' ∉ s ∧ timestamps s ≠ [] ∧ (ch '(' ∈ s ∨ ch ')' ∈ s)

/-! ## Numbers -/

theorem mem_digits {b : UInt8} : b ∈ lit "0123456789" ↔ isDigit b = true := by
  constructor
  · have hall : (lit "0123456789").all isDigit = true := by decide
    exact fun h => List.all_eq_true.mp hall b h
  · intro h
    obtain ⟨hlt, hb⟩ := digit_of_toNat h
    have hall : ∀ d < 10, ch (Nat.digitChar d) ∈ lit "0123456789" := by decide
    rw [← hb]
    exact hall _ hlt

theorem mem_nonzero {b : UInt8} : b ∈ lit "123456789" ↔ ¬ (b < ch '1' || ch '9' < b) = true := by
  have h1 : (ch '1').toNat = 49 := rfl
  have h9 : (ch '9').toNat = 57 := rfl
  simp only [Bool.or_eq_true, decide_eq_true_eq, UInt8.lt_iff_toNat_lt, h1, h9]
  constructor
  · have hall : (lit "123456789").all (fun b => 49 ≤ b.toNat && b.toNat ≤ 57) = true := by decide
    intro h
    have := List.all_eq_true.mp hall b h
    simp only [Bool.and_eq_true, decide_eq_true_eq] at this
    omega
  · intro h
    have hdig : isDigit b = true := by
      have h0 : (ch '0').toNat = 48 := rfl
      simp only [isDigit, Bool.and_eq_true, decide_eq_true_eq, UInt8.le_iff_toNat_le, h0, h9]
      omega
    obtain ⟨hlt, hb⟩ := digit_of_toNat hdig
    have hall : ∀ d < 10, 0 < d → ch (Nat.digitChar d) ∈ lit "123456789" := by decide
    rw [← hb]
    exact hall _ hlt (by omega)

theorem nil_notMem_number {P : RegularExpression UInt8} :
    [] ∉ (char (ch '0') + nonzeroPattern * P).matches' := by
  rw [mem_add, mem_char, mem_mul]
  simp [nonzeroPattern, mem_oneOf, lit]

/-- A number is zero, or a digit other than zero and what follows it. -/
theorem cons_mem_number {P : RegularExpression UInt8} {b : UInt8} {s : Str} :
    b :: s ∈ (char (ch '0') + nonzeroPattern * P).matches' ↔
      b :: s = lit "0" ∨ ¬ (b < ch '1' || ch '9' < b) = true ∧ s ∈ P.matches' := by
  rw [mem_add, mem_char, mem_mul]
  simp only [nonzeroPattern, mem_oneOf, mem_nonzero]
  refine or_congr Iff.rfl ?_
  constructor
  · rintro ⟨_, t, ⟨c, hc, rfl⟩, ht, he⟩
    rw [List.singleton_append, List.cons.injEq] at he
    obtain ⟨rfl, rfl⟩ := he
    exact ⟨hc, ht⟩
  · rintro ⟨hb, hs⟩
    exact ⟨[b], s, ⟨b, hb, rfl⟩, hs, rfl⟩

/-- The check of the first digit is that of the pattern, whatever is checked of the rest. -/
theorem number_check_iff {b : UInt8} {s : Str} {P : Prop} {rest : Bool} (hrest : P ↔ rest = true) :
    b :: s = lit "0" ∨ ¬ (b < ch '1' || ch '9' < b) = true ∧ P ↔
      (if b :: s = lit "0" then true else if b < ch '1' || ch '9' < b then false else rest) = true := by
  by_cases hz : b :: s = lit "0"
  · rw [if_pos hz]
    exact iff_of_true (Or.inl hz) rfl
  rw [if_neg hz, or_iff_right hz]
  by_cases hb : (b < ch '1' || ch '9' < b) = true
  · rw [if_pos hb]
    exact iff_of_false (fun h => h.1 hb) Bool.false_ne_true
  · rw [if_neg hb, and_iff_right hb, hrest]

theorem mem_secondsPattern {s : Str} : s ∈ secondsPattern.matches' ↔ validInt s = true := by
  cases s with
  | nil => exact iff_of_false nil_notMem_number Bool.false_ne_true
  | cons b s =>
    rw [secondsPattern, cons_mem_number, digitPattern, mem_star_oneOf]
    simp only [mem_digits]
    exact number_check_iff List.all_eq_true.symm

theorem mem_nanosPattern {s : Str} : s ∈ nanosPattern.matches' ↔ validNano s = true := by
  cases s with
  | nil => exact iff_of_false nil_notMem_number Bool.false_ne_true
  | cons b s =>
    rw [nanosPattern, cons_mem_number, digitPattern, mem_upTo_oneOf]
    simp only [mem_digits]
    refine number_check_iff ?_
    rw [List.length_cons]
    by_cases hlen : 9 < s.length + 1
    · rw [if_pos hlen]
      exact iff_of_false (fun h => by omega) Bool.false_ne_true
    · rw [if_neg hlen, and_iff_right (by omega), List.all_eq_true]

/-! ## Timestamps -/

theorem mem_timestampPattern {s : Str} : s ∈ timestampPattern.matches' ↔ ∃ v, TimestampText s v := by
  simp only [timestampPattern, mem_mul, mem_opt, mem_char, mem_secondsPattern, mem_nanosPattern]
  constructor
  · rintro ⟨sign, _, hsign, ⟨sec, _, hsec, ⟨_, ns, rfl, hns, rfl⟩, rfl⟩, rfl⟩
    rcases hsign with rfl | rfl
    · exact ⟨_, .pos hsec hns⟩
    · exact ⟨_, .neg hsec hns⟩
  · rintro ⟨v, ht⟩
    cases ht with
    | pos hsec hns => exact ⟨[], _, Or.inl rfl, ⟨_, _, hsec, ⟨_, _, rfl, hns, rfl⟩, rfl⟩, rfl⟩
    | neg hsec hns => exact ⟨[ch '-'], _, Or.inr rfl, ⟨_, _, hsec, ⟨_, _, rfl, hns, rfl⟩, rfl⟩, rfl⟩

theorem fields_unique {sec ns sec' ns' : Str} (hsec : validInt sec = true) (hsec' : validInt sec' = true)
    (he : sec ++ ch ':' :: ns = sec' ++ ch ':' :: ns') : sec = sec' ∧ ns = ns' := by
  have hcut := cut_append (notMem_digits (validInt_digits hsec).2 (c := ch ':') (by decide)) ns
  have hcut' := cut_append (notMem_digits (validInt_digits hsec').2 (c := ch ':') (by decide)) ns'
  rw [he, hcut'] at hcut
  cases hcut
  exact ⟨rfl, rfl⟩

theorem fields_unsigned {sec ns s : Str} (hsec : validInt sec = true) : ch '-' :: s ≠ sec ++ ch ':' :: ns := by
  obtain ⟨hne, hdig⟩ := validInt_digits hsec
  obtain ⟨b, l, rfl⟩ := List.exists_cons_of_ne_nil hne
  intro he
  exact isDigit_ne (hdig b List.mem_cons_self) (by decide) (List.cons.inj he).1

theorem TimestampText.value_unique {s : Str} {v w : ℤ} (h : TimestampText s v) (h' : TimestampText s w) : v = w := by
  generalize hs : s = s' at h'
  cases h with
  | pos hsec hns =>
    cases h' with
    | pos hsec' hns' =>
      obtain ⟨rfl, rfl⟩ := fields_unique hsec hsec' hs
      rfl
    | neg hsec' hns' => exact absurd hs.symm (fields_unsigned hsec)
  | neg hsec hns =>
    cases h' with
    | pos hsec' hns' => exact absurd hs (fields_unsigned hsec')
    | neg hsec' hns' =>
      obtain ⟨rfl, rfl⟩ := fields_unique hsec hsec' (List.cons.inj hs).2
      rfl

theorem floorFits_iff {v : ℤ} : FloorFits v ↔ -(2 ^ 63 * 1000000000) ≤ v ∧ v < 2 ^ 63 * 1000000000 := by
  unfold FloorFits
  omega

theorem floorFits_of_parse {s : Str} {ts : Timestamp} (h : parseTimestamp s = .ok ts) {v : ℤ}
    (ht : TimestampText s v) : FloorFits v := by
  obtain ⟨hv, htext⟩ := parseTimestamp_text h
  rw [ht.value_unique htext, floorFits_iff]
  exact hv.value_bounds

/-! ## The pieces of a string -/

theorem timestamps_cons {c : UInt8} (hc : plain c = false) (s : Str) : timestamps (c :: s) = timestamps s := by
  unfold timestamps
  rw [List.splitOnP_cons_eq_if_modifyHead]
  simp [hc]

theorem timestamps_append {a : Str} (ha : ∀ c ∈ a, plain c = true) {c : UInt8} (hc : plain c = false) (s : Str) :
    timestamps (a ++ c :: s) = [a].filter (fun t => !t.isEmpty) ++ timestamps s := by
  unfold timestamps
  rw [List.splitOnP_append_cons_of_forall_mem (by simpa using ha) c (by simp [hc]), ← List.singleton_append,
    List.filter_append]

theorem timestamps_plain {a : Str} (ha : ∀ c ∈ a, plain c = true) :
    timestamps a = [a].filter fun t => !t.isEmpty := by
  unfold timestamps
  rw [List.splitOnP_eq_singleton (by simpa using ha)]

theorem timestamps_opening {m : Str} (hm : Opening m) (s : Str) : timestamps (m ++ s) = timestamps s := by
  rcases hm with rfl | rfl | rfl
  · rfl
  · exact timestamps_cons (by decide) s
  · exact timestamps_cons (by decide) s

theorem timestamps_closing {a m : Str} (ha : ∀ c ∈ a, plain c = true) (hm : Closing m) :
    timestamps (a ++ m) = [a].filter fun t => !t.isEmpty := by
  rcases hm with rfl | rfl | rfl
  · rw [List.append_nil, timestamps_plain ha]
  · rw [timestamps_append ha (by decide)]
    simp [timestamps]
  · rw [timestamps_append ha (by decide)]
    simp [timestamps]

/-! ## Ranges -/

def Side (a : Str) : Prop := a = [] ∨ ∃ v, TimestampText a v

theorem Side.plain {a : Str} (h : Side a) : ∀ c ∈ a, plain c = true := by
  rcases h with rfl | ⟨v, hv⟩
  · exact fun c hc => by cases hc
  · exact hv.plain

theorem StartText.side {m a : Str} {A : Set ℤ} (h : StartText m a A) : Side a := by
  rcases h with ⟨ha, -⟩ | ⟨v, hv, -⟩
  · exact Or.inl ha
  · exact Or.inr ⟨v, hv⟩

theorem EndText.side {m b : Str} {B : Set ℤ} (h : EndText m b B) : Side b := by
  rcases h with ⟨hb, -⟩ | ⟨v, hv, -⟩
  · exact Or.inl hb
  · exact Or.inr ⟨v, hv⟩

theorem Side.startText {a : Str} (h : Side a) (m : Str) : ∃ A, StartText m a A := by
  rcases h with rfl | ⟨v, hv⟩
  · exact ⟨_, startText_omitted⟩
  · exact ⟨_, Or.inr ⟨v, hv, rfl⟩⟩

theorem Side.endText {b : Str} (h : Side b) (m : Str) : ∃ B, EndText m b B := by
  rcases h with rfl | ⟨v, hv⟩
  · exact ⟨_, endText_omitted⟩
  · exact ⟨_, Or.inr ⟨v, hv, rfl⟩⟩

theorem mem_timerangePattern {s : Str} :
    s ∈ timerangePattern.matches' ↔ ∃ m a m', Opening m ∧ Side a ∧ Closing m' ∧
      (s = m ++ (a ++ m') ∨ ∃ b, Side b ∧ s = m ++ (a ++ ch '_' :: b ++ m')) := by
  simp only [timerangePattern, mem_mul, mem_opt, mem_add, mem_char, mem_timestampPattern]
  constructor
  · rintro ⟨m, _, hm, ⟨a, _, ha, ⟨r, m', hr, hm', rfl⟩, rfl⟩, rfl⟩
    refine ⟨m, a, m', hm, ha, hm', ?_⟩
    rcases hr with rfl | ⟨_, b, rfl, hb, rfl⟩
    · exact Or.inl rfl
    · exact Or.inr ⟨b, hb, by simp⟩
  · rintro ⟨m, a, m', hm, ha, hm', rfl | ⟨b, hb, rfl⟩⟩
    · exact ⟨m, _, hm, ⟨a, _, ha, ⟨[], m', Or.inl rfl, hm', rfl⟩, rfl⟩, rfl⟩
    · exact ⟨m, _, hm, ⟨a, _, ha, ⟨_, m', Or.inr ⟨_, b, rfl, hb, rfl⟩, hm', rfl⟩, rfl⟩, by simp⟩

theorem timestamps_sep {m a b m' : Str} (hm : Opening m) (ha : Side a) (hb : Side b) (hm' : Closing m') :
    timestamps (m ++ (a ++ ch '_' :: b ++ m')) = [a, b].filter fun t => !t.isEmpty := by
  rw [timestamps_opening hm, List.append_assoc, List.cons_append, timestamps_append ha.plain (by decide),
    timestamps_closing hb.plain hm', ← List.filter_append]
  rfl

theorem timestamps_noSep {m a m' : Str} (hm : Opening m) (ha : Side a) (hm' : Closing m') :
    timestamps (m ++ (a ++ m')) = [a].filter fun t => !t.isEmpty := by
  rw [timestamps_opening hm, timestamps_closing ha.plain hm']

section
variable {m a b m' : Str}

theorem head_opening (hm : Opening m) {c : UInt8} : m.head? = some c ↔ m = [c] := by
  rcases hm with rfl | rfl | rfl <;> simp

theorem head_closing (hm : Closing m) {c : UInt8} : m.head? = some c ↔ m = [c] := by
  rcases hm with rfl | rfl | rfl <;> simp

theorem mem_opening (hm : Opening m) {c : UInt8} : c ∈ m ↔ m = [c] := by
  rcases hm with rfl | rfl | rfl <;> simp [eq_comm]

theorem mem_closing (hm : Closing m) {c : UInt8} : c ∈ m ↔ m = [c] := by
  rcases hm with rfl | rfl | rfl <;> simp [eq_comm]

theorem mem_noSep (hm : Opening m) (ha : Side a) (hm' : Closing m') {c : UInt8} (hc : plain c = false) :
    c ∈ m ++ (a ++ m') ↔ m = [c] ∨ m' = [c] := by
  have hnot : c ∉ a := by
    intro h
    rw [ha.plain c h] at hc
    cases hc
  rw [List.mem_append, List.mem_append, mem_opening hm, mem_closing hm']
  simp [hnot]

theorem exclusiveInstant_noSep (hm : Opening m) (ha : Side a) (hm' : Closing m') :
    ExclusiveInstant (m ++ (a ++ m')) ↔ a ≠ [] ∧ (m = [ch '('] ∨ m' = [ch ')']) := by
  have hopen : m ≠ [ch '_'] ∧ m ≠ [ch ')'] := by rcases hm with rfl | rfl | rfl <;> decide
  have hclose : m' ≠ [ch '_'] ∧ m' ≠ [ch '('] := by rcases hm' with rfl | rfl | rfl <;> decide
  unfold ExclusiveInstant
  rw [timestamps_noSep hm ha hm', mem_noSep hm ha hm' (by decide), mem_noSep hm ha hm' (by decide),
    mem_noSep hm ha hm' (by decide)]
  simp [hopen, hclose]

theorem not_exclusiveInstant_sep : ¬ ExclusiveInstant (m ++ (a ++ ch '_' :: b ++ m')) := by
  intro h
  exact h.1 (by simp)

end

theorem exists_rangeText_iff {s : Str} :
    (∃ A, RangeText s A) ↔ s ≠ [] ∧ s ∈ timerangePattern.matches' ∧ ¬ ExclusiveInstant s := by
  rw [mem_timerangePattern]
  constructor
  · rintro ⟨A, h⟩
    cases h with
    | empty hm hm' hne =>
      refine ⟨hne, ⟨_, [], _, hm, Or.inl rfl, hm', Or.inl rfl⟩, ?_⟩
      intro hex
      exact ((exclusiveInstant_noSep hm (Or.inl rfl) hm').mp hex).1 rfl
    | instant hm hm' ho hc ht =>
      refine ⟨by simp [ht.ne_nil], ⟨_, _, _, hm, Or.inr ⟨_, ht⟩, hm', Or.inl rfl⟩, ?_⟩
      intro hex
      rcases ((exclusiveInstant_noSep hm (Or.inr ⟨_, ht⟩) hm').mp hex).2 with h | h
      · exact ho h
      · exact hc h
    | span hm hm' hs he =>
      exact ⟨by simp, ⟨_, _, _, hm, hs.side, hm', Or.inr ⟨_, he.side, rfl⟩⟩, not_exclusiveInstant_sep⟩
  · rintro ⟨hne, ⟨m, a, m', hm, ha, hm', rfl | ⟨b, hb, rfl⟩⟩, hex⟩
    · rw [exclusiveInstant_noSep hm ha hm'] at hex
      rcases ha with rfl | ⟨v, hv⟩
      · exact ⟨∅, .empty hm hm' hne⟩
      · have hmark : m ≠ [ch '('] ∧ m' ≠ [ch ')'] := by
          rw [← not_or]
          exact fun h => hex ⟨hv.ne_nil, h⟩
        exact ⟨{v}, .instant hm hm' hmark.1 hmark.2 hv⟩
    · obtain ⟨A, hA⟩ := ha.startText m
      obtain ⟨B, hB⟩ := hb.endText m'
      exact ⟨A ∩ B, .span hm hm' hA hB⟩

/-! ## The parser -/

theorem parseTimestamp_fits {s : Str} {v : ℤ} (h : TimestampText s v) (hfit : FloorFits v) :
    ∃ ts, parseTimestamp s = .ok ts ∧ ts.Valid ∧ ts.value = v := by
  obtain ⟨hlo, hhi⟩ := floorFits_iff.mp hfit
  exact parseTimestamp_of_text h hlo hhi

theorem parseSide_startText {m a : Str} {A : Set ℤ} (hm : Opening m) (h : StartText m a A)
    (hfit : a ≠ [] → ∀ v, TimestampText a v → FloorFits v) :
    ∃ ts ty, (∀ s, parseSide s a (m.head? = some (ch '(')) = .ok (ts, ty)) ∧ lowerSet ts ty = A := by
  rcases h with ⟨rfl, rfl⟩ | ⟨v, hv, rfl⟩
  · exact ⟨none, .unbounded, fun _ => rfl, rfl⟩
  · obtain ⟨ts, hp, -, rfl⟩ := parseTimestamp_fits hv (hfit hv.ne_nil v hv)
    refine ⟨some ts, if m = [ch '('] then .exclusive else .inclusive, ?_, ?_⟩
    · intro s
      rw [parseSide, if_neg hv.ne_nil, hp]
      simp only [head_opening hm, decide_eq_true_eq]
    · by_cases hmark : m = [ch '('] <;> simp [hmark, lowerSet]

theorem parseSide_endText {m b : Str} {B : Set ℤ} (hm : Closing m) (h : EndText m b B)
    (hfit : b ≠ [] → ∀ v, TimestampText b v → FloorFits v) :
    ∃ ts ty, (∀ s, parseSide s b (m.head? = some (ch ')')) = .ok (ts, ty)) ∧ upperSet ts ty = B := by
  rcases h with ⟨rfl, rfl⟩ | ⟨v, hv, rfl⟩
  · exact ⟨none, .unbounded, fun _ => rfl, rfl⟩
  · obtain ⟨ts, hp, -, rfl⟩ := parseTimestamp_fits hv (hfit hv.ne_nil v hv)
    refine ⟨some ts, if m = [ch ')'] then .exclusive else .inclusive, ?_, ?_⟩
    · intro s
      rw [parseSide, if_neg hv.ne_nil, hp]
      simp only [head_closing hm, decide_eq_true_eq]
    · by_cases hmark : m = [ch ')'] <;> simp [hmark, upperSet]

/-- **The parser is complete**: a text of the language whose timestamps fit is accepted, with its meaning. -/
theorem parse_of_text {s : Str} {A : Set ℤ} (h : RangeText s A)
    (hfit : ∀ t ∈ timestamps s, ∀ v, TimestampText t v → FloorFits v) : ∃ tr, parse s = .ok tr ∧ tr.denote = A := by
  cases h with
  | @empty m m' hm hm' hne =>
    refine ⟨.empty, ?_, TimeRange.denote_empty⟩
    exact parse_noSep (a := []) hm hm' (fun c hc => by cases hc) hne
  | @instant m m' a v hm hm' ho hc ht =>
    rw [timestamps_noSep hm (Or.inr ⟨v, ht⟩) hm'] at hfit
    obtain ⟨ts, hp, -, rfl⟩ := parseTimestamp_fits ht (hfit a (by simp [ht.ne_nil]) v ht)
    refine ⟨_, parse_instant hm hm' ?_ ?_ ht.ne_nil ht.plain hp, denote_closed ts⟩
    · rw [ne_eq, head_opening hm]
      exact ho
    · rw [ne_eq, head_closing hm']
      exact hc
  | @span m m' a b A B hm hm' hs he =>
    rw [timestamps_sep hm hs.side he.side hm'] at hfit
    obtain ⟨lo, lty, hlo, rfl⟩ := parseSide_startText hm hs fun hne => hfit a (by simp [hne])
    obtain ⟨hi, hty, hhi, rfl⟩ := parseSide_endText hm' he fun hne => hfit b (by simp [hne])
    exact ⟨_, parse_span hm hm' hs.side.plain he.side.plain hlo hhi, rfl⟩

theorem floorFits_of_parseSide {s side : Str} {exclusive : Bool} {ts : Option Timestamp} {ty : BoundType}
    (h : parseSide s side exclusive = .ok (ts, ty)) {v : ℤ} (hv : TimestampText side v) : FloorFits v := by
  obtain ⟨hnil, -⟩ | ⟨x, hp, -⟩ := parseSide_ok h
  · exact absurd hnil hv.ne_nil
  · exact floorFits_of_parse hp hv

theorem parse_fits {s : Str} {tr : TimeRange} (h : parse s = .ok tr) :
    ∀ t ∈ timestamps s, ∀ v, TimestampText t v → FloorFits v := by
  have htext := (parse_text h).2
  generalize tr.denote = A at htext
  cases htext with
  | @empty m m' hm hm' hne =>
    have hnone : timestamps (m ++ m') = [] := timestamps_noSep hm (a := []) (Or.inl rfl) hm'
    rw [hnone]
    exact fun t ht => by cases ht
  | @instant m m' a v hm hm' ho hc ht =>
    rw [parse_noSep hm hm' ht.plain (by simp [ht.ne_nil]), if_neg ht.ne_nil] at h
    rw [timestamps_noSep hm (Or.inr ⟨v, ht⟩) hm']
    split at h
    · cases h
    · cases hp : parseTimestamp a with
      | error e =>
        rw [hp] at h
        cases h
      | ok ts =>
        intro t hmem w hw
        obtain rfl := List.mem_singleton.mp (List.mem_filter.mp hmem).1
        exact floorFits_of_parse hp hw
  | @span m m' a b A B hm hm' hs he =>
    rw [parse_sep hm hm' hs.side.plain he.side.plain] at h
    rw [timestamps_sep hm hs.side he.side hm']
    cases hlo : parseSide (m ++ (a ++ ch '_' :: b ++ m')) a (m.head? = some (ch '(')) with
    | error e =>
      rw [hlo] at h
      cases h
    | ok lo =>
      cases hhi : parseSide (m ++ (a ++ ch '_' :: b ++ m')) b (m'.head? = some (ch ')')) with
      | error e =>
        rw [hlo, hhi] at h
        cases h
      | ok hi =>
        intro t hmem w hw
        rcases List.mem_cons.mp (List.mem_filter.mp hmem).1 with rfl | hmem
        · exact floorFits_of_parseSide hlo hw
        · rw [List.mem_singleton.mp hmem] at hw
          exact floorFits_of_parseSide hhi hw

/-- **The parser accepts exactly the documented language**, and its answer denotes what the text does. -/
theorem parse_accepts_iff (s : Str) :
    ((∃ tr, parse s = .ok tr) ↔
      s ≠ [] ∧ s ∈ timerangePattern.matches' ∧ (∀ t ∈ timestamps s, ∀ v, TimestampText t v → FloorFits v) ∧
        ¬ ExclusiveInstant s) ∧
    ∀ tr, parse s = .ok tr → RangeText s tr.denote ∧ ∀ A, RangeText s A → A = tr.denote := by
  refine ⟨⟨?_, ?_⟩, ?_⟩
  · rintro ⟨tr, h⟩
    obtain ⟨hne, hpat, hex⟩ := exists_rangeText_iff.mp ⟨_, (parse_text h).2⟩
    exact ⟨hne, hpat, parse_fits h, hex⟩
  · rintro ⟨hne, hpat, hfit, hex⟩
    obtain ⟨A, hA⟩ := exists_rangeText_iff.mpr ⟨hne, hpat, hex⟩
    obtain ⟨tr, h, -⟩ := parse_of_text hA hfit
    exact ⟨tr, h⟩
  · intro tr h
    refine ⟨(parse_text h).2, ?_⟩
    intro A hA
    obtain ⟨tr', h', hd⟩ := parse_of_text hA (parse_fits h)
    rw [h] at h'
    rw [← hd, Except.ok.inj h']

/-- A range with a sign, an exclusive end and an omitted marker. -/
theorem parse_accepts_iff_span :
    lit "-1:5_2:0)" ∈ timerangePattern.matches' ∧
      RangeText (lit "-1:5_2:0)") {n : ℤ | -1000000005 ≤ n ∧ n < 2000000000} := by
  have hp : parse (lit "-1:5_2:0)") = .ok ⟨some ⟨-2, 999999995⟩, .inclusive, some ⟨2, 0⟩, .exclusive⟩ := by decide
  obtain ⟨hiff, hden⟩ := parse_accepts_iff (lit "-1:5_2:0)")
  refine ⟨(hiff.mp ⟨_, hp⟩).2.1, ?_⟩
  have hset : (⟨some ⟨-2, 999999995⟩, .inclusive, some ⟨2, 0⟩, .exclusive⟩ : TimeRange).denote =
      {n : ℤ | -1000000005 ≤ n ∧ n < 2000000000} := by
    ext n
    rw [TimeRange.mem_denote_bounded (by decide) (by decide)]
    rfl
  rw [← hset]
  exact (hden _ hp).1

end OpenTams
