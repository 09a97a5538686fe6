import OpenTams.RangeString

/-!
# The parser reads back what is rendered

A timestamp text whose value has its floor seconds in `int64` is accepted, so the
canonical string of a timestamp is parsed to that timestamp, and the canonical
string of a range to a range that denotes the same nanoseconds.
-/

namespace OpenTams

/-! ## Cutting strings -/

theorem cut_append {sep : UInt8} {a : Str} (h : sep ∉ a) (b : Str) : cut sep (a ++ sep :: b) = (a, b, true) := by
  induction a with
  | nil => simp [cut]
  | cons c a ih =>
    rw [List.mem_cons, not_or] at h
    simp [cut, Ne.symm h.1, ih h.2]

theorem cut_of_notMem {sep : UInt8} {s : Str} (h : sep ∉ s) : cut sep s = (s, [], false) := by
  induction s with
  | nil => rfl
  | cons c s ih =>
    rw [List.mem_cons, not_or] at h
    simp [cut, Ne.symm h.1, ih h.2]

/-! ## Timestamps -/

theorem validInt_digits {s : Str} (h : validInt s = true) : s ≠ [] ∧ ∀ c ∈ s, isDigit c = true := by
  cases s with
  | nil => cases h
  | cons b s =>
    refine ⟨List.cons_ne_nil b s, ?_⟩
    rw [validInt] at h
    split at h
    · rename_i hz
      rw [hz]
      intro c hc
      rw [List.mem_singleton.mp hc]
      decide
    · split at h
      · cases h
      · rename_i hb
        simp only [Bool.or_eq_true, decide_eq_true_eq, UInt8.lt_iff_toNat_lt, not_or] at hb
        have h1 : (ch '1').toNat = 49 := rfl
        have h0 : (ch '0').toNat = 48 := rfl
        have hdigit : isDigit b = true := by
          simp only [isDigit, Bool.and_eq_true, decide_eq_true_eq, UInt8.le_iff_toNat_le]
          omega
        intro c hc
        rcases List.mem_cons.mp hc with rfl | hc
        · exact hdigit
        · exact List.all_eq_true.mp h c hc

theorem validInt_of_validNano {s : Str} (h : validNano s = true) : validInt s = true := by
  cases s with
  | nil => cases h
  | cons b s =>
    rw [validNano] at h
    rw [validInt]
    split at h
    · rename_i hz
      rw [if_pos hz]
    · rename_i hz
      rw [if_neg hz]
      split at h
      · cases h
      · rename_i hb
        rw [if_neg hb]
        split at h
        · cases h
        · exact h

theorem validNano_digits {s : Str} (h : validNano s = true) : ∀ c ∈ s, isDigit c = true :=
  (validInt_digits (validInt_of_validNano h)).2

theorem isDigit_ne {b c : UInt8} (h : isDigit b = true) (hc : isDigit c = false) : c ≠ b := by
  rintro rfl
  rw [h] at hc
  cases hc

theorem notMem_digits {s : Str} (h : ∀ c ∈ s, isDigit c = true) {c : UInt8} (hc : isDigit c = false) : c ∉ s :=
  fun hm => isDigit_ne (h c hm) hc rfl

theorem parseUint_of_lt {s : Str} (h : decVal s < 2 ^ 64) : ∃ mag, parseUint s = some mag ∧ mag.toNat = decVal s := by
  refine ⟨_, if_pos h, ?_⟩
  rw [UInt64.toNat_ofNat']
  exact Nat.mod_eq_of_lt h

theorem parseTimestamp_pos {sec ns : Str} (hsec : validInt sec = true) (hns : validNano ns = true)
    (hfit : decVal sec < 2 ^ 63) :
    ∃ ts, parseTimestamp (sec ++ ch ':' :: ns) = .ok ts ∧ ts.Valid ∧
      ts.value = decVal sec * 1000000000 + decVal ns := by
  obtain ⟨hne, hdig⟩ := validInt_digits hsec
  have hhead : ¬ (sec ++ ch ':' :: ns).head? = some (ch '-') := by
    obtain ⟨b, s, rfl⟩ := List.exists_cons_of_ne_nil hne
    intro he
    exact isDigit_ne (hdig b List.mem_cons_self) (by decide) (Option.some.inj he).symm
  have hcut := cut_append (notMem_digits hdig (c := ch ':') (by decide)) ns
  obtain ⟨mag, hmag, hval⟩ := parseUint_of_lt (s := sec) (by omega)
  have hlt := decVal_validNano hns
  have hfits : mag.toNat < 2 ^ 63 := by omega
  have hmax := maxInt64_not_lt.mpr hfits
  obtain ⟨hvalid, hvalue⟩ := value_nonneg hfits (toInt_ofNat_nanos hlt) hlt
  refine ⟨_, ?_, hvalid, by rw [hvalue, hval]⟩
  simp only [parseTimestamp, hhead, hcut, hsec, hns, hmag, hmax, decide_false, Bool.not_false, Bool.not_true,
    Bool.false_eq_true, Bool.true_or, if_true, if_false]

theorem parseTimestamp_neg {sec ns : Str} (hsec : validInt sec = true) (hns : validNano ns = true)
    (hfit : (decVal sec * 1000000000 + decVal ns : ℤ) ≤ 2 ^ 63 * 1000000000) :
    ∃ ts, parseTimestamp (ch '-' :: (sec ++ ch ':' :: ns)) = .ok ts ∧ ts.Valid ∧
      ts.value = -(decVal sec * 1000000000 + decVal ns) := by
  have hcut := cut_append (notMem_digits (validInt_digits hsec).2 (c := ch ':') (by decide)) ns
  obtain ⟨mag, hmag, hval⟩ := parseUint_of_lt (s := sec) (by omega)
  have hlt := decVal_validNano hns
  have hint := toInt_ofNat_nanos hlt
  have hns0 := ofNat_nanos_eq_zero hlt
  have hmag0 : mag = 0 ↔ decVal sec = 0 := by
    rw [← hval, ← UInt64.toNat_inj]
    rfl
  by_cases hz : decVal ns = 0
  · by_cases hs : decVal sec = 0
    · -- zero with a sign
      have hfits : mag.toNat < 2 ^ 63 := by omega
      obtain ⟨hvalid, hvalue⟩ := value_nonneg hfits hint hlt
      refine ⟨_, ?_, hvalid, by rw [hvalue, hval, hs, hz]; rfl⟩
      simp only [parseTimestamp, List.head?_cons, List.tail_cons, hcut, hsec, hns, hmag, hns0.mpr hz, hmag0.mpr hs,
        decide_true, Bool.not_true, Bool.false_eq_true, Bool.and_self, Bool.or_true, if_true, if_false]
      rfl
    · -- whole seconds: the magnitude may be `2 ^ 63`
      have hpos : 1 ≤ mag.toNat := by omega
      have hfits : mag.toNat ≤ 2 ^ 63 := by omega
      have hle := maxInt64_succ_not_lt.mpr hfits
      obtain ⟨hvalid, hvalue⟩ := value_wholeNeg hpos hfits
      refine ⟨_, ?_, hvalid, by rw [hvalue, hval, hz]; simp⟩
      simp only [parseTimestamp, List.head?_cons, List.tail_cons, hcut, hsec, hns, hmag, hns0.mpr hz, hmag0, hs, hle,
        decide_true, decide_false, Bool.not_true, Bool.false_eq_true, Bool.false_and, Bool.or_self, if_true, if_false]
  · have hfits : mag.toNat < 2 ^ 63 := by omega
    have hle := maxInt64_not_lt.mpr hfits
    obtain ⟨hvalid, hvalue⟩ := value_fracNeg hfits hint (by omega) hlt
    refine ⟨_, ?_, hvalid, by rw [hvalue, hval]⟩
    simp only [parseTimestamp, List.head?_cons, List.tail_cons, hcut, hsec, hns, hmag, hns0, hz, hle, decide_true,
      decide_false, Bool.not_true, Bool.false_eq_true, Bool.and_false, Bool.or_self, if_true, if_false]

/-- **The parser of timestamps is complete** on texts whose floor seconds fit. -/
theorem parseTimestamp_of_text {s : Str} {v : ℤ} (h : TimestampText s v) (hlo : -(2 ^ 63 * 1000000000) ≤ v)
    (hhi : v < 2 ^ 63 * 1000000000) : ∃ ts, parseTimestamp s = .ok ts ∧ ts.Valid ∧ ts.value = v := by
  cases h with
  | pos hsec hns => exact parseTimestamp_pos hsec hns (by omega)
  | neg hsec hns => exact parseTimestamp_neg hsec hns (by omega)

theorem Timestamp.Valid.value_bounds {ts : Timestamp} (h : ts.Valid) :
    -(2 ^ 63 * 1000000000) ≤ ts.value ∧ ts.value < 2 ^ 63 * 1000000000 := by
  obtain ⟨hlo, hhi⟩ := h
  have := ts.seconds.le_toInt
  have := ts.seconds.toInt_lt
  unfold Timestamp.value
  omega

theorem parseTimestamp_string {ts : Timestamp} (h : ts.Valid) : parseTimestamp ts.string = .ok ts := by
  obtain ⟨hlo, hhi⟩ := h.value_bounds
  obtain ⟨ts', hp, hv, he⟩ := parseTimestamp_of_text (ts.string_text h) hlo hhi
  rw [hp, Timestamp.value_inj hv h he]

/-! ## Ranges -/

def plain (b : UInt8) : Bool := b ∉ [ch '[', ch '(', ch ']', ch ')', ch '_']

theorem plain_of_digit {b : UInt8} (h : isDigit b = true) : plain b = true := by
  have hne : ∀ c, isDigit c = false → b ≠ c := fun c hc => (isDigit_ne h hc).symm
  simp [plain, hne _ (show isDigit (ch '[') = false by decide), hne _ (show isDigit (ch '(') = false by decide),
    hne _ (show isDigit (ch ']') = false by decide), hne _ (show isDigit (ch ')') = false by decide),
    hne _ (show isDigit (ch '_') = false by decide)]

theorem TimestampText.plain {s : Str} {v : ℤ} (h : TimestampText s v) : ∀ c ∈ s, plain c = true := by
  have hbody : ∀ {sec ns : Str}, validInt sec = true → validNano ns = true →
      ∀ c ∈ sec ++ ch ':' :: ns, OpenTams.plain c = true := by
    intro sec ns hsec hns c hc
    rcases List.mem_append.mp hc with hc | hc
    · exact plain_of_digit ((validInt_digits hsec).2 c hc)
    · rcases List.mem_cons.mp hc with rfl | hc
      · decide
      · exact plain_of_digit (validNano_digits hns c hc)
  cases h with
  | pos hsec hns => exact hbody hsec hns
  | neg hsec hns =>
    intro c hc
    rcases List.mem_cons.mp hc with rfl | hc
    · decide
    · exact hbody hsec hns c hc

theorem TimestampText.ne_nil {s : Str} {v : ℤ} (h : TimestampText s v) : s ≠ [] := by
  cases h <;> simp

theorem startMarker_of_opening {m body : Str} (hm : Opening m)
    (hb : ∀ c s, body = c :: s → c ≠ ch '[' ∧ c ≠ ch '(') : startMarker (m ++ body) = (m.head?, body) := by
  rcases hm with rfl | rfl | rfl
  · cases body with
    | nil => rfl
    | cons c s =>
      obtain ⟨h1, h2⟩ := hb c s rfl
      simp [startMarker, h1, h2]
  · rfl
  · rfl

theorem endMarker_of_closing {m body : Str} (hm : Closing m)
    (hb : ∀ c, body.getLast? = some c → c ≠ ch ']' ∧ c ≠ ch ')') : endMarker (body ++ m) = (m.head?, body) := by
  rcases hm with rfl | rfl | rfl
  · unfold endMarker
    rw [List.append_nil]
    split
    · rfl
    · rename_i c hc
      obtain ⟨h1, h2⟩ := hb c hc
      simp [h1, h2]
  · simp [endMarker]
  · simp [endMarker]

theorem plain_ne {c : UInt8} (h : plain c = true) :
    c ≠ ch '[' ∧ c ≠ ch '(' ∧ c ≠ ch ']' ∧ c ≠ ch ')' ∧ c ≠ ch '_' := by
  simpa [plain] using h

section
variable {m m' a b : Str}

theorem startMarker_plain (hm : Opening m) (ha : ∀ c ∈ a, plain c = true) (rest : Str)
    (hr : ∀ c s, rest = c :: s → c ≠ ch '[' ∧ c ≠ ch '(') : startMarker (m ++ (a ++ rest)) = (m.head?, a ++ rest) := by
  refine startMarker_of_opening hm fun c s he => ?_
  cases a with
  | nil => exact hr c s he
  | cons x a =>
    have := plain_ne (ha x List.mem_cons_self)
    rw [(List.cons.inj he).1] at this
    exact ⟨this.1, this.2.1⟩

theorem endMarker_plain (hm' : Closing m') (hb : ∀ c ∈ b, plain c = true ∨ c = ch '_') :
    endMarker (b ++ m') = (m'.head?, b) := by
  refine endMarker_of_closing hm' fun c hc => ?_
  rcases hb c (List.mem_of_getLast? hc) with hc | rfl
  · have := plain_ne hc
    exact ⟨this.2.2.1, this.2.2.2.1⟩
  · decide

theorem parse_sep (hm : Opening m) (hm' : Closing m') (ha : ∀ c ∈ a, plain c = true) (hb : ∀ c ∈ b, plain c = true) :
    parse (m ++ (a ++ ch '_' :: b ++ m')) =
      (parseSide (m ++ (a ++ ch '_' :: b ++ m')) a (m.head? = some (ch '('))).bind fun lo =>
        (parseSide (m ++ (a ++ ch '_' :: b ++ m')) b (m'.head? = some (ch ')'))).map fun hi =>
          ⟨lo.1, lo.2, hi.1, hi.2⟩ := by
  have hne : m ++ (a ++ ch '_' :: b ++ m') ≠ [] := by simp
  have hstart : startMarker (m ++ (a ++ ch '_' :: b ++ m')) = (m.head?, a ++ ch '_' :: b ++ m') := by
    rw [List.append_assoc]
    refine startMarker_plain hm ha _ fun c s he => ?_
    cases he
    decide
  have hend : endMarker (a ++ ch '_' :: b ++ m') = (m'.head?, a ++ ch '_' :: b) := by
    refine endMarker_plain hm' fun c hc => ?_
    rcases List.mem_append.mp hc with hc | hc
    · exact Or.inl (ha c hc)
    · rcases List.mem_cons.mp hc with rfl | hc
      · exact Or.inr rfl
      · exact Or.inl (hb c hc)
  have hcut : cut (ch '_') (a ++ ch '_' :: b) = (a, b, true) :=
    cut_append (fun hc => (plain_ne (ha _ hc)).2.2.2.2 rfl) b
  generalize hs : m ++ (a ++ ch '_' :: b ++ m') = s at hne hstart
  unfold parse
  rw [if_neg hne, hstart]
  dsimp only
  rw [hend]
  dsimp only
  rw [hcut]
  simp only [Bool.not_true, Bool.false_eq_true, if_false]
  cases parseSide s a (m.head? = some (ch '(')) with
  | error e => rfl
  | ok lo =>
    cases parseSide s b (m'.head? = some (ch ')')) with
    | error e => rfl
    | ok hi => rfl

theorem parse_noSep (hm : Opening m) (hm' : Closing m') (ha : ∀ c ∈ a, plain c = true) (hne : m ++ (a ++ m') ≠ []) :
    parse (m ++ (a ++ m')) =
      if a = [] then .ok .empty
      else if m.head? = some (ch '(') || m'.head? = some (ch ')') then .error (.exclusiveInstant (m ++ (a ++ m')))
      else ((parseTimestamp a).mapError (.timestamp (m ++ (a ++ m')))).map fun ts =>
        ⟨some ts, .inclusive, some ts, .inclusive⟩ := by
  have hstart : startMarker (m ++ (a ++ m')) = (m.head?, a ++ m') := by
    refine startMarker_plain hm ha m' fun c s he => ?_
    rcases hm' with rfl | rfl | rfl
    · cases he
    · cases he
      decide
    · cases he
      decide
  have hend : endMarker (a ++ m') = (m'.head?, a) := endMarker_plain hm' fun c hc => Or.inl (ha c hc)
  have hcut : cut (ch '_') a = (a, [], false) := cut_of_notMem fun hc => (plain_ne (ha _ hc)).2.2.2.2 rfl
  generalize m ++ (a ++ m') = s at hne hstart
  unfold parse
  rw [if_neg hne, hstart]
  dsimp only
  rw [hend]
  dsimp only
  rw [hcut]
  simp only [Bool.not_false, if_true]
  cases parseTimestamp a with
  | error e => rfl
  | ok ts => rfl

theorem parse_span (hm : Opening m) (hm' : Closing m') (ha : ∀ c ∈ a, plain c = true)
    (hb : ∀ c ∈ b, plain c = true) {start endTs : Option Timestamp} {sty ety : BoundType}
    (hs : ∀ s, parseSide s a (m.head? = some (ch '(')) = .ok (start, sty))
    (he : ∀ s, parseSide s b (m'.head? = some (ch ')')) = .ok (endTs, ety)) :
    parse (m ++ (a ++ ch '_' :: b ++ m')) = .ok ⟨start, sty, endTs, ety⟩ := by
  rw [parse_sep hm hm' ha hb, hs, he]
  rfl

theorem parse_instant (hm : Opening m) (hm' : Closing m') (hms : m.head? ≠ some (ch '('))
    (hme : m'.head? ≠ some (ch ')')) (hne : a ≠ []) (ha : ∀ c ∈ a, plain c = true) {ts : Timestamp}
    (hts : parseTimestamp a = .ok ts) :
    parse (m ++ (a ++ m')) = .ok ⟨some ts, .inclusive, some ts, .inclusive⟩ := by
  rw [parse_noSep hm hm' ha (by simp [hne]), if_neg hne, if_neg (by simp [hms, hme]), hts]
  rfl

theorem parseSide_string {ts : Timestamp} (hv : ts.Valid) {ty : BoundType} (hty : ty ≠ .unbounded) {exclusive : Bool}
    (hex : exclusive = decide (ty = .exclusive)) (s : Str) : parseSide s ts.string exclusive = .ok (some ts, ty) := by
  rw [parseSide, if_neg (ts.string_text hv).ne_nil, parseTimestamp_string hv, hex]
  cases ty with
  | unbounded => exact absurd rfl hty
  | _ => rfl

end

theorem head_startMark (ty : BoundType) : decide ([startMark ty].head? = some (ch '(')) = decide (ty = .exclusive) := by
  cases ty <;> decide

theorem head_endMark (ty : BoundType) : decide ([endMark ty].head? = some (ch ')')) = decide (ty = .exclusive) := by
  cases ty <;> decide

theorem denote_closed (s : Timestamp) : (⟨some s, .inclusive, some s, .inclusive⟩ : TimeRange).denote = {s.value} := by
  ext n
  rw [TimeRange.mem_denote_bounded (by decide) (by decide), Set.mem_singleton_iff]
  show s.value + 0 ≤ n ∧ n < s.value + 1 ↔ n = s.value
  omega

/-- A range that is not empty although its ends are equal is closed. -/
theorem closed_of_equal {s e : Timestamp} {sty ety : BoundType} (hs : s.Valid) (he : e.Valid) (hsty : sty ≠ .unbounded)
    (hety : ety ≠ .unbounded) (heq : s.equal e = true) (hem : ¬ (⟨some s, sty, some e, ety⟩ : TimeRange).isEmpty = true) :
    (⟨some s, sty, some e, ety⟩ : TimeRange) = ⟨some s, .inclusive, some s, .inclusive⟩ := by
  have hval := (Timestamp.equal_iff hs he).mp heq
  rw [TimeRange.isEmpty_bounded hs he hety, ← hval] at hem
  rw [← Timestamp.value_inj hs he hval]
  cases sty with
  | unbounded => exact absurd rfl hsty
  | exclusive =>
    cases ety with
    | unbounded => exact absurd rfl hety
    | _ => exact absurd (by simp [BoundType.startShift, BoundType.endShift]) hem
  | inclusive =>
    cases ety with
    | unbounded => exact absurd rfl hety
    | inclusive => rfl
    | exclusive => exact absurd (by simp [BoundType.startShift, BoundType.endShift]) hem

/-- **Rendering is undone by parsing**: the canonical string is accepted, as the range it was rendered from. -/
theorem parse_string_eq {tr : TimeRange} (h : tr.Wf) {text : Str} (ht : tr.string = some text) :
    parse text = .ok (if tr.isEmpty then .empty else tr) := by
  unfold TimeRange.string at ht
  by_cases hem : tr.isEmpty = true
  · rw [if_pos hem] at ht
    cases ht
    rw [if_pos hem]
    decide
  rw [if_neg hem] at ht
  rw [if_neg hem]
  rcases h with rfl | ⟨hs, he⟩
  · exact absurd rfl hem
  obtain ⟨start, sty, endTs, ety⟩ := tr
  simp only at hs he
  have hnil : ∀ c ∈ ([] : Str), plain c = true := fun c hc => by cases hc
  rcases hs with ⟨rfl, rfl⟩ | ⟨s, rfl, hsv, hsty⟩ <;> rcases he with ⟨rfl, rfl⟩ | ⟨e, rfl, hev, hety⟩
  · cases ht
    decide
  · have htext : text = [] ++ ([] ++ ch '_' :: e.string ++ [endMark ety]) := by
      simpa [TimeRange.isEternity, hety, TimeRange.string.endPart, endMark] using ht.symm
    rw [htext]
    exact parse_span opening_nil (closing_endMark ety) hnil (e.string_text hev).plain (fun _ => rfl)
      (parseSide_string hev hety (head_endMark ety))
  · have htext : text = [startMark sty] ++ (s.string ++ ch '_' :: [] ++ []) := by
      simpa [TimeRange.isEternity, hsty, TimeRange.string.startPart, startMark] using ht.symm
    rw [htext]
    exact parse_span (opening_startMark sty) closing_nil (s.string_text hsv).plain hnil
      (parseSide_string hsv hsty (head_startMark sty)) (fun _ => rfl)
  · simp only [TimeRange.isEternity, hsty, hety, Option.isNone_some, decide_false, Bool.and_self, Bool.false_eq_true,
      if_false, ne_eq, not_true_eq_false, Bool.or_self] at ht
    by_cases heq : s.equal e = true
    · rw [if_pos heq] at ht
      cases ht
      rw [closed_of_equal hsv hev hsty hety heq hem]
      have htext := s.string_text hsv
      exact parse_instant (opening_startMark .inclusive) (closing_endMark .inclusive) (by decide) (by decide)
        htext.ne_nil htext.plain (parseTimestamp_string hsv)
    · rw [if_neg heq] at ht
      have htext : text = [startMark sty] ++ (s.string ++ ch '_' :: e.string ++ [endMark ety]) := by
        simpa [TimeRange.string.startPart, TimeRange.string.endPart, startMark, endMark] using ht.symm
      rw [htext]
      exact parse_span (opening_startMark sty) (closing_endMark ety) (s.string_text hsv).plain
        (e.string_text hev).plain (parseSide_string hsv hsty (head_startMark sty))
        (parseSide_string hev hety (head_endMark ety))

theorem parse_string {tr : TimeRange} (h : tr.Wf) {text : Str} (ht : tr.string = some text) :
    ∃ tr', parse text = .ok tr' ∧ tr'.Wf ∧ tr'.denote = tr.denote := by
  have hp := parse_string_eq h ht
  refine ⟨_, hp, (parse_text hp).1, ?_⟩
  by_cases hem : tr.isEmpty = true
  · rw [if_pos hem, TimeRange.denote_empty, (TimeRange.isEmpty_iff h).mp hem]
  · rw [if_neg hem]

/-- The rendering of what was parsed from a rendering is that rendering. -/
theorem string_parse_string {tr tr' : TimeRange} (h : tr.Wf) {text : Str} (ht : tr.string = some text)
    (hp : parse text = .ok tr') : tr'.string = some text := by
  cases hp.symm.trans (parse_string_eq h ht)
  by_cases hem : tr.isEmpty = true
  · rw [if_pos hem]
    rw [TimeRange.string, if_pos hem] at ht
    exact ht
  · rw [if_neg hem]
    exact ht

end OpenTams
