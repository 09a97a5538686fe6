import OpenTams.NetUrl

/-!
# Bytes beyond ASCII in a URL

`http.Redirect` escapes the bytes of a URL beyond ASCII. For a string without
percent signs this changes nothing that is read from the URL but the raw texts of
its path and its query. A string that is unescaped and then escaped in this way
comes back only if it has no plus sign and no other escapes than these.
-/

namespace OpenTams.NetUrl

def lowerHex (n : Nat) : UInt8 := UInt8.ofNat (if n < 10 then 48 + n else 87 + n)

def hexEscapeByte (c : UInt8) : Str :=
  if c < 128 then [c] else [ch '%', lowerHex (c.toNat / 16), lowerHex (c.toNat % 16)]

def hexEscapeNonASCII (s : Str) : Str := s.flatMap hexEscapeByte

/-- No plus sign, and every percent sign begins the escape, in lower case, of a byte beyond ASCII. -/
def Stable (s : Str) : Prop :=
  ch '+' ∉ s ∧ ∀ a r, s = a ++ ch '%' :: r → ∃ b, 128 ≤ b ∧ hexEscapeByte b <+: ch '%' :: r

section
variable {mode : Encoding} {c b h l : UInt8} {s v w x y : Str}

theorem hexEscapeByte_ascii (hc : c < 128) : hexEscapeByte c = [c] := if_pos hc

theorem hexEscapeByte_high (hc : 128 ≤ c) :
    hexEscapeByte c = [ch '%', lowerHex (c.toNat / 16), lowerHex (c.toNat % 16)] := if_neg (UInt8.not_lt.mpr hc)

@[simp] theorem hexEscape_nil : hexEscapeNonASCII [] = [] := rfl

theorem hexEscape_cons : hexEscapeNonASCII (c :: s) = hexEscapeByte c ++ hexEscapeNonASCII s := List.flatMap_cons

/-! ## What the escape leaves in its place -/

theorem unhex_lowerHex {n : ℕ} (hn : n < 16) : unhex (lowerHex n) = some n := by
  have hall : ∀ n < 16, unhex (lowerHex n) = some n := by decide +kernel
  exact hall n hn

theorem lowerHex_ne {n : ℕ} (hn : n < 16) (hx : unhex c ≠ some n) : lowerHex n ≠ c := by
  rintro rfl
  exact hx (unhex_lowerHex hn)

def isDelimiter (c : UInt8) : Bool := c < 128 && c ≠ ch '%' && (unhex c).isNone

theorem isDelimiter_iff : isDelimiter c = true ↔ (c < 128 ∧ c ≠ ch '%') ∧ unhex c = none := by
  simp [isDelimiter]

/-- What stands for a byte beyond ASCII has no delimiter in it. -/
theorem mem_hexEscapeByte {sep : UInt8} (hsep : isDelimiter sep = true) : sep ∈ hexEscapeByte c ↔ c = sep := by
  obtain ⟨⟨hascii, hpercent⟩, hhex⟩ := isDelimiter_iff.mp hsep
  by_cases hc : c < 128
  · rw [hexEscapeByte_ascii hc, List.mem_singleton, eq_comm]
  · rw [hexEscapeByte_high (UInt8.not_lt.mp hc)]
    refine iff_of_false ?_ fun heq => hc (heq ▸ hascii)
    have hne : ∀ n, unhex sep ≠ some n := fun n h => by
      rw [hhex] at h
      cases h
    simp only [List.mem_cons, List.not_mem_nil, or_false, not_or]
    exact ⟨hpercent, (lowerHex_ne (nibbles_lt c).1 (hne _)).symm, (lowerHex_ne (nibbles_lt c).2 (hne _)).symm⟩

theorem hexEscapeByte_delimiter {sep : UInt8} (hsep : isDelimiter sep = true) : hexEscapeByte sep = [sep] :=
  hexEscapeByte_ascii (isDelimiter_iff.mp hsep).1.1

theorem mem_hexEscape {sep : UInt8} (hsep : isDelimiter sep = true) : sep ∈ hexEscapeNonASCII s ↔ sep ∈ s := by
  rw [hexEscapeNonASCII, List.mem_flatMap]
  constructor
  · rintro ⟨c, hc, hmem⟩
    rwa [(mem_hexEscapeByte hsep).mp hmem] at hc
  · exact fun hs => ⟨sep, hs, (mem_hexEscapeByte hsep).mpr rfl⟩

theorem takeWhile_hexEscape {sep : UInt8} (hsep : isDelimiter sep = true) :
    (hexEscapeNonASCII s).takeWhile (· ≠ sep) = hexEscapeNonASCII (s.takeWhile (· ≠ sep)) ∧
      (hexEscapeNonASCII s).dropWhile (· ≠ sep) = hexEscapeNonASCII (s.dropWhile (· ≠ sep)) := by
  induction s with
  | nil => exact ⟨rfl, rfl⟩
  | cons c s ih =>
    by_cases hc : c = sep
    · subst hc
      rw [hexEscape_cons, hexEscapeByte_delimiter hsep]
      simp [hexEscape_cons, hexEscapeByte_delimiter hsep]
    · have hall : ∀ x ∈ hexEscapeByte c, decide (x ≠ sep) = true := by
        intro x hx
        refine decide_eq_true fun hxs => hc ?_
        rw [hxs] at hx
        exact (mem_hexEscapeByte hsep).mp hx
      rw [hexEscape_cons, List.takeWhile_append_of_pos hall, List.dropWhile_append_of_pos hall, ih.1, ih.2]
      simp [hc, hexEscape_cons]

theorem cut_hexEscape {sep : UInt8} (hsep : isDelimiter sep = true) :
    (cut sep (hexEscapeNonASCII s)).1 = hexEscapeNonASCII (cut sep s).1 ∧
      (cut sep (hexEscapeNonASCII s)).2.1 = hexEscapeNonASCII (cut sep s).2.1 := by
  rw [(cut_eq sep _).1, (cut_eq sep _).2, (cut_eq sep _).1, (cut_eq sep _).2, (takeWhile_hexEscape hsep).1,
    (takeWhile_hexEscape hsep).2]
  refine ⟨rfl, ?_⟩
  cases hd : s.dropWhile (· ≠ sep) with
  | nil => rfl
  | cons c r =>
    -- what is left begins with the delimiter
    have hc : c = sep := by
      have := List.head?_dropWhile_not (· ≠ sep) s
      rw [hd] at this
      simpa using this
    rw [hc, hexEscape_cons, hexEscapeByte_delimiter hsep]
    rfl

/-- What comes before the first escape was there before. -/
theorem hexEscape_eq_append (hx : ch '%' ∉ x) (h : hexEscapeNonASCII s = x ++ y) :
    ∃ r, s = x ++ r ∧ hexEscapeNonASCII r = y := by
  induction x generalizing s with
  | nil => exact ⟨s, rfl, h⟩
  | cons a x ih =>
    rw [List.mem_cons, not_or] at hx
    cases s with
    | nil => cases h
    | cons c s =>
      rw [hexEscape_cons] at h
      by_cases hc : c < 128
      · rw [hexEscapeByte_ascii hc, List.singleton_append, List.cons_append] at h
        obtain ⟨rfl, htail⟩ := List.cons_eq_cons.mp h
        obtain ⟨r, rfl, hr⟩ := ih hx.2 htail
        exact ⟨r, rfl, hr⟩
      · rw [hexEscapeByte_high (UInt8.not_lt.mp hc), List.cons_append, List.cons_append] at h
        exact absurd (List.cons_eq_cons.mp h).1 hx.1

/-- A percent sign that was not there before begins an escape. -/
theorem percent_hexEscape (hs : ch '%' ∉ s) (h : hexEscapeNonASCII s = x ++ ch '%' :: y) :
    ∃ b, 128 ≤ b ∧ hexEscapeByte b <+: ch '%' :: y := by
  induction s generalizing x with
  | nil => cases x <;> cases h
  | cons c s ih =>
    rw [List.mem_cons, not_or] at hs
    rw [hexEscape_cons] at h
    rcases List.append_eq_append_iff.mp h with ⟨r, -, hr⟩ | ⟨r, hr, hy⟩
    · exact ih hs.2 hr
    · cases r with
      | nil => exact ih (x := []) hs.2 hy.symm
      | cons a r =>
        obtain ⟨rfl, hy⟩ := List.cons_eq_cons.mp hy
        -- the sign is one of this byte's own
        have hhigh : 128 ≤ c := by
          by_contra hc
          rw [hexEscapeByte_ascii (UInt8.not_le.mp hc)] at hr
          have : ch '%' ∈ [c] := by
            rw [hr]
            simp
          exact hs.1 (List.mem_singleton.mp this)
        have hfirst : ch '%' ∉ (hexEscapeByte c).tail := by
          have hnone : ∀ n, unhex (ch '%') ≠ some n := by
            intro n
            rw [show unhex (ch '%') = none from rfl]
            nofun
          rw [hexEscapeByte_high hhigh]
          simp only [List.tail_cons, List.mem_cons, List.not_mem_nil, or_false, not_or]
          exact ⟨(lowerHex_ne (nibbles_lt c).1 (hnone _)).symm, (lowerHex_ne (nibbles_lt c).2 (hnone _)).symm⟩
        cases x with
        | nil => exact ⟨c, hhigh, by rw [hr, hy]; exact List.prefix_append _ _⟩
        | cons _ x =>
          refine absurd ?_ hfirst
          rw [hr]
          simp

/-! ## Unescaping -/

theorem sign_ascii (hb : 128 ≤ b) : b ≠ ch '%' ∧ b ≠ ch '+' := by
  constructor
  · rintro rfl
    exact absurd hb (by decide)
  · rintro rfl
    exact absurd hb (by decide)

theorem plainByte_high (hc : 128 ≤ c) : plainByte mode c = some c := by
  simp [plainByte, isHostByte, hc, (sign_ascii hc).2]

theorem escapedByte_high (hc : 128 ≤ c) :
    escapedByte mode (lowerHex (c.toNat / 16)) (lowerHex (c.toNat % 16)) = some c :=
  escapedByte_digits (unhex_lowerHex (nibbles_lt c).1) (unhex_lowerHex (nibbles_lt c).2) (Or.inr hc)

theorem unescape_hexEscape (hs : ch '%' ∉ s) : unescape mode (hexEscapeNonASCII s) = unescape mode s := by
  induction s with
  | nil => rfl
  | cons c s ih =>
    rw [List.mem_cons, not_or] at hs
    rw [hexEscape_cons, unescape_plain (Ne.symm hs.1)]
    by_cases hc : c < 128
    · rw [hexEscapeByte_ascii hc, List.singleton_append, unescape_plain (Ne.symm hs.1), ih hs.2]
    · have hc := UInt8.not_lt.mp hc
      rw [hexEscapeByte_high hc, List.cons_append, List.cons_append, List.singleton_append, unescape_escape,
        plainByte_high hc, escapedByte_high hc, ih hs.2]

theorem plainByte_query (h : plainByte .queryComponent c = some b) : c = ch '+' ∧ b = ch ' ' ∨ c ≠ ch '+' ∧ b = c := by
  by_cases hc : c = ch '+'
  · subst hc
    cases h
    exact Or.inl ⟨rfl, rfl⟩
  · rw [plainByte, if_neg (by simp [hc]), if_neg (by simp), Option.some_inj] at h
    exact Or.inr ⟨hc, h.symm⟩

/-- Escaping what was unescaped does not give a longer string. -/
theorem length_hexEscape_le (hs : ∀ c ∈ s, c < 128) (h : queryUnescape s = some w) :
    (hexEscapeNonASCII w).length ≤ s.length := by
  have hlength : ∀ c, (hexEscapeByte c).length ≤ 3 := by
    intro c
    unfold hexEscapeByte
    split <;> simp
  refine unescape_induction (P := fun s w => (∀ c ∈ s, c < 128) → (hexEscapeNonASCII w).length ≤ s.length)
    (fun _ => Nat.le_refl _) ?_ ?_ h hs
  · intro h l b s w _ _ ih hs
    rw [hexEscape_cons, List.length_append]
    have := ih fun c hc => hs c (by simp [hc])
    have := hlength b
    simp only [List.length_cons]
    omega
  · intro c b s w _ hb _ ih hs
    rw [List.forall_mem_cons] at hs
    have hascii : b < 128 := by
      rcases plainByte_query hb with ⟨-, rfl⟩ | ⟨-, rfl⟩
      · decide
      · exact hs.1
    rw [hexEscape_cons, hexEscapeByte_ascii hascii, List.length_append, List.length_singleton, List.length_cons]
    have := ih hs.2
    omega

/-! ## Strings that come back -/

def SignFree (s : Str) : Prop := ch '%' ∉ s ∧ ch '+' ∉ s

theorem signFree_cons : SignFree (c :: s) ↔ (c ≠ ch '%' ∧ c ≠ ch '+') ∧ SignFree s := by
  simp only [SignFree, List.mem_cons, not_or, ne_comm]
  tauto

theorem SignFree.queryUnescape (h : SignFree s) : queryUnescape s = some s := by
  refine unescape_of_plain h.1 fun c hc => ?_
  have hne : c ≠ ch '+' := fun heq => h.2 (heq ▸ hc)
  simp [plainByte, hne]

theorem SignFree.stable (h : SignFree s) : Stable (hexEscapeNonASCII s) :=
  ⟨fun hmem => h.2 ((mem_hexEscape (by decide)).mp hmem), fun _ _ hs => percent_hexEscape h.1 hs⟩

theorem Stable.of_append (h : Stable (x ++ s)) : Stable s := by
  refine ⟨fun hmem => h.1 (List.mem_append_right x hmem), fun a r hs => h.2 (x ++ a) r ?_⟩
  rw [hs, List.append_assoc]

theorem Stable.exists_eq (h : Stable s) (hascii : ∀ c ∈ s, c < 128) : ∃ v, SignFree v ∧ hexEscapeNonASCII v = s := by
  induction hn : s.length using Nat.strong_induction_on generalizing s with
  | _ n ih =>
    match s with
    | [] => exact ⟨[], ⟨List.not_mem_nil, List.not_mem_nil⟩, rfl⟩
    | c :: s =>
      by_cases hc : c = ch '%'
      · subst hc
        obtain ⟨b, hb, r, hr⟩ := h.2 [] s rfl
        rw [← hr] at h hascii hn
        have hlt : r.length < n := by
          rw [← hn, hexEscapeByte_high hb, List.length_append, List.length_cons]
          omega
        obtain ⟨v, hfree, hv⟩ := ih _ hlt h.of_append (fun c hc => hascii c (List.mem_append_right _ hc)) rfl
        exact ⟨b :: v, signFree_cons.mpr ⟨sign_ascii hb, hfree⟩, by rw [hexEscape_cons, hv, hr]⟩
      · rw [List.forall_mem_cons] at hascii
        have hplus : c ≠ ch '+' := fun heq => h.1 (heq ▸ List.mem_cons_self)
        have hs : Stable s := Stable.of_append (x := [c]) h
        have hlt : s.length < n := by
          rw [← hn, List.length_cons]
          omega
        obtain ⟨v, hfree, hv⟩ := ih _ hlt hs hascii.2 rfl
        refine ⟨c :: v, signFree_cons.mpr ⟨⟨hc, hplus⟩, hfree⟩, ?_⟩
        rw [hexEscape_cons, hexEscapeByte_ascii hascii.1, hv, List.singleton_append]

/-- A string that comes back was unescaped to one without percent and plus signs. -/
theorem signFree_of_hexEscape_eq (hs : ∀ c ∈ s, c < 128) (h : queryUnescape s = some w)
    (heq : hexEscapeNonASCII w = s) : SignFree w := by
  refine unescape_induction (P := fun s w => (∀ c ∈ s, c < 128) → hexEscapeNonASCII w = s → SignFree w)
    (fun _ _ => ⟨List.not_mem_nil, List.not_mem_nil⟩) ?_ ?_ h hs heq
  · intro h l b s w _ hw ih hs heq
    have hs' : ∀ c ∈ s, c < 128 := fun c hc => hs c (by simp [hc])
    rw [hexEscape_cons] at heq
    by_cases hb : b < 128
    -- the byte would be the percent sign itself, and what follows it too long
    · rw [hexEscapeByte_ascii hb, List.singleton_append] at heq
      have hlength := length_hexEscape_le hs' hw
      rw [(List.cons_eq_cons.mp heq).2, List.length_cons, List.length_cons] at hlength
      omega
    · have hb := UInt8.not_lt.mp hb
      rw [hexEscapeByte_high hb] at heq
      simp only [List.cons_append, List.nil_append, List.cons_eq_cons] at heq
      exact signFree_cons.mpr ⟨sign_ascii hb, ih hs' heq.2.2.2⟩
  · intro c b s w hc hb _ ih hs heq
    rw [List.forall_mem_cons] at hs
    rw [hexEscape_cons] at heq
    rcases plainByte_query hb with ⟨rfl, rfl⟩ | ⟨hplus, rfl⟩
    · rw [hexEscapeByte_ascii (by decide)] at heq
      exact absurd (List.cons_eq_cons.mp heq).1 (by decide)
    · rw [hexEscapeByte_ascii hs.1, List.singleton_append] at heq
      exact signFree_cons.mpr ⟨⟨hc, hplus⟩, ih hs.2 (List.cons_eq_cons.mp heq).2⟩

end

/-! ## Parsing -/

section
variable {L : HostLiterals} {s scheme host q : Str} {user : Bool} {t : Url}

theorem setPath_hexEscape (hs : ch '%' ∉ s) (h : setPath scheme user host (hexEscapeNonASCII s) q = some t) (q' : Str) :
    setPath scheme user host s q' = some { t with rawPath := s, rawQuery := q' } := by
  unfold setPath at h ⊢
  rw [unescape_hexEscape hs] at h
  obtain ⟨path, hpath, rfl⟩ := Option.map_eq_some_iff.mp h
  rw [hpath]
  rfl

theorem validOptionalPort_hexEscape (h : validOptionalPort (hexEscapeNonASCII s) = true) :
    validOptionalPort s = true := by
  have hdigit : ∀ c : UInt8, (hexEscapeByte c).all isDigit = true → isDigit c = true := by
    intro c hall
    by_cases hc : c < 128
    · rw [hexEscapeByte_ascii hc] at hall
      exact List.all_eq_true.mp hall c List.mem_cons_self
    · rw [hexEscapeByte_high (UInt8.not_lt.mp hc)] at hall
      exact absurd (List.all_eq_true.mp hall _ List.mem_cons_self) (by decide)
  cases s with
  | nil => rfl
  | cons c s =>
    rw [hexEscape_cons] at h
    by_cases hc : c < 128
    · rw [hexEscapeByte_ascii hc, List.singleton_append] at h
      rw [validOptionalPort, Bool.and_eq_true] at h ⊢
      refine ⟨h.1, List.all_eq_true.mpr fun x hx => hdigit x ?_⟩
      exact List.all_eq_true.mpr fun y hy =>
        List.all_eq_true.mp h.2 y (List.mem_flatMap.mpr ⟨x, hx, hy⟩)
    · rw [hexEscapeByte_high (UInt8.not_lt.mp hc)] at h
      rw [List.cons_append, validOptionalPort, Bool.and_eq_true] at h
      exact absurd h.1 (by decide)

/-- An escape of a byte beyond ASCII does not begin a zone. -/
theorem not_zone_hexEscape (hs : ch '%' ∉ s) : ¬ lit "%25" <:+: hexEscapeNonASCII s := by
  have hnot : ∀ b : UInt8, 128 ≤ b → ∀ r, ¬ hexEscapeByte b <+: lit "%25" ++ r := by
    rintro b hb r ⟨r', hr⟩
    have hhex : lowerHex (b.toNat / 16) ≠ ch '2' := by
      refine lowerHex_ne (nibbles_lt b).1 fun h => ?_
      have htwo : unhex (ch '2') = some 2 := rfl
      have hle : 128 ≤ b.toNat := hb
      rw [htwo, Option.some_inj] at h
      omega
    rw [hexEscapeByte_high hb] at hr
    exact hhex (List.cons_eq_cons.mp (List.cons_eq_cons.mp hr).2).1
  rintro ⟨x, y, h⟩
  obtain ⟨b, hb, hbegins⟩ := percent_hexEscape (x := x) (y := lit "25" ++ y) hs (by rw [← h, List.append_assoc]; rfl)
  exact hnot b hb y hbegins

theorem hexEscape_of_notMem (hs : ch '%' ∉ hexEscapeNonASCII s) : hexEscapeNonASCII s = s := by
  induction s with
  | nil => rfl
  | cons c s ih =>
    rw [hexEscape_cons, List.mem_append, not_or] at hs
    by_cases hc : c < 128
    · rw [hexEscape_cons, hexEscapeByte_ascii hc, ih hs.2, List.singleton_append]
    · rw [hexEscapeByte_high (UInt8.not_lt.mp hc)] at hs
      exact absurd List.mem_cons_self hs.1

theorem parseHost_hexEscape (hs : ch '%' ∉ s) (h : parseHost L (hexEscapeNonASCII s) = some host) :
    parseHost L s = some host := by
  unfold parseHost at h ⊢
  split at h
  · rename_i hbracket
    rw [if_pos ((mem_hexEscape (by decide)).mp hbracket)]
    rwa [hexEscape_of_notMem (L.plain _ _ h (not_zone_hexEscape hs))] at h
  · rename_i hbracket
    rw [if_neg fun hmem => hbracket ((mem_hexEscape (by decide)).mpr hmem)]
    rw [(takeWhile_hexEscape (by decide)).2, unescape_hexEscape hs] at h
    split at h
    · rename_i hport
      rwa [if_pos (validOptionalPort_hexEscape hport)]
    · cases h

theorem parseAuthority_hexEscape (hs : ch '%' ∉ s) (h : parseAuthority L (hexEscapeNonASCII s) = some (false, host)) :
    parseAuthority L s = some (false, host) := by
  unfold parseAuthority at h ⊢
  split at h
  · dsimp only at h
    split at h
    · cases h
    · split at h <;> cases h
  · rename_i hat
    rw [if_neg fun hmem => hat ((mem_hexEscape (by decide)).mpr hmem)]
    obtain ⟨host', hhost, heq⟩ := Option.map_eq_some_iff.mp h
    cases heq
    rw [parseHost_hexEscape hs hhost]
    rfl

theorem parseHierarchy_hexEscape (hs : ch '%' ∉ s) (hscheme : scheme ≠ [])
    (h : parseHierarchy L false scheme (hexEscapeNonASCII s) q = some t) (huser : t.user = false) (q' : Str) :
    ∃ r, parseHierarchy L false scheme s q' = some { t with rawPath := r, rawQuery := q' } := by
  by_cases hauth : lit "//" <+: s
  · obtain ⟨r, rfl⟩ := hauth
    have hr : ch '%' ∉ r := fun hmem => hs (List.mem_append_right _ hmem)
    have hescape : hexEscapeNonASCII (lit "//" ++ r) = lit "//" ++ hexEscapeNonASCII r := rfl
    rw [hescape, parseHierarchy_authority hscheme, (takeWhile_hexEscape (by decide)).1,
      (takeWhile_hexEscape (by decide)).2] at h
    obtain ⟨⟨user, host⟩, hhost, hpath⟩ := Option.bind_eq_some_iff.mp h
    have hfalse : user = false := by
      obtain ⟨path, -, rfl⟩ := Option.map_eq_some_iff.mp hpath
      exact huser
    subst hfalse
    rw [parseHierarchy_authority hscheme,
      parseAuthority_hexEscape (fun hmem => hr ((List.takeWhile_sublist _).subset hmem)) hhost]
    exact ⟨_, setPath_hexEscape (fun hmem => hr ((List.dropWhile_sublist _).subset hmem)) hpath q'⟩
  · have hauth' : ¬ lit "//" <+: hexEscapeNonASCII s := by
      rintro ⟨y, hy⟩
      obtain ⟨r, rfl, -⟩ := hexEscape_eq_append (by decide) hy.symm
      exact hauth (List.prefix_append _ _)
    rw [parseHierarchy_path hauth'] at h
    rw [parseHierarchy_path hauth]
    exact ⟨_, setPath_hexEscape hs h q'⟩

theorem parseReference_hexEscape (hs : ch '%' ∉ s) (hscheme : scheme ≠ [])
    (h : parseReference L false scheme (hexEscapeNonASCII s) q = some t) (huser : t.user = false) (q' : Str) :
    ∃ r, parseReference L false scheme s q' = some { t with rawPath := r, rawQuery := q' } := by
  have hhead : (hexEscapeNonASCII s).head? = some (ch '/') ↔ s.head? = some (ch '/') := by
    cases s with
    | nil => rfl
    | cons c s =>
      rw [hexEscape_cons]
      by_cases hc : c < 128
      · rw [hexEscapeByte_ascii hc, List.singleton_append, List.head?_cons, List.head?_cons]
      · rw [hexEscapeByte_high (UInt8.not_lt.mp hc), List.cons_append, List.head?_cons, List.head?_cons]
        refine iff_of_false (by decide) fun h => hc ?_
        rw [Option.some_inj.mp h]
        decide
  unfold parseReference at h ⊢
  by_cases hslash : s.head? = some (ch '/')
  · rw [if_pos (hhead.mpr hslash)] at h
    rw [if_pos hslash]
    exact parseHierarchy_hexEscape hs hscheme h huser q'
  · rw [if_neg fun hs => hslash (hhead.mp hs), if_pos hscheme] at h
    rw [if_neg hslash, if_pos hscheme]
    cases h
    exact ⟨_, rfl⟩

theorem parseURL_hexEscape (hs : ch '%' ∉ s) (h : parseURL L false (hexEscapeNonASCII s) = some t)
    (habs : t.scheme ≠ []) (huser : t.user = false) : ∃ r q, parseURL L false s = some { t with rawPath := r, rawQuery := q } := by
  have hctl : ∀ c : UInt8, (hexEscapeByte c).any isCTL = false → isCTL c = false := by
    intro c hany
    by_cases hc : c < 128
    · rw [hexEscapeByte_ascii hc] at hany
      exact Bool.eq_false_iff.mpr (List.any_eq_false.mp hany c List.mem_cons_self)
    · refine Bool.eq_false_iff.mpr fun h => hc ?_
      rcases (Bool.or_eq_true _ _).mp h with h | h
      · exact UInt8.lt_trans (of_decide_eq_true h) (by decide)
      · rw [of_decide_eq_true h]
        decide
  obtain ⟨hnot, rfl | ⟨-, scheme, rest, hget, href⟩⟩ := parseURL_some h
  · exact absurd rfl habs
  have hscheme : toLower scheme ≠ [] := by
    rwa [(parseReference_some href).1] at habs
  rcases getScheme_scheme hget with ⟨rfl, -⟩ | ⟨heq, hall, b, name, rfl, hb⟩
  · exact absurd rfl hscheme
  -- the scheme and its colon have no escapes in them
  have hpercent : ch '%' ∉ b :: name ++ [ch ':'] := by
    intro hmem
    rcases List.mem_append.mp hmem with hmem | hmem
    · exact absurd (hall _ hmem) (by decide)
    · exact absurd (List.mem_singleton.mp hmem) (by decide)
  obtain ⟨rest, rfl, rfl⟩ := hexEscape_eq_append (y := rest) hpercent (by rw [heq, List.append_assoc]; rfl)
  have hraw : b :: name ++ [ch ':'] ++ rest = b :: name ++ ch ':' :: rest := by
    rw [List.append_assoc, List.singleton_append]
  rw [hraw] at hs hnot ⊢
  have hstar : b :: name ++ ch ':' :: rest ≠ lit "*" := by
    intro hstar
    have hcolon : ch ':' ∈ lit "*" := by
      rw [← hstar]
      exact List.mem_append_right _ List.mem_cons_self
    exact absurd hcolon (by decide)
  have hclean : (b :: name ++ ch ':' :: rest).any isCTL = false := by
    rw [hexEscapeNonASCII, List.any_flatMap, List.any_eq_false] at hnot
    refine List.any_eq_false.mpr fun c hc => ?_
    rw [hctl c (Bool.eq_false_iff.mpr (hnot c hc))]
    exact Bool.false_ne_true
  have hpath : ch '%' ∉ (cut (ch '?') rest).1 := fun hmem =>
    hs (List.mem_append_right _ (List.mem_cons_of_mem _ ((cut_subset _ _).1 hmem)))
  rw [(cut_hexEscape (by decide)).1] at href
  obtain ⟨r, hr⟩ := parseReference_hexEscape hpath hscheme href huser (cut (ch '?') rest).2.1
  exact ⟨r, _, (parseURL_eq hclean hstar (getScheme_append hb hall rest)).trans hr⟩

/-- Escaping the bytes beyond ASCII does not change what is read from a URL without percent signs. -/
theorem parse_hexEscape (hs : ch '%' ∉ s) (h : parse L (hexEscapeNonASCII s) = some t) (habs : t.scheme ≠ [])
    (huser : t.user = false) : ∃ r q, parse L s = some { t with rawPath := r, rawQuery := q } := by
  obtain ⟨hurl, hfragment⟩ := parse_some h
  rw [(cut_hexEscape (by decide)).1] at hurl
  rw [(cut_hexEscape (by decide)).2, unescape_hexEscape fun hmem => hs ((cut_subset _ _).2 hmem)] at hfragment
  obtain ⟨r, q, hr⟩ := parseURL_hexEscape (fun hmem => hs ((cut_subset _ _).1 hmem)) hurl habs huser
  exact ⟨r, q, parse_eq hr hfragment⟩

end

end OpenTams.NetUrl
