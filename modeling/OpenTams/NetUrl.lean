import OpenTams.RangeParse

/-!
# net/url

What the gateway uses of Go's `net/url`: escaping and unescaping, the parsing of
queries and of URLs. Of a parsed URL only the parts that are looked at are kept.
An IP literal in brackets is parsed by `netip` and is an argument.
-/

namespace OpenTams

def trimSuffix (c : UInt8) (s : Str) : Str := if s.getLast? = some c then s.dropLast else s

theorem cut_eq (sep : UInt8) (s : Str) :
    (cut sep s).1 = s.takeWhile (· ≠ sep) ∧ (cut sep s).2.1 = (s.dropWhile (· ≠ sep)).tail := by
  induction s with
  | nil => exact ⟨rfl, rfl⟩
  | cons c s ih =>
    rw [cut]
    split
    · rename_i hc
      simp [hc]
    · rename_i hc
      simp [hc, ih]

theorem cut_subset (sep : UInt8) (s : Str) : (cut sep s).1 ⊆ s ∧ (cut sep s).2.1 ⊆ s := by
  rw [(cut_eq sep s).1, (cut_eq sep s).2]
  exact ⟨(List.takeWhile_sublist _).subset, fun _ h => (List.dropWhile_sublist _).subset (List.mem_of_mem_tail h)⟩

/-- Nothing comes after the last separator only where the string ends with it. -/
theorem getLast?_of_splitOn {sep : UInt8} {s : Str} (h : (s.splitOn sep).getLast? = some []) :
    s = [] ∨ s.getLast? = some sep := by
  induction s with
  | nil => exact Or.inl rfl
  | cons c s ih =>
    right
    rw [List.splitOn_cons_eq_if_modifyHead] at h
    cases hp : s.splitOn sep with
    | nil => exact absurd hp (List.splitOn_ne_nil sep s)
    | cons p ps =>
      rw [hp] at h ih
      split at h
      · rename_i hc
        rcases ih h with rfl | hs
        · rw [beq_iff_eq.mp hc, List.getLast?_singleton]
        · rw [List.getLast?_cons, hs, Option.getD_some]
      · cases ps with
        | nil => simp at h
        | cons q qs =>
          rcases ih h with rfl | hs
          · cases hp
          · rw [List.getLast?_cons, hs, Option.getD_some]

theorem splitOn_induction (sep : UInt8) {P : Str → Prop} (plain : ∀ s, sep ∉ s → P s)
    (cut : ∀ a r, sep ∉ a → P r → P (a ++ sep :: r)) (s : Str) : P s := by
  induction hn : s.length using Nat.strong_induction_on generalizing s with
  | _ n ih =>
    by_cases hmem : sep ∈ s
    · obtain ⟨a, r, rfl, ha⟩ := List.eq_append_cons_of_mem hmem
      refine cut a r ha (ih r.length ?_ r rfl)
      rw [← hn, List.length_append, List.length_cons]
      omega
    · exact plain s hmem

theorem not_mem_of_mem_splitOn {sep : UInt8} {s x : Str} (hx : x ∈ s.splitOn sep) : sep ∉ x := by
  refine splitOn_induction sep (P := fun s => x ∈ s.splitOn sep → sep ∉ x) (fun s hs hx => ?_) (fun a r ha ih hx => ?_)
    s hx
  · rw [List.splitOn_eq_singleton hs] at hx
    rwa [List.mem_singleton.mp hx]
  · rw [List.splitOn_append_cons_self, List.splitOn_eq_singleton ha, List.singleton_append] at hx
    rcases List.mem_cons.mp hx with rfl | hx
    · exact ha
    · exact ih hx

namespace NetUrl

/-! ## Escaping -/

inductive Encoding where
  | path
  | queryComponent
  | host
  | userPassword
  | fragment
  deriving DecidableEq

def unhex (c : UInt8) : Option Nat :=
  if isDigit c then some (c.toNat - 48)
  else if ch 'a' ≤ c && c ≤ ch 'f' then some (c.toNat - 87)
  else if ch 'A' ≤ c && c ≤ ch 'F' then some (c.toNat - 55)
  else none

def isLetter (c : UInt8) : Bool := ch 'a' ≤ c && c ≤ ch 'z' || ch 'A' ≤ c && c ≤ ch 'Z'

def isUnreserved (c : UInt8) : Bool := isLetter c || isDigit c || c ∈ lit "-_.~"

def isHostByte (c : UInt8) : Bool := 128 ≤ c || isUnreserved c || c ∈ lit "!$&'()*+,;=:[]<>\""

/-- The byte of an escape; in a host only bytes beyond ASCII and the percent sign may be escaped. -/
def escapedByte (mode : Encoding) (h l : UInt8) : Option UInt8 :=
  match unhex h, unhex l with
  | some a, some b =>
    if mode = .host && a < 8 && ¬ (h = ch '2' ∧ l = ch '5') then none else some (UInt8.ofNat (a * 16 + b))
  | _, _ => none

def plainByte (mode : Encoding) (c : UInt8) : Option UInt8 :=
  if mode = .queryComponent && c = ch '+' then some (ch ' ')
  else if mode = .host && ¬ isHostByte c then none
  else some c

def unescape (mode : Encoding) : Str → Option Str
  | [] => some []
  | c :: s =>
    if c = ch '%' then
      match s with
      | h :: l :: rest => do
        let b ← escapedByte mode h l
        let out ← unescape mode rest
        some (b :: out)
      | _ => none
    else do
      let b ← plainByte mode c
      let out ← unescape mode s
      some (b :: out)

def queryUnescape (s : Str) : Option Str := unescape .queryComponent s

def upperHex (n : Nat) : UInt8 := UInt8.ofNat (if n < 10 then 48 + n else 55 + n)

def queryEscapeByte (c : UInt8) : Str :=
  if isUnreserved c then [c]
  else if c = ch ' ' then [ch '+']
  else [ch '%', upperHex (c.toNat / 16), upperHex (c.toNat % 16)]

def queryEscape (s : Str) : Str := s.flatMap queryEscapeByte

/-! ## Queries -/

/-- One part of a query; a part that is not well-formed is passed over. -/
def queryPart (part : Str) : Option (Str × Str) :=
  if ch ';' ∈ part ∨ part = [] then none
  else do
    let key ← queryUnescape (cut (ch '=') part).1
    let value ← queryUnescape (cut (ch '=') part).2.1
    some (key, value)

def parseQuery (query : Str) : List (Str × Str) := (query.splitOn (ch '&')).filterMap queryPart

def get (values : List (Str × Str)) (key : Str) : Str := ((values.find? (·.1 = key)).map (·.2)).getD []

/-! ## URLs -/

/-- `rawPath` is the path before it was unescaped, `user` whether there is userinfo. -/
structure Url where
  scheme : Str
  user : Bool := false
  host : Str := []
  path : Str := []
  rawPath : Str := []
  rawQuery : Str
  deriving DecidableEq

def Url.isAbs (u : Url) : Bool := u.scheme ≠ []

def isSchemeByte (c : UInt8) : Bool := isLetter c || isDigit c || c ∈ lit "+-."

/-- The scheme and the rest; `none` is a colon at the start. -/
def getScheme (raw : Str) : Option (Str × Str) :=
  match raw.dropWhile isSchemeByte with
  | c :: rest =>
    if c = ch ':' then
      match raw.takeWhile isSchemeByte with
      | [] => none
      | b :: s => if isLetter b then some (b :: s, rest) else some ([], raw)
    else some ([], raw)
  | [] => some ([], raw)

def lowerByte (c : UInt8) : UInt8 := if ch 'A' ≤ c && c ≤ ch 'Z' then c + 32 else c

def toLower (s : Str) : Str := s.map lowerByte

def isCTL (c : UInt8) : Bool := c < 32 || c = 127

def validOptionalPort : Str → Bool
  | [] => true
  | c :: s => c = ch ':' && s.all isDigit

def validUserinfo (s : Str) : Bool := s.all fun c => isLetter c || isDigit c || c ∈ lit "-._:~!$&'()*+,;=%@"

/-- The parser of hosts with brackets: it is an IPv6 literal, and where there is no zone, without a percent sign. -/
structure HostLiterals where
  parse : Str → Option Str
  plain : ∀ host parsed, parse host = some parsed → ¬ lit "%25" <:+: host → ch '%' ∉ host

section
variable (L : HostLiterals)

/-- A host has one colon at most, the one before its port. -/
def parseHost (host : Str) : Option Str :=
  if ch '[' ∈ host then L.parse host
  else if validOptionalPort (host.dropWhile (· ≠ ch ':')) then unescape .host host
  else none

def parseAuthority (authority : Str) : Option (Bool × Str) :=
  if ch '@' ∈ authority then
    let userinfo := (authority.reverse.dropWhile (· ≠ ch '@')).tail.reverse
    match parseHost L (authority.reverse.takeWhile (· ≠ ch '@')).reverse with
    | none => none
    | some host =>
      if validUserinfo userinfo && (unescape .userPassword (cut (ch ':') userinfo).1).isSome &&
          (unescape .userPassword (cut (ch ':') userinfo).2.1).isSome then some (true, host)
      else none
  else (parseHost L authority).map (false, ·)

def setPath (scheme : Str) (user : Bool) (host rest rawQuery : Str) : Option Url :=
  (unescape .path rest).map fun path => { scheme, user, host, path, rawPath := rest, rawQuery }

def parseHierarchy (viaRequest : Bool) (scheme rest rawQuery : Str) : Option Url :=
  if (scheme ≠ [] || !viaRequest && !(lit "///").isPrefixOf rest) && (lit "//").isPrefixOf rest then
    match parseAuthority L ((rest.drop 2).takeWhile (· ≠ ch '/')) with
    | none => none
    | some (user, host) => setPath scheme user host ((rest.drop 2).dropWhile (· ≠ ch '/')) rawQuery
  else setPath scheme false [] rest rawQuery

def parseReference (viaRequest : Bool) (scheme rest rawQuery : Str) : Option Url :=
  if rest.head? = some (ch '/') then parseHierarchy L viaRequest scheme rest rawQuery
  else if scheme ≠ [] then some { scheme, rawQuery }
  else if viaRequest then none
  else if ch ':' ∈ (cut (ch '/') rest).1 then none
  else parseHierarchy L viaRequest scheme rest rawQuery

/-- `parse` of the source; the fragment is gone. -/
def parseURL (viaRequest : Bool) (raw : Str) : Option Url :=
  if raw.any isCTL then none
  else if raw = [] ∧ viaRequest then none
  else if raw = lit "*" then some { scheme := [], path := raw, rawPath := raw, rawQuery := [] }
  else match getScheme raw with
    | none => none
    | some (scheme, rest) =>
      parseReference L viaRequest (toLower scheme) (cut (ch '?') rest).1 (cut (ch '?') rest).2.1

def parse (raw : Str) : Option Url := do
  let url ← parseURL L false (cut (ch '#') raw).1
  let _ ← unescape .fragment (cut (ch '#') raw).2.1
  some url

def parseRequestURI (raw : Str) : Option Url := parseURL L true raw

end

/-! ## Escaping and unescaping -/

theorem forall_mem_of_all {P : UInt8 → Prop} [DecidablePred P] {l : Str} (h : l.all (P ·) = true) : ∀ c ∈ l, P c :=
  fun c hc => of_decide_eq_true (List.all_eq_true.mp h c hc)

theorem forall_byte {P : UInt8 → Prop} (h : ∀ i : Fin 256, P (UInt8.ofFin i)) (c : UInt8) : P c := h c.toFin

section
variable {mode : Encoding} {c h l : UInt8} {s : Str}

@[simp] theorem unescape_nil : unescape mode [] = some [] := rfl

theorem unescape_escape : unescape mode (ch '%' :: h :: l :: s) =
    (escapedByte mode h l).bind fun b => (unescape mode s).map (b :: ·) := by
  rw [unescape, if_pos rfl]
  simp only [Option.bind_eq_bind, Option.map_eq_bind]
  rfl

theorem unescape_plain (hc : c ≠ ch '%') : unescape mode (c :: s) =
    (plainByte mode c).bind fun b => (unescape mode s).map (b :: ·) := by
  conv => lhs; unfold unescape
  rw [if_neg hc]
  simp only [Option.bind_eq_bind, Option.map_eq_bind]
  rfl

/-- Induction along an unescaping that succeeds. -/
theorem unescape_induction {P : Str → Str → Prop} (nil : P [] [])
    (escape : ∀ {h l b s w}, escapedByte mode h l = some b → unescape mode s = some w → P s w →
      P (ch '%' :: h :: l :: s) (b :: w))
    (plain : ∀ {c b s w}, c ≠ ch '%' → plainByte mode c = some b → unescape mode s = some w → P s w →
      P (c :: s) (b :: w)) :
    ∀ {s w : Str}, unescape mode s = some w → P s w
  | [], w, h => by
    cases h
    exact nil
  | c :: s, w, h => by
    by_cases hc : c = ch '%'
    · subst hc
      match s with
      | [] => cases h
      | [_] => cases h
      | h' :: l :: s =>
        rw [unescape_escape] at h
        obtain ⟨b, hb, h⟩ := Option.bind_eq_some_iff.mp h
        obtain ⟨w, hw, rfl⟩ := Option.map_eq_some_iff.mp h
        exact escape hb hw (unescape_induction nil escape plain hw)
    · rw [unescape_plain hc] at h
      obtain ⟨b, hb, h⟩ := Option.bind_eq_some_iff.mp h
      obtain ⟨w, hw, rfl⟩ := Option.map_eq_some_iff.mp h
      exact plain hc hb hw (unescape_induction nil escape plain hw)

theorem unescape_of_plain (hs : ch '%' ∉ s) (hb : ∀ c ∈ s, plainByte mode c = some c) : unescape mode s = some s := by
  induction s with
  | nil => rfl
  | cons c s ih =>
    rw [List.mem_cons, not_or] at hs
    rw [List.forall_mem_cons] at hb
    rw [unescape_plain (Ne.symm hs.1), hb.1, ih hs.2 hb.2]
    rfl

theorem unescape_eq_nil (h : unescape mode s = some []) : s = [] := by
  have hnil : ([] : Str) = [] → s = [] :=
    unescape_induction (P := fun s w => w = [] → s = []) (fun _ => rfl) (fun _ _ _ => nofun) (fun _ _ _ _ => nofun) h
  exact hnil rfl

/-- No escape goes across a slash. -/
theorem unescape_slash {r : Str} : ∀ {a p : Str}, unescape .path (a ++ ch '/' :: r) = some p →
    ∃ a' r', unescape .path a = some a' ∧ unescape .path r = some r' ∧ p = a' ++ ch '/' :: r'
  | [], p, hp => by
    rw [List.nil_append, unescape_plain (by decide)] at hp
    obtain ⟨r', hr, rfl⟩ := Option.map_eq_some_iff.mp hp
    exact ⟨[], r', rfl, hr, rfl⟩
  | c :: a, p, hp => by
    by_cases hc : c = ch '%'
    · subst hc
      match a with
      | [] => cases r with
        | nil => cases hp
        | cons l r =>
          rw [List.cons_append, List.nil_append, unescape_escape] at hp
          cases hp
      | [h] =>
        have hnone : escapedByte .path h (ch '/') = none := by
          unfold escapedByte
          cases unhex h <;> rfl
        rw [List.cons_append, List.singleton_append, unescape_escape, hnone] at hp
        cases hp
      | h :: l :: a =>
        rw [List.cons_append, List.cons_append, List.cons_append, unescape_escape] at hp
        obtain ⟨b, hb, hp⟩ := Option.bind_eq_some_iff.mp hp
        obtain ⟨q, hq, rfl⟩ := Option.map_eq_some_iff.mp hp
        obtain ⟨a', r', ha, hr, rfl⟩ := unescape_slash hq
        exact ⟨b :: a', r', by rw [unescape_escape, hb, ha]; rfl, hr, rfl⟩
    · rw [List.cons_append, unescape_plain hc] at hp
      obtain ⟨b, hb, hp⟩ := Option.bind_eq_some_iff.mp hp
      obtain ⟨q, hq, rfl⟩ := Option.map_eq_some_iff.mp hp
      obtain ⟨a', r', ha, hr, rfl⟩ := unescape_slash hq
      exact ⟨b :: a', r', by rw [unescape_plain hc, hb, ha]; rfl, hr, rfl⟩

theorem isUnreserved_plain (h : isUnreserved c = true) :
    plainByte .queryComponent c = some c ∧ c ≠ ch '%' ∧ c ≠ ch '&' ∧ c ≠ ch ';' ∧ c ≠ ch '=' := by
  have hne : ∀ x : UInt8, isUnreserved x = false → c ≠ x := by
    rintro x hx rfl
    rw [h] at hx
    cases hx
  refine ⟨?_, hne _ (by decide), hne _ (by decide), hne _ (by decide), hne _ (by decide)⟩
  have hplus : c ≠ ch '+' := hne _ (by decide)
  simp [plainByte, hplus]

/-- The digits of a byte are read back. -/
theorem escapedByte_digits (hh : unhex h = some (c.toNat / 16)) (hl : unhex l = some (c.toNat % 16))
    (hmode : mode ≠ .host ∨ 128 ≤ c) : escapedByte mode h l = some c := by
  have hnot : ¬ (decide (mode = .host) && decide (c.toNat / 16 < 8) && decide (¬ (h = ch '2' ∧ l = ch '5'))) = true := by
    simp only [Bool.and_eq_true, decide_eq_true_eq]
    rintro ⟨⟨hhost, hlow⟩, -⟩
    have hhigh := hmode.resolve_left (not_not_intro hhost)
    have : 128 ≤ c.toNat := hhigh
    omega
  have hbyte : c.toNat / 16 * 16 + c.toNat % 16 = c.toNat := by omega
  rw [escapedByte, hh, hl]
  dsimp only
  rw [if_neg hnot, hbyte, UInt8.ofNat_toNat]

theorem upperHex_spec {n : ℕ} (hn : n < 16) : unhex (upperHex n) = some n ∧ isUnreserved (upperHex n) = true := by
  have hall : ∀ n < 16, unhex (upperHex n) = some n ∧ isUnreserved (upperHex n) = true := by decide +kernel
  exact hall n hn

theorem nibbles_lt (c : UInt8) : c.toNat / 16 < 16 ∧ c.toNat % 16 < 16 := by
  have := c.toNat_lt
  omega

theorem queryUnescape_escapeByte (c : UInt8) (s : Str) :
    queryUnescape (queryEscapeByte c ++ s) = (queryUnescape s).map (c :: ·) := by
  have hescaped : escapedByte .queryComponent (upperHex (c.toNat / 16)) (upperHex (c.toNat % 16)) = some c :=
    escapedByte_digits (upperHex_spec (nibbles_lt c).1).1 (upperHex_spec (nibbles_lt c).2).1 (Or.inl nofun)
  unfold queryUnescape queryEscapeByte
  split
  · rename_i hc
    rw [List.singleton_append, unescape_plain (isUnreserved_plain hc).2.1, (isUnreserved_plain hc).1]
    rfl
  split
  · rename_i hc
    rw [hc, List.singleton_append, unescape_plain (by decide)]
    rfl
  · rw [List.cons_append, List.cons_append, List.singleton_append, unescape_escape, hescaped]
    rfl

/-- What is escaped is read back. -/
theorem queryUnescape_queryEscape (s : Str) : queryUnescape (queryEscape s) = some s := by
  induction s with
  | nil => rfl
  | cons c s ih => rw [queryEscape, List.flatMap_cons, queryUnescape_escapeByte, ← queryEscape, ih, Option.map_some]

/-- The bytes that a query component is written with. -/
theorem mem_queryEscape {s : Str} {b : UInt8} (h : b ∈ queryEscape s) :
    isUnreserved b = true ∨ b = ch '+' ∨ b = ch '%' := by
  obtain ⟨c, -, hb⟩ := List.mem_flatMap.mp h
  unfold queryEscapeByte at hb
  split at hb
  · rename_i hc
    rw [List.mem_singleton.mp hb]
    exact Or.inl hc
  split at hb
  · exact Or.inr (Or.inl (List.mem_singleton.mp hb))
  · rcases List.mem_cons.mp hb with rfl | hb
    · exact Or.inr (Or.inr rfl)
    · rcases List.mem_pair.mp hb with rfl | rfl
      · exact Or.inl (upperHex_spec (nibbles_lt c).1).2
      · exact Or.inl (upperHex_spec (nibbles_lt c).2).2

end

/-- A query with one component. -/
theorem parseQuery_component {key value : Str} (hplain : ∀ c ∈ key, isUnreserved c = true) :
    parseQuery (key ++ ch '=' :: queryEscape value) = [(key, value)] := by
  have hbytes : ∀ c ∈ key ++ ch '=' :: queryEscape value, c ≠ ch '&' ∧ c ≠ ch ';' := by
    intro c hc
    have hun : isUnreserved c = true → c ≠ ch '&' ∧ c ≠ ch ';' := fun h =>
      ⟨(isUnreserved_plain h).2.2.1, (isUnreserved_plain h).2.2.2.1⟩
    rcases List.mem_append.mp hc with hc | hc
    · exact hun (hplain c hc)
    · rcases List.mem_cons.mp hc with rfl | hc
      · decide
      · rcases mem_queryEscape hc with hc | rfl | rfl
        · exact hun hc
        · decide
        · decide
  have hkey : queryUnescape key = some key :=
    unescape_of_plain (fun h => (isUnreserved_plain (hplain _ h)).2.1 rfl) fun c hc =>
      (isUnreserved_plain (hplain c hc)).1
  rw [parseQuery, List.splitOn_eq_singleton fun h => (hbytes _ h).1 rfl]
  have hpart : queryPart (key ++ ch '=' :: queryEscape value) = some (key, value) := by
    rw [queryPart, if_neg, cut_append fun h => (isUnreserved_plain (hplain _ h)).2.2.2.2 rfl]
    · dsimp only
      rw [hkey, queryUnescape_queryEscape]
      rfl
    · rintro (h | h)
      · exact (hbytes _ h).2 rfl
      · simp at h
  rw [List.filterMap_cons_some hpart, List.filterMap_nil]

/-! ## Parsed URLs -/

section
variable {L : HostLiterals} {viaRequest : Bool} {scheme rest rawQuery raw host : Str} {user : Bool} {url : Url}

theorem getScheme_scheme (h : getScheme raw = some (scheme, rest)) :
    scheme = [] ∧ rest = raw ∨ raw = scheme ++ ch ':' :: rest ∧ (∀ c ∈ scheme, isSchemeByte c = true) ∧
      ∃ b s, scheme = b :: s ∧ isLetter b = true := by
  have hraw : raw.takeWhile isSchemeByte ++ raw.dropWhile isSchemeByte = raw := List.takeWhile_append_dropWhile
  have hall : ∀ c ∈ raw.takeWhile isSchemeByte, isSchemeByte c = true := List.all_eq_true.mp List.all_takeWhile
  unfold getScheme at h
  cases hd : raw.dropWhile isSchemeByte with
  | nil =>
    rw [hd] at h
    cases h
    exact Or.inl ⟨rfl, rfl⟩
  | cons c r =>
    rw [hd] at h hraw
    dsimp only at h
    split at h
    · rename_i hc
      cases ht : raw.takeWhile isSchemeByte with
      | nil =>
        rw [ht] at h
        cases h
      | cons b s =>
        rw [ht] at h hraw hall
        dsimp only at h
        split at h
        · rename_i hb
          cases h
          exact Or.inr ⟨by rw [← hraw, hc], hall, b, s, rfl, hb⟩
        · cases h
          exact Or.inl ⟨rfl, rfl⟩
    · cases h
      exact Or.inl ⟨rfl, rfl⟩

theorem getScheme_append {b : UInt8} (hb : isLetter b = true) (h : ∀ c ∈ b :: scheme, isSchemeByte c = true)
    (rest : Str) :
    getScheme (b :: scheme ++ ch ':' :: rest) = some (b :: scheme, rest) := by
  unfold getScheme
  rw [List.dropWhile_append_of_pos h, List.takeWhile_append_of_pos h, List.dropWhile_cons_of_neg (by decide),
    List.takeWhile_cons_of_neg (by decide), List.append_nil]
  dsimp only
  rw [if_pos rfl, if_pos hb]

theorem setPath_some (h : setPath scheme user host rest rawQuery = some url) :
    url.scheme = scheme ∧ unescape .path url.rawPath = some url.path := by
  obtain ⟨path, hpath, rfl⟩ := Option.map_eq_some_iff.mp h
  exact ⟨rfl, hpath⟩

theorem parseHierarchy_some (h : parseHierarchy L viaRequest scheme rest rawQuery = some url) :
    url.scheme = scheme ∧ unescape .path url.rawPath = some url.path := by
  unfold parseHierarchy at h
  split at h
  · split at h
    · cases h
    · exact setPath_some h
  · exact setPath_some h

theorem parseHierarchy_authority (hscheme : scheme ≠ []) :
    parseHierarchy L viaRequest scheme (lit "//" ++ rest) rawQuery =
      (parseAuthority L (rest.takeWhile (· ≠ ch '/'))).bind fun a =>
        setPath scheme a.1 a.2 (rest.dropWhile (· ≠ ch '/')) rawQuery := by
  have hdrop : (lit "//" ++ rest).drop 2 = rest := rfl
  rw [parseHierarchy, if_pos (by simp [hscheme]), hdrop]
  cases parseAuthority L (rest.takeWhile (· ≠ ch '/')) <;> rfl

theorem parseHierarchy_path (h : ¬ lit "//" <+: rest) :
    parseHierarchy L viaRequest scheme rest rawQuery = setPath scheme false [] rest rawQuery := by
  rw [parseHierarchy, if_neg]
  rw [Bool.and_eq_true, List.isPrefixOf_iff_prefix]
  exact fun hcond => h hcond.2

theorem parseReference_some (h : parseReference L viaRequest scheme rest rawQuery = some url) :
    url.scheme = scheme ∧ unescape .path url.rawPath = some url.path := by
  unfold parseReference at h
  split at h
  · exact parseHierarchy_some h
  split at h
  · cases h
    exact ⟨rfl, rfl⟩
  split at h
  · cases h
  split at h
  · cases h
  · exact parseHierarchy_some h

theorem setPath_rawPath (h : setPath scheme user host rest rawQuery = some url) : url.rawPath = rest := by
  obtain ⟨path, -, rfl⟩ := Option.map_eq_some_iff.mp h
  rfl

theorem parseReference_rooted (h : parseReference L viaRequest scheme rest rawQuery = some url) (hs : scheme ≠ []) :
    url.rawPath = [] ∨ ∃ r, url.rawPath = ch '/' :: r := by
  unfold parseReference at h
  split at h
  · rename_i hhead
    unfold parseHierarchy at h
    split at h
    · split at h
      · cases h
      rw [setPath_rawPath h]
      cases hd : (rest.drop 2).dropWhile (· ≠ ch '/') with
      | nil => exact Or.inl rfl
      | cons c r =>
        have hc := List.head?_dropWhile_not (fun c => decide (c ≠ ch '/')) (rest.drop 2)
        rw [hd] at hc
        exact Or.inr ⟨r, by rw [not_not.mp (of_decide_eq_false hc)]⟩
    · rw [setPath_rawPath h]
      exact Or.inr (List.head?_eq_some_iff.mp hhead)
  · cases h
    exact Or.inl rfl

theorem parseURL_some (h : parseURL L viaRequest raw = some url) : raw.any isCTL = false ∧
    (url = { scheme := [], path := lit "*", rawPath := lit "*", rawQuery := [] } ∨ raw ≠ lit "*" ∧ ∃ scheme rest,
      getScheme raw = some (scheme, rest) ∧ parseReference L viaRequest (toLower scheme) (cut (ch '?') rest).1
        (cut (ch '?') rest).2.1 = some url) := by
  unfold parseURL at h
  split at h
  · cases h
  rename_i hctl
  refine ⟨Bool.eq_false_iff.mpr hctl, ?_⟩
  split at h
  · cases h
  split at h
  · rename_i hstar
    cases h
    exact Or.inl (by rw [hstar])
  · rename_i hstar
    split at h
    · cases h
    · exact Or.inr ⟨hstar, _, _, by assumption, h⟩

theorem parseURL_eq (hctl : raw.any isCTL = false) (hstar : raw ≠ lit "*")
    (hget : getScheme raw = some (scheme, rest)) :
    parseURL L false raw =
      parseReference L false (toLower scheme) (cut (ch '?') rest).1 (cut (ch '?') rest).2.1 := by
  rw [parseURL, hctl, if_neg Bool.false_ne_true, if_neg fun h => Bool.false_ne_true h.2, if_neg hstar, hget]

theorem parse_some (h : parse L raw = some url) : parseURL L false (cut (ch '#') raw).1 = some url ∧
    (unescape .fragment (cut (ch '#') raw).2.1).isSome = true := by
  unfold parse at h
  cases hu : parseURL L false (cut (ch '#') raw).1 with
  | none =>
    rw [hu] at h
    cases h
  | some url' => cases hf : unescape .fragment (cut (ch '#') raw).2.1 with
    | none =>
      rw [hu, hf] at h
      cases h
    | some _ =>
      rw [hu, hf] at h
      cases h
      exact ⟨rfl, rfl⟩

theorem parse_eq (h : parseURL L false (cut (ch '#') raw).1 = some url)
    (hf : (unescape .fragment (cut (ch '#') raw).2.1).isSome = true) : parse L raw = some url := by
  obtain ⟨f, hf⟩ := Option.isSome_iff_exists.mp hf
  rw [parse, h, hf]
  rfl

theorem parse_path (h : parse L raw = some url) : unescape .path url.rawPath = some url.path := by
  rcases (parseURL_some (parse_some h).1).2 with rfl | ⟨-, scheme, rest, -, href⟩
  · decide
  · exact (parseReference_some href).2

theorem parse_rooted (h : parse L raw = some url) (hs : url.scheme ≠ []) :
    url.rawPath = [] ∨ ∃ r, url.rawPath = ch '/' :: r := by
  rcases (parseURL_some (parse_some h).1).2 with rfl | ⟨-, scheme, rest, -, href⟩
  · exact absurd rfl hs
  · rw [(parseReference_some href).1] at hs
    exact parseReference_rooted href hs

/-- The scheme of a parsed URL is in lower case. -/
theorem parse_scheme (h : parse L raw = some url) : ∀ c ∈ url.scheme, c < 128 ∧ lowerByte c = c := by
  have hlower : ∀ c : UInt8, isSchemeByte c = true → lowerByte c < 128 ∧ lowerByte (lowerByte c) = lowerByte c :=
    forall_byte (by decide +kernel)
  rcases (parseURL_some (parse_some h).1).2 with rfl | ⟨-, scheme, rest, hget, href⟩
  · nofun
  · rw [(parseReference_some href).1]
    intro c hc
    obtain ⟨a, ha, rfl⟩ := List.mem_map.mp hc
    rcases getScheme_scheme hget with ⟨rfl, -⟩ | ⟨-, hall, -⟩
    · cases ha
    · exact hlower a (hall a ha)

/-- The target of a request: a path without escapes, and a query. -/
theorem parseRequestURI_path {path query : Str} (hclean : ∀ c ∈ path ++ ch '?' :: query, isCTL c = false)
    (hslash : path.head? = some (ch '/')) (hpercent : ch '%' ∉ path) (hquery : ch '?' ∉ path) :
    parseRequestURI L (path ++ ch '?' :: query) =
      some { scheme := [], path, rawPath := path, rawQuery := query } := by
  have hctl : (path ++ ch '?' :: query).any isCTL = false :=
    List.any_eq_false.mpr fun c hc => by rw [hclean c hc]; exact Bool.false_ne_true
  obtain ⟨r, rfl⟩ := List.head?_eq_some_iff.mp hslash
  have hget : getScheme (ch '/' :: r ++ ch '?' :: query) = some ([], ch '/' :: r ++ ch '?' :: query) := rfl
  have hne : ch '/' :: r ++ ch '?' :: query ≠ lit "*" := fun h => absurd (List.cons_eq_cons.mp h).1 (by decide)
  have hpath : unescape .path (ch '/' :: r) = some (ch '/' :: r) := unescape_of_plain hpercent fun _ _ => rfl
  rw [parseRequestURI, parseURL, hctl, if_neg Bool.false_ne_true, if_neg fun h => List.cons_ne_nil _ _ h.1, if_neg hne,
    hget]
  dsimp only
  rw [cut_append hquery]
  show parseReference L true [] (ch '/' :: r) query = _
  rw [parseReference, if_pos hslash, parseHierarchy, if_neg (by simp), setPath, hpath]
  rfl

end

end NetUrl

end OpenTams
