import OpenTams.Base64
import OpenTams.RangeString
import OpenTams.Store
import OpenTams.TextFormat

/-!
# Page cursors

`internal/metastore/store.go`: a cursor is a JSON object in base64. The text is
the one `encoding/json` writes: numbers in decimal, a UUID as text, a time in
RFC 3339 (the process runs in UTC; a `Time` counts microseconds from 1970). Of
`json.Unmarshal` only what it does with these texts and with the empty one
matters; it is a parameter of the listings.
-/

namespace OpenTams

open Sql TextFormat

/-! ## JSON -/

def uuidText (u : Uuid) : Str :=
  fixed 16 8 (u.toNat / 2 ^ 96) ++ ch '-' :: (fixed 16 4 (u.toNat / 2 ^ 80 % 2 ^ 16) ++ ch '-' ::
    (fixed 16 4 (u.toNat / 2 ^ 64 % 2 ^ 16) ++ ch '-' :: (fixed 16 4 (u.toNat / 2 ^ 48 % 2 ^ 16) ++ ch '-' ::
      fixed 16 12 (u.toNat % 2 ^ 48))))

def marshalSegCursor (lowerNs segId : Int64) : Str :=
  lit "\x7b\"lower_ns\":" ++ (intStr lowerNs.toInt ++
    ch ',' :: (lit "\"seg_id\":" ++ (intStr segId.toInt ++ lit "\x7d")))

/-- `time.Time` marshals only a year of four digits. -/
def marshalCursor (ts : Time) (id : Uuid) : Option Str :=
  (rfc3339 ts).map fun text =>
    lit "\x7b\"ts\":\"" ++ (text ++ ch '"' :: (lit ",\"id\":\"" ++ (uuidText id ++ ch '"' :: lit "\x7d")))

/-- `json.Unmarshal` into the two structs of cursors. -/
structure JsonReader where
  segCursor : Str → Option (Int64 × Int64)
  cursor : Str → Option (Time × Uuid)
  segCursor_marshal : ∀ lowerNs segId, segCursor (marshalSegCursor lowerNs segId) = some (lowerNs, segId)
  cursor_marshal : ∀ ts id text, marshalCursor ts id = some text → cursor text = some (ts, id)
  cursor_nil : cursor [] = none

/-! ## Cursors -/

def encodeSegCursor (lowerNs segId : Int64) : Str := Base64.encode (marshalSegCursor lowerNs segId)

def decodeSegCursor (R : JsonReader) (s : Str) : Option (Int64 × Int64) := (Base64.decode s).bind R.segCursor

/-- A marshalling error is dropped and leaves the empty string. -/
def encodeCursor (ts : Time) (id : Uuid) : Str := Base64.encode ((marshalCursor ts id).getD [])

def decodeCursor (R : JsonReader) (s : Str) : Option (Time × Uuid) := (Base64.decode s).bind R.cursor

theorem decode_encodeSegCursor (R : JsonReader) (lowerNs segId : Int64) :
    decodeSegCursor R (encodeSegCursor lowerNs segId) = some (lowerNs, segId) := by
  rw [decodeSegCursor, encodeSegCursor, Base64.decode_encode, Option.bind_some, R.segCursor_marshal]

theorem encodeSegCursor_ne_nil (lowerNs segId : Int64) : encodeSegCursor lowerNs segId ≠ [] :=
  Base64.encode_ne_nil (by simp [marshalSegCursor, lit])

def Marshals (ts : Time) : Prop := (rfc3339 ts).isSome

instance (ts : Time) : Decidable (Marshals ts) := inferInstanceAs (Decidable ((rfc3339 ts).isSome = true))

/-- A cursor reads back exactly where its time has a text. -/
theorem decode_encodeCursor (R : JsonReader) (ts : Time) (id : Uuid) :
    decodeCursor R (encodeCursor ts id) = if Marshals ts then some (ts, id) else none := by
  rw [decodeCursor, encodeCursor, Base64.decode_encode, Option.bind_some]
  cases h : rfc3339 ts with
  | none =>
    rw [if_neg (by simp [Marshals, h]), marshalCursor, h]
    exact R.cursor_nil
  | some text =>
    obtain ⟨json, hm⟩ : ∃ json, marshalCursor ts id = some json := ⟨_, by rw [marshalCursor, h]; rfl⟩
    rw [if_pos (by simp [Marshals, h]), hm]
    exact R.cursor_marshal ts id _ hm

/-! ## A reader -/

def expect (p s : Str) : Option Str := if s.take p.length = p then some (s.drop p.length) else none

theorem expect_append (p s : Str) : expect p (p ++ s) = some s := by
  simp [expect]

def readDigits (s : Str) : Option ℕ := if s ≠ [] ∧ s.all isDigit = true then some (decVal s) else none

def readInt64 : Str → Option Int64
  | [] => none
  | b :: s => if b = ch '-' then (readDigits s).map fun n : ℕ => Int64.ofInt (-(n : ℤ))
    else (readDigits (b :: s)).map fun n : ℕ => Int64.ofInt n

theorem readDigits_decStr (n : ℕ) : readDigits (decStr n) = some n := by
  rw [readDigits, if_pos ⟨decStr_ne_nil n, decStr_digits n⟩, decVal_decStr]

theorem not_mem_decStr {c : UInt8} (hc : isDigit c = false) (n : ℕ) : c ∉ decStr n := by
  intro h
  have := List.all_eq_true.mp (decStr_digits n) c h
  rw [hc] at this
  cases this

theorem not_mem_intStr {c : UInt8} (hc : isDigit c = false) (hm : c ≠ ch '-') (i : ℤ) : c ∉ intStr i := by
  unfold intStr
  split
  · rw [List.mem_cons, not_or]
    exact ⟨hm, not_mem_decStr hc _⟩
  · exact not_mem_decStr hc _

theorem readInt64_intStr (x : Int64) : readInt64 (intStr x.toInt) = some x := by
  unfold intStr
  split
  · rename_i hneg
    rw [readInt64, if_pos rfl, readDigits_decStr, Option.map_some]
    rw [show -((-x.toInt).toNat : ℤ) = x.toInt by omega, Int64.ofInt_toInt]
  · rename_i hneg
    have hread := readDigits_decStr x.toInt.toNat
    have hdash := not_mem_decStr (c := ch '-') (by decide) x.toInt.toNat
    generalize decStr x.toInt.toNat = s at hread hdash
    cases s with
    | nil => cases hread
    | cons b s =>
      rw [readInt64, if_neg (fun he : b = ch '-' => hdash (he ▸ List.mem_cons_self)), hread, Option.map_some]
      rw [show (x.toInt.toNat : ℤ) = x.toInt by omega, Int64.ofInt_toInt]

def readUuid (s : Str) : Option Uuid := do
  let (a, s) ← upTo (ch '-') s
  let (b, s) ← upTo (ch '-') s
  let (c, s) ← upTo (ch '-') s
  let (d, e) ← upTo (ch '-') s
  some (BitVec.ofNat 128 (((((← readFixed 16 a) * 2 ^ 16 + (← readFixed 16 b)) * 2 ^ 16 + (← readFixed 16 c)) * 2 ^ 16 +
    (← readFixed 16 d)) * 2 ^ 48 + (← readFixed 16 e)))

theorem readUuid_uuidText (u : Uuid) : readUuid (uuidText u) = some u := by
  have hlt := u.isLt
  have hdash : ∀ k n rest, upTo (ch '-') (fixed 16 k n ++ ch '-' :: rest) = some (fixed 16 k n, rest) :=
    fun k n rest => upTo_append (not_mem_fixed (by decide) (by decide)) rest
  have hread : ∀ {k n : ℕ}, n < 16 ^ k → readFixed 16 (fixed 16 k n) = some n := readFixed_fixed (by decide) (by decide)
  simp only [readUuid, uuidText, hdash, Option.bind_eq_bind, Option.bind_some]
  rw [hread (by omega), hread (by omega), hread (by omega), hread (by omega), hread (by omega)]
  simp only [Option.bind_some, Option.some.injEq]
  rw [show ((((u.toNat / 2 ^ 96 * 2 ^ 16 + u.toNat / 2 ^ 80 % 2 ^ 16) * 2 ^ 16 + u.toNat / 2 ^ 64 % 2 ^ 16) * 2 ^ 16 +
    u.toNat / 2 ^ 48 % 2 ^ 16) * 2 ^ 48 + u.toNat % 2 ^ 48) = u.toNat by omega]
  exact BitVec.ofNat_toNat 128 u

theorem quote_not_mem_uuidText (u : Uuid) : ch '"' ∉ uuidText u := by
  have hno : ∀ k n, ch '"' ∉ fixed 16 k n := fun k n => not_mem_fixed (by decide) (by decide)
  have hdash : ch '"' ≠ ch '-' := by decide
  simp only [uuidText, List.mem_append, List.mem_cons, hno, hdash, or_false, not_false_eq_true]

def readSegCursor (s : Str) : Option (Int64 × Int64) := do
  let s ← expect (lit "\x7b\"lower_ns\":") s
  let (lowerNs, s) ← upTo (ch ',') s
  let s ← expect (lit "\"seg_id\":") s
  let (segId, _) ← upTo (ch '\x7d') s
  some (← readInt64 lowerNs, ← readInt64 segId)

def readCursor (s : Str) : Option (Time × Uuid) := do
  let s ← expect (lit "\x7b\"ts\":\"") s
  let (ts, s) ← upTo (ch '"') s
  let s ← expect (lit ",\"id\":\"") s
  let (id, _) ← upTo (ch '"') s
  some (← readRfc3339 ts, ← readUuid id)

def canonicalReader : JsonReader where
  segCursor := readSegCursor
  cursor := readCursor
  segCursor_marshal lowerNs segId := by
    have hcomma : ∀ rest, upTo (ch ',') (intStr lowerNs.toInt ++ ch ',' :: rest) = some (intStr lowerNs.toInt, rest) :=
      upTo_append (not_mem_intStr (by decide) (by decide) _)
    have hbrace : upTo (ch '\x7d') (intStr segId.toInt ++ lit "\x7d") = some (intStr segId.toInt, []) :=
      upTo_append (not_mem_intStr (by decide) (by decide) _) []
    simp only [readSegCursor, marshalSegCursor, expect_append, hcomma, hbrace, readInt64_intStr, Option.bind_eq_bind,
      Option.bind_some]
  cursor_marshal ts id text h := by
    obtain ⟨time, htime, rfl⟩ := Option.map_eq_some_iff.mp h
    have hquote : ∀ rest, upTo (ch '"') (time ++ ch '"' :: rest) = some (time, rest) :=
      upTo_append (not_mem_rfc3339 htime (by decide) (by decide))
    have hquote' : ∀ rest, upTo (ch '"') (uuidText id ++ ch '"' :: rest) = some (uuidText id, rest) :=
      upTo_append (quote_not_mem_uuidText id)
    simp only [readCursor, expect_append, hquote, hquote', readRfc3339_rfc3339 htime, readUuid_uuidText,
      Option.bind_eq_bind, Option.bind_some]
  cursor_nil := by decide

end OpenTams
