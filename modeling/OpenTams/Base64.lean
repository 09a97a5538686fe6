import Mathlib.Data.List.Defs

/-!
# Base64

The URL-safe alphabet of RFC 4648 without padding. The decoder skips line
breaks, wants at least two digits in the last group and does not look at the
bits the last group leaves over, so it accepts more than the encoder writes; what the
encoder writes it reads back.
-/

namespace Base64

/-! ## Digits -/

def digit (n : Nat) : UInt8 :=
  if n < 26 then UInt8.ofNat (65 + n)
  else if n < 52 then UInt8.ofNat (71 + n)
  else if n < 62 then UInt8.ofNat (n - 4)
  else if n = 62 then 45
  else 95

def value (b : UInt8) : Option Nat :=
  let n := b.toNat
  if 65 ≤ n ∧ n ≤ 90 then some (n - 65)
  else if 97 ≤ n ∧ n ≤ 122 then some (n - 71)
  else if 48 ≤ n ∧ n ≤ 57 then some (n + 4)
  else if n = 45 then some 62
  else if n = 95 then some 63
  else none

def isBreak (b : UInt8) : Bool := b = 10 || b = 13

theorem value_digit {n : Nat} (h : n < 64) : value (digit n) = some n := by
  have hall : ∀ n < 64, value (digit n) = some n := by decide
  exact hall n h

theorem isBreak_digit {n : Nat} (h : n < 64) : isBreak (digit n) = false := by
  have hall : ∀ n < 64, isBreak (digit n) = false := by decide
  exact hall n h

/-! ## Groups -/

def split : List UInt8 → List Nat
  | a :: b :: c :: s =>
    a.toNat / 4 :: (a.toNat % 4 * 16 + b.toNat / 16) :: (b.toNat % 16 * 4 + c.toNat / 64) :: c.toNat % 64 :: split s
  | [a, b] => [a.toNat / 4, a.toNat % 4 * 16 + b.toNat / 16, b.toNat % 16 * 4]
  | [a] => [a.toNat / 4, a.toNat % 4 * 16]
  | [] => []

/-- The bytes of six-bit groups; a single group at the end is an error. -/
def join : List Nat → Option (List UInt8)
  | p :: q :: r :: t :: s => (join s).map fun bytes =>
    UInt8.ofNat (p * 4 + q / 16) :: UInt8.ofNat (q % 16 * 16 + r / 4) :: UInt8.ofNat (r % 4 * 64 + t) :: bytes
  | [p, q, r] => some [UInt8.ofNat (p * 4 + q / 16), UInt8.ofNat (q % 16 * 16 + r / 4)]
  | [p, q] => some [UInt8.ofNat (p * 4 + q / 16)]
  | [_] => none
  | [] => some []

theorem split_lt (s : List UInt8) : ∀ n ∈ split s, n < 64 := by
  fun_induction split s with
  | case1 a b c s ih =>
    have ha := a.toNat_lt
    have hb := b.toNat_lt
    have hc := c.toNat_lt
    simp only [List.forall_mem_cons]
    exact ⟨by omega, by omega, by omega, by omega, ih⟩
  | case2 a b =>
    have ha := a.toNat_lt
    have hb := b.toNat_lt
    simp only [List.forall_mem_cons]
    exact ⟨by omega, by omega, by omega, fun _ h => by cases h⟩
  | case3 a =>
    have ha := a.toNat_lt
    simp only [List.forall_mem_cons]
    exact ⟨by omega, by omega, fun _ h => by cases h⟩
  | case4 => exact fun _ h => by cases h

theorem ofNat_eq {n : Nat} {a : UInt8} (h : n = a.toNat) : UInt8.ofNat n = a := by
  rw [h, UInt8.ofNat_toNat]

theorem join_split (s : List UInt8) : join (split s) = some s := by
  fun_induction split s with
  | case1 a b c s ih =>
    have hb := b.toNat_lt
    have hc := c.toNat_lt
    rw [join, ih, Option.map_some, ofNat_eq (a := a) (by omega), ofNat_eq (a := b) (by omega),
      ofNat_eq (a := c) (by omega)]
  | case2 a b =>
    have hb := b.toNat_lt
    rw [join, ofNat_eq (a := a) (by omega), ofNat_eq (a := b) (by omega)]
  | case3 a => rw [join, ofNat_eq (a := a) (by omega)]
  | case4 => rfl

/-! ## Strings -/

def encode (s : List UInt8) : List UInt8 := (split s).map digit

def decode (s : List UInt8) : Option (List UInt8) :=
  match (s.filter fun b => !isBreak b).mapM value with
  | none => none
  | some groups => join groups

theorem isBreak_encode {s : List UInt8} {b : UInt8} (h : b ∈ encode s) : isBreak b = false := by
  obtain ⟨n, hn, rfl⟩ := List.mem_map.mp h
  exact isBreak_digit (split_lt s n hn)

theorem decode_encode (s : List UInt8) : decode (encode s) = some s := by
  have hbreak : (encode s).filter (fun b => !isBreak b) = encode s := by
    refine List.filter_eq_self.mpr fun b hb => ?_
    rw [isBreak_encode hb]
    rfl
  have hvalues : ∀ l : List Nat, (∀ n ∈ l, n < 64) → (l.map digit).mapM value = some l := by
    intro l
    induction l with
    | nil => exact fun _ => rfl
    | cons n l ih =>
      intro h
      obtain ⟨hn, hl⟩ := List.forall_mem_cons.mp h
      simp [value_digit hn, ih hl]
  rw [decode, hbreak, encode, hvalues _ (split_lt s)]
  exact join_split s

theorem encode_ne_nil {s : List UInt8} (h : s ≠ []) : encode s ≠ [] := by
  unfold encode
  fun_cases split s <;> simp_all

end Base64
