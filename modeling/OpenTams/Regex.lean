import Mathlib.Computability.RegularExpressions

/-!
# Schema regular expressions

The operators that patterns of a JSON schema are written with, over Mathlib's
regular expressions: an optional part, a class of characters, a part repeated up
to a bound. One membership lemma for each.
-/

namespace Regex

open RegularExpression

variable {α : Type*}

def opt (r : RegularExpression α) : RegularExpression α := 1 + r

def oneOf : List α → RegularExpression α
  | [] => 0
  | c :: cs => char c + oneOf cs

def upTo (r : RegularExpression α) : ℕ → RegularExpression α
  | 0 => 1
  | n + 1 => opt (r * upTo r n)

theorem mem_char {c : α} {s : List α} : s ∈ (char c).matches' ↔ s = [c] := Iff.rfl

theorem mem_add {p q : RegularExpression α} {s : List α} : s ∈ (p + q).matches' ↔ s ∈ p.matches' ∨ s ∈ q.matches' := by
  rw [matches'_add, Language.mem_add]

theorem mem_mul {p q : RegularExpression α} {s : List α} :
    s ∈ (p * q).matches' ↔ ∃ a b, a ∈ p.matches' ∧ b ∈ q.matches' ∧ a ++ b = s := by
  rw [matches'_mul, Language.mem_mul]
  constructor
  · rintro ⟨a, ha, b, hb, he⟩
    exact ⟨a, b, ha, hb, he⟩
  · rintro ⟨a, b, ha, hb, he⟩
    exact ⟨a, ha, b, hb, he⟩

theorem mem_opt {r : RegularExpression α} {s : List α} : s ∈ (opt r).matches' ↔ s = [] ∨ s ∈ r.matches' := by
  rw [opt, mem_add, matches'_epsilon, Language.mem_one]

theorem mem_oneOf {cs s : List α} : s ∈ (oneOf cs).matches' ↔ ∃ c ∈ cs, s = [c] := by
  induction cs with
  | nil => simp [oneOf]
  | cons c cs ih =>
    rw [oneOf, mem_add, ih, mem_char]
    simp

theorem mem_star_oneOf {cs s : List α} : s ∈ (oneOf cs).star.matches' ↔ ∀ c ∈ s, c ∈ cs := by
  rw [matches'_star, Language.mem_kstar]
  constructor
  · rintro ⟨L, rfl, hL⟩ c hc
    obtain ⟨y, hy, hcy⟩ := List.mem_flatten.mp hc
    obtain ⟨d, hd, rfl⟩ := mem_oneOf.mp (hL y hy)
    rw [List.mem_singleton.mp hcy]
    exact hd
  · intro h
    refine ⟨s.map fun c => [c], (List.flatMap_singleton' s).symm, ?_⟩
    intro y hy
    obtain ⟨c, hc, rfl⟩ := List.mem_map.mp hy
    exact mem_oneOf.mpr ⟨c, h c hc, rfl⟩

theorem mem_upTo_oneOf {cs : List α} (n : ℕ) {s : List α} :
    s ∈ (upTo (oneOf cs) n).matches' ↔ s.length ≤ n ∧ ∀ c ∈ s, c ∈ cs := by
  induction n generalizing s with
  | zero =>
    rw [upTo, matches'_epsilon, Language.mem_one, Nat.le_zero, List.length_eq_zero_iff]
    constructor
    · rintro rfl
      simp
    · exact fun h => h.1
  | succ n ih =>
    rw [upTo, mem_opt, mem_mul]
    constructor
    · rintro (rfl | ⟨a, b, ha, hb, rfl⟩)
      · simp
      · obtain ⟨c, hc, rfl⟩ := mem_oneOf.mp ha
        obtain ⟨hlen, hall⟩ := ih.mp hb
        refine ⟨by simpa using hlen, ?_⟩
        intro d hd
        rcases List.mem_cons.mp hd with rfl | hd
        · exact hc
        · exact hall d hd
    · rintro ⟨hlen, hall⟩
      cases s with
      | nil => exact Or.inl rfl
      | cons c s =>
        refine Or.inr ⟨[c], s, mem_oneOf.mpr ⟨c, hall c List.mem_cons_self, rfl⟩, ih.mpr ⟨?_, ?_⟩, rfl⟩
        · simpa using hlen
        · exact fun d hd => hall d (List.mem_cons_of_mem c hd)

end Regex
