import Mathlib.Algebra.GroupWithZero.Nat
import Mathlib.Data.List.Induction
import Mathlib.Data.List.Infix

/-!
# Walks in a tree of directories

A path is a list of moves from a directory: into one below it, to its parent, or
nowhere; the parent of the root is the root. A walk ends in a directory or below
it exactly if it stands there at some point and from then on never climbs above
it.
-/

namespace PathWalk

variable {α : Type}

inductive Move (α : Type) where
  | stay
  | up
  | down (a : α)
  deriving DecidableEq

def Move.step (dir : List α) : Move α → List α
  | stay => dir
  | up => dir.dropLast
  | down a => dir ++ [a]

def walk (dir : List α) (moves : List (Move α)) : List α := moves.foldl Move.step dir

def Move.climbs : Move α → Nat
  | up => 1
  | _ => 0

def Move.descends : Move α → Nat
  | down _ => 1
  | _ => 0

def Move.name? : Move α → Option α
  | down a => some a
  | _ => none

def climbs (moves : List (Move α)) : Nat := (moves.map Move.climbs).sum

def descents (moves : List (Move α)) : Nat := (moves.map Move.descends).sum

/-- At no point have the moves climbed more often than descended. -/
def StaysBelow (moves : List (Move α)) : Prop := ∀ p, p <+: moves → climbs p ≤ descents p

instance (moves : List (Move α)) : Decidable (StaysBelow moves) :=
  decidable_of_iff (∀ p ∈ moves.inits, climbs p ≤ descents p) (by simp only [StaysBelow, List.mem_inits])

section
variable {dir base : List α} {moves l : List (Move α)} {m : Move α}

@[simp] theorem walk_append : walk dir (l ++ moves) = walk (walk dir l) moves := List.foldl_append

@[simp] theorem walk_nil : walk dir [] = dir := rfl

@[simp] theorem walk_singleton : walk dir [m] = m.step dir := rfl

@[simp] theorem climbs_append : climbs (l ++ moves) = climbs l + climbs moves := by simp [climbs]

@[simp] theorem descents_append : descents (l ++ moves) = descents l + descents moves := by simp [descents]

theorem staysBelow_nil : StaysBelow ([] : List (Move α)) := by
  intro p hp
  rw [List.prefix_nil.mp hp]
  exact Nat.le_refl 0

theorem staysBelow_concat : StaysBelow (l ++ [m]) ↔ StaysBelow l ∧ climbs l + m.climbs ≤ descents l + m.descends := by
  constructor
  · intro h
    have hall := h _ (List.prefix_refl _)
    rw [climbs_append, descents_append] at hall
    exact ⟨fun p hp => h p (hp.trans (List.prefix_append l [m])), by simpa [climbs, descents] using hall⟩
  · rintro ⟨h, hall⟩ p hp
    rcases List.prefix_concat_iff.mp hp with rfl | hp
    · simpa [climbs, descents] using hall
    · exact h p hp

theorem climbs_eq_zero (h : Move.up ∉ l) : climbs l = 0 := by
  induction l with
  | nil => rfl
  | cons m l ih =>
    rw [List.mem_cons, not_or] at h
    have hm : m.climbs = 0 := by
      cases m with
      | up => exact absurd rfl h.1
      | _ => rfl
    rw [climbs, List.map_cons, List.sum_cons, hm, Nat.zero_add, ← climbs, ih h.2]

theorem staysBelow_of_no_up (h : Move.up ∉ l) : StaysBelow l := by
  intro p hp
  rw [climbs_eq_zero fun hmem => h (hp.subset hmem)]
  exact Nat.zero_le _

theorem names_down {a : α} : (Move.down a :: l).filterMap Move.name? = a :: l.filterMap Move.name? := rfl

theorem walk_of_no_up (h : Move.up ∉ l) : walk dir l = dir ++ l.filterMap Move.name? := by
  induction l generalizing dir with
  | nil => exact (List.append_nil dir).symm
  | cons m l ih =>
    rw [List.mem_cons, not_or] at h
    rw [walk, List.foldl_cons, ← walk, ih h.2]
    cases m with
    | stay => rfl
    | up => exact absurd rfl h.1
    | down a => exact List.append_assoc ..

/-- What the moves do below `dir` does not depend on it. -/
theorem walk_below (h : StaysBelow moves) (dir : List α) :
    ∃ sub, walk dir moves = dir ++ sub ∧ sub.length + climbs moves = descents moves := by
  induction moves using List.reverseRecOn with
  | nil => exact ⟨[], (List.append_nil dir).symm, rfl⟩
  | append_singleton l m ih =>
    obtain ⟨hl, hm⟩ := staysBelow_concat.mp h
    obtain ⟨sub, hsub, hlen⟩ := ih hl
    rw [walk_append, hsub, walk_singleton, climbs_append, descents_append]
    cases m with
    | stay => exact ⟨sub, rfl, hlen⟩
    | down a =>
      refine ⟨sub ++ [a], List.append_assoc .., ?_⟩
      rw [List.length_append]
      simp only [climbs, descents, List.map_cons, List.map_nil, List.sum_cons, List.sum_nil, List.length_cons,
        List.length_nil, Move.climbs, Move.descends] at hlen ⊢
      omega
    | up =>
      simp only [climbs, descents, List.map_cons, List.map_nil, List.sum_cons, List.sum_nil, Move.climbs,
        Move.descends] at hm hlen ⊢
      have hne : sub ≠ [] := by
        rintro rfl
        rw [List.length_nil] at hlen
        omega
      refine ⟨sub.dropLast, List.dropLast_append_of_ne_nil hne, ?_⟩
      rw [List.length_dropLast]
      have := List.length_pos_of_ne_nil hne
      omega

/-- A walk that does not start below `base` ends in `base` or below exactly if it has come to `base` and then stayed
below. -/
theorem prefix_walk_iff (hdir : base <+: dir → base = dir) :
    base <+: walk dir moves ↔ ∃ l₁ l₂, moves = l₁ ++ l₂ ∧ walk dir l₁ = base ∧ StaysBelow l₂ := by
  constructor
  · intro h
    induction moves using List.reverseRecOn with
    | nil => exact ⟨[], [], rfl, (hdir h).symm, staysBelow_nil⟩
    | append_singleton l m ih =>
      by_cases hall : walk dir (l ++ [m]) = base
      · exact ⟨l ++ [m], [], (List.append_nil _).symm, hall, staysBelow_nil⟩
      -- before the last move the walk stands below `base`, and further below if the move climbs
      have hbelow : base <+: walk dir l ∧ (m.climbs = 1 → base.length < (walk dir l).length) := by
        rw [walk_append, walk_singleton] at h hall
        cases m with
        | stay => exact ⟨h, nofun⟩
        | up =>
          have hparent := List.dropLast_prefix (walk dir l)
          refine ⟨h.trans hparent, fun _ => ?_⟩
          have hlt := h.length_le
          rw [Move.step, List.length_dropLast] at hlt
          by_contra hle
          -- the parent of the root is the root
          have hroot : walk dir l = [] := List.length_eq_zero_iff.mp (by omega)
          have hbase : base = [] := List.length_eq_zero_iff.mp (by omega)
          rw [hroot, hbase] at hall
          exact hall rfl
        | down a =>
          rcases List.prefix_concat_iff.mp h with rfl | h
          · exact absurd rfl hall
          · exact ⟨h, nofun⟩
      obtain ⟨l₁, l₂, rfl, hl₁, hl₂⟩ := ih hbelow.1
      refine ⟨l₁, l₂ ++ [m], (List.append_assoc ..), hl₁, staysBelow_concat.mpr ⟨hl₂, ?_⟩⟩
      obtain ⟨sub, hsub, hlen⟩ := walk_below hl₂ base
      rw [walk_append, hl₁, hsub, List.length_append] at hbelow
      cases m with
      | up =>
        have := hbelow.2 rfl
        simp only [Move.climbs, Move.descends]
        omega
      | _ =>
        simp only [Move.climbs]
        omega
  · rintro ⟨l₁, l₂, rfl, rfl, h⟩
    obtain ⟨sub, hsub, -⟩ := walk_below h (walk dir l₁)
    rw [walk_append, hsub]
    exact List.prefix_append _ _

end

end PathWalk
