import Mathlib.Data.List.Forall2
import Mathlib.Data.List.Sort
import Mathlib.Order.Basic

/-!
# Keyset pages

A listing in pages: the rows of a table in the order of a key, a page of at most
`limit` of them read with one row more than it holds, and the key of its last
row as the cursor of the next page. A walk follows the cursors; the table may
be another one at each page. What a walk returns is in order and without
repetition whatever happens to the table, and a row that is there all along is
not missed.
-/

namespace Sql

variable {ρ κ : Type} [LinearOrder κ]

/-! ## Order -/

def Before (desc : Bool) (a b : κ) : Prop := if desc then b < a else a < b

instance (desc : Bool) (a b : κ) : Decidable (Before desc a b) :=
  inferInstanceAs (Decidable (if desc then b < a else a < b))

section
variable {desc : Bool} {a b c : κ}

theorem Before.irrefl : ¬ Before desc a a := by
  cases desc <;> simp [Before]

theorem Before.trans (h : Before desc a b) (h' : Before desc b c) : Before desc a c := by
  cases desc with
  | false => exact lt_trans (show a < b from h) h'
  | true => exact lt_trans (show c < b from h') h

theorem before_or_before (desc : Bool) (h : a ≠ b) : Before desc a b ∨ Before desc b a := by
  cases desc with
  | false => exact lt_or_gt_of_ne h
  | true => exact (lt_or_gt_of_ne h).symm

end

variable (key : ρ → κ) (desc : Bool)

def NotBehind (a b : ρ) : Prop := ¬ Before desc (key b) (key a)

instance : DecidableRel (NotBehind key desc) := fun a b => inferInstanceAs (Decidable (¬ Before desc (key b) (key a)))

instance : Std.Total (NotBehind key desc) where
  total a b := by
    by_contra h
    rw [not_or, NotBehind, NotBehind, not_not, not_not] at h
    exact Before.irrefl (h.1.trans h.2)

instance : IsTrans ρ (NotBehind key desc) where
  trans a b c hab hbc hca := by
    by_cases h : key b = key c
    · exact hab (h ▸ hca)
    · rcases before_or_before desc h with h | h
      · exact hab (h.trans hca)
      · exact hbc h

def orderBy (rows : List ρ) : List ρ := rows.insertionSort (NotBehind key desc)

section
variable {key} {rows : List ρ}

theorem perm_orderBy (rows : List ρ) : (orderBy key desc rows).Perm rows := List.perm_insertionSort _ _

theorem pairwise_orderBy (h : (rows.map key).Nodup) :
    (orderBy key desc rows).Pairwise fun a b => Before desc (key a) (key b) := by
  have hne : (orderBy key desc rows).Pairwise fun a b => key a ≠ key b :=
    List.pairwise_map.mp (((perm_orderBy desc rows).map key).nodup_iff.mpr h)
  refine ((List.pairwise_insertionSort (NotBehind key desc) rows).and hne).imp ?_
  rintro a b ⟨hab, hne⟩
  exact (before_or_before desc hne).resolve_right hab

theorem orderBy_filter (h : (rows.map key).Nodup) (p : ρ → Bool) :
    orderBy key desc (rows.filter p) = (orderBy key desc rows).filter p := by
  have hsub : ((rows.filter p).map key).Nodup := h.sublist (List.filter_sublist.map key)
  refine List.Perm.eq_of_pairwise ?_ (pairwise_orderBy desc hsub) ((pairwise_orderBy desc h).filter p)
    ((perm_orderBy desc _).trans ((perm_orderBy desc rows).filter p).symm)
  exact fun a b _ _ hab hba => absurd (hab.trans hba) Before.irrefl

end

/-! ## Pages -/

def isAfter (c : Option κ) (k : κ) : Bool := c.all fun x => Before desc x k

/-- `WHERE m AND key > c ORDER BY key` -/
def rowsAfter (m : ρ → Bool) (c : Option κ) (rows : List ρ) : List ρ :=
  orderBy key desc (rows.filter fun r => m r && isAfter desc c (key r))

/-- The first `limit` rows, and the last of them where there are more. -/
def cutPage (limit : ℕ) (rows : List ρ) : List ρ × Option ρ :=
  if limit < rows.length then (rows.take limit, rows[limit - 1]?) else (rows, none)

def pageAfter (m : ρ → Bool) (limit : ℕ) (c : Option κ) (rows : List ρ) : List ρ × Option ρ :=
  cutPage limit ((rowsAfter key desc m c rows).take (limit + 1))

section
variable {key desc} {m : ρ → Bool} {limit : ℕ} {c : Option κ} {rows : List ρ}

theorem mem_rowsAfter {r : ρ} :
    r ∈ rowsAfter key desc m c rows ↔ r ∈ rows ∧ m r = true ∧ isAfter desc c (key r) = true := by
  rw [rowsAfter, (perm_orderBy desc _).mem_iff, List.mem_filter, Bool.and_eq_true]

theorem pairwise_rowsAfter {L : List ρ} (h : (rows.map key).Nodup) (hL : rowsAfter key desc m c rows = L) :
    L.Pairwise fun a b => Before desc (key a) (key b) :=
  hL ▸ pairwise_orderBy desc (h.sublist (List.filter_sublist.map key))

theorem nodup_rowsAfter (h : (rows.map key).Nodup) : (rowsAfter key desc m c rows).Nodup := by
  refine (pairwise_rowsAfter h rfl).imp ?_
  rintro a _ hlt rfl
  exact Before.irrefl hlt

theorem rowsAfter_all (h : ∀ r ∈ rows, m r = true ∧ isAfter desc c (key r) = true) :
    (rowsAfter key desc m c rows).length = rows.length := by
  have hall : (rows.filter fun r => m r && isAfter desc c (key r)) = rows :=
    List.filter_eq_self.mpr fun r hr => Bool.and_eq_true_iff.mpr (h r hr)
  rw [rowsAfter, hall, (perm_orderBy desc rows).length_eq]

theorem rowsAfter_none (h : ∀ r ∈ rows, m r = false) : rowsAfter key desc m c rows = [] := by
  rw [List.eq_nil_iff_forall_not_mem]
  intro r hr
  obtain ⟨hr, hm, -⟩ := mem_rowsAfter.mp hr
  rw [h r hr] at hm
  cases hm

/-- There is a next page exactly if more rows are left than one page holds. -/
theorem pageAfter_next_iff :
    (pageAfter key desc m limit c rows).2.isSome ↔ limit < (rowsAfter key desc m c rows).length := by
  rw [pageAfter, cutPage, List.length_take]
  split
  · rename_i hlt
    have hlen : limit - 1 < ((rowsAfter key desc m c rows).take (limit + 1)).length := by
      rw [List.length_take]
      omega
    simp only [List.getElem?_eq_getElem hlen, Option.isSome_some, true_iff]
    omega
  · rename_i hge
    simp only [Option.isSome_none, Bool.false_eq_true, false_iff]
    omega

theorem pageAfter_last_iff {p : List ρ} {last : Option ρ} (h : pageAfter key desc m limit c rows = (p, last)) :
    last = none ↔ (rowsAfter key desc m c rows).length ≤ limit := by
  rw [← Nat.not_lt, ← pageAfter_next_iff, h, Option.not_isSome_iff_eq_none]

/-- A page is everything that is left, or the rows up to its last one. -/
theorem pageAfter_eq {p : List ρ} {last : Option ρ} (hl : 0 < limit)
    (h : pageAfter key desc m limit c rows = (p, last)) :
    p = rowsAfter key desc m c rows ∧ p.length ≤ limit ∧ last = none ∨
    ∃ front r next rest, rowsAfter key desc m c rows = front ++ r :: next :: rest ∧ (front ++ [r]).length = limit ∧
      p = front ++ [r] ∧ last = some r := by
  unfold pageAfter cutPage at h
  generalize rowsAfter key desc m c rows = L at h
  rcases Nat.lt_or_ge limit L.length with hlt | hge
  · right
    obtain ⟨front, r, rest, rfl, hfront⟩ : ∃ front r rest, L = front ++ r :: rest ∧ front.length = limit - 1 := by
      refine ⟨L.take (limit - 1), L[limit - 1], L.drop (limit - 1 + 1), ?_, by simp; omega⟩
      rw [← List.drop_eq_getElem_cons, List.take_append_drop]
    have hlimit : front.length + 1 = limit := by omega
    subst hlimit
    rw [List.length_append, List.length_cons] at hlt
    obtain ⟨next, rest, rfl⟩ : ∃ x l, rest = x :: l := List.exists_cons_of_length_pos (by omega)
    have htake : (front ++ r :: next :: rest).take (front.length + 1 + 1) = front ++ [r, next] :=
      List.take_length_add_append 2
    have hcut : (front ++ [r, next]).take (front.length + 1) = front ++ [r] := List.take_length_add_append 1
    rw [htake, if_pos (by simp), hcut] at h
    obtain ⟨rfl, rfl⟩ := Prod.mk.inj h
    exact ⟨front, r, next, rest, rfl, by simp, rfl, by simp⟩
  · left
    rw [List.take_of_length_le (by omega), if_neg (by omega)] at h
    obtain ⟨rfl, rfl⟩ := Prod.mk.inj h
    exact ⟨rfl, hge, rfl⟩

omit [LinearOrder κ] in
theorem mem_cutPage {r : ρ} (h : r ∈ (cutPage limit rows).1) : r ∈ rows := by
  unfold cutPage at h
  split at h
  · exact (List.take_sublist _ _).subset h
  · exact h

theorem cutPage_forall₂ (limit : ℕ) {α β : Type} {R : α → β → Prop} {xs : List α} {ys : List β}
    (h : List.Forall₂ R xs ys) :
    List.Forall₂ R (cutPage limit xs).1 (cutPage limit ys).1 ∧
      Option.Rel R (cutPage limit xs).2 (cutPage limit ys).2 := by
  have hlen := h.length_eq
  unfold cutPage
  split
  · rename_i hlt
    rw [if_pos (hlen ▸ hlt), List.getElem?_eq_getElem (by omega), List.getElem?_eq_getElem (by omega)]
    exact ⟨List.forall₂_take limit h, .some (h.get (i := limit - 1) (by omega) (by omega))⟩
  · rename_i hge
    rw [if_neg (hlen ▸ hge)]
    exact ⟨h, .none⟩

theorem isAfter_some {a k : κ} : isAfter desc (some a) k = true ↔ Before desc a k := by
  simp [isAfter]

theorem isAfter_trans {k k' : κ} (h : isAfter desc c k = true) (h' : Before desc k k') : isAfter desc c k' = true := by
  simp only [isAfter, Option.all_eq_true, decide_eq_true_eq] at h ⊢
  exact fun x hx => (h x hx).trans h'

/-- The rows after a row are those that come behind it. -/
theorem rowsAfter_some {front rest : List ρ} {r : ρ} (hnd : (rows.map key).Nodup)
    (h : rowsAfter key desc m c rows = front ++ r :: rest) : rowsAfter key desc m (some (key r)) rows = rest := by
  obtain ⟨-, hrest, hfront⟩ := List.pairwise_append.mp (pairwise_rowsAfter hnd h)
  have hr : isAfter desc c (key r) = true := (mem_rowsAfter.mp (h ▸ List.mem_append_cons_self)).2.2
  have hthin : rowsAfter key desc m (some (key r)) rows =
      (rowsAfter key desc m c rows).filter fun x => isAfter desc (some (key r)) (key x) := by
    rw [rowsAfter, rowsAfter, orderBy_filter desc hnd, orderBy_filter desc hnd, List.filter_filter]
    refine List.filter_congr fun x _ => ?_
    by_cases hx : Before desc (key r) (key x)
    · rw [isAfter_some.mpr hx, isAfter_trans hr hx, Bool.true_and]
    · rw [Bool.eq_false_iff.mpr (mt isAfter_some.mp hx), Bool.false_and, Bool.and_false]
  rw [hthin, h, List.filter_append, List.filter_cons]
  have hnone : front.filter (fun x => isAfter desc (some (key r)) (key x)) = [] := by
    refine List.filter_eq_nil_iff.mpr fun x hx h => ?_
    exact Before.irrefl ((hfront x hx r List.mem_cons_self).trans (isAfter_some.mp h))
  have hall : rest.filter (fun x => isAfter desc (some (key r)) (key x)) = rest := by
    exact List.filter_eq_self.mpr fun x hx => isAfter_some.mpr ((List.pairwise_cons.mp hrest).1 x hx)
  rw [hnone, hall]
  rw [if_neg (mt isAfter_some.mp Before.irrefl), List.nil_append]

/-! ## The last rows of pages -/

/-- The last row of every page that another page follows satisfies `P`. -/
def PageEnds (P : ρ → Prop) (limit : ℕ) (rows : List ρ) : Prop :=
  ∀ i r, (i + 1) * limit < rows.length → rows[(i + 1) * limit - 1]? = some r → P r

theorem pageEnds_of_le {P : ρ → Prop} (h : rows.length ≤ limit) : PageEnds P limit rows := by
  intro i r hlt _
  have : limit ≤ (i + 1) * limit := Nat.le_mul_of_pos_left limit (Nat.succ_pos i)
  omega

theorem pageEnds_append {P : ρ → Prop} {front rest : List ρ} {r next : ρ} (hlen : (front ++ [r]).length = limit) :
    PageEnds P limit (front ++ r :: next :: rest) ↔ P r ∧ PageEnds P limit (next :: rest) := by
  have hsplit : front ++ r :: next :: rest = (front ++ [r]) ++ next :: rest := by simp
  rw [List.length_append, List.length_singleton] at hlen
  constructor
  · intro h
    refine ⟨h 0 r (by simp; omega) (by simp [← hlen]), fun i x hi hx => h (i + 1) x ?_ ?_⟩
    · rw [hsplit, List.length_append, List.length_append, List.length_singleton, Nat.succ_mul]
      omega
    · have hpos : 0 < (i + 1) * limit := Nat.mul_pos (Nat.succ_pos i) (by omega)
      have hle : (front ++ [r]).length ≤ (i + 1 + 1) * limit - 1 := by
        rw [List.length_append, List.length_singleton, Nat.succ_mul]
        omega
      rw [hsplit, List.getElem?_append_right hle, ← hx, List.length_append, List.length_singleton, Nat.succ_mul]
      congr 1
      omega
  · rintro ⟨hr, h⟩ i x hi hx
    cases i with
    | zero =>
      rw [Nat.zero_add, Nat.one_mul, ← hlen, Nat.add_sub_cancel, List.getElem?_append_right (le_refl _),
        Nat.sub_self] at hx
      cases hx
      exact hr
    | succ i =>
      have hpos : 0 < (i + 1) * limit := Nat.mul_pos (Nat.succ_pos i) (by omega)
      rw [hsplit, List.length_append, List.length_append, List.length_singleton, Nat.succ_mul] at hi
      rw [hsplit, List.getElem?_append_right (by rw [List.length_append, List.length_singleton, Nat.succ_mul]; omega),
        List.length_append, List.length_singleton, Nat.succ_mul] at hx
      refine h i x (by omega) (hx ▸ congrArg _ ?_)
      omega

theorem pageEnds_rowsAfter {P : ρ → Prop} {p : List ρ} {last : Option ρ} (hl : 0 < limit) (hnd : (rows.map key).Nodup)
    (h : pageAfter key desc m limit c rows = (p, last)) :
    PageEnds P limit (rowsAfter key desc m c rows) ↔
      ∀ r, last = some r → P r ∧ PageEnds P limit (rowsAfter key desc m (some (key r)) rows) := by
  rcases pageAfter_eq hl h with ⟨rfl, hle, rfl⟩ | ⟨front, r, next, rest, hL, hlen, -, rfl⟩
  · exact iff_of_true (pageEnds_of_le hle) fun r hr => by cases hr
  · simp only [Option.some.injEq, forall_eq']
    rw [rowsAfter_some hnd hL, hL, pageEnds_append hlen]

/-! ## Walks -/

variable (key desc m limit) in
/-- The pages of a walk from a cursor on, one table for each of them, and the last row of
the last page where there are more rows. -/
inductive Walk : Option κ → List (List ρ) → List (List ρ) → Option ρ → Prop
  | page {c rows p last} : pageAfter key desc m limit c rows = (p, last) → Walk c [rows] [p] last
  | next {c rows tables p ps r last} : pageAfter key desc m limit c rows = (p, some r) →
      Walk (some (key r)) tables ps last → Walk c (rows :: tables) (p :: ps) last

variable {tables : List (List ρ)} {ps : List (List ρ)} {last : Option ρ}

theorem rowsAfter_eq {p : List ρ} {r : ρ} (hl : 0 < limit) (hnd : (rows.map key).Nodup)
    (h : pageAfter key desc m limit c rows = (p, some r)) :
    p.length = limit ∧ rowsAfter key desc m c rows = p ++ rowsAfter key desc m (some (key r)) rows ∧
      r ∈ p ∧ ∀ x ∈ p, key x = key r ∨ Before desc (key x) (key r) := by
  rcases pageAfter_eq hl h with ⟨-, -, hnone⟩ | ⟨front, x, next, rest, hL, hlen, rfl, hx⟩
  · cases hnone
  · cases hx
    obtain ⟨-, -, hfront⟩ := List.pairwise_append.mp (pairwise_rowsAfter hnd hL)
    refine ⟨hlen, ?_, List.mem_append_cons_self, fun x hx => ?_⟩
    · rw [rowsAfter_some hnd hL, hL, List.append_assoc]
      rfl
    rcases List.mem_append.mp hx with hx | hx
    · exact Or.inr (hfront x hx r List.mem_cons_self)
    · exact Or.inl (congrArg key (List.mem_singleton.mp hx))

theorem page_sublist {p : List ρ} (hl : 0 < limit) (h : pageAfter key desc m limit c rows = (p, last)) :
    p.Sublist (rowsAfter key desc m c rows) := by
  rcases pageAfter_eq hl h with ⟨rfl, -⟩ | ⟨front, r, next, rest, hL, -, rfl, -⟩
  · exact List.Sublist.refl _
  · rw [hL]
    exact (List.Sublist.refl front).append (List.singleton_sublist.mpr List.mem_cons_self)

theorem Walk.subset (hl : 0 < limit) (h : Walk key desc m limit c tables ps last) :
    List.Forall₂ (fun p rows => ∀ r ∈ p, r ∈ rows) ps tables := by
  have hmem : ∀ {c rows p last}, pageAfter key desc m limit c rows = (p, last) → ∀ r ∈ p, r ∈ rows :=
    fun hp r hr => (mem_rowsAfter.mp ((page_sublist hl hp).subset hr)).1
  induction h with
  | page hp => exact .cons (hmem hp) .nil
  | next hp _ ih => exact .cons (hmem hp) ih

theorem Walk.source (hl : 0 < limit) (h : Walk key desc m limit c tables ps last) {r : ρ} (hr : r ∈ ps.flatten) :
    ∃ rows ∈ tables, r ∈ rows := by
  have hsub := h.subset hl
  clear h
  induction hsub with
  | nil => cases hr
  | cons hp _ ih =>
    rcases List.mem_append.mp (List.flatten_cons ▸ hr) with hr | hr
    · exact ⟨_, List.mem_cons_self, hp r hr⟩
    · obtain ⟨rows, hrows, hr⟩ := ih hr
      exact ⟨rows, List.mem_cons_of_mem _ hrows, hr⟩

/-- **A walk is in order**, whatever the tables are, and so returns no key twice. -/
theorem Walk.pairwise (hl : 0 < limit) (h : Walk key desc m limit c tables ps last)
    (hnd : ∀ rows ∈ tables, (rows.map key).Nodup) :
    ps.flatten.Pairwise (fun a b => Before desc (key a) (key b)) ∧ ∀ r ∈ ps.flatten, isAfter desc c (key r) = true := by
  induction h with
  | page hp =>
    rw [List.flatten_singleton]
    have hsub := page_sublist hl hp
    exact ⟨(pairwise_rowsAfter (hnd _ List.mem_cons_self) rfl).sublist hsub,
      fun r hr => (mem_rowsAfter.mp (hsub.subset hr)).2.2⟩
  | @next c rows tables p ps r last hp hw ih =>
    obtain ⟨hrows, htables⟩ := List.forall_mem_cons.mp hnd
    obtain ⟨hsorted, hbehind⟩ := ih htables
    obtain ⟨-, -, hr, hle⟩ := rowsAfter_eq hl hrows hp
    have hsub := page_sublist hl hp
    have hafter : ∀ x ∈ p, isAfter desc c (key x) = true := fun x hx => (mem_rowsAfter.mp (hsub.subset hx)).2.2
    rw [List.flatten_cons]
    refine ⟨List.pairwise_append.mpr ⟨(pairwise_rowsAfter hrows rfl).sublist hsub, hsorted, fun x hx y hy => ?_⟩,
      fun y hy => ?_⟩
    · have hry := isAfter_some.mp (hbehind y hy)
      rcases hle x hx with he | hlt
      · exact he ▸ hry
      · exact hlt.trans hry
    · rcases List.mem_append.mp hy with hy | hy
      · exact hafter y hy
      · exact isAfter_trans (hafter r hr) (isAfter_some.mp (hbehind y hy))

/-- **A walk misses no row** that matches and is in every one of its tables. -/
theorem Walk.complete (hl : 0 < limit) (h : Walk key desc m limit c tables ps none)
    (hnd : ∀ rows ∈ tables, (rows.map key).Nodup) {x : ρ} (hx : ∀ rows ∈ tables, x ∈ rows) (hm : m x = true)
    (hc : isAfter desc c (key x) = true) : x ∈ ps.flatten := by
  generalize hnone : (none : Option ρ) = last at h
  induction h with
  | page hp =>
    subst hnone
    rcases pageAfter_eq hl hp with ⟨rfl, -⟩ | ⟨_, _, _, _, -, -, -, hsome⟩
    · rw [List.flatten_singleton]
      exact mem_rowsAfter.mpr ⟨hx _ List.mem_cons_self, hm, hc⟩
    · cases hsome
  | next hp hw ih =>
    obtain ⟨hrows, htables⟩ := List.forall_mem_cons.mp hnd
    obtain ⟨hxrows, hxtables⟩ := List.forall_mem_cons.mp hx
    obtain ⟨-, hsplit, -⟩ := rowsAfter_eq hl hrows hp
    have hmem := mem_rowsAfter.mpr ⟨hxrows, hm, hc⟩
    rw [hsplit, List.mem_append] at hmem
    rw [List.flatten_cons, List.mem_append]
    exact hmem.imp_right fun hrest => ih htables hxtables (mem_rowsAfter.mp hrest).2.2 hnone

/-- **A walk over one table** ends, returns what matches in order, and all its pages but the last are full. -/
theorem walk_total (hl : 0 < limit) (hnd : (rows.map key).Nodup) (c : Option κ) :
    ∃ ps, Walk key desc m limit c (List.replicate ps.length rows) ps none ∧ ps.flatten = rowsAfter key desc m c rows ∧
      ∀ p ∈ ps.dropLast, p.length = limit := by
  -- what is left gets shorter with each page
  generalize hn : (rowsAfter key desc m c rows).length = n
  induction n using Nat.strong_induction_on generalizing c with
  | _ n ih =>
    obtain ⟨p, last, hp⟩ : ∃ p last, pageAfter key desc m limit c rows = (p, last) := ⟨_, _, rfl⟩
    rcases pageAfter_eq hl hp with ⟨rfl, -, rfl⟩ | ⟨front, r, next, rest, -, -, -, rfl⟩
    · exact ⟨[rowsAfter key desc m c rows], .page hp, List.flatten_singleton, fun p hp => by cases hp⟩
    · obtain ⟨hlen, hsplit, -⟩ := rowsAfter_eq hl hnd hp
      rw [hsplit, List.length_append] at hn
      obtain ⟨ps, hw, hflat, hfull⟩ := ih _ (by omega) (some (key r)) rfl
      refine ⟨p :: ps, .next hp hw, by rw [List.flatten_cons, hflat, hsplit], fun x hx => ?_⟩
      cases ps with
      | nil => cases hw
      | cons p' ps =>
        rcases List.mem_cons.mp hx with rfl | hx
        · exact hlen
        · exact hfull x hx

end

end Sql
