import OpenTams.Dataset
import OpenTams.Strides
import OpenTams.TimerangeSound

/-!
# The flow collections of the data set

A source has `RenditionsPerSource` flows, the last one perhaps fewer. The first of
them is the parent of the others. The position of a member in its source is its sort
order, which is an `int32`.
-/

namespace OpenTams.Dataset

open Iteration Strides

/-! ## Sources -/

def sourceWidth (rends total s : ℕ) : ℕ := min (total - s * rends) rends

structure Plan.Sized (p : Plan) (rends total : ℕ) : Prop where
  pos : 0 < rends
  renditions : p.renditionsPerSource = .ofNat rends
  flows : p.totalFlows = .ofNat total
  sources : p.sourcesCount = .ofNat (strideCount 0 rends total)
  fits : total + rends - 1 < 2 ^ 63

section
variable {p : Plan} {rends total s : ℕ}

theorem sized (hc : p.Checked) (he : p.Exact) :
    ∃ rends total : ℕ, p.Sized rends total ∧ p.renditionsPerSource.toInt = rends ∧ p.totalFlows.toInt = total := by
  have hflows : 0 ≤ p.totalFlows.toInt := by
    rw [he.totalFlows]
    exact Int.add_nonneg hc.deepFlows he.shallowFlows
  have hfits := he.sources
  have hpos := hc.renditions
  have hrends := ofNat_toNat hpos.le
  have htotal := ofNat_toNat hflows
  obtain ⟨rends, hr⟩ := Int.eq_ofNat_of_zero_le hpos.le
  obtain ⟨total, ht⟩ := Int.eq_ofNat_of_zero_le hflows
  rw [hr, Int.toNat_natCast] at hrends
  rw [ht, Int.toNat_natCast] at htotal
  have hsources : p.sourcesCount = .ofNat (strideCount 0 rends total) := by
    have hzero : (0 : Int64) < .ofNat total ↔ 0 < total := ofNat_lt (by decide) (by omega)
    rw [hc.sources, ← hrends, ← htotal]
    by_cases hany : 0 < total
    · have hadd : Int64.ofNat total + Int64.ofNat rends - 1 = .ofNat (total + rends - 1) := by
        rw [Int64.ofNat_sub _ _ (by omega), Int64.ofNat_add]
        rfl
      rw [if_pos (hzero.mpr hany), hadd, ofNat_div (by omega) (by omega)]
      rfl
    · rw [if_neg (mt hzero.mp hany), strideCount, Nat.div_eq_of_lt (by omega)]
      rfl
  exact ⟨rends, total, ⟨by omega, hrends.symm, htotal.symm, hsources, by omega⟩, hr, ht⟩

theorem source_lt (h : p.Sized rends total) : s < strideCount 0 rends total ↔ s * rends < total := by
  rw [lt_strideCount h.pos, Nat.zero_add]

/-- The flows before a source that are members. -/
theorem membersBefore_succ (h : p.Sized rends total) (hs : s < strideCount 0 rends total) :
    min ((s + 1) * rends) total - (s + 1) = min (s * rends) total - s + (sourceWidth rends total s - 1) := by
  have hlt := (source_lt h).mp hs
  have hle := Nat.le_mul_of_pos_right s h.pos
  have hpos := h.pos
  rw [Nat.succ_mul, sourceWidth]
  omega

end

/-! ## The run over one source -/

section
variable (D : Digest) (g : Gen)

def station (s j : ℕ) (cur : FlowCollectionRow) : FlowCollectionIter where
  g := g
  srcIdx := .ofNat s
  memberPos := .ofNat j
  cur := cur
  rendsPer := g.plan.renditionsPerSource
  totalFlows := g.plan.totalFlows

def collectionRow (rends s j : ℕ) : FlowCollectionRow :=
  ⟨D.uuid g.seed "flow" (.ofNat (s * rends)), D.uuid g.seed "flow" (.ofNat (s * rends + j)), (Int64.ofNat j).toInt32⟩

def member (rends : ℕ) (q : ℕ × ℕ) : FlowCollectionIter :=
  station g q.1 (q.2 + 1) (collectionRow D g rends q.1 (q.2 + 1))

end

section
variable {D : Digest} {g : Gen} {rends total s j : ℕ}

theorem turn_station (h : g.plan.Sized rends total) (hs : s < strideCount 0 rends total)
    (hj : j < sourceWidth rends total s) (cur : FlowCollectionRow) :
    (station g s j cur).turn D = if j + 1 < sourceWidth rends total s then .yield (member D g rends (s, j))
      else .skip (station g (s + 1) 0 cur) := by
  have hfirst := (source_lt h).mp hs
  have hfits := h.fits
  have hle := Nat.le_mul_of_pos_right s h.pos
  have hpos := h.pos
  have hwidth : sourceWidth rends total s = min (total - s * rends) rends := rfl
  have hsrc : Int64.ofNat s < g.plan.sourcesCount := by
    have hcount : strideCount 0 rends total ≤ total + rends - 1 := Nat.div_le_self _ _
    rw [h.sources]
    exact (ofNat_lt (by omega) (by omega)).mpr hs
  have hparent : Int64.ofNat s * g.plan.renditionsPerSource = .ofNat (s * rends) := by
    rw [h.renditions, Int64.ofNat_mul]
  have hremain : g.plan.totalFlows - Int64.ofNat s * g.plan.renditionsPerSource = .ofNat (total - s * rends) := by
    rw [hparent, h.flows, Int64.ofNat_sub _ _ (by omega)]
  have hflows : (if g.plan.totalFlows - Int64.ofNat s * g.plan.renditionsPerSource < g.plan.renditionsPerSource then
      g.plan.totalFlows - Int64.ofNat s * g.plan.renditionsPerSource else g.plan.renditionsPerSource) =
      .ofNat (sourceWidth rends total s) := by
    rw [hremain, h.renditions]
    by_cases hlast : total - s * rends < rends
    · rw [if_pos ((ofNat_lt (by omega) (by omega)).mpr hlast), hwidth, Nat.min_eq_left hlast.le]
    · rw [if_neg (mt (ofNat_lt (by omega) (by omega)).mp hlast), hwidth, Nat.min_eq_right (Nat.not_lt.mp hlast)]
  have hnext : Int64.ofNat j + 1 < .ofNat (sourceWidth rends total s) ↔ j + 1 < sourceWidth rends total s := by
    rw [show Int64.ofNat j + 1 = .ofNat (j + 1) from (Int64.ofNat_add j 1).symm]
    exact ofNat_lt (by omega) (by omega)
  unfold FlowCollectionIter.turn station
  dsimp only
  rw [if_pos hsrc, hflows]
  by_cases hmore : j + 1 < sourceWidth rends total s
  · rw [if_pos (hnext.mpr hmore), if_pos hmore, hparent]
    have hpos' : Int64.ofNat j + 1 = .ofNat (j + 1) := (Int64.ofNat_add j 1).symm
    rw [hpos', ← Int64.ofNat_add]
    rfl
  · rw [if_neg (mt hnext.mp hmore), if_neg hmore, Int64.ofNat_add]
    rfl

theorem sourceWidth_pos (h : g.plan.Sized rends total) (hs : s < strideCount 0 rends total) :
    0 < sourceWidth rends total s := by
  have hfirst := (source_lt h).mp hs
  have hpos := h.pos
  rw [sourceWidth]
  omega

theorem runs_source (h : g.plan.Sized rends total) (hs : s < strideCount 0 rends total) (cur : FlowCollectionRow) :
    ∃ cur', Runs (FlowCollectionIter.turn D) (station g s 0 cur)
      ((List.range (sourceWidth rends total s - 1)).map fun j => member D g rends (s, j)) (station g (s + 1) 0 cur') := by
  have hpos := sourceWidth_pos h hs
  have hyield (j : ℕ) (hj : j < sourceWidth rends total s - 1) (cur : FlowCollectionRow) :
      (station g s j cur).turn D = .yield (member D g rends (s, j)) := by
    rw [turn_station h hs (by omega), if_pos (by omega)]
  have hskip (j : ℕ) (hj : j = sourceWidth rends total s - 1) (cur : FlowCollectionRow) :
      (station g s j cur).turn D = .skip (station g (s + 1) 0 cur) := by
    rw [turn_station h hs (by omega), if_neg (by omega)]
  let row (j : ℕ) : FlowCollectionRow := if j = 0 then cur else collectionRow D g rends s j
  refine ⟨row (sourceWidth rends total s - 1), runs_range (fun j => station g s j (row j)) ?_ (hskip _ rfl _)⟩
  intro j hj
  exact hyield j hj _

/-- The members of every source, one source after the other. -/
theorem emits_members (h : g.plan.Sized rends total) :
    Emits (FlowCollectionIter.turn D) g.flowCollection
      ((positions (List.range (strideCount 0 rends total)) fun s => sourceWidth rends total s - 1).map
        (member D g rends)) := by
  have hround : ∀ s < strideCount 0 rends total, ∀ it, (∃ cur, it = station g s 0 cur) →
      ∃ it', (∃ cur, it' = station g (s + 1) 0 cur) ∧ Runs (FlowCollectionIter.turn D) it
        ((List.range (sourceWidth rends total s - 1)).map fun j => member D g rends (s, j)) it' := by
    rintro s hs _ ⟨cur, rfl⟩
    obtain ⟨cur', hrun⟩ := runs_source h hs cur
    exact ⟨_, ⟨cur', rfl⟩, hrun⟩
  obtain ⟨_, ⟨cur, rfl⟩, hrun⟩ := runs_rounds _ _ hround ⟨⟨0, 0, 0⟩, rfl⟩
  have hstop : (station g (strideCount 0 rends total) 0 cur).turn D = .stop := by
    unfold FlowCollectionIter.turn station
    exact if_neg (by rw [h.sources]; exact Int64.lt_irrefl)
  have hend := hrun.emits (.stop hstop)
  rw [List.append_nil] at hend
  rw [positions_map]
  exact hend

end

/-! ## Collections -/

def FlowCollectionIter.parent (it : FlowCollectionIter) : Int64 := it.srcIdx * it.rendsPer

def FlowCollectionIter.member (it : FlowCollectionIter) : Int64 := it.parent + it.memberPos

structure CollectsOnce (D : Digest) (g : Gen) (out : List FlowCollectionIter) : Prop where
  count : (out.length : ℤ) = g.plan.flowCollectionRows.toInt
  rows : ∀ it ∈ out, it.cur.flowId = D.uuid g.seed "flow" it.parent ∧ it.cur.itemId = D.uuid g.seed "flow" it.member
  sources : ∀ it ∈ out, 0 ≤ it.parent ∧ it.parent < it.member ∧ it.member < g.plan.totalFlows ∧
    it.parent % g.plan.renditionsPerSource = 0 ∧
    it.member / g.plan.renditionsPerSource = it.parent / g.plan.renditionsPerSource
  members : ∀ f : Int64, 0 ≤ f → f < g.plan.totalFlows → f % g.plan.renditionsPerSource ≠ 0 →
    (out.map (·.member)).count f = 1
  orders : ∀ f : Int64, ∃ n : ℕ,
    (out.filter (·.parent = f)).map (·.cur.sortOrder.toInt) = (List.range' 1 n).map fun i : ℕ => (i : ℤ)

section
variable {D : Digest} {g : Gen} {rends total s j : ℕ}

theorem member_parent (h : g.plan.Sized rends total) (q : ℕ × ℕ) :
    (member D g rends q).parent = .ofNat (q.1 * rends) := by
  rw [Int64.ofNat_mul, ← h.renditions]
  rfl

theorem member_member (h : g.plan.Sized rends total) (q : ℕ × ℕ) :
    (member D g rends q).member = .ofNat (q.1 * rends + (q.2 + 1)) := by
  rw [FlowCollectionIter.member, member_parent h, Int64.ofNat_add (q.1 * rends)]
  rfl

def memberPositions (rends total : ℕ) : List (ℕ × ℕ) :=
  positions (List.range (strideCount 0 rends total)) fun s => sourceWidth rends total s - 1

theorem mem_memberPositions (h : g.plan.Sized rends total) {q : ℕ × ℕ} :
    q ∈ memberPositions rends total ↔ q.2 + 1 < rends ∧ q.1 * rends + (q.2 + 1) < total := by
  have hpos := h.pos
  rw [memberPositions, mem_positions, List.mem_range, source_lt h, sourceWidth]
  omega

/-- Members are numbered source by source. -/
theorem numbered_members (h : g.plan.Sized rends total) :
    (memberPositions rends total).map (fun q => min (q.1 * rends) total - q.1 + q.2) =
      List.range (total - strideCount 0 rends total) := by
  have hend : ¬ strideCount 0 rends total * rends < total := mt (source_lt h).mpr (lt_irrefl _)
  have hzero : min (0 * rends) total - 0 = 0 := by rw [Nat.zero_mul, Nat.zero_min]
  have hmap := map_positions (fun s => min (s * rends) total - s) hzero fun s hs => membersBefore_succ h hs
  rw [Nat.min_eq_right (Nat.not_lt.mp hend)] at hmap
  exact hmap

theorem nodup_memberPositions (h : g.plan.Sized rends total) : (memberPositions rends total).Nodup := by
  apply List.Nodup.of_map
  rw [numbered_members h]
  exact List.nodup_range

theorem length_memberPositions (hc : g.plan.Checked) (h : g.plan.Sized rends total) :
    ((memberPositions rends total).length : ℤ) = g.plan.flowCollectionRows.toInt := by
  have hlen := congrArg List.length (numbered_members h)
  rw [List.length_map, List.length_range] at hlen
  have hfits := h.fits
  have hpos := h.pos
  have hle : strideCount 0 rends total ≤ total := by
    by_contra hgt
    have := (source_lt h).mp (Nat.not_le.mp hgt)
    have := Nat.le_mul_of_pos_right total hpos
    omega
  rw [hlen, hc.collections, h.flows, h.sources, ← Int64.ofNat_sub _ _ hle, toInt_ofNat (by omega)]

theorem source_of_member {k : ℕ} (hk : k < rends) : (s * rends + k) / rends = s ∧ (s * rends + k) % rends = k := by
  rw [Nat.add_comm]
  constructor
  · rw [Nat.add_mul_div_right _ _ (by omega), Nat.div_eq_of_lt hk, Nat.zero_add]
  · rw [Nat.add_mul_mod_self_right, Nat.mod_eq_of_lt hk]

theorem members_once (h : g.plan.Sized rends total) {f : ℕ} (hf : f < total) (hmod : f % rends ≠ 0) :
    ((memberPositions rends total).map fun q => (member D g rends q).member).count (.ofNat f) = 1 := by
  have hfits := h.fits
  have hpos := h.pos
  refine List.count_eq_one_of_mem ?_ ?_
  · refine List.Nodup.map_on (fun q hq q' hq' heq => ?_) (nodup_memberPositions h)
    obtain ⟨hq, hlt⟩ := (mem_memberPositions h).mp hq
    obtain ⟨hq', hlt'⟩ := (mem_memberPositions h).mp hq'
    rw [member_member h, member_member h, ofNat_inj (by omega) (by omega)] at heq
    obtain ⟨hsource, hplace⟩ := source_of_member (s := q.1) hq
    obtain ⟨hsource', hplace'⟩ := source_of_member (s := q'.1) hq'
    rw [heq] at hsource hplace
    exact Prod.ext (hsource.symm.trans hsource') (by omega)
  · have hdiv := Nat.div_add_mod f rends
    have hrem := Nat.mod_lt f hpos
    rw [Nat.mul_comm] at hdiv
    have hplace : f % rends - 1 + 1 = f % rends := by omega
    refine List.mem_map.mpr ⟨(f / rends, f % rends - 1), (mem_memberPositions h).mpr ?_, ?_⟩
    · dsimp only
      omega
    · rw [member_member h]
      dsimp only
      rw [hplace, hdiv]

theorem member_source (h : g.plan.Sized rends total) {q : ℕ × ℕ} (hq : q ∈ memberPositions rends total) :
    0 ≤ (member D g rends q).parent ∧ (member D g rends q).parent < (member D g rends q).member ∧
      (member D g rends q).member < g.plan.totalFlows ∧
      (member D g rends q).parent % g.plan.renditionsPerSource = 0 ∧
      (member D g rends q).member / g.plan.renditionsPerSource =
        (member D g rends q).parent / g.plan.renditionsPerSource := by
  have hfits := h.fits
  have hpos := h.pos
  obtain ⟨hq, hlt⟩ := (mem_memberPositions h).mp hq
  rw [member_parent h, member_member h, h.flows, h.renditions]
  refine ⟨?_, (ofNat_lt (by omega) (by omega)).mpr (by omega), (ofNat_lt (by omega) (by omega)).mpr hlt, ?_, ?_⟩
  · rw [Int64.le_iff_toInt_le, Int64.toInt_zero, toInt_ofNat (by omega)]
    omega
  · rw [ofNat_mod (by omega) (by omega), Nat.mul_mod_left]
    rfl
  · rw [ofNat_div (by omega) (by omega), ofNat_div (by omega) (by omega), (source_of_member hq).1,
      Nat.mul_div_cancel _ hpos]

/-! ## Sort orders -/

theorem sortOrder_eq {j : ℕ} (hj : j < 2 ^ 63) : (Int64.ofNat j).toInt32.toInt = (j : ℤ).bmod (2 ^ 32) := by
  rw [Int64.toInt_toInt32, toInt_ofNat hj]

/-- The sort orders of the rows of one collection. -/
theorem orders_of_parent (h : g.plan.Sized rends total) (hs : s < strideCount 0 rends total) :
    ((((memberPositions rends total).map (member D g rends)).filter (·.parent = Int64.ofNat (s * rends))).map
      (·.cur.sortOrder.toInt)) =
      (List.range' 1 (sourceWidth rends total s - 1)).map fun i : ℕ => (i : ℤ).bmod (2 ^ 32) := by
  have hfits := h.fits
  have hpos := h.pos
  have hfirst := (source_lt h).mp hs
  have hrow : ∀ q ∈ memberPositions rends total,
      decide ((member D g rends q).parent = Int64.ofNat (s * rends)) = true ↔ q.1 = s := by
    intro q hq
    obtain ⟨-, hlt⟩ := (mem_memberPositions h).mp hq
    rw [decide_eq_true_eq, member_parent h, ofNat_inj (by omega) (by omega)]
    exact Nat.mul_left_inj hpos.ne'
  have hfilter := filter_positions List.nodup_range (List.mem_range.mpr hs) hrow
  have hrange : List.range' 1 (sourceWidth rends total s - 1) =
      (List.range (sourceWidth rends total s - 1)).map (1 + ·) := by
    rw [List.range_eq_range', List.map_add_range']
  rw [List.filter_map, List.map_map, hrange, List.map_map]
  simp only [Function.comp_def]
  rw [memberPositions, hfilter, List.map_map]
  refine List.map_congr_left fun j hj => ?_
  have hwidth : sourceWidth rends total s ≤ rends := Nat.min_le_right _ _
  have hj' := List.mem_range.mp hj
  dsimp only [Function.comp_apply, member, station, collectionRow]
  rw [sortOrder_eq (by omega), Nat.add_comm]

theorem filter_other_parent (h : g.plan.Sized rends total) {f : Int64}
    (hf : ∀ s < strideCount 0 rends total, f ≠ .ofNat (s * rends)) :
    ((memberPositions rends total).map (member D g rends)).filter (·.parent = f) = [] := by
  rw [List.filter_eq_nil_iff]
  intro it hit
  obtain ⟨q, hq, rfl⟩ := List.mem_map.mp hit
  rw [decide_eq_true_eq, member_parent h]
  exact (hf q.1 (List.mem_range.mp (mem_positions.mp hq).1)).symm

theorem orders_iff (h : g.plan.Sized rends total) :
    (∀ f : Int64, ∃ n : ℕ, (((memberPositions rends total).map (member D g rends)).filter (·.parent = f)).map
      (·.cur.sortOrder.toInt) = (List.range' 1 n).map fun i : ℕ => (i : ℤ)) ↔ rends ≤ 2 ^ 31 ∨ total ≤ 2 ^ 31 := by
  have hpos := h.pos
  constructor
  · intro horders
    by_contra hbig
    -- the member at position 2^31 of the first source has a negative sort order
    have hsource : 0 < strideCount 0 rends total := (source_lt h).mpr (by omega)
    obtain ⟨n, hn⟩ := horders (.ofNat (0 * rends))
    rw [orders_of_parent h hsource] at hn
    have hmem : ((2 ^ 31 : ℕ) : ℤ).bmod (2 ^ 32) ∈
        (List.range' 1 (sourceWidth rends total 0 - 1)).map fun i : ℕ => (i : ℤ).bmod (2 ^ 32) := by
      refine List.mem_map_of_mem (f := fun i : ℕ => (i : ℤ).bmod (2 ^ 32)) (List.mem_range'_1.mpr ?_)
      rw [sourceWidth]
      omega
    rw [hn] at hmem
    obtain ⟨i, -, hi⟩ := List.mem_map.mp hmem
    have hneg : ((2 ^ 31 : ℕ) : ℤ).bmod (2 ^ 32) = -2 ^ 31 := by decide
    omega
  · intro hsmall f
    by_cases hparent : ∃ s < strideCount 0 rends total, f = .ofNat (s * rends)
    · obtain ⟨s, hs, rfl⟩ := hparent
      refine ⟨sourceWidth rends total s - 1, ?_⟩
      rw [orders_of_parent h hs]
      refine List.map_congr_left fun i hi => ?_
      have hi' := List.mem_range'_1.mp hi
      rw [sourceWidth] at hi'
      exact bmod32 (by omega) (by omega)
    · refine ⟨0, ?_⟩
      rw [filter_other_parent h fun s hs heq => hparent ⟨s, hs, heq⟩]
      rfl

end

/-- The iterator emits the collections of the plan if and only if no sort order leaves `int32`. -/
theorem flowCollection_iff {k : Knobs} {p : Plan} (hp : compose k = .ok p) (he : p.Exact) (D : Digest) (seed : UInt64) :
    (∃ out, Drains (FlowCollectionIter.turn D) (newGen p seed).flowCollection out ∧ CollectsOnce D (newGen p seed) out) ↔
      p.renditionsPerSource.toInt ≤ 2 ^ 31 ∨ p.totalFlows.toInt ≤ 2 ^ 31 := by
  have hc : (newGen p seed).plan.Checked := compose_checked hp
  obtain ⟨rends, total, h, hr, ht⟩ := sized hc he
  have hemits := emits_members (D := D) h
  have hcond : p.renditionsPerSource.toInt ≤ 2 ^ 31 ∨ p.totalFlows.toInt ≤ 2 ^ 31 ↔ rends ≤ 2 ^ 31 ∨ total ≤ 2 ^ 31 := by
    change p.renditionsPerSource.toInt = rends at hr
    change p.totalFlows.toInt = total at ht
    omega
  rw [hcond]
  constructor
  · rintro ⟨out, hout, hcollects⟩
    have heq := (drains_iff.mp hout).unique hemits
    subst heq
    exact (orders_iff h).mp hcollects.orders
  · intro hsmall
    refine ⟨_, drains_iff.mpr hemits, ?_, ?_, ?_, ?_, (orders_iff h).mpr hsmall⟩
    · rw [List.length_map]
      exact length_memberPositions hc h
    · intro it hit
      obtain ⟨q, -, rfl⟩ := List.mem_map.mp hit
      rw [member_member h, member_parent h]
      exact ⟨rfl, rfl⟩
    · intro it hit
      obtain ⟨q, hq, rfl⟩ := List.mem_map.mp hit
      exact member_source h hq
    · intro f hf hlt hmod
      have hfits := h.fits
      rw [Int64.le_iff_toInt_le, Int64.toInt_zero] at hf
      rw [Int64.lt_iff_toInt_lt, ht] at hlt
      rw [← ofNat_toNat hf, h.renditions, ofNat_mod (by omega) (by have := h.pos; omega)] at hmod
      rw [← ofNat_toNat hf, List.map_map]
      exact members_once h (by omega) fun hzero => hmod (by rw [hzero]; rfl)

theorem smallPlan_collected : compose smallKnobs = .ok smallPlan ∧ smallPlan.Exact ∧
    ∃ out, Drains (FlowCollectionIter.turn plainDigest) (newGen smallPlan 7).flowCollection out ∧
      CollectsOnce plainDigest (newGen smallPlan 7) out :=
  ⟨compose_smallKnobs, smallPlan_exact, (flowCollection_iff compose_smallKnobs smallPlan_exact _ _).mpr (by decide)⟩

def wideKnobs : Knobs := ⟨2147483649, 1, 1, 1, 2147483649, 2147483649⟩

def widePlan : Plan := { wideKnobs with
  deepSegments := 2147483649
  shallowFlowCount := 0
  shallowSegments := 0
  totalSegments := 2147483649
  totalFlows := 2147483649
  sourcesCount := 1
  flowCollectionRows := 2147483648
  objectsCount := 2147483649 }

/-- The last member of `widePlan` has the sort order -2^31. -/
theorem widePlan_wraps : compose wideKnobs = .ok widePlan ∧ widePlan.Exact ∧
    ¬ ∃ out, Drains (FlowCollectionIter.turn plainDigest) (newGen widePlan 7).flowCollection out ∧
      CollectsOnce plainDigest (newGen widePlan 7) out := by
  have hp : compose wideKnobs = .ok widePlan := by decide +kernel
  have he : widePlan.Exact := by constructor <;> decide
  refine ⟨hp, he, ?_⟩
  rintro ⟨out, hout, hcollects⟩
  obtain ⟨rends, total, h, hr, ht⟩ := sized (p := (newGen widePlan 7).plan) (compose_checked hp) he
  have heq := (drains_iff.mp hout).unique (emits_members h)
  subst heq
  have hr' : (2147483649 : ℤ) = rends := hr
  have ht' : (2147483649 : ℤ) = total := ht
  have hsmall := (orders_iff h).mp hcollects.orders
  omega

end OpenTams.Dataset
