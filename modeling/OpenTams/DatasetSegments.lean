import Mathlib.Algebra.Order.BigOperators.Group.List
import Mathlib.Data.Set.Function
import OpenTams.Dataset
import OpenTams.Strides
import OpenTams.TimerangeSound

/-!
# Loading the segments in parallel

The rows of a worker are those of every N-th flow, as long as the index of the flow
does not pass the greatest `int64` when the last of them has been done: then it
wraps, and the worker goes on with flows of a negative index. The bounds of a row
are in nanoseconds and can wrap as well.
-/

namespace OpenTams.Dataset

open Iteration Strides

/-! ## The run over one flow -/

section
variable (D : Digest) (g : Gen) (stride f : Int64)

def visit (j : ℕ) : SegmentIter :=
  { g, stride, flowIdx := f, segIdx := .ofNat j, depth := g.flowDepth f, cur := g.segment D f (.ofNat j) }

def before (depth : Int64) (cur : SegmentRow) : SegmentIter := { g, stride, flowIdx := f, segIdx := -1, depth, cur }

end

section
variable {D : Digest} {g : Gen} {stride f : Int64}

theorem turn_before (hf : f < g.plan.totalFlows) (hdepth : 0 < (g.flowDepth f).toInt) (depth : Int64)
    (cur : SegmentRow) : (before g stride f depth cur).turn D = .yield (visit D g stride f 0) := by
  have hstart : (0 : Int64) < g.flowDepth f := by
    rw [Int64.lt_iff_toInt_lt]
    exact hdepth
  unfold SegmentIter.turn before visit
  dsimp only
  rw [if_pos hf, if_pos rfl]
  exact if_pos hstart

theorem segIdx_ne {j : ℕ} (hj : (j : ℤ) < 2 ^ 63) : Int64.ofNat j ≠ -1 := by
  intro h
  have htoInt := congrArg Int64.toInt h
  rw [toInt_ofNat (by omega)] at htoInt
  have hneg : (-1 : Int64).toInt = -1 := by decide
  omega

theorem turn_visit (hf : f < g.plan.totalFlows) {j : ℕ} (hj : (j : ℤ) < (g.flowDepth f).toInt) :
    (visit D g stride f j).turn D =
      if ((j + 1 : ℕ) : ℤ) < (g.flowDepth f).toInt then .yield (visit D g stride f (j + 1))
      else .skip (before g stride (f + stride) (g.flowDepth f) (g.segment D f (.ofNat j))) := by
  have hlt := (g.flowDepth f).toInt_lt
  have hsucc : Int64.ofNat j + 1 = Int64.ofNat (j + 1) := (Int64.ofNat_add j 1).symm
  have hiff : Int64.ofNat j + 1 < g.flowDepth f ↔ ((j + 1 : ℕ) : ℤ) < (g.flowDepth f).toInt := by
    rw [hsucc, Int64.lt_iff_toInt_lt, toInt_ofNat (by omega)]
  unfold SegmentIter.turn visit before
  dsimp only
  rw [if_pos hf, if_neg (segIdx_ne (by omega))]
  by_cases h : ((j + 1 : ℕ) : ℤ) < (g.flowDepth f).toInt
  · rw [if_pos (hiff.mpr h), if_pos h, hsucc]
  · rw [if_neg (mt hiff.mp h), if_neg h]

theorem runs_flow (hf : f < g.plan.totalFlows) {d : ℕ} (hd : (g.flowDepth f).toInt = d) (hpos : 0 < d)
    (depth : Int64) (cur : SegmentRow) :
    ∃ depth' cur', Runs (SegmentIter.turn D) (before g stride f depth cur) ((List.range d).map (visit D g stride f))
      (before g stride (f + stride) depth' cur') := by
  refine ⟨g.flowDepth f, g.segment D f (.ofNat (d - 1)), ?_⟩
  refine runs_range (fun j => Nat.casesOn (motive := fun _ => SegmentIter) j (before g stride f depth cur)
    (visit D g stride f)) ?_ ?_
  · intro j hj
    cases j with
    | zero => exact turn_before hf (by omega) depth cur
    | succ j =>
      dsimp only
      rw [turn_visit hf (by omega), if_pos (by omega)]
  · cases d with
    | zero => exact absurd hpos (lt_irrefl 0)
    | succ d =>
      dsimp only
      rw [turn_visit hf (by omega), if_neg (by omega)]
      rfl

end

/-! ## The run of a worker -/

def Gen.segs (g : Gen) (f : ℕ) : ℕ := (g.flowDepth (.ofNat f)).toInt.toNat

def visitAt (D : Digest) (g : Gen) (stride : Int64) (p : ℕ × ℕ) : SegmentIter := visit D g stride (.ofNat p.1) p.2

section
variable {D : Digest} {g : Gen} {total w n : ℕ}

theorem flowDepth_pos (hc : g.plan.Checked) (f : Int64) : 0 < (g.flowDepth f).toInt := by
  unfold Gen.flowDepth
  split
  · exact hc.deepDepth
  · exact hc.shallowDepth

theorem toInt_flowDepth (hc : g.plan.Checked) (f : ℕ) : (g.flowDepth (.ofNat f)).toInt = g.segs f := by
  have := flowDepth_pos hc (.ofNat f)
  rw [Gen.segs]
  omega

/-- Every `n`-th flow from `w` on, and then the index after the last of them, which may have wrapped. -/
theorem runs_strided (hc : g.plan.Checked) (htotal : g.plan.totalFlows.toInt = total) (hn : 0 < n) (depth : Int64)
    (cur : SegmentRow) :
    ∃ depth' cur', Runs (SegmentIter.turn D) (before g (.ofNat n) (.ofNat w) depth cur)
      ((positions (strided w n total) g.segs).map (visitAt D g (.ofNat n)))
      (before g (.ofNat n) (.ofNat (w + strideCount w n total * n)) depth' cur') := by
  have hlt := g.plan.totalFlows.toInt_lt
  rw [positions_map, strided, List.flatMap_map]
  have hround : ∀ i < strideCount w n total, ∀ s,
      (∃ depth cur, s = before g (.ofNat n) (.ofNat (w + i * n)) depth cur) →
      ∃ t, (∃ depth cur, t = before g (.ofNat n) (.ofNat (w + (i + 1) * n)) depth cur) ∧
        Runs (SegmentIter.turn D) s
          ((List.range (g.segs (w + i * n))).map (visit D g (.ofNat n) (.ofNat (w + i * n)))) t := by
    rintro i hi _ ⟨depth, cur, rfl⟩
    have hflow : w + i * n < total := (lt_strideCount hn).mp hi
    have hf : Int64.ofNat (w + i * n) < g.plan.totalFlows := by
      rw [Int64.lt_iff_toInt_lt, toInt_ofNat (by omega), htotal]
      omega
    have hd := toInt_flowDepth hc (w + i * n)
    have hpos := flowDepth_pos hc (.ofNat (w + i * n))
    obtain ⟨depth', cur', hrun⟩ := runs_flow (D := D) hf hd (by omega) depth cur
    refine ⟨_, ⟨depth', cur', ?_⟩, hrun⟩
    rw [← Int64.ofNat_add, Nat.succ_mul, Nat.add_assoc]
  obtain ⟨_, ⟨depth', cur', rfl⟩, hrun⟩ := runs_rounds _ _ hround
    ⟨depth, cur, congrArg (fun f => before g (.ofNat n) f depth cur) (by rw [Nat.zero_mul, Nat.add_zero])⟩
  exact ⟨depth', cur', hrun⟩

theorem turn_stop (f depth : Int64) (cur : SegmentRow) (stride : Int64) (h : ¬ f < g.plan.totalFlows) :
    (before g stride f depth cur).turn D = .stop := by
  unfold SegmentIter.turn before
  exact if_neg h

/-- A worker whose last index does not wrap yields the segments of its flows. -/
theorem emits_strided (hc : g.plan.Checked) (htotal : g.plan.totalFlows.toInt = total) (hn : 0 < n)
    (hfit : w + strideCount w n total * n < 2 ^ 63) (depth : Int64) (cur : SegmentRow) :
    Emits (SegmentIter.turn D) (before g (.ofNat n) (.ofNat w) depth cur)
      ((positions (strided w n total) g.segs).map (visitAt D g (.ofNat n))) := by
  obtain ⟨depth', cur', hrun⟩ := runs_strided (D := D) (w := w) hc htotal hn depth cur
  have hpast : ¬ w + strideCount w n total * n < total := mt (lt_strideCount hn).mpr (lt_irrefl _)
  have hstop : ¬ Int64.ofNat (w + strideCount w n total * n) < g.plan.totalFlows := by
    rw [Int64.lt_iff_toInt_lt, toInt_ofNat hfit, htotal]
    omega
  have hend := hrun.emits (.stop (turn_stop _ depth' cur' _ hstop))
  rwa [List.append_nil] at hend

end

/-! ## The index of a segment -/

theorem toInt_ofNat_wrapped {n : ℕ} (h : 2 ^ 63 ≤ n) (h' : n < 2 ^ 64) : (Int64.ofNat n).toInt = n - 2 ^ 64 := by
  have hsize : Int64.size = 2 ^ 64 := rfl
  rw [Int64.toInt_ofNat', hsize, Int.bmod_def]
  omega

def Plan.offset (p : Plan) (f : ℕ) : ℕ :=
  if f < p.deepFlowCount.toInt.toNat then f * p.deepDepth.toInt.toNat
  else p.deepFlowCount.toInt.toNat * p.deepDepth.toInt.toNat +
    (f - p.deepFlowCount.toInt.toNat) * p.shallowDepth.toInt.toNat

section
variable {g : Gen} {total f j : ℕ}

theorem deep_iff (hc : g.plan.Checked) (hf : f < 2 ^ 63) :
    Int64.ofNat f < g.plan.deepFlowCount ↔ f < g.plan.deepFlowCount.toInt.toNat := by
  have := hc.deepFlows
  rw [Int64.lt_iff_toInt_lt, toInt_ofNat hf]
  omega

theorem segs_eq (hc : g.plan.Checked) (hf : f < 2 ^ 63) :
    g.segs f = if f < g.plan.deepFlowCount.toInt.toNat then g.plan.deepDepth.toInt.toNat
      else g.plan.shallowDepth.toInt.toNat := by
  rw [Gen.segs, Gen.flowDepth]
  by_cases h : f < g.plan.deepFlowCount.toInt.toNat
  · rw [if_pos ((deep_iff hc hf).mpr h), if_pos h]
  · rw [if_neg (mt (deep_iff hc hf).mp h), if_neg h]

theorem offset_zero (p : Plan) : p.offset 0 = 0 := by
  unfold Plan.offset
  by_cases h : 0 < p.deepFlowCount.toInt.toNat
  · rw [if_pos h, Nat.zero_mul]
  · rw [if_neg h, Nat.zero_sub, Nat.zero_mul, Nat.eq_zero_of_not_pos h, Nat.zero_mul]

theorem offset_succ (hc : g.plan.Checked) (hf : f < 2 ^ 63) : g.plan.offset (f + 1) = g.plan.offset f + g.segs f := by
  rw [segs_eq hc hf]
  unfold Plan.offset
  generalize g.plan.deepFlowCount.toInt.toNat = count
  by_cases h : f < count
  · by_cases h' : f + 1 < count
    · rw [if_pos h', if_pos h, if_pos h, Nat.succ_mul]
    · have hlast : count = f + 1 := by omega
      rw [if_neg h', if_pos h, if_pos h, hlast, Nat.sub_self, Nat.zero_mul, Nat.add_zero, Nat.succ_mul]
  · rw [if_neg (by omega), if_neg h, if_neg h, Nat.sub_add_comm (by omega), Nat.succ_mul, Nat.add_assoc]

theorem offset_total (hc : g.plan.Checked) (he : g.plan.Exact) (htotal : g.plan.totalFlows.toInt = total) :
    (g.plan.offset total : ℤ) = g.plan.totalSegments.toInt := by
  have hd := hc.deepFlows
  have hs := he.shallowFlows
  have hsum := he.totalFlows
  obtain ⟨count, hcount⟩ := Int.eq_ofNat_of_zero_le hd
  obtain ⟨shallow, hshallow⟩ := Int.eq_ofNat_of_zero_le hs
  obtain ⟨dd, hdd⟩ := Int.eq_ofNat_of_zero_le hc.deepDepth.le
  obtain ⟨sd, hsd⟩ := Int.eq_ofNat_of_zero_le hc.shallowDepth.le
  rw [he.totalSegments, he.deepSegments, he.shallowSegments]
  unfold Plan.offset
  rw [hcount, hshallow, hdd, hsd, Int.toNat_natCast, Int.toNat_natCast, Int.toNat_natCast, if_neg (by omega),
    show total - count = shallow by omega]
  push_cast
  rfl

/-- The code computes the number of segments before it, modulo 2^64. -/
theorem globalSegIdx_ofNat (hc : g.plan.Checked) (hf : f < 2 ^ 63) :
    g.globalSegIdx (.ofNat f) (.ofNat j) = .ofNat (g.plan.offset f + j) := by
  have hcount := ofNat_toNat hc.deepFlows
  have hdd := ofNat_toNat hc.deepDepth.le
  have hsd := ofNat_toNat hc.shallowDepth.le
  unfold Gen.globalSegIdx Plan.offset
  by_cases h : f < g.plan.deepFlowCount.toInt.toNat
  · rw [if_pos ((deep_iff hc hf).mpr h), if_pos h, Int64.ofNat_add, Int64.ofNat_mul, hdd]
  · rw [if_neg (mt (deep_iff hc hf).mp h), if_neg h, Int64.ofNat_add, Int64.ofNat_add, Int64.ofNat_mul, Int64.ofNat_mul,
      Int64.ofNat_sub _ _ (by omega), hcount, hdd, hsd]

end

/-! ## Bounds in nanoseconds -/

/-- The rows start at `lo`, and each where the one before it ends. -/
def Tiles : ℤ → List SegmentRow → Prop
  | _, [] => True
  | lo, r :: rows => r.lowerNs.toInt = lo ∧ lo < r.upperNs.toInt ∧ Tiles r.upperNs.toInt rows

theorem tiles_range (D : Digest) {g : Gen} {c : ℕ} (hchunk : g.chunkNs = .ofNat c) (hpos : 0 < c) (hsmall : c < 2 ^ 63)
    (f : Int64) {j n : ℕ} (hj : j * c < 2 ^ 63) :
    Tiles ((j * c : ℕ) : ℤ) ((List.range' j n).map fun j => g.segment D f (.ofNat j)) ↔
      n = 0 ∨ (j + n) * c < 2 ^ 63 := by
  induction n generalizing j with
  | zero => exact iff_of_true trivial (Or.inl rfl)
  | succ n ih =>
    have hlower : (g.segment D f (.ofNat j)).lowerNs.toInt = ((j * c : ℕ) : ℤ) := by
      rw [Gen.segment, hchunk, ← Int64.ofNat_mul, toInt_ofNat hj]
    have hupper : (g.segment D f (.ofNat j)).upperNs = .ofNat ((j + 1) * c) := by
      rw [Gen.segment, hchunk, Int64.ofNat_mul, Int64.ofNat_add]
      rfl
    have hnext : (j + 1) * c = j * c + c := Nat.succ_mul j c
    rw [List.range'_succ, List.map_cons, Tiles, hupper]
    by_cases hfit : (j + 1) * c < 2 ^ 63
    · rw [toInt_ofNat hfit, ih hfit]
      constructor
      · rintro ⟨-, -, rfl | hrest⟩
        · exact Or.inr hfit
        · exact Or.inr (by rwa [Nat.add_right_comm, Nat.add_assoc] at hrest)
      · intro hall
        refine ⟨hlower, by omega, Or.inr ?_⟩
        rcases hall with h | hall
        · cases h
        · rwa [Nat.add_right_comm, Nat.add_assoc]
    · -- the end of this row has wrapped
      rw [toInt_ofNat_wrapped (by omega) (by omega)]
      constructor
      · rintro ⟨-, hlt, -⟩
        omega
      · rintro (h | hall)
        · cases h
        · have hle : (j + 1) * c ≤ (j + (n + 1)) * c := Nat.mul_le_mul_right c (by omega)
          omega

theorem tiles_flow (D : Digest) {g : Gen} {c : ℕ} (hchunk : g.chunkNs = .ofNat c) (hpos : 0 < c) (hsmall : c < 2 ^ 63)
    (f : Int64) {n : ℕ} (hn : 0 < n) :
    Tiles 0 ((List.range n).map fun j => g.segment D f (.ofNat j)) ↔ n * c < 2 ^ 63 := by
  have h := tiles_range D hchunk hpos hsmall f (j := 0) (n := n) (by omega)
  rw [Nat.zero_mul, Nat.zero_add] at h
  rw [List.range_eq_range', ← Int.natCast_zero, h]
  omega

/-! ## Loading -/

/-- The workers emit the rows of the plan between them, each flow is that of one worker, and the rows of a flow tile its
time axis; the segments have the indices of the objects. -/
structure LoadsOnce (D : Digest) (g : Gen) (totalWorkers : Int64) : Prop where
  rows : ∃ (all : List SegmentIter) (parts : ℕ → List SegmentIter),
    Drains (SegmentIter.turn D) g.segments all ∧
    (∀ w < totalWorkers.toInt.toNat,
      Drains (SegmentIter.turn D) (g.partitionedSegments (.ofNat w) totalWorkers) (parts w)) ∧
    (((List.range totalWorkers.toInt.toNat).flatMap parts).map (·.cur)).Perm (all.map (·.cur)) ∧
    (∀ w < totalWorkers.toInt.toNat, ∀ w' < totalWorkers.toInt.toNat, w ≠ w' →
      ∀ s ∈ parts w, ∀ s' ∈ parts w', s.flowIdx ≠ s'.flowIdx) ∧
    (all.length : ℤ) = g.plan.totalSegments.toInt ∧
    ∀ f : Int64, 0 ≤ f → f < g.plan.totalFlows → Tiles 0 ((all.filter (·.flowIdx = f)).map (·.cur))
  indices : Set.BijOn (fun p : Int64 × Int64 => (g.globalSegIdx p.1 p.2).toInt)
    {p | 0 ≤ p.1 ∧ p.1 < g.plan.totalFlows ∧ 0 ≤ p.2 ∧ p.2 < g.flowDepth p.1}
    {k | 0 ≤ k ∧ k < g.plan.objectsCount.toInt}

section
variable {D : Digest} {g : Gen} {total : ℕ}

theorem strided_one (total : ℕ) : strided 0 1 total = List.range total := by
  have hcount : strideCount 0 1 total = total := by simp [strideCount]
  rw [strided, hcount]
  simp

theorem emits_segments (hc : g.plan.Checked) (htotal : g.plan.totalFlows.toInt = total) :
    Emits (SegmentIter.turn D) g.segments ((positions (List.range total) g.segs).map (visitAt D g 1)) := by
  have hlt := g.plan.totalFlows.toInt_lt
  have hcount : strideCount 0 1 total = total := by simp [strideCount]
  have h := emits_strided (D := D) (w := 0) (n := 1) hc htotal Nat.one_pos (by omega) 0 ⟨0, [], [], 0, 0, []⟩
  rwa [strided_one] at h

theorem partitionedSegments_eq (g : Gen) {n w : ℕ} (hn : n < 2 ^ 63) (hw : w < n) :
    g.partitionedSegments (.ofNat w) (.ofNat n) = before g (.ofNat n) (.ofNat w) 0 ⟨0, [], [], 0, 0, []⟩ := by
  have hone : ¬ Int64.ofNat n < 1 := by
    rw [Int64.lt_iff_toInt_lt, toInt_ofNat hn, Int64.toInt_one]
    omega
  have hin : ¬ (decide (Int64.ofNat w < 0) || decide (Int64.ofNat n ≤ Int64.ofNat w)) = true := by
    simp only [Bool.or_eq_true, decide_eq_true_eq, Int64.lt_iff_toInt_lt, Int64.le_iff_toInt_le, toInt_ofNat hn,
      toInt_ofNat (n := w) (by omega), Int64.toInt_zero]
    omega
  unfold Gen.partitionedSegments before
  dsimp only
  rw [if_neg hone, if_neg hin]

theorem map_cur (stride : Int64) (ps : List (ℕ × ℕ)) :
    (ps.map (visitAt D g stride)).map (·.cur) = ps.map fun p => g.segment D (.ofNat p.1) (.ofNat p.2) := by
  rw [List.map_map]
  rfl

/-- The rows of one flow among those of all. -/
theorem filter_flow (htotal : g.plan.totalFlows.toInt = total) {f : ℕ} (hf : f < total) :
    ((((positions (List.range total) g.segs).map (visitAt D g 1)).filter (·.flowIdx = Int64.ofNat f)).map (·.cur)) =
      (List.range (g.segs f)).map fun j => g.segment D (.ofNat f) (.ofNat j) := by
  have hlt := g.plan.totalFlows.toInt_lt
  have hrow : ∀ q ∈ positions (List.range total) g.segs,
      decide ((visitAt D g 1 q).flowIdx = Int64.ofNat f) = true ↔ q.1 = f := by
    intro q hq
    have hq' := List.mem_range.mp (mem_positions.mp hq).1
    rw [decide_eq_true_eq]
    constructor
    · exact (ofNat_inj (by omega) (by omega)).mp
    · rintro rfl
      rfl
  rw [List.filter_map, map_cur]
  have hfilter := filter_positions List.nodup_range (List.mem_range.mpr hf) hrow
  simp only [Function.comp_def]
  rw [hfilter, List.map_map]
  rfl

/-- The positions are numbered in the order of the flows. -/
theorem numbered (hc : g.plan.Checked) (he : g.plan.Exact) (htotal : g.plan.totalFlows.toInt = total) :
    (positions (List.range total) g.segs).map (fun p => g.plan.offset p.1 + p.2) =
      List.range g.plan.totalSegments.toInt.toNat := by
  have hlt := g.plan.totalFlows.toInt_lt
  have hend := offset_total hc he htotal
  rw [map_positions g.plan.offset (offset_zero g.plan) fun f hf => offset_succ hc (by omega)]
  congr 1
  omega

theorem length_positions (hc : g.plan.Checked) (he : g.plan.Exact) (htotal : g.plan.totalFlows.toInt = total) :
    ((positions (List.range total) g.segs).length : ℤ) = g.plan.totalSegments.toInt := by
  have hlen := congrArg List.length (numbered hc he htotal)
  rw [List.length_map, List.length_range] at hlen
  have hend := offset_total hc he htotal
  omega

/-- Segments and objects are in a bijection. -/
theorem indices_bijOn (hc : g.plan.Checked) (he : g.plan.Exact) (htotal : g.plan.totalFlows.toInt = total) :
    Set.BijOn (fun p : Int64 × Int64 => (g.globalSegIdx p.1 p.2).toInt)
      {p | 0 ≤ p.1 ∧ p.1 < g.plan.totalFlows ∧ 0 ≤ p.2 ∧ p.2 < g.flowDepth p.1}
      {k | 0 ≤ k ∧ k < g.plan.objectsCount.toInt} := by
  have hlt := g.plan.totalFlows.toInt_lt
  have hmax := g.plan.totalSegments.toInt_lt
  have hnumbered := numbered hc he htotal
  have hvalue : ∀ q ∈ positions (List.range total) g.segs,
      (g.globalSegIdx (.ofNat q.1) (.ofNat q.2)).toInt = ((g.plan.offset q.1 + q.2 : ℕ) : ℤ) ∧
        ((g.plan.offset q.1 + q.2 : ℕ) : ℤ) < g.plan.totalSegments.toInt := by
    intro q hq
    have hmem := List.mem_map_of_mem (f := fun p : ℕ × ℕ => g.plan.offset p.1 + p.2) hq
    rw [hnumbered, List.mem_range] at hmem
    have hf := List.mem_range.mp (mem_positions.mp hq).1
    rw [globalSegIdx_ofNat hc (by omega), toInt_ofNat (by omega)]
    exact ⟨rfl, by omega⟩
  have hposition : ∀ p : Int64 × Int64, 0 ≤ p.1 ∧ p.1 < g.plan.totalFlows ∧ 0 ≤ p.2 ∧ p.2 < g.flowDepth p.1 →
      ∃ q ∈ positions (List.range total) g.segs, p = (.ofNat q.1, .ofNat q.2) := by
    rintro ⟨f, j⟩ ⟨hf, hf', hj, hj'⟩
    rw [Int64.le_iff_toInt_le, Int64.toInt_zero] at hf hj
    rw [Int64.lt_iff_toInt_lt] at hf' hj'
    dsimp only at hf hf' hj hj'
    have hdepth := toInt_flowDepth hc f.toInt.toNat
    rw [ofNat_toNat hf] at hdepth
    refine ⟨(f.toInt.toNat, j.toInt.toNat), mem_positions.mpr ⟨List.mem_range.mpr (by omega), ?_⟩, ?_⟩
    · dsimp only
      omega
    · rw [ofNat_toNat hf, ofNat_toNat hj]
  rw [hc.objects]
  refine ⟨?_, ?_, ?_⟩
  · intro p hp
    obtain ⟨q, hq, rfl⟩ := hposition p hp
    obtain ⟨hv, hv'⟩ := hvalue q hq
    dsimp only [Set.mem_ofPred_eq]
    omega
  · intro p hp p' hp' heq
    obtain ⟨q, hq, rfl⟩ := hposition p hp
    obtain ⟨q', hq', rfl⟩ := hposition p' hp'
    dsimp only at heq
    rw [(hvalue q hq).1, (hvalue q' hq').1] at heq
    have hnodup : ((positions (List.range total) g.segs).map fun p => g.plan.offset p.1 + p.2).Nodup := by
      rw [hnumbered]
      exact List.nodup_range
    rw [List.inj_on_of_nodup_map hnodup hq hq' (by omega)]
  · rintro k ⟨hk, hk'⟩
    have hmem : k.toNat ∈ (positions (List.range total) g.segs).map fun p => g.plan.offset p.1 + p.2 := by
      rw [hnumbered, List.mem_range]
      omega
    obtain ⟨q, hq, hqk⟩ := List.mem_map.mp hmem
    obtain ⟨hrow, hcol⟩ := mem_positions.mp hq
    have hf := List.mem_range.mp hrow
    have hdepth := toInt_flowDepth hc q.1
    have hdlt := (g.flowDepth (.ofNat q.1)).toInt_lt
    refine ⟨(.ofNat q.1, .ofNat q.2), ⟨?_, ?_, ?_, ?_⟩, ?_⟩
    · rw [Int64.le_iff_toInt_le, Int64.toInt_zero, toInt_ofNat (by omega)]
      omega
    · rw [Int64.lt_iff_toInt_lt, toInt_ofNat (by omega)]
      omega
    · rw [Int64.le_iff_toInt_le, Int64.toInt_zero, toInt_ofNat (by omega)]
      omega
    · dsimp only
      rw [Int64.lt_iff_toInt_lt, toInt_ofNat (by omega)]
      omega
    · dsimp only
      rw [(hvalue q hq).1]
      omega

/-- The plans and numbers of workers for which nothing wraps. -/
structure Plan.Fits (p : Plan) (totalWorkers : Int64) : Prop where
  index : p.totalFlows = 0 ∨ p.totalFlows.toInt - 1 + totalWorkers.toInt < 2 ^ 63
  deep : p.deepFlowCount = 0 ∨ p.deepDepth.toInt * p.chunkDurationSec.toInt * 10 ^ 9 < 2 ^ 63
  shallow : p.shallowFlowCount = 0 ∨ p.shallowDepth.toInt * p.chunkDurationSec.toInt * 10 ^ 9 < 2 ^ 63

theorem chunkNs_eq (hc : g.plan.Checked) (hgen : g = newGen g.plan g.seed) :
    ∃ c : ℕ, g.chunkNs = .ofNat c ∧ 0 < c ∧ c < 2 ^ 63 ∧ (c : ℤ) = g.plan.chunkDurationSec.toInt * 10 ^ 9 := by
  have hns : g.chunkNs = g.plan.chunkDurationSec * 1000000000 := congrArg Gen.chunkNs hgen
  rcases hc.chunk with h | h
  · exact ⟨10 ^ 9, by rw [hns, h]; rfl, by omega, by omega, by rw [h]; rfl⟩
  · exact ⟨6 * 10 ^ 9, by rw [hns, h]; rfl, by omega, by omega, by rw [h]; rfl⟩

/-- Every flow is tiled when the end of a flow of each depth that occurs is in range. -/
theorem tiles_iff (hc : g.plan.Checked) (he : g.plan.Exact) (hgen : g = newGen g.plan g.seed)
    (htotal : g.plan.totalFlows.toInt = total) :
    (∀ f : Int64, 0 ≤ f → f < g.plan.totalFlows →
      Tiles 0 ((((positions (List.range total) g.segs).map (visitAt D g 1)).filter (·.flowIdx = f)).map (·.cur))) ↔
      (g.plan.deepFlowCount = 0 ∨ g.plan.deepDepth.toInt * g.plan.chunkDurationSec.toInt * 10 ^ 9 < 2 ^ 63) ∧
      (g.plan.shallowFlowCount = 0 ∨ g.plan.shallowDepth.toInt * g.plan.chunkDurationSec.toInt * 10 ^ 9 < 2 ^ 63) := by
  obtain ⟨c, hchunk, hpos, hsmall, hc'⟩ := chunkNs_eq hc hgen
  have hlt := g.plan.totalFlows.toInt_lt
  have hsum := he.totalFlows
  have hdeep := hc.deepFlows
  have hshallow := he.shallowFlows
  have hflow : ∀ f < total, (Tiles 0 ((((positions (List.range total) g.segs).map (visitAt D g 1)).filter
      (·.flowIdx = Int64.ofNat f)).map (·.cur)) ↔ (g.flowDepth (.ofNat f)).toInt * c < 2 ^ 63) := by
    intro f hf
    have hd := toInt_flowDepth hc f
    have hdpos := flowDepth_pos hc (.ofNat f)
    rw [filter_flow htotal hf, tiles_flow D hchunk hpos hsmall _ (by omega), hd]
    exact_mod_cast Iff.rfl
  have hproduct (d : ℤ) : d * g.plan.chunkDurationSec.toInt * 10 ^ 9 = d * c := by
    rw [hc', mul_assoc]
  rw [hproduct, hproduct]
  have hcases (f : ℕ) (hf : f < total) : g.flowDepth (.ofNat f) =
      if f < g.plan.deepFlowCount.toInt.toNat then g.plan.deepDepth else g.plan.shallowDepth := by
    unfold Gen.flowDepth
    by_cases h : f < g.plan.deepFlowCount.toInt.toNat
    · rw [if_pos ((deep_iff hc (by omega)).mpr h), if_pos h]
    · rw [if_neg (mt (deep_iff hc (by omega)).mp h), if_neg h]
  have hzero (x : Int64) : x = 0 ↔ x.toInt = 0 := by
    rw [← Int64.toInt_inj, Int64.toInt_zero]
  rw [hzero, hzero]
  constructor
  · intro hall
    have hat (f : ℕ) (hf : f < total) : (g.flowDepth (.ofNat f)).toInt * c < 2 ^ 63 := by
      refine (hflow f hf).mp (hall _ ?_ ?_)
      · rw [Int64.le_iff_toInt_le, toInt_ofNat (by omega), Int64.toInt_zero]
        omega
      · rw [Int64.lt_iff_toInt_lt, toInt_ofNat (by omega), htotal]
        omega
    -- the first flow is deep and the last one shallow, if there are such flows
    refine ⟨?_, ?_⟩
    · by_cases h : g.plan.deepFlowCount.toInt = 0
      · exact Or.inl h
      · have hfirst := hat 0 (by omega)
        rw [hcases 0 (by omega), if_pos (by omega)] at hfirst
        exact Or.inr hfirst
    · by_cases h : g.plan.shallowFlowCount.toInt = 0
      · exact Or.inl h
      · have hlast := hat (total - 1) (by omega)
        rw [hcases _ (by omega), if_neg (by omega)] at hlast
        exact Or.inr hlast
  · rintro ⟨hd, hs⟩ f hf hf'
    rw [Int64.le_iff_toInt_le, Int64.toInt_zero] at hf
    rw [Int64.lt_iff_toInt_lt] at hf'
    rw [← ofNat_toNat hf, hflow _ (by omega), hcases _ (by omega)]
    by_cases h : f.toInt.toNat < g.plan.deepFlowCount.toInt.toNat
    · rw [if_pos h]
      exact hd.resolve_left (by omega)
    · rw [if_neg h]
      exact hs.resolve_left (by omega)

/-! ## The index after the last flow -/

theorem stride_end_lt {w n : ℕ} (hn : 0 < n) (hw : w < n) (hmax : n < 2 ^ 63)
    (h : total = 0 ∨ total - 1 + n < 2 ^ 63) : w + strideCount w n total * n < 2 ^ 63 := by
  by_cases hnone : strideCount w n total = 0
  · rw [hnone, Nat.zero_mul]
    omega
  · obtain ⟨c, hc⟩ := Nat.exists_eq_succ_of_ne_zero hnone
    have hlast : w + c * n < total := (lt_strideCount hn).mp (by omega)
    rw [hc, Nat.succ_mul]
    omega

/-- The worker that does the last flow ends at the index `total - 1 + n`. -/
theorem stride_end_last {n : ℕ} (hn : 0 < n) (hpos : 0 < total) :
    (total - 1) % n + strideCount ((total - 1) % n) n total * n = total - 1 + n := by
  have hdiv : (total - 1) % n + (total - 1) / n * n = total - 1 := by
    rw [Nat.mul_comm]
    exact Nat.mod_add_div _ _
  have hdone : (total - 1) / n < strideCount ((total - 1) % n) n total := by
    rw [lt_strideCount hn]
    omega
  have hlast : ¬ (total - 1) / n + 1 < strideCount ((total - 1) % n) n total := by
    rw [lt_strideCount hn, Nat.succ_mul]
    omega
  rw [show strideCount ((total - 1) % n) n total = (total - 1) / n + 1 by omega, Nat.succ_mul, ← Nat.add_assoc, hdiv]

/-- What a worker yields begins with the segments of its flows. -/
theorem worker_rest {n w : ℕ} {part : List SegmentIter} (hc : g.plan.Checked) (htotal : g.plan.totalFlows.toInt = total)
    (hn : 0 < n) (hmax : n < 2 ^ 63) (hw : w < n)
    (h : Drains (SegmentIter.turn D) (g.partitionedSegments (.ofNat w) (.ofNat n)) part) :
    ∃ extra depth cur, part = (positions (strided w n total) g.segs).map (visitAt D g (.ofNat n)) ++ extra ∧
      Emits (SegmentIter.turn D)
        (before g (.ofNat n) (.ofNat (w + strideCount w n total * n)) depth cur) extra := by
  rw [partitionedSegments_eq g hmax hw, drains_iff] at h
  obtain ⟨depth, cur, hruns⟩ := runs_strided (D := D) (w := w) hc htotal hn 0 ⟨0, [], [], 0, 0, []⟩
  obtain ⟨extra, hpart, hextra⟩ := hruns.rest h
  exact ⟨extra, depth, cur, hpart, hextra⟩

/-- An index that has wrapped is that of a flow. -/
theorem emits_wrapped {n i : ℕ} {depth : Int64} {cur : SegmentRow} {extra : List SegmentIter} (hc : g.plan.Checked)
    (htotal : g.plan.totalFlows.toInt = total) (hlow : 2 ^ 63 ≤ i) (hhigh : i < 2 ^ 64)
    (h : Emits (SegmentIter.turn D) (before g (.ofNat n) (.ofNat i) depth cur) extra) : extra ≠ [] := by
  have hf : Int64.ofNat i < g.plan.totalFlows := by
    rw [Int64.lt_iff_toInt_lt, toInt_ofNat_wrapped hlow hhigh]
    omega
  have hturn : (before g (.ofNat n) (.ofNat i) depth cur).turn D = .yield (visit D g (.ofNat n) (.ofNat i) 0) :=
    turn_before hf (flowDepth_pos hc _) depth cur
  cases h with
  | stop h => cases hturn.symm.trans h
  | skip h => cases hturn.symm.trans h
  | yield => exact List.cons_ne_nil _ _

/-- Together the workers yield as much as there is, so that none goes on after its flows. -/
theorem index_fits {n : ℕ} {parts : ℕ → List SegmentIter} (hc : g.plan.Checked)
    (htotal : g.plan.totalFlows.toInt = total) (hn : 0 < n) (hmax : n < 2 ^ 63)
    (hparts : ∀ w < n, Drains (SegmentIter.turn D) (g.partitionedSegments (.ofNat w) (.ofNat n)) (parts w))
    (hlen : ((List.range n).flatMap parts).length = (positions (List.range total) g.segs).length) :
    total = 0 ∨ total - 1 + n < 2 ^ 63 := by
  have hlt := g.plan.totalFlows.toInt_lt
  by_contra hwrap
  obtain ⟨hpos, hover⟩ := not_or.mp hwrap
  have hprefix : ∀ w ∈ List.range n, (positions (strided w n total) g.segs).length ≤ (parts w).length := by
    intro w hw
    obtain ⟨extra, -, -, hpart, -⟩ :=
      worker_rest hc htotal hn hmax (List.mem_range.mp hw) (hparts w (List.mem_range.mp hw))
    rw [hpart, List.length_append, List.length_map]
    omega
  have hlast : (total - 1) % n < n := Nat.mod_lt _ hn
  have hmore : (positions (strided ((total - 1) % n) n total) g.segs).length < (parts ((total - 1) % n)).length := by
    obtain ⟨extra, depth, cur, hpart, hextra⟩ := worker_rest hc htotal hn hmax hlast (hparts _ hlast)
    rw [stride_end_last hn (by omega)] at hextra
    have hne := emits_wrapped hc htotal (by omega) (by omega) hextra
    have := List.length_pos_iff.mpr hne
    rw [hpart, List.length_append, List.length_map]
    omega
  have hsum := List.sum_lt_sum _ _ hprefix ⟨_, List.mem_range.mpr hlast, hmore⟩
  have hshare := (positions_perm hn total g.segs).length_eq
  rw [List.length_flatMap] at hlen hshare
  omega

theorem loadsOnce_iff {n : ℕ} (hc : g.plan.Checked) (he : g.plan.Exact) (hgen : g = newGen g.plan g.seed)
    (htotal : g.plan.totalFlows.toInt = total) (hn : 0 < n) (hmax : n < 2 ^ 63) :
    LoadsOnce D g (.ofNat n) ↔ g.plan.Fits (.ofNat n) := by
  have hworkers : (Int64.ofNat n).toInt.toNat = n := by
    rw [toInt_ofNat hmax]
    exact Int.toNat_natCast n
  have hindex : (g.plan.totalFlows = 0 ∨ g.plan.totalFlows.toInt - 1 + (Int64.ofNat n).toInt < 2 ^ 63) ↔
      total = 0 ∨ total - 1 + n < 2 ^ 63 := by
    rw [← Int64.toInt_inj, Int64.toInt_zero, toInt_ofNat hmax]
    omega
  constructor
  · rintro ⟨⟨all, parts, hall, hparts, hperm, -, -, htiles⟩, -⟩
    rw [hworkers] at hparts hperm
    have heq := (drains_iff.mp hall).unique (emits_segments hc htotal)
    subst heq
    have hlen := hperm.length_eq
    simp only [List.length_map] at hlen
    obtain ⟨hdeep, hshallow⟩ := (tiles_iff hc he hgen htotal).mp htiles
    exact ⟨hindex.mpr (index_fits hc htotal hn hmax hparts hlen), hdeep, hshallow⟩
  · rintro ⟨hfits, hdeep, hshallow⟩
    refine ⟨⟨_, fun w => (positions (strided w n total) g.segs).map (visitAt D g (.ofNat n)),
      drains_iff.mpr (emits_segments hc htotal), ?_, ?_, ?_, ?_, (tiles_iff hc he hgen htotal).mpr ⟨hdeep, hshallow⟩⟩,
      indices_bijOn hc he htotal⟩
    · intro w hw
      rw [hworkers] at hw
      rw [partitionedSegments_eq g hmax hw, drains_iff]
      exact emits_strided hc htotal hn (stride_end_lt hn hw hmax (hindex.mp hfits)) _ _
    · rw [hworkers, map_cur, List.map_flatMap]
      simp only [map_cur]
      rw [← List.map_flatMap]
      exact (positions_perm hn total g.segs).map _
    · rw [hworkers]
      intro w hw w' hw' hne s hs s' hs' heq
      obtain ⟨q, hq, rfl⟩ := List.mem_map.mp hs
      obtain ⟨q', hq', rfl⟩ := List.mem_map.mp hs'
      have hflow := (mem_strided hn hw).mp (mem_positions.mp hq).1
      have hflow' := (mem_strided hn hw').mp (mem_positions.mp hq').1
      have hlt := g.plan.totalFlows.toInt_lt
      have hidx : q.1 = q'.1 := (ofNat_inj (by omega) (by omega)).mp heq
      rw [hidx] at hflow
      exact hne (hflow.2.symm.trans hflow'.2)
    · rw [List.length_map]
      exact length_positions hc he htotal

end

/-- The workers load the data set once if and only if neither their last index nor the end of a flow wraps. -/
theorem partitioned_load_iff {k : Knobs} {p : Plan} (hp : compose k = .ok p) (he : p.Exact) {totalWorkers : Int64}
    (hworkers : 1 ≤ totalWorkers) (D : Digest) (seed : UInt64) :
    LoadsOnce D (newGen p seed) totalWorkers ↔ p.Fits totalWorkers := by
  rw [Int64.le_iff_toInt_le, Int64.toInt_one] at hworkers
  have hflows : (newGen p seed).plan.totalFlows.toInt = (p.totalFlows.toInt.toNat : ℤ) := by
    have := he.totalFlows
    have := he.shallowFlows
    have := (compose_checked hp).deepFlows
    change p.totalFlows.toInt = _
    omega
  have hlt := totalWorkers.toInt_lt
  rw [← ofNat_toNat (x := totalWorkers) (by omega)]
  exact loadsOnce_iff (g := newGen p seed) (compose_checked hp) he rfl hflows (by omega) (by omega)

theorem smallPlan_loaded : compose smallKnobs = .ok smallPlan ∧ smallPlan.Exact ∧
    LoadsOnce plainDigest (newGen smallPlan 7) 2 :=
  ⟨compose_smallKnobs, smallPlan_exact, (partitioned_load_iff compose_smallKnobs smallPlan_exact (by decide) _ _).mpr
    ⟨by decide, by decide, by decide⟩⟩

def deepKnobs : Knobs := ⟨2000000000, 6, 2000000000, 100, 1, 4⟩

def deepPlan : Plan := { deepKnobs with
  deepSegments := 2000000000
  shallowFlowCount := 0
  shallowSegments := 0
  totalSegments := 2000000000
  totalFlows := 1
  sourcesCount := 1
  flowCollectionRows := 0
  objectsCount := 2000000000 }

/-- With one worker, the ends of the last rows of `deepPlan` have wrapped. -/
theorem deepPlan_wraps : compose deepKnobs = .ok deepPlan ∧ deepPlan.Exact ∧
    ¬ LoadsOnce plainDigest (newGen deepPlan 7) 1 := by
  have hp : compose deepKnobs = .ok deepPlan := by decide +kernel
  have he : deepPlan.Exact := by constructor <;> decide
  have hflows : (newGen deepPlan 7).plan.totalFlows.toInt = (1 : ℕ) := rfl
  have hiff := loadsOnce_iff (D := plainDigest) (n := 1) (compose_checked hp) he rfl hflows Nat.one_pos (by decide)
  refine ⟨hp, he, fun hload => ?_⟩
  rcases (hiff.mp hload).deep with h | h
  · exact absurd h (by decide)
  · exact absurd h (by decide)

end OpenTams.Dataset
