import OpenTams.Errors
import OpenTams.Iteration
import OpenTams.TimerangeSound

/-!
# The data set of the scale test

`Compose` and the row generators of `tools/scaletest/dataset`. Deep flows come
first, shallow ones after them, and a source is a run of flows. The number of
shallow flows goes through `float64`. The digests that make the ids are an argument.
-/

namespace OpenTams.Dataset

open Iteration

/-! ## The plan -/

structure Knobs where
  targetSegments : Int64
  chunkDurationSec : Int64
  deepDepth : Int64
  shallowDepth : Int64
  deepFlowCount : Int64
  renditionsPerSource : Int64
  deriving DecidableEq

structure Plan extends Knobs where
  deepSegments : Int64
  shallowFlowCount : Int64
  shallowSegments : Int64
  totalSegments : Int64
  totalFlows : Int64
  sourcesCount : Int64
  flowCollectionRows : Int64
  objectsCount : Int64
  deriving DecidableEq

inductive ComposeError where
  | targetSegments (n : Int64)
  | chunkDurationSec (n : Int64)
  | deepDepth (n : Int64)
  | shallowDepth (n : Int64)
  | renditionsPerSource (n : Int64)
  | deepFlowCount (n : Int64)
  | deepExceedsTarget (deepSegs target count depth : Int64)
  deriving DecidableEq

/-- `math.Round`, half away from zero; what is not finite does not occur. -/
def round : Float.Model.UnpackedFloat → Int
  | .finite sign mantissa (.ofNat e) _ => sign.apply (mantissa * 2 ^ e)
  | .finite sign mantissa (.negSucc e) _ => sign.apply ((mantissa + 2 ^ e) / 2 ^ (e + 1))
  | _ => 0

/-- `int64(math.Round(float64(a) / float64(b)))`; 2^63 becomes the least integer, as on amd64. -/
def roundQuotient (a b : Int64) : Int64 :=
  Int64.ofInt (round (Float.Model.ofInt64 a / Float.Model.ofInt64 b).unpack)

def compose (k : Knobs) : Except ComposeError Plan :=
  if k.targetSegments ≤ 0 then .error (.targetSegments k.targetSegments)
  else if k.chunkDurationSec ≠ 1 ∧ k.chunkDurationSec ≠ 6 then .error (.chunkDurationSec k.chunkDurationSec)
  else if k.deepDepth ≤ 0 then .error (.deepDepth k.deepDepth)
  else if k.shallowDepth ≤ 0 then .error (.shallowDepth k.shallowDepth)
  else if k.renditionsPerSource ≤ 0 then .error (.renditionsPerSource k.renditionsPerSource)
  else if k.deepFlowCount < 0 then .error (.deepFlowCount k.deepFlowCount)
  else
    let deepSegs := k.deepFlowCount * k.deepDepth
    if k.targetSegments + k.targetSegments / 10 < deepSegs then
      .error (.deepExceedsTarget deepSegs k.targetSegments k.deepFlowCount k.deepDepth)
    else
      let shallowTarget := k.targetSegments - deepSegs
      let shallowCount := if 0 < shallowTarget then roundQuotient shallowTarget k.shallowDepth else 0
      let shallowSegs := shallowCount * k.shallowDepth
      let totalSegs := deepSegs + shallowSegs
      let totalFlows := k.deepFlowCount + shallowCount
      let sources :=
        if 0 < totalFlows then (totalFlows + k.renditionsPerSource - 1) / k.renditionsPerSource else 0
      .ok { k with
        deepSegments := deepSegs
        shallowFlowCount := shallowCount
        shallowSegments := shallowSegs
        totalSegments := totalSegs
        totalFlows
        sourcesCount := sources
        flowCollectionRows := totalFlows - sources
        objectsCount := totalSegs }

/-! ## Rows -/

structure Digest where
  uuid : UInt64 → String → Int64 → Uuid
  objectId : UInt64 → Int64 → Str

structure FlowCollectionRow where
  flowId : Uuid
  itemId : Uuid
  sortOrder : Int32
  deriving DecidableEq

structure SegmentRow where
  flowId : Uuid
  objectId : Str
  timerange : Str
  lowerNs : Int64
  upperNs : Int64
  tsOffset : Str
  deriving DecidableEq

structure Gen where
  plan : Plan
  seed : UInt64
  chunkNs : Int64

def newGen (p : Plan) (seed : UInt64) : Gen := ⟨p, seed, p.chunkDurationSec * 1000000000⟩

section
variable (D : Digest) (g : Gen)

def Gen.flowDepth (flowIdx : Int64) : Int64 :=
  if flowIdx < g.plan.deepFlowCount then g.plan.deepDepth else g.plan.shallowDepth

def Gen.globalSegIdx (flowIdx segIdx : Int64) : Int64 :=
  if flowIdx < g.plan.deepFlowCount then flowIdx * g.plan.deepDepth + segIdx
  else
    let deepTotal := g.plan.deepFlowCount * g.plan.deepDepth
    let shallowFlowOffset := flowIdx - g.plan.deepFlowCount
    deepTotal + shallowFlowOffset * g.plan.shallowDepth + segIdx

def secondsRange (startSec endSec : Int64) : Str :=
  lit "[" ++ intStr startSec.toInt ++ lit ":0_" ++ intStr endSec.toInt ++ lit ":0)"

def Gen.segment (flowIdx segIdx : Int64) : SegmentRow where
  flowId := D.uuid g.seed "flow" flowIdx
  objectId := D.objectId g.seed (g.globalSegIdx flowIdx segIdx)
  timerange := secondsRange (segIdx * g.plan.chunkDurationSec) ((segIdx + 1) * g.plan.chunkDurationSec)
  lowerNs := segIdx * g.chunkNs
  upperNs := (segIdx + 1) * g.chunkNs
  tsOffset := lit "0:0"

end

/-! ## Iterators -/

structure FlowCollectionIter where
  g : Gen
  srcIdx : Int64
  memberPos : Int64
  cur : FlowCollectionRow := ⟨0, 0, 0⟩
  rendsPer : Int64
  totalFlows : Int64

/-- Of `SegmentIter` and `PartitionedSegmentIter`; the first goes to the next flow, the second by the number of
workers. -/
structure SegmentIter where
  g : Gen
  stride : Int64
  flowIdx : Int64
  segIdx : Int64
  depth : Int64 := 0
  cur : SegmentRow := ⟨0, [], [], 0, 0, []⟩

def Gen.flowCollection (g : Gen) : FlowCollectionIter where
  g := g
  srcIdx := 0
  memberPos := 0
  rendsPer := g.plan.renditionsPerSource
  totalFlows := g.plan.totalFlows

def FlowCollectionIter.turn (D : Digest) (it : FlowCollectionIter) : Turn FlowCollectionIter :=
  if it.srcIdx < it.g.plan.sourcesCount then
    let remain := it.totalFlows - it.srcIdx * it.rendsPer
    let flowsInSrc := if remain < it.rendsPer then remain else it.rendsPer
    let memberPos := it.memberPos + 1
    if memberPos < flowsInSrc then
      let parent := it.srcIdx * it.rendsPer
      let member := parent + memberPos
      .yield { it with
        memberPos
        cur := ⟨D.uuid it.g.seed "flow" parent, D.uuid it.g.seed "flow" member, memberPos.toInt32⟩ }
    else .skip { it with srcIdx := it.srcIdx + 1, memberPos := 0 }
  else .stop

def Gen.segments (g : Gen) : SegmentIter := { g, stride := 1, flowIdx := 0, segIdx := -1 }

def Gen.partitionedSegments (g : Gen) (workerId totalWorkers : Int64) : SegmentIter :=
  let totalWorkers := if totalWorkers < 1 then 1 else totalWorkers
  let workerId := if workerId < 0 || totalWorkers ≤ workerId then g.plan.totalFlows else workerId
  { g, stride := totalWorkers, flowIdx := workerId, segIdx := -1 }

def SegmentIter.turn (D : Digest) (it : SegmentIter) : Turn SegmentIter :=
  if it.flowIdx < it.g.plan.totalFlows then
    let depth := if it.segIdx = -1 then it.g.flowDepth it.flowIdx else it.depth
    let segIdx := it.segIdx + 1
    if segIdx < depth then .yield { it with depth, segIdx, cur := it.g.segment D it.flowIdx segIdx }
    else .skip { it with depth, segIdx := -1, flowIdx := it.flowIdx + it.stride }
  else .stop

/-! ## Plans without overflow -/

theorem toInt_ofNat {n : ℕ} (h : n < 2 ^ 63) : (Int64.ofNat n).toInt = n := Int64.toInt_ofNat_of_lt h

theorem ofNat_lt {a b : ℕ} (ha : a < 2 ^ 63) (hb : b < 2 ^ 63) : Int64.ofNat a < Int64.ofNat b ↔ a < b := by
  rw [Int64.lt_iff_toInt_lt, toInt_ofNat ha, toInt_ofNat hb]
  omega

theorem ofNat_div {a b : ℕ} (ha : a < 2 ^ 63) (hb : b < 2 ^ 63) : Int64.ofNat a / Int64.ofNat b = .ofNat (a / b) := by
  have hle : a / b ≤ a := Nat.div_le_self a b
  apply Int64.toInt_inj.mp
  rw [Int64.toInt_div, toInt_ofNat ha, toInt_ofNat hb, ← Int.ofNat_tdiv, toInt_ofNat (by omega)]
  generalize a / b = q at *
  exact bmod64 (by omega) (by omega)

theorem ofNat_mod {a b : ℕ} (ha : a < 2 ^ 63) (hb : b < 2 ^ 63) : Int64.ofNat a % Int64.ofNat b = .ofNat (a % b) := by
  have hle : a % b ≤ a := Nat.mod_le a b
  apply Int64.toInt_inj.mp
  rw [Int64.toInt_mod, toInt_ofNat ha, toInt_ofNat hb, ← Int.ofNat_tmod, toInt_ofNat (by omega)]

theorem ofNat_inj {a b : ℕ} (ha : a < 2 ^ 63) (hb : b < 2 ^ 63) : Int64.ofNat a = Int64.ofNat b ↔ a = b := by
  rw [← Int64.toInt_inj, toInt_ofNat ha, toInt_ofNat hb, Int.natCast_inj]

theorem ofNat_toNat {x : Int64} (h : 0 ≤ x.toInt) : Int64.ofNat x.toInt.toNat = x := by
  have hlt := x.toInt_lt
  apply Int64.toInt_inj.mp
  rw [toInt_ofNat (by omega)]
  omega

structure Plan.Checked (p : Plan) : Prop where
  chunk : p.chunkDurationSec = 1 ∨ p.chunkDurationSec = 6
  deepDepth : 0 < p.deepDepth.toInt
  shallowDepth : 0 < p.shallowDepth.toInt
  renditions : 0 < p.renditionsPerSource.toInt
  deepFlows : 0 ≤ p.deepFlowCount.toInt
  objects : p.objectsCount = p.totalSegments
  collections : p.flowCollectionRows = p.totalFlows - p.sourcesCount
  sources : p.sourcesCount =
    if 0 < p.totalFlows then (p.totalFlows + p.renditionsPerSource - 1) / p.renditionsPerSource else 0

/-- The counts are those of the integers: no operation of `Compose` has left `int64`. -/
structure Plan.Exact (p : Plan) : Prop where
  deepSegments : p.deepSegments.toInt = p.deepFlowCount.toInt * p.deepDepth.toInt
  shallowFlows : 0 ≤ p.shallowFlowCount.toInt
  shallowSegments : p.shallowSegments.toInt = p.shallowFlowCount.toInt * p.shallowDepth.toInt
  totalSegments : p.totalSegments.toInt = p.deepSegments.toInt + p.shallowSegments.toInt
  totalFlows : p.totalFlows.toInt = p.deepFlowCount.toInt + p.shallowFlowCount.toInt
  sources : p.totalFlows.toInt + p.renditionsPerSource.toInt - 1 < 2 ^ 63

structure Plan.Computed (p : Plan) : Prop where
  target : 0 < p.targetSegments.toInt
  deepSegments : p.deepSegments = p.deepFlowCount * p.deepDepth
  bound : p.deepSegments ≤ p.targetSegments + p.targetSegments / 10
  shallowFlows : p.shallowFlowCount =
    if 0 < p.targetSegments - p.deepSegments then roundQuotient (p.targetSegments - p.deepSegments) p.shallowDepth else 0
  shallowSegments : p.shallowSegments = p.shallowFlowCount * p.shallowDepth
  totalSegments : p.totalSegments = p.deepSegments + p.shallowSegments
  totalFlows : p.totalFlows = p.deepFlowCount + p.shallowFlowCount

theorem compose_ok {k : Knobs} {p : Plan} (h : compose k = .ok p) : p.toKnobs = k ∧ p.Checked ∧ p.Computed := by
  unfold compose at h
  split at h
  · cases h
  rename_i htarget
  split at h
  · cases h
  rename_i hchunk
  split at h
  · cases h
  rename_i hdeep
  split at h
  · cases h
  rename_i hshallow
  split at h
  · cases h
  rename_i hrend
  split at h
  · cases h
  rename_i hcount
  dsimp only at h
  split at h
  · cases h
  rename_i hbound
  cases h
  rw [Int64.le_iff_toInt_le] at htarget hdeep hshallow hrend
  rw [Int64.lt_iff_toInt_lt] at hcount
  rw [not_and_or, not_not, not_not] at hchunk
  exact ⟨rfl,
    ⟨hchunk, Int.not_le.mp hdeep, Int.not_le.mp hshallow, Int.not_le.mp hrend, Int.not_lt.mp hcount, rfl, rfl, rfl⟩,
    ⟨Int.not_le.mp htarget, rfl, Int64.not_lt.mp hbound, rfl, rfl, rfl, rfl⟩⟩

theorem compose_checked {k : Knobs} {p : Plan} (h : compose k = .ok p) : p.Checked := (compose_ok h).2.1

def smallKnobs : Knobs := ⟨11, 6, 4, 3, 2, 2⟩

def smallPlan : Plan := { smallKnobs with
  deepSegments := 8
  shallowFlowCount := 1
  shallowSegments := 3
  totalSegments := 11
  totalFlows := 3
  sourcesCount := 2
  flowCollectionRows := 1
  objectsCount := 11 }

theorem smallPlan_exact : smallPlan.Exact := by
  constructor <;> decide

theorem compose_smallKnobs : compose smallKnobs = .ok smallPlan := by decide +kernel

def plainDigest : Digest := ⟨fun _ _ i => .ofInt 128 i.toInt, fun _ i => intStr i.toInt⟩

end OpenTams.Dataset
