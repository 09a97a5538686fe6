import OpenTams.Arcs
import OpenTams.DatasetSegments
import OpenTams.FairRun
import OpenTams.PlanOverflow
import OpenTams.RangeParse

/-!
# The writes of the load generator

`executor` of `tools/scaletest/loadgen`: the operations that register segments. Each
takes its number from a counter of its kind and appends to a flow beyond what has been
loaded, in a region of its own. A flow is named by its index in the plan; its id is the
digest of that.
-/

namespace OpenTams.LoadWrites

open Dataset FairRun Arcs Iteration

/-! ## Operations -/

def lgRegionStride : Int64 := 200000000

def lgRegInsertDeep : Int64 := 0

def lgRegRegisterBulk : Int64 := 1

def lgRegIdempotent : Int64 := 2

def lgRegInsertShallow : Int64 := 0

def lgAppendBase (depth region : Int64) : Int64 := depth + region * lgRegionStride

inductive OpKind where
  | insertDeep
  | insertShallow
  | registerBulk
  | idempotentRetry
  deriving DecidableEq

structure Executor where
  plan : Plan
  bulkSize : Int64
  idemKeys : Int64

structure SegmentPost where
  objectId : Str
  timerange : Str
  tsOffset : Str
  deriving DecidableEq

structure Request where
  flow : Int64
  segs : List SegmentPost
  key : Str
  deriving DecidableEq

def idemSlot (i keys : Int64) : Int64 := i % max keys 1

def trOne (segIdx chunk : Int64) : Str := secondsRange (segIdx * chunk) ((segIdx + 1) * chunk)

namespace Executor

variable (x : Executor)

def chunk : Int64 := x.plan.chunkDurationSec

def deepFlow (i : Int64) : Int64 := i % max x.plan.deepFlowCount 1

def shallowFlow (i : Int64) : Int64 := x.plan.deepFlowCount + i % max x.plan.shallowFlowCount 1

def doInsertDeep (i : Int64) : List Request :=
  let segIdx := lgAppendBase x.plan.deepDepth lgRegInsertDeep + i
  [⟨x.deepFlow i, [⟨lit "lg-deep-" ++ intStr i.toInt, trOne segIdx x.chunk, lit "0:0"⟩],
    lit "lg-deep-k-" ++ intStr i.toInt⟩]

def doInsertShallow (i : Int64) : List Request :=
  let segIdx := lgAppendBase x.plan.shallowDepth lgRegInsertShallow + i
  [⟨x.shallowFlow i, [⟨lit "lg-shallow-" ++ intStr i.toInt, trOne segIdx x.chunk, lit "0:0"⟩],
    lit "lg-shallow-k-" ++ intStr i.toInt⟩]

def doRegisterBulk (i : Int64) : List Request :=
  -- a slice of a negative length panics
  if x.bulkSize < 0 then []
  else
    let base := lgAppendBase x.plan.deepDepth lgRegRegisterBulk + i * x.bulkSize
    let segs := (List.range x.bulkSize.toInt.toNat).map fun j : ℕ =>
      ⟨lit "lg-bulk-" ++ intStr i.toInt ++ lit "-" ++ intStr j, trOne (base + .ofNat j) x.chunk, lit "0:0"⟩
    [⟨x.deepFlow i, segs, lit "lg-bulk-k-" ++ intStr i.toInt⟩]

def doIdempotent (i : Int64) : List Request :=
  let slot := idemSlot i x.idemKeys
  let segIdx := lgAppendBase x.plan.deepDepth lgRegIdempotent + slot
  let call : Request := ⟨x.deepFlow slot,
    [⟨lit "lg-idem-" ++ intStr slot.toInt, trOne segIdx x.chunk, lit "0:0"⟩], lit "lg-idem-k-" ++ intStr slot.toInt⟩
  [call, call]

def calls : OpKind → Int64 → List Request
  | .insertDeep => x.doInsertDeep
  | .insertShallow => x.doInsertShallow
  | .registerBulk => x.doRegisterBulk
  | .idempotentRetry => x.doIdempotent

end Executor

/-! ## Runs -/

/-- `begun` has the operations in the order in which they took their numbers, `rest` the calls that an operation has
still to make and `sent` those that have been made, by the place of the operation in `begun`. -/
structure State where
  seqs : OpKind → Int64
  begun : List (OpKind × Int64)
  rest : ℕ → List Request
  sent : List (ℕ × Request)

def State.init : State := ⟨fun _ => 0, [], fun _ => [], []⟩

def next (seqs : OpKind → Int64) (k : OpKind) : Int64 × (OpKind → Int64) :=
  (seqs k + 1 - 1, Function.update seqs k (seqs k + 1))

inductive Act where
  | start (k : OpKind)
  | send (n : ℕ)

def step (x : Executor) (s : State) : Act → Option State
  | .start k =>
    let (i, seqs) := next s.seqs k
    some { s with
      seqs
      begun := s.begun ++ [(k, i)]
      rest := Function.update s.rest s.begun.length (x.calls k i) }
  | .send n =>
    match s.rest n with
    | [] => none
    | r :: rs => some { s with rest := Function.update s.rest n rs, sent := s.sent ++ [(n, r)] }

def Executor.offsets (x : Executor) : OpKind → Int64 → List ℤ
  | .insertDeep, i => [i.toInt]
  | .insertShallow, i => [i.toInt]
  | .registerBulk, i => (List.range x.bulkSize.toInt.toNat).map fun j : ℕ => i.toInt * x.bulkSize.toInt + j
  | .idempotentRetry, i => [(idemSlot i x.idemKeys).toInt]

def State.Within (x : Executor) (s : State) : Prop :=
  ∀ op ∈ s.begun, ∀ o ∈ x.offsets op.1 op.2, 0 ≤ o ∧ o < lgRegionStride.toInt

def State.DistinctSlots (x : Executor) (s : State) : Prop :=
  ∀ (n n' : ℕ) (i i' : Int64), n ≠ n' → s.begun[n]? = some (.idempotentRetry, i) →
    s.begun[n']? = some (.idempotentRetry, i') → idemSlot i x.idemKeys ≠ idemSlot i' x.idemKeys

/-! ## Collisions -/

def Overlap (tr tr' : Str) : Prop :=
  ∃ r r', parse tr = .ok r ∧ parse tr' = .ok r' ∧ (r.denote ∩ r'.denote).Nonempty

def Loaded (D : Digest) (g : Gen) (flow : Int64) (row : Dataset.SegmentRow) : Prop :=
  ∃ rows, Drains (SegmentIter.turn D) g.segments rows ∧ ∃ it ∈ rows, it.flowIdx = flow ∧ it.cur = row

/-- Two operations do not register overlapping ranges on a flow, and none a range that overlaps a loaded segment. -/
structure State.Apart (D : Digest) (g : Gen) (s : State) : Prop where
  writes : ∀ (n n' : ℕ) (r r' : Request), n ≠ n' → (n, r) ∈ s.sent → (n', r') ∈ s.sent → r.flow = r'.flow →
    ∀ seg ∈ r.segs, ∀ seg' ∈ r'.segs, ¬ Overlap seg.timerange seg'.timerange
  loaded : ∀ (n : ℕ) (r : Request), (n, r) ∈ s.sent → ∀ seg ∈ r.segs, ∀ row, Loaded D g r.flow row →
    ¬ Overlap seg.timerange row.timerange

def NeverCollides (D : Digest) (p : Plan) (seed : UInt64) : Prop :=
  ∀ (bulkSize idemKeys : Int64) (s : State), Reach (step ⟨p, bulkSize, idemKeys⟩) (fun _ => True) .init s →
    s.Within ⟨p, bulkSize, idemKeys⟩ → s.DistinctSlots ⟨p, bulkSize, idemKeys⟩ → s.Apart D (newGen p seed)

/-! ## Ranges of seconds -/

theorem secondsText (a : ℤ) : TimestampText (intStr a ++ lit ":0") (a * 1000000000) := by
  have hns : validNano (lit "0") = true := by decide
  have hzero : decVal (lit "0") = 0 := by decide
  by_cases h : a < 0
  · have htext := TimestampText.neg (validInt_decStr (-a).toNat) hns
    have hvalue : -(((-a).toNat : ℤ) * 1000000000 + (0 : ℕ)) = a * 1000000000 := by omega
    rw [decVal_decStr, hzero, hvalue] at htext
    rw [intStr, if_pos h]
    exact htext
  · have htext := TimestampText.pos (validInt_decStr a.toNat) hns
    have hvalue : (a.toNat : ℤ) * 1000000000 + (0 : ℕ) = a * 1000000000 := by omega
    rw [decVal_decStr, hzero, hvalue] at htext
    rw [intStr, if_neg h]
    exact htext

theorem parseTimestamp_seconds (a : Int64) : parseTimestamp (intStr a.toInt ++ lit ":0") = .ok ⟨a, 0⟩ := by
  have hvalid : (⟨a, 0⟩ : Timestamp).Valid :=
    ⟨show 0 ≤ (0 : Int32).toInt by decide, show (0 : Int32).toInt < 1000000000 by decide⟩
  have hvalue : (⟨a, 0⟩ : Timestamp).value = a.toInt * 1000000000 := by
    rw [Timestamp.value, Int32.toInt_zero, add_zero]
  obtain ⟨hlo, hhi⟩ := hvalid.value_bounds
  rw [hvalue] at hlo hhi
  obtain ⟨ts, hp, hv, he⟩ := parseTimestamp_of_text (secondsText a.toInt) hlo hhi
  rw [hp, Timestamp.value_inj hv hvalid (he.trans hvalue.symm)]

theorem parse_secondsRange (a b : Int64) :
    parse (secondsRange a b) = .ok ⟨some ⟨a, 0⟩, .inclusive, some ⟨b, 0⟩, .exclusive⟩ := by
  have hside (s : Str) (c : Int64) (exclusive : Bool) : parseSide s (intStr c.toInt ++ lit ":0") exclusive =
      .ok (some ⟨c, 0⟩, if exclusive then .exclusive else .inclusive) := by
    rw [parseSide, if_neg (secondsText c.toInt).ne_nil, parseTimestamp_seconds]
  have htext : secondsRange a b =
      [ch '['] ++ (intStr a.toInt ++ lit ":0" ++ ch '_' :: (intStr b.toInt ++ lit ":0") ++ [ch ')']) := by
    simp [secondsRange, lit]
  rw [htext]
  exact parse_span (Or.inr (Or.inl rfl)) (Or.inr (Or.inr rfl)) (secondsText a.toInt).plain (secondsText b.toInt).plain
    (fun s => hside s a _) (fun s => hside s b _)

theorem mem_denote_seconds (a b : Int64) (n : ℤ) :
    n ∈ (⟨some ⟨a, 0⟩, .inclusive, some ⟨b, 0⟩, .exclusive⟩ : TimeRange).denote ↔
      a.toInt * 1000000000 ≤ n ∧ n < b.toInt * 1000000000 := by
  rw [TimeRange.mem_denote_bounded (by decide) (by decide)]
  simp [Timestamp.value, BoundType.startShift, BoundType.endShift]

theorem overlap_seconds (a b a' b' : Int64) : Overlap (secondsRange a b) (secondsRange a' b') ↔
    ∃ t : ℤ, (a.toInt ≤ t ∧ t < b.toInt) ∧ a'.toInt ≤ t ∧ t < b'.toInt := by
  constructor
  · rintro ⟨r, r', hp, hp', n, hn, hn'⟩
    rw [parse_secondsRange] at hp hp'
    cases hp
    cases hp'
    rw [mem_denote_seconds] at hn hn'
    exact ⟨n / 1000000000, by omega⟩
  · rintro ⟨t, ht⟩
    refine ⟨_, _, parse_secondsRange a b, parse_secondsRange a' b', t * 1000000000, ?_, ?_⟩
    · rw [mem_denote_seconds]
      omega
    · rw [mem_denote_seconds]
      omega

/-- The seconds of `int64` are a circle that is cut before `2 ^ 63`. -/
theorem toInt_ofNat_first (x c : ℕ) : (Int64.ofNat (x * c)).toInt = first (2 ^ 64) (2 ^ 63) c x - 2 ^ 63 := by
  have hbmod : (Int64.ofNat (x * c)).toInt = ((x * c : ℕ) : ℤ).bmod (2 ^ 64) := Int64.toInt_ofNat'
  rw [hbmod, first, Int.bmod_def]
  omega

/-- The ranges of two segments overlap as arcs of that circle do. -/
theorem overlap_trOne (c x y : ℕ) : Overlap (trOne (.ofNat x) (.ofNat c)) (trOne (.ofNat y) (.ofNat c)) ↔
    Meet (2 ^ 64) (2 ^ 63) c x y := by
  have hrange (z : ℕ) : trOne (.ofNat z) (.ofNat c) = secondsRange (.ofNat (z * c)) (.ofNat ((z + 1) * c)) := by
    rw [trOne, Int64.ofNat_mul, Int64.ofNat_mul, Int64.ofNat_add]
    rfl
  rw [hrange, hrange, overlap_seconds, toInt_ofNat_first, toInt_ofNat_first, toInt_ofNat_first, toInt_ofNat_first]
  constructor
  · rintro ⟨t, ht⟩
    exact ⟨(t + 2 ^ 63).toNat, ⟨by omega, by omega⟩, by omega, by omega⟩
  · rintro ⟨t, ⟨hx, hx'⟩, hy, hy'⟩
    exact ⟨t - 2 ^ 63, by omega⟩

end OpenTams.LoadWrites
