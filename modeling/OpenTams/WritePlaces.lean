import OpenTams.LoadWrites

/-!
# Where the load generator writes

The operations by the numbers of the plan: the flow and the indices of the segments that
an operation with a given number registers. In every run, what is sent is a call of an
operation that has begun, and operations of a kind have different numbers.
-/

namespace OpenTams.LoadWrites

open Dataset FairRun Arcs Iteration Strides

/-! ## Where the operations write -/

structure Shape (p : Plan) (F C d s c : ℕ) : Prop where
  deepFlows : p.deepFlowCount = .ofNat F
  shallowFlows : p.shallowFlowCount = .ofNat C
  deepDepth : p.deepDepth = .ofNat d
  shallowDepth : p.shallowDepth = .ofNat s
  chunk : p.chunkDurationSec = .ofNat c
  total : p.totalFlows.toInt = (F + C : ℕ)
  flows : 0 < F + C ∧ F + C < 2 ^ 63
  deep : 0 < d ∧ d < 2 ^ 63
  shallow : 0 < s ∧ s < 2 ^ 63
  seconds : 0 < c ∧ c ≤ 6

theorem compose_shape {k : Knobs} {p : Plan} (hp : compose k = .ok p) (hpos : 0 < p.totalFlows) :
    Shape p p.deepFlowCount.toInt.toNat p.shallowFlowCount.toInt.toNat p.deepDepth.toInt.toNat
      p.shallowDepth.toInt.toNat p.chunkDurationSec.toInt.toNat := by
  obtain ⟨-, hc, hcomputed⟩ := compose_ok hp
  rw [Int64.lt_iff_toInt_lt, Int64.toInt_zero] at hpos
  obtain ⟨hshallow, htotal⟩ := flows_of_pos hc hcomputed hpos
  have hdeep := hc.deepFlows
  have hlt := p.totalFlows.toInt_lt
  have hd := hc.deepDepth
  have hd' := p.deepDepth.toInt_lt
  have hs := hc.shallowDepth
  have hs' := p.shallowDepth.toInt_lt
  have hchunk : 0 < p.chunkDurationSec.toInt ∧ p.chunkDurationSec.toInt ≤ 6 := by
    rcases hc.chunk with h | h <;> rw [h] <;> decide
  exact ⟨(ofNat_toNat hdeep).symm, (ofNat_toNat hshallow).symm, (ofNat_toNat hd.le).symm, (ofNat_toNat hs.le).symm,
    (ofNat_toNat hchunk.1.le).symm, by omega, by omega, by omega, by omega, by omega⟩

def flowOf (F C : ℕ) : OpKind → ℕ → ℕ
  | .insertShallow, n => F + n % max C 1
  | _, n => n % max F 1

def base (d s : ℕ) : OpKind → ℕ
  | .insertDeep => d
  | .insertShallow => s
  | .registerBulk => d + 200000000
  | .idempotentRetry => d + 400000000

def offs (b : ℕ) : OpKind → ℕ → List ℕ
  | .registerBulk, n => (List.range b).map fun j => n * b + j
  | _, n => [n]

/-- What an operation counts by: its slot, if it has one. -/
def Executor.number (x : Executor) : OpKind → Int64 → Int64
  | .idempotentRetry, i => idemSlot i x.idemKeys
  | _, i => i

section
variable {x : Executor} {F C d s c : ℕ}

theorem max_one_ofNat {n : ℕ} (h : n < 2 ^ 63) : max (Int64.ofNat n) 1 = .ofNat (max n 1) := by
  have hle : Int64.ofNat n ≤ 1 ↔ n ≤ 1 := by
    rw [Int64.le_iff_toInt_le, toInt_ofNat h, Int64.toInt_one]
    omega
  change (if Int64.ofNat n ≤ 1 then 1 else Int64.ofNat n) = _
  by_cases hn : n ≤ 1
  · rw [if_pos (hle.mpr hn), Nat.max_eq_right hn]
    rfl
  · rw [if_neg (mt hle.mp hn), Nat.max_eq_left (by omega)]

theorem lgAppendBase_ofNat (depth region : ℕ) :
    lgAppendBase (.ofNat depth) (.ofNat region) = .ofNat (depth + region * 200000000) := by
  rw [lgAppendBase, show lgRegionStride = .ofNat 200000000 from rfl, ← Int64.ofNat_mul, ← Int64.ofNat_add]

theorem deepFlow_ofNat (hshape : Shape x.plan F C d s c) {n : ℕ} (hn : n < 2 ^ 63) :
    x.deepFlow (.ofNat n) = .ofNat (n % max F 1) := by
  have hflows := hshape.flows
  rw [Executor.deepFlow, hshape.deepFlows, max_one_ofNat (by omega), ofNat_mod hn (by omega)]

theorem shallowFlow_ofNat (hshape : Shape x.plan F C d s c) {n : ℕ} (hn : n < 2 ^ 63) :
    x.shallowFlow (.ofNat n) = .ofNat (F + n % max C 1) := by
  have hflows := hshape.flows
  rw [Executor.shallowFlow, hshape.deepFlows, hshape.shallowFlows, max_one_ofNat (by omega), ofNat_mod hn (by omega),
    ← Int64.ofNat_add]

/-- What an operation registers, by the numbers of the plan. -/
theorem calls_places (hshape : Shape x.plan F C d s c) {k : OpKind} {i : Int64} {n : ℕ} (hn : n < 2 ^ 63)
    (hi : x.number k i = .ofNat n) {r : Request} (hr : r ∈ x.calls k i) {seg : SegmentPost} (hseg : seg ∈ r.segs) :
    r.flow = .ofNat (flowOf F C k n) ∧
      ∃ o ∈ offs x.bulkSize.toInt.toNat k n, seg.timerange = trOne (.ofNat (base d s k + o)) (.ofNat c) := by
  have hdepth := hshape.deepDepth
  have htr (depth region m : ℕ) : trOne (lgAppendBase (.ofNat depth) (.ofNat region) + .ofNat m) x.chunk =
      trOne (.ofNat (depth + region * 200000000 + m)) (.ofNat c) := by
    rw [lgAppendBase_ofNat, ← Int64.ofNat_add, Executor.chunk, hshape.chunk]
  cases k with
  | insertDeep =>
    obtain rfl : i = .ofNat n := hi
    cases List.mem_singleton.mp hr
    cases List.mem_singleton.mp hseg
    refine ⟨deepFlow_ofNat hshape hn, n, List.mem_singleton_self n, ?_⟩
    rw [hdepth]
    exact htr d 0 n
  | insertShallow =>
    obtain rfl : i = .ofNat n := hi
    cases List.mem_singleton.mp hr
    cases List.mem_singleton.mp hseg
    refine ⟨shallowFlow_ofNat hshape hn, n, List.mem_singleton_self n, ?_⟩
    rw [hshape.shallowDepth]
    exact htr s 0 n
  | registerBulk =>
    obtain rfl : i = .ofNat n := hi
    change r ∈ x.doRegisterBulk _ at hr
    unfold Executor.doRegisterBulk at hr
    split at hr
    · cases hr
    rename_i hsize
    have hbulk : x.bulkSize = .ofNat x.bulkSize.toInt.toNat := by
      rw [Int64.lt_iff_toInt_lt, Int64.toInt_zero] at hsize
      exact (ofNat_toNat (by omega)).symm
    cases List.mem_singleton.mp hr
    obtain ⟨j, hj, rfl⟩ := List.mem_map.mp hseg
    refine ⟨deepFlow_ofNat hshape hn, _, List.mem_map.mpr ⟨j, hj, rfl⟩, ?_⟩
    dsimp only
    generalize x.bulkSize.toInt.toNat = b at hbulk
    rw [hdepth, hbulk, ← Int64.ofNat_mul, Int64.add_assoc, ← Int64.ofNat_add]
    exact htr d 1 _
  | idempotentRetry =>
    have hr' : r ∈ [_, _] := hr
    have hcall := List.mem_pair.mp hr'
    rw [or_self] at hcall
    subst hcall
    cases List.mem_singleton.mp hseg
    change idemSlot i x.idemKeys = .ofNat n at hi
    rw [hi, hdepth]
    exact ⟨deepFlow_ofNat hshape hn, n, List.mem_singleton_self n, htr d 2 n⟩

/-- An operation that stays in its region and has a segment to register. -/
theorem exists_number {k : OpKind} {i : Int64} (hne : x.offsets k i ≠ [])
    (hw : ∀ o ∈ x.offsets k i, 0 ≤ o ∧ o < 200000000) :
    ∃ n < 200000000, x.number k i = .ofNat n ∧ ∀ o ∈ offs x.bulkSize.toInt.toNat k n, o < 200000000 := by
  have hsingle {a : Int64} (h : 0 ≤ a.toInt ∧ a.toInt < 200000000) :
      ∃ n < 200000000, a = .ofNat n ∧ ∀ o ∈ [n], o < 200000000 := by
    refine ⟨a.toInt.toNat, by omega, (ofNat_toNat h.1).symm, fun o ho => ?_⟩
    rw [List.mem_singleton.mp ho]
    omega
  cases k with
  | registerBulk =>
    obtain ⟨b, hb⟩ : ∃ b, x.bulkSize.toInt.toNat = b := ⟨_, rfl⟩
    have hpos : 0 < b := by
      by_contra h
      rw [Executor.offsets, hb, Nat.eq_zero_of_not_pos h] at hne
      exact hne rfl
    have hsize : x.bulkSize.toInt = b := by omega
    have hoff (j : ℕ) (hj : j < b) : 0 ≤ i.toInt * b + j ∧ i.toInt * b + j < 200000000 := by
      refine hw _ (List.mem_map.mpr ⟨j, ?_, by rw [hsize]⟩)
      rw [hb]
      exact List.mem_range.mpr hj
    obtain ⟨hlow, hhigh⟩ := hoff 0 hpos
    have hnonneg : 0 ≤ i.toInt := by
      by_contra hneg
      have := Int.mul_le_mul_of_nonneg_right (show i.toInt ≤ -1 by omega) (Int.natCast_nonneg b)
      omega
    obtain ⟨n, hn⟩ := Int.eq_ofNat_of_zero_le hnonneg
    have hle : n ≤ n * b := Nat.le_mul_of_pos_right n hpos
    rw [hn] at hoff hhigh
    have hlt : n < 200000000 := by
      have : ((n * b : ℕ) : ℤ) < 200000000 := by push_cast; omega
      omega
    refine ⟨n, hlt, ?_, ?_⟩
    · have := ofNat_toNat hnonneg
      rw [hn] at this
      exact this.symm
    · intro o ho
      rw [hb] at ho
      obtain ⟨j, hj, rfl⟩ := List.mem_map.mp ho
      have := (hoff j (List.mem_range.mp hj)).2
      exact_mod_cast this
  | _ => exact hsingle (hw _ (List.mem_singleton_self _))

theorem offs_ne {b n n' : ℕ} (k : OpKind) (h : n ≠ n') {o o' : ℕ} (ho : o ∈ offs b k n) (ho' : o' ∈ offs b k n') :
    o ≠ o' := by
  cases k with
  | registerBulk =>
    obtain ⟨j, hj, rfl⟩ := List.mem_map.mp ho
    obtain ⟨j', hj', rfl⟩ := List.mem_map.mp ho'
    rw [List.mem_range] at hj hj'
    intro heq
    have hdiv (m i : ℕ) (hi : i < b) : (m * b + i) / b = m := by
      rw [Nat.mul_comm, Nat.mul_add_div (by omega), Nat.div_eq_of_lt hi, Nat.add_zero]
    exact h (by rw [← hdiv n j hj, heq, hdiv n' j' hj'])
  | _ => rwa [List.mem_singleton.mp ho, List.mem_singleton.mp ho']

end

/-! ## Runs -/

section
variable {α : Type}

theorem getElem?_concat {l : List α} {a b : α} {n : ℕ} :
    (l ++ [a])[n]? = some b ↔ l[n]? = some b ∨ n = l.length ∧ a = b := by
  rw [List.getElem?_append]
  split
  · rename_i h
    exact (or_iff_left fun hn => absurd hn.1 (Nat.ne_of_lt h)).symm
  · rename_i h
    rw [List.getElem?_eq_none (Nat.le_of_not_lt h), List.getElem?_singleton]
    split
    · simp; omega
    · simp; omega

end

structure State.Genuine (x : Executor) (s : State) : Prop where
  sent : ∀ (n : ℕ) (r : Request), (n, r) ∈ s.sent → ∃ k i, s.begun[n]? = some (k, i) ∧ r ∈ x.calls k i
  rest : ∀ (n : ℕ), ∀ r ∈ s.rest n, ∃ k i, s.begun[n]? = some (k, i) ∧ r ∈ x.calls k i

/-- The numbers of the operations of a kind rise, and are below the counter. -/
structure State.Counted (s : State) (k : OpKind) : Prop where
  nonneg : 0 ≤ (s.seqs k).toInt
  below : ∀ (n : ℕ) (i : Int64), s.begun[n]? = some (k, i) → i.toInt < (s.seqs k).toInt
  rising : ∀ (n n' : ℕ) (i i' : Int64), n < n' → s.begun[n]? = some (k, i) → s.begun[n']? = some (k, i') →
    i.toInt < i'.toInt

def State.started (x : Executor) (s : State) (k : OpKind) : State where
  seqs := Function.update s.seqs k (s.seqs k + 1)
  begun := s.begun ++ [(k, s.seqs k)]
  rest := Function.update s.rest s.begun.length (x.calls k (s.seqs k))
  sent := s.sent

def State.posted (s : State) (n : ℕ) (r : Request) (rs : List Request) : State :=
  { s with rest := Function.update s.rest n rs, sent := s.sent ++ [(n, r)] }

section
variable {x : Executor} {s s' : State}

theorem started_seqs (k : OpKind) : (s.started x k).seqs = Function.update s.seqs k (s.seqs k + 1) := rfl

theorem started_rest (k : OpKind) :
    (s.started x k).rest = Function.update s.rest s.begun.length (x.calls k (s.seqs k)) := rfl

theorem posted_rest (n : ℕ) (r : Request) (rs : List Request) : (s.posted n r rs).rest = Function.update s.rest n rs :=
  rfl

theorem step_start (x : Executor) (s : State) (k : OpKind) : step x s (.start k) = some (s.started x k) := by
  rw [step, next, State.started, Int64.add_sub_cancel]

theorem step_send {n : ℕ} {r : Request} {rs : List Request} (h : s.rest n = r :: rs) :
    step x s (.send n) = some (s.posted n r rs) := by
  rw [step, h]
  rfl

theorem step_cases {a : Act} (h : step x s a = some s') :
    (∃ k, s' = s.started x k) ∨ ∃ n r rs, s.rest n = r :: rs ∧ s' = s.posted n r rs := by
  cases a with
  | start k =>
    rw [step_start] at h
    cases h
    exact Or.inl ⟨k, rfl⟩
  | send n =>
    rw [step] at h
    split at h
    · cases h
    · rename_i r rs hrest
      cases h
      exact Or.inr ⟨n, r, rs, hrest, rfl⟩

theorem genuine_of_reach (h : Reach (step x) (fun _ => True) .init s) : s.Genuine x := by
  refine h.invariant (I := State.Genuine x) ⟨nofun, nofun⟩ ?_
  intro s a s' ih _ hstep
  rcases step_cases hstep with ⟨k, rfl⟩ | ⟨n, r, rs, hn, rfl⟩
  · have hold (n : ℕ) (r : Request) (h : ∃ k i, s.begun[n]? = some (k, i) ∧ r ∈ x.calls k i) :
        ∃ k' i, (s.started x k).begun[n]? = some (k', i) ∧ r ∈ x.calls k' i := by
      obtain ⟨k', i, hop, hr⟩ := h
      exact ⟨k', i, getElem?_concat.mpr (Or.inl hop), hr⟩
    refine ⟨fun n r hr => hold n r (ih.sent n r hr), fun n r hr => ?_⟩
    by_cases hn : n = s.begun.length
    · subst hn
      rw [started_rest, Function.update_self] at hr
      exact ⟨k, _, getElem?_concat.mpr (Or.inr ⟨rfl, rfl⟩), hr⟩
    · rw [started_rest, Function.update_of_ne hn] at hr
      exact hold n r (ih.rest n r hr)
  · have hcall : ∀ r' ∈ r :: rs, ∃ k i, s.begun[n]? = some (k, i) ∧ r' ∈ x.calls k i := by
      rw [← hn]
      exact ih.rest n
    constructor
    · intro m r' hr'
      rcases List.mem_append.mp hr' with hr' | hr'
      · exact ih.sent m r' hr'
      · cases List.mem_singleton.mp hr'
        exact hcall r List.mem_cons_self
    · intro m r' hr'
      by_cases hm : m = n
      · subst hm
        rw [posted_rest, Function.update_self] at hr'
        exact hcall r' (List.mem_cons_of_mem r hr')
      · rw [posted_rest, Function.update_of_ne hm] at hr'
        exact ih.rest m r' hr'

def Executor.Counting (x : Executor) : OpKind → Prop
  | .idempotentRetry => False
  | .registerBulk => 0 < x.bulkSize.toInt
  | _ => True

theorem Executor.Counting.number_eq {k : OpKind} (hk : x.Counting k) (i : Int64) : x.number k i = i := by
  cases k with
  | idempotentRetry => exact hk.elim
  | _ => rfl

theorem Executor.Counting.offsets_ne {k : OpKind} (hk : x.Counting k) (i : Int64) : x.offsets k i ≠ [] := by
  cases k with
  | idempotentRetry => exact hk.elim
  | registerBulk =>
    have hpos : 0 < x.bulkSize.toInt := hk
    rw [Executor.offsets, Ne, List.map_eq_nil_iff, List.range_eq_nil]
    omega
  | _ => exact List.cons_ne_nil _ _

theorem counted_of_reach (h : Reach (step x) (fun _ => True) .init s) (hw : s.Within x) {k : OpKind}
    (hk : x.Counting k) : s.Counted k := by
  revert hw
  refine h.invariant (I := fun s => s.Within x → s.Counted k) (fun _ => ⟨le_refl 0, nofun, nofun⟩) ?_
  intro s a s' ih _ hstep hw
  rcases step_cases hstep with ⟨k', rfl⟩ | ⟨n, r, rs, hn, rfl⟩
  · have hbefore : s.Counted k := ih fun op hop => hw op (List.mem_append_left _ hop)
    by_cases hkk : k' = k
    · subst hkk
      -- the number is in the region, so that the counter goes on without wrapping
      obtain ⟨i, hi, hnum, -⟩ := exists_number (hk.offsets_ne (s.seqs k'))
        (hw _ (List.mem_append_right _ (List.mem_singleton_self _)))
      rw [hk.number_eq] at hnum
      have hnow : (s.seqs k').toInt = i := by rw [hnum, toInt_ofNat (by omega)]
      have hthen : ((s.started x k').seqs k').toInt = i + 1 := by
        rw [started_seqs, Function.update_self, hnum, show Int64.ofNat i + 1 = .ofNat (i + 1) from (Int64.ofNat_add i 1).symm,
          toInt_ofNat (by omega)]
        rfl
      refine ⟨by omega, fun n i' hn => ?_, fun n n' i' i'' hlt hn hn' => ?_⟩
      · rw [hthen]
        rcases getElem?_concat.mp hn with hn | ⟨-, heq⟩
        · have := hbefore.below n i' hn
          omega
        · cases heq
          omega
      · rcases getElem?_concat.mp hn' with hn' | ⟨hlen, heq'⟩
        · rcases getElem?_concat.mp hn with hn | ⟨hlen, -⟩
          · exact hbefore.rising n n' i' i'' hlt hn hn'
          · have := (List.getElem?_eq_some_iff.mp hn').1
            omega
        · cases heq'
          rcases getElem?_concat.mp hn with hn | ⟨hlen', -⟩
          · exact hbefore.below n i' hn
          · omega
    · have hold {n : ℕ} {i : Int64} (hn : (s.started x k').begun[n]? = some (k, i)) : s.begun[n]? = some (k, i) := by
        rcases getElem?_concat.mp hn with hn | ⟨-, heq⟩
        · exact hn
        · exact absurd (congrArg Prod.fst heq) hkk
      have hseq : (s.started x k').seqs k = s.seqs k := Function.update_of_ne (Ne.symm hkk) _ _
      constructor
      · rw [hseq]
        exact hbefore.nonneg
      · intro n i hn
        rw [hseq]
        exact hbefore.below n i (hold hn)
      · exact fun n n' i i' hlt hn hn' => hbefore.rising n n' i i' hlt (hold hn) (hold hn')
  · obtain ⟨hnonneg, hbelow, hrising⟩ := ih hw
    exact ⟨hnonneg, hbelow, hrising⟩

/-- Two operations of a kind have different numbers. -/
theorem number_ne (h : Reach (step x) (fun _ => True) .init s) (hw : s.Within x) (hslots : s.DistinctSlots x)
    {k : OpKind} {n n' : ℕ} {i i' : Int64} (hne : n ≠ n') (hn : s.begun[n]? = some (k, i))
    (hn' : s.begun[n']? = some (k, i')) (hoffsets : x.offsets k i ≠ []) : x.number k i ≠ x.number k i' := by
  by_cases hidem : k = .idempotentRetry
  · subst hidem
    exact hslots n n' i i' hne hn hn'
  · have hk : x.Counting k := by
      cases k with
      | idempotentRetry => exact absurd rfl hidem
      | registerBulk =>
        rw [Executor.offsets, Ne, List.map_eq_nil_iff, List.range_eq_nil] at hoffsets
        show 0 < x.bulkSize.toInt
        omega
      | _ => trivial
    have hcounted := counted_of_reach h hw hk
    rw [hk.number_eq, hk.number_eq]
    intro heq
    rcases Nat.lt_or_gt_of_ne hne with hlt | hgt
    · exact absurd (hcounted.rising n n' i i' hlt hn hn') (by rw [heq]; omega)
    · exact absurd (hcounted.rising n' n i' i hgt hn' hn) (by rw [heq]; omega)

end

/-! ## What is written and what is loaded -/

section
variable {x : Executor} {st : State} {F C d s c : ℕ}

theorem offsets_ne_nil {k : OpKind} {i : Int64} {r : Request} (hr : r ∈ x.calls k i) {seg : SegmentPost}
    (hseg : seg ∈ r.segs) : x.offsets k i ≠ [] := by
  cases k with
  | registerBulk =>
    change r ∈ x.doRegisterBulk i at hr
    unfold Executor.doRegisterBulk at hr
    split at hr
    · cases hr
    · cases List.mem_singleton.mp hr
      obtain ⟨j, hj, -⟩ := List.mem_map.mp hseg
      exact List.ne_nil_of_mem (List.mem_map_of_mem hj)
  | _ => exact List.cons_ne_nil _ _

/-- A segment that an operation in its region has registered. -/
theorem exists_place (hshape : Shape x.plan F C d s c) (h : Reach (step x) (fun _ => True) .init st)
    (hw : st.Within x) {n : ℕ} {r : Request} (hr : (n, r) ∈ st.sent) {seg : SegmentPost} (hseg : seg ∈ r.segs) :
    ∃ k i m, st.begun[n]? = some (k, i) ∧ x.offsets k i ≠ [] ∧ x.number k i = .ofNat m ∧ m < 200000000 ∧
      r.flow = .ofNat (flowOf F C k m) ∧ ∃ o ∈ offs x.bulkSize.toInt.toNat k m, o < 200000000 ∧
        seg.timerange = trOne (.ofNat (base d s k + o)) (.ofNat c) := by
  obtain ⟨k, i, hop, hcall⟩ := (genuine_of_reach h).sent n r hr
  have hne := offsets_ne_nil hcall hseg
  obtain ⟨m, hm, hnum, hoffs⟩ := exists_number hne (hw _ (List.mem_of_getElem? hop))
  obtain ⟨hflow, o, ho, htr⟩ := calls_places hshape (by omega) hnum hcall hseg
  exact ⟨k, i, m, hop, hne, hnum, hm, hflow, o, ho, hoffs o ho, htr⟩

variable {p : Plan}

theorem flowOf_lt (hshape : Shape p F C d s c) (k : OpKind) (m : ℕ) : flowOf F C k m < 2 ^ 63 := by
  have hflows := hshape.flows
  have hmod (n : ℕ) : m % max n 1 < max n 1 := Nat.mod_lt m (by omega)
  have hF := hmod F
  have hC := hmod C
  cases k <;> simp only [flowOf] <;> omega

theorem segment_timerange (hshape : Shape p F C d s c) (D : Digest) (seed : UInt64) (f : Int64) (j : ℕ) :
    ((newGen p seed).segment D f (.ofNat j)).timerange = trOne (.ofNat j) (.ofNat c) := by
  rw [← hshape.chunk]
  rfl

/-- The loaded segments of a flow. -/
theorem loaded_iff (hc : p.Checked) (hshape : Shape p F C d s c) (D : Digest) (seed : UInt64) {f : ℕ} (hf : f < 2 ^ 63)
    {row : Dataset.SegmentRow} : Loaded D (newGen p seed) (.ofNat f) row ↔
      f < F + C ∧ ∃ j < (if f < F then d else s), row = (newGen p seed).segment D (.ofNat f) (.ofNat j) := by
  have hflows := hshape.flows
  have hemits := emits_segments (D := D) (g := newGen p seed) hc hshape.total
  have hsegs : (newGen p seed).segs f = if f < F then d else s := by
    have heq := segs_eq (g := newGen p seed) hc hf
    have hd := hshape.deep
    have hs := hshape.shallow
    rw [heq]
    change (if f < p.deepFlowCount.toInt.toNat then p.deepDepth.toInt.toNat else p.shallowDepth.toInt.toNat) = _
    rw [hshape.deepFlows, hshape.deepDepth, hshape.shallowDepth, toInt_ofNat (by omega), toInt_ofNat hd.2,
      toInt_ofNat hs.2]
    rfl
  constructor
  · rintro ⟨rows, hdrains, it, hit, hflow, rfl⟩
    cases (drains_iff.mp hdrains).unique hemits
    obtain ⟨⟨a, j⟩, hpos, rfl⟩ := List.mem_map.mp hit
    obtain ⟨ha, hj⟩ := mem_positions.mp hpos
    rw [List.mem_range] at ha
    obtain rfl : a = f := (ofNat_inj (by omega) hf).mp hflow
    exact ⟨ha, j, hsegs ▸ hj, rfl⟩
  · rintro ⟨htotal, j, hj, rfl⟩
    refine ⟨_, drains_iff.mpr hemits, visitAt D (newGen p seed) 1 (f, j), List.mem_map_of_mem ?_, rfl, rfl⟩
    exact mem_positions.mpr ⟨List.mem_range.mpr htotal, hsegs ▸ hj⟩

end

end OpenTams.LoadWrites
