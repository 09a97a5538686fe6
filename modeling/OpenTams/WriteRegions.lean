import OpenTams.WritePlaces

/-!
# The regions of the load generator

No run collides exactly if the regions are apart. Those of a flow have to fit into the
seconds of `int64`. Where there are no deep flows, the operations that are meant for them
write to the first shallow flow, and only by its depths are they apart there.
-/

namespace OpenTams.LoadWrites

open Dataset FairRun Arcs

/-! ## Regions that are apart -/

/-- The second up to which the first flow, if it is a shallow one, is taken by its loaded segments and by those that
`doInsertShallow` appends to it. A range over `2 ^ 63` is left out: its end has wrapped, and nothing is in it. -/
def shallowEnd (C s c : ℕ) : ℕ :=
  let last := s + (200000000 - 1) / C * C
  max (s * c) (if Cut (2 ^ 63) c (last * c) then (last + 1 - C) * c else (last + 1) * c)

/-- The three regions beyond `DeepDepth` and the one beyond `ShallowDepth` fit into the seconds of `int64`. Without deep
flows the three are on the first shallow flow, and have to come after what is there. -/
structure RegionsApart (F C d s c : ℕ) : Prop where
  deep : F ≠ 0 → (d + 600000000) * c ≤ 2 ^ 64
  shallow : C ≠ 0 → (s + 200000000) * c ≤ 2 ^ 64
  shared : F = 0 → d * c % 2 ^ 64 + 600000000 * c ≤ 2 ^ 64 ∧ shallowEnd C s c ≤ wholeFrom (2 ^ 63) c (d * c % 2 ^ 64)

section
variable {F C d s c : ℕ}

theorem deep_base {k : OpKind} (hk : k ≠ .insertShallow) {o : ℕ} (ho : o < 200000000) :
    ∃ o' < 600000000, base d s k + o = d + o' := by
  cases k with
  | insertDeep => exact ⟨o, by omega, rfl⟩
  | insertShallow => exact absurd rfl hk
  | registerBulk => exact ⟨200000000 + o, by omega, Nat.add_assoc d _ o⟩
  | idempotentRetry => exact ⟨400000000 + o, by omega, Nat.add_assoc d _ o⟩

theorem deep_base_ne {k k' : OpKind} (hk : k ≠ .insertShallow) (hk' : k' ≠ .insertShallow) (hne : k ≠ k') {o o' : ℕ}
    (ho : o < 200000000) (ho' : o' < 200000000) : base d s k + o ≠ base d s k' + o' := by
  cases k <;> cases k' <;> first | exact absurd rfl hne | exact absurd rfl hk | exact absurd rfl hk' | skip
  all_goals
    simp only [base]
    omega

theorem deep_flow_lt {k : OpKind} (hk : k ≠ .insertShallow) (hF : F ≠ 0) (m : ℕ) : flowOf F C k m < F := by
  have hlt : m % max F 1 < max F 1 := Nat.mod_lt m (by omega)
  cases k with
  | insertShallow => exact absurd rfl hk
  | _ => exact (Nat.lt_of_lt_of_eq hlt (Nat.max_eq_left (by omega)))

theorem deep_flow_zero {k : OpKind} (hk : k ≠ .insertShallow) (m : ℕ) : flowOf 0 C k m = 0 := by
  cases k with
  | insertShallow => exact absurd rfl hk
  | _ => exact Nat.mod_one m

def OnFirst (C s z : ℕ) : Prop := z < s ∨ ∃ m < 200000000, C ∣ m ∧ z = s + m

theorem whole_le_shallowEnd (hC : C ≠ 0) (hfit : (s + 200000000) * c ≤ 2 ^ 64) {z : ℕ} (hz : OnFirst C s z)
    (hwhole : Whole (2 ^ 64) (2 ^ 63) c z) : z * c + c ≤ shallowEnd C s c := by
  rw [← Nat.succ_mul]
  rcases hz with hz | ⟨m, hm, ⟨q, rfl⟩, rfl⟩
  · exact (Nat.mul_le_mul_right c hz).trans (Nat.le_max_left _ _)
  refine Nat.le_trans ?_ (Nat.le_max_right _ _)
  have hq : q ≤ (200000000 - 1) / C := (Nat.le_div_iff_mul_le (Nat.pos_of_ne_zero hC)).mpr (by rw [Nat.mul_comm]; omega)
  have hle : C * q ≤ (200000000 - 1) / C * C := by
    rw [Nat.mul_comm]
    exact Nat.mul_le_mul_right C hq
  by_cases hcut : Cut (2 ^ 63) c ((s + (200000000 - 1) / C * C) * c)
  · rw [if_pos hcut]
    have hlt : q < (200000000 - 1) / C := by
      refine Nat.lt_of_le_of_ne hq fun heq => ?_
      have hend : (s + C * q) * c + c ≤ 2 ^ 64 := by
        rw [← Nat.succ_mul]
        exact (Nat.mul_le_mul_right c (by omega)).trans hfit
      refine (whole_iff (by omega) (by omega) hend).mp hwhole ?_
      rw [heq, Nat.mul_comm C]
      exact hcut
    have hstep : C * q + C ≤ (200000000 - 1) / C * C := by
      rw [← Nat.mul_succ, Nat.mul_comm]
      exact Nat.mul_le_mul_right C hlt
    exact Nat.mul_le_mul_right c (by omega)
  · rw [if_neg hcut]
    exact Nat.mul_le_mul_right c (by omega)

/-- On the first flow, what is beyond `DeepDepth` does not meet the rest. -/
theorem RegionsApart.first_flow (hapart : RegionsApart 0 C d s c) (hc : 0 < c ∧ c ≤ 6) (hC : C ≠ 0) {o z : ℕ}
    (ho : o < 600000000) (hz : OnFirst C s z) : ¬ Meet (2 ^ 64) (2 ^ 63) c (d + o) z := by
  intro hmeet
  obtain ⟨hend, hle⟩ := hapart.shared rfl
  obtain ⟨hwo, hwz⟩ := hmeet.whole (by omega)
  have hnext : o * c + c ≤ 600000000 * c := by
    rw [← Nat.succ_mul]
    exact Nat.mul_le_mul_right c ho
  have hz := whole_le_shallowEnd hC (hapart.shallow hC) hz hwz
  rw [whole_stretch_iff (by omega) (by omega) rfl (by omega)] at hwo
  have hstart : wholeFrom (2 ^ 63) c (d * c % 2 ^ 64) ≤ d * c % 2 ^ 64 + o * c := by
    unfold wholeFrom
    split
    · rename_i hcut
      refine Nat.add_le_add_left (Nat.le_mul_of_pos_left c (Nat.pos_of_ne_zero ?_)) _
      rintro rfl
      rw [Nat.zero_mul, Nat.add_zero] at hwo
      exact hwo hcut
    · exact Nat.le_add_right _ _
  exact not_meet_before (by omega) rfl (by omega) (by omega) hmeet

section
variable (hapart : RegionsApart F C d s c) (hc : 0 < c ∧ c ≤ 6) (hflows : 0 < F + C)
include hapart hc hflows

/-- A deep and a shallow write are on different flows, unless the first flow is a shallow one. -/
theorem RegionsApart.deep_shallow {k : OpKind} (hk : k ≠ .insertShallow) {m m' o : ℕ} (ho : o < 200000000)
    (hm' : m' < 200000000) (hflow : flowOf F C k m = flowOf F C .insertShallow m') :
    ¬ Meet (2 ^ 64) (2 ^ 63) c (base d s k + o) (s + m') := by
  have hshallow : flowOf F C .insertShallow m' = F + m' % max C 1 := rfl
  by_cases hF : F = 0
  · subst hF
    rw [deep_flow_zero hk, hshallow, Nat.max_eq_left (by omega)] at hflow
    obtain ⟨o', ho', heq⟩ := deep_base (d := d) (s := s) hk ho
    rw [heq]
    exact hapart.first_flow hc (by omega) ho' (Or.inr ⟨m', hm', Nat.dvd_of_mod_eq_zero (by omega), rfl⟩)
  · have := deep_flow_lt (C := C) hk hF m
    omega

theorem RegionsApart.writes {b m m' o o' : ℕ} {k k' : OpKind} (ho : o ∈ offs b k m) (ho' : o' ∈ offs b k' m')
    (hlt : o < 200000000) (hlt' : o' < 200000000) (hne : k = k' → m ≠ m')
    (hflow : flowOf F C k m = flowOf F C k' m') :
    ¬ Meet (2 ^ 64) (2 ^ 63) c (base d s k + o) (base d s k' + o') := by
  have hsmall : 600000000 * c ≤ 2 ^ 64 := by omega
  by_cases hk : k = .insertShallow
  · subst hk
    cases List.mem_singleton.mp ho
    by_cases hk' : k' = .insertShallow
    · subst hk'
      cases List.mem_singleton.mp ho'
      have := hne rfl
      exact not_meet_of_near (by omega) (by simp only [base]; omega) (by simp only [base]; omega)
        (by simp only [base]; omega) hsmall
    · exact fun hmeet => hapart.deep_shallow hc hflows hk' hlt' hlt hflow.symm hmeet.symm
  · by_cases hk' : k' = .insertShallow
    · subst hk'
      cases List.mem_singleton.mp ho'
      exact hapart.deep_shallow hc hflows hk hlt hlt' hflow
    · have hdiff : base d s k + o ≠ base d s k' + o' := by
        by_cases hkk : k = k'
        · subst hkk
          have := offs_ne k (hne rfl) ho ho'
          omega
        · exact deep_base_ne hk hk' hkk hlt hlt'
      obtain ⟨q, hq, heq⟩ := deep_base (d := d) (s := s) hk hlt
      obtain ⟨q', hq', heq'⟩ := deep_base (d := d) (s := s) hk' hlt'
      rw [heq, heq'] at hdiff ⊢
      exact not_meet_of_near (by omega) hdiff (by omega) (by omega) hsmall

theorem RegionsApart.loaded {b m o j : ℕ} {k : OpKind} (ho : o ∈ offs b k m) (hlt : o < 200000000)
    (hflow : flowOf F C k m < F + C) (hj : j < if flowOf F C k m < F then d else s) :
    ¬ Meet (2 ^ 64) (2 ^ 63) c (base d s k + o) j := by
  by_cases hk : k = .insertShallow
  · subst hk
    cases List.mem_singleton.mp ho
    have hge : F ≤ flowOf F C .insertShallow m := Nat.le_add_right F _
    rw [if_neg (by omega)] at hj
    exact not_meet_of_near (by omega) (by simp only [base]; omega) (by simp only [base]; omega)
      (by simp only [base]; omega) (hapart.shallow (by omega))
  · obtain ⟨q, hq, heq⟩ := deep_base (d := d) (s := s) hk hlt
    rw [heq]
    by_cases hF : F = 0
    · subst hF
      rw [if_neg (by omega)] at hj
      exact hapart.first_flow hc (by omega) hq (Or.inl hj)
    · rw [if_pos (deep_flow_lt hk hF m)] at hj
      exact not_meet_of_near (by omega) (by omega) (by omega) (by omega) (hapart.deep hF)

end

theorem neverCollides_of_apart {p : Plan} (hp : p.Checked) (hshape : Shape p F C d s c)
    (hapart : RegionsApart F C d s c) (D : Digest) (seed : UInt64) : NeverCollides D p seed := by
  intro bulkSize idemKeys st h hw hslots
  have hc := hshape.seconds
  have hflows := hshape.flows.1
  constructor
  · intro n n' r r' hne hr hr' hflow seg hseg seg' hseg'
    obtain ⟨k, i, m, hop, hoffs, hnum, hm, hf, o, ho, hlt, htr⟩ := exists_place hshape h hw hr hseg
    obtain ⟨k', i', m', hop', -, hnum', hm', hf', o', ho', hlt', htr'⟩ := exists_place hshape h hw hr' hseg'
    rw [hf, hf', ofNat_inj (flowOf_lt hshape k m) (flowOf_lt hshape k' m')] at hflow
    rw [htr, htr', overlap_trOne]
    refine hapart.writes hc hflows ho ho' hlt hlt' (fun hkk heq => ?_) hflow
    subst hkk heq
    exact number_ne h hw hslots hne hop hop' hoffs (hnum.trans hnum'.symm)
  · intro n r hr seg hseg row hrow
    obtain ⟨k, i, m, -, -, -, hm, hf, o, ho, hlt, htr⟩ := exists_place hshape h hw hr hseg
    rw [hf] at hrow
    obtain ⟨htotal, j, hj, rfl⟩ := (loaded_iff hp hshape D seed (flowOf_lt hshape k m)).mp hrow
    rw [htr, segment_timerange hshape, overlap_trOne]
    exact hapart.loaded hc hflows ho hlt htotal hj

end

/-! ## Runs that collide -/

def unitExecutor (p : Plan) : Executor := ⟨p, 1, 200000000⟩

structure State.Tame (st : State) : Prop where
  nodup : st.begun.Nodup
  small : ∀ op ∈ st.begun, ∃ i < 200000000, op.2 = Int64.ofNat i

section
variable {p : Plan}

theorem number_unit (k : OpKind) {i : ℕ} (hi : i < 200000000) : (unitExecutor p).number k (.ofNat i) = .ofNat i := by
  cases k with
  | idempotentRetry =>
    change Int64.ofNat i % max (Int64.ofNat 200000000) 1 = _
    rw [max_one_ofNat (by omega), ofNat_mod (by omega) (by omega), Nat.mod_eq_of_lt (by omega)]
  | _ => rfl

theorem offs_unit (k : OpKind) (m : ℕ) : offs (unitExecutor p).bulkSize.toInt.toNat k m = [m] := by
  cases k with
  | registerBulk => exact congrArg (fun n => [n]) (Nat.mul_one m)
  | _ => rfl

theorem offsets_unit (k : OpKind) {i : ℕ} (hi : i < 200000000) : (unitExecutor p).offsets k (.ofNat i) = [(i : ℤ)] := by
  have htoInt : (Int64.ofNat i).toInt = i := toInt_ofNat (by omega)
  cases k with
  | registerBulk =>
    have hone : (unitExecutor p).bulkSize.toInt = 1 := rfl
    rw [Executor.offsets, hone, htoInt]
    exact congrArg (fun n => [n]) (by simp)
  | idempotentRetry =>
    have hslot := number_unit (p := p) .idempotentRetry hi
    change [((unitExecutor p).number .idempotentRetry (.ofNat i)).toInt] = _
    rw [hslot, htoInt]
  | _ => exact congrArg (fun n => [n]) htoInt

theorem State.Tame.within {st : State} (ht : st.Tame) : st.Within (unitExecutor p) := by
  intro op hop o ho
  obtain ⟨i, hi, heq⟩ := ht.small op hop
  rw [heq, offsets_unit op.1 hi] at ho
  rw [List.mem_singleton.mp ho]
  exact ⟨by omega, show (i : ℤ) < 200000000 by omega⟩

theorem State.Tame.distinctSlots {st : State} (ht : st.Tame) : st.DistinctSlots (unitExecutor p) := by
  intro n n' i i' hne hn hn' hslots
  obtain ⟨j, hj, heq⟩ := ht.small _ (List.mem_of_getElem? hn)
  obtain ⟨j', hj', heq'⟩ := ht.small _ (List.mem_of_getElem? hn')
  have hnum : (unitExecutor p).number .idempotentRetry i = (unitExecutor p).number .idempotentRetry i' := hslots
  dsimp only at heq heq'
  rw [heq, heq', number_unit _ hj, number_unit _ hj', ← heq, ← heq'] at hnum
  subst hnum
  exact hne ((List.getElem?_inj (List.getElem?_eq_some_iff.mp hn).1 ht.nodup).mp (hn.trans hn'.symm))

/-- `st'` is `st` and the first `m` operations of a kind of which there were none. -/
structure State.Begins (st : State) (k : OpKind) (m : ℕ) (st' : State) : Prop where
  tame : st'.Tame
  seqs : st'.seqs = Function.update st.seqs k (.ofNat m)
  length : st'.begun.length = st.begun.length + m
  ops : ∀ op ∈ st'.begun, op ∈ st.begun ∨ ∃ i < m, op = (k, Int64.ofNat i)

theorem State.Begins.started {st st' : State} {k : OpKind} {m : ℕ} (h : st.Begins k m st') (hm : m < 200000000)
    (hfresh : ∀ i, (k, i) ∉ st.begun) (x : Executor) : st.Begins k (m + 1) (st'.started x k) := by
  have hnum : st'.seqs k = .ofNat m := by rw [h.seqs, Function.update_self]
  have hnew : (k, Int64.ofNat m) ∉ st'.begun := by
    intro hmem
    rcases h.ops _ hmem with hold | ⟨i, hi, heq⟩
    · exact hfresh _ hold
    · have := (ofNat_inj (by omega) (by omega)).mp (congrArg Prod.snd heq)
      omega
  have hbegun : (st'.started x k).begun = st'.begun ++ [(k, Int64.ofNat m)] := by rw [← hnum]; rfl
  refine ⟨⟨?_, ?_⟩, ?_, ?_, ?_⟩
  · rw [hbegun]
    exact List.nodup_append.mpr ⟨h.tame.nodup, List.nodup_singleton _, fun a ha b hb hab =>
      hnew (by rwa [← List.mem_singleton.mp hb, ← hab])⟩
  · intro op hop
    rw [hbegun] at hop
    rcases List.mem_append.mp hop with hop | hop
    · exact h.tame.small op hop
    · exact ⟨m, hm, by rw [List.mem_singleton.mp hop]⟩
  · rw [started_seqs, hnum, h.seqs, Function.update_idem]
    exact congrArg _ (Int64.ofNat_add m 1).symm
  · rw [hbegun, List.length_append, h.length]
    rfl
  · intro op hop
    rw [hbegun] at hop
    rcases List.mem_append.mp hop with hop | hop
    · rcases h.ops op hop with hold | ⟨i, hi, heq⟩
      · exact Or.inl hold
      · exact Or.inr ⟨i, by omega, heq⟩
    · exact Or.inr ⟨m, by omega, List.mem_singleton.mp hop⟩

section
variable {x : Executor} {st : State} {k : OpKind}

theorem exists_begins (h : Reach (step x) (fun _ => True) .init st) (ht : st.Tame) (hk : st.seqs k = 0)
    (hfresh : ∀ i, (k, i) ∉ st.begun) {m : ℕ} (hm : m ≤ 200000000) :
    ∃ st', Reach (step x) (fun _ => True) .init st' ∧ st.Begins k m st' ∧ st'.sent = st.sent := by
  induction m with
  | zero =>
    refine ⟨st, h, ⟨ht, ?_, rfl, fun op hop => Or.inl hop⟩, rfl⟩
    rw [show Int64.ofNat 0 = 0 from rfl, ← hk, Function.update_eq_self]
  | succ m ih =>
    obtain ⟨st', hreach, hbegins, hsent⟩ := ih (by omega)
    exact ⟨_, hreach.step trivial (step_start x st' k), hbegins.started (by omega) hfresh x, hsent⟩

end

theorem exists_call (k : OpKind) (i : Int64) : ∃ r rs seg, (unitExecutor p).calls k i = r :: rs ∧ seg ∈ r.segs := by
  cases k with
  | registerBulk =>
    exact ⟨_, [], _, rfl, List.mem_map_of_mem (a := 0) (List.mem_range.mpr Nat.one_pos)⟩
  | _ => exact ⟨_, _, _, rfl, List.mem_singleton_self _⟩

variable {F C d s c : ℕ}

/-- A run up to the operation of a kind with the number `m`, of which the first call is made. -/
theorem exists_sent (hshape : Shape p F C d s c) {st : State}
    (h : Reach (step (unitExecutor p)) (fun _ => True) .init st) (ht : st.Tame) {k : OpKind} (hk : st.seqs k = 0)
    (hfresh : ∀ i, (k, i) ∉ st.begun) {m : ℕ} (hm : m < 200000000) :
    ∃ (st' : State) (r : Request) (seg : SegmentPost), Reach (step (unitExecutor p)) (fun _ => True) .init st' ∧
      st.Begins k (m + 1) st' ∧ st'.sent = st.sent ++ [(st.begun.length + m, r)] ∧
      r.flow = .ofNat (flowOf F C k m) ∧ seg ∈ r.segs ∧
      seg.timerange = trOne (.ofNat (base d s k + m)) (.ofNat c) := by
  obtain ⟨st₁, hreach, hbegins, hsent⟩ := exists_begins h ht hk hfresh hm.le
  have hnum : st₁.seqs k = .ofNat m := by rw [hbegins.seqs, Function.update_self]
  obtain ⟨r, rs, seg, hcalls, hseg⟩ := exists_call (p := p) k (.ofNat m)
  have hrest : (st₁.started (unitExecutor p) k).rest (st.begun.length + m) = r :: rs := by
    rw [started_rest, ← hbegins.length, Function.update_self, hnum, hcalls]
  obtain ⟨hflow, o, ho, htr⟩ := calls_places (x := unitExecutor p) hshape (by omega) (number_unit k hm)
    (hcalls ▸ List.mem_cons_self) hseg
  rw [offs_unit] at ho
  cases List.mem_singleton.mp ho
  have hstart := hreach.step trivial (step_start (unitExecutor p) st₁ k)
  obtain ⟨⟨hnodup, hsmall⟩, hseqs, hlength, hops⟩ := hbegins.started hm hfresh (unitExecutor p)
  exact ⟨_, r, seg, hstart.step trivial (step_send hrest), ⟨⟨hnodup, hsmall⟩, hseqs, hlength, hops⟩,
    congrArg (· ++ _) hsent, hflow, hseg, htr⟩

variable {D : Digest} {seed : UInt64}

theorem NeverCollides.loaded (hnever : NeverCollides D p seed) (hp : p.Checked) (hshape : Shape p F C d s c)
    {k : OpKind} {m j : ℕ} (hm : m < 200000000) (hflow : flowOf F C k m < F + C)
    (hj : j < if flowOf F C k m < F then d else s) : ¬ Meet (2 ^ 64) (2 ^ 63) c (base d s k + m) j := by
  obtain ⟨st, r, seg, hreach, hbegins, hsent, hf, hseg, htr⟩ :=
    exists_sent hshape .refl ⟨List.nodup_nil, nofun⟩ (k := k) rfl nofun hm
  have hmem : (State.init.begun.length + m, r) ∈ st.sent := by
    rw [hsent]
    exact List.mem_append_right _ (List.mem_singleton_self _)
  have hrow : Loaded D (newGen p seed) r.flow ((newGen p seed).segment D (.ofNat (flowOf F C k m)) (.ofNat j)) := by
    rw [hf]
    exact (loaded_iff hp hshape D seed (flowOf_lt hshape k m)).mpr ⟨hflow, j, hj, rfl⟩
  have hnot := (hnever _ _ st hreach hbegins.tame.within hbegins.tame.distinctSlots).loaded _ r hmem seg hseg _ hrow
  rwa [htr, segment_timerange hshape, overlap_trOne] at hnot

/-- Two operations of different kinds, one after the other. -/
theorem NeverCollides.writes (hnever : NeverCollides D p seed) (hshape : Shape p F C d s c) {k k' : OpKind}
    (hne : k' ≠ k) {m m' : ℕ} (hm : m < 200000000) (hm' : m' < 200000000) (hflow : flowOf F C k m = flowOf F C k' m') :
    ¬ Meet (2 ^ 64) (2 ^ 63) c (base d s k + m) (base d s k' + m') := by
  obtain ⟨st, r, seg, hreach, hbegins, hsent, hf, hseg, htr⟩ :=
    exists_sent hshape .refl ⟨List.nodup_nil, nofun⟩ (k := k) rfl nofun hm
  have hzero : st.seqs k' = 0 := by
    rw [hbegins.seqs, Function.update_of_ne hne]
    rfl
  have hfresh (i : Int64) : (k', i) ∉ st.begun := by
    intro hmem
    rcases hbegins.ops _ hmem with hold | ⟨j, -, heq⟩
    · cases hold
    · exact hne (congrArg Prod.fst heq)
  obtain ⟨st', r', seg', hreach', hbegins', hsent', hf', hseg', htr'⟩ :=
    exists_sent hshape hreach hbegins.tame hzero hfresh hm'
  have hmem : (State.init.begun.length + m, r) ∈ st'.sent := by
    rw [hsent', hsent]
    exact List.mem_append_left _ (List.mem_append_right _ (List.mem_singleton_self _))
  have hmem' : (st.begun.length + m', r') ∈ st'.sent := by
    rw [hsent']
    exact List.mem_append_right _ (List.mem_singleton_self _)
  have hlength := hbegins.length
  have hnot := (hnever _ _ st' hreach' hbegins'.tame.within hbegins'.tame.distinctSlots).writes _ _ r r' (by omega) hmem
    hmem' (by rw [hf, hf', hflow]) seg hseg seg' hseg'
  rwa [htr, htr', overlap_trOne] at hnot

/-! ## The condition -/

theorem exists_kind (d s : ℕ) {o : ℕ} (ho : o < 600000000) :
    ∃ k m, k ≠ .insertShallow ∧ m < 200000000 ∧ d + o = base d s k + m := by
  by_cases hfirst : o < 200000000
  · exact ⟨.insertDeep, o, by decide, hfirst, rfl⟩
  by_cases hsecond : o < 400000000
  · exact ⟨.registerBulk, o - 200000000, by decide, by omega, by simp only [base]; omega⟩
  · exact ⟨.idempotentRetry, o - 400000000, by decide, by omega, by simp only [base]; omega⟩

theorem NeverCollides.first_flow (hnever : NeverCollides D p seed) (hp : p.Checked) (hshape : Shape p 0 C d s c)
    {o z : ℕ} (ho : o < 600000000) (hz : OnFirst C s z) : ¬ Meet (2 ^ 64) (2 ^ 63) c (d + o) z := by
  obtain ⟨k, m, hk, hm, heq⟩ := exists_kind d s ho
  have hflows := hshape.flows
  rw [heq]
  rcases hz with hz | ⟨m', hm', hdvd, rfl⟩
  · refine hnever.loaded hp hshape hm (by rw [deep_flow_zero hk]; omega) ?_
    rwa [if_neg (by omega)]
  · refine hnever.writes hshape hk.symm hm hm' ?_
    rw [deep_flow_zero hk, flowOf, Nat.max_eq_left (by omega), Nat.mod_eq_zero_of_dvd hdvd]

theorem wholeFrom_bounds (h c e : ℕ) : e ≤ wholeFrom h c e ∧ wholeFrom h c e ≤ e + c := by
  unfold wholeFrom
  split <;> omega

/-- Regions of the first flow that are not apart have segments that meet. -/
theorem exists_onFirst (hc : 0 < c ∧ c ≤ 6) (hC : C ≠ 0) (hfit : (s + 200000000) * c ≤ 2 ^ 64) {e w : ℕ}
    (hw : e ≤ w ∧ w ≤ e + c) (hlt : w < shallowEnd C s c) :
    ∃ z, OnFirst C s z ∧ Whole (2 ^ 64) (2 ^ 63) c z ∧ w < z * c + c ∧ z * c + c ≤ e + 600000000 * c := by
  rw [Nat.add_mul] at hfit
  by_cases hloaded : w < s * c
  · -- a loaded segment, or the one after it if it is over the cut
    have hle : w / c * c ≤ w := Nat.div_mul_le_self w c
    have hnext : w < w / c * c + c := Nat.lt_div_mul_add hc.1
    have hlow : w / c < s := (Nat.div_lt_iff_lt_mul hc.1).mpr hloaded
    by_cases hcut : Cut (2 ^ 63) c (w / c * c)
    · have hsucc : (w / c + 1) * c = w / c * c + c := Nat.succ_mul _ c
      refine ⟨w / c + 1, ?_, ?_, by omega, by omega⟩
      · rcases Nat.lt_or_eq_of_le hlow with h | h
        · exact Or.inl h
        · exact Or.inr ⟨0, by omega, Nat.dvd_zero C, h⟩
      · rw [whole_iff (by omega) (by omega) (by omega)]
        unfold Cut at hcut ⊢
        omega
    · exact ⟨w / c, Or.inl hlow, (whole_iff (by omega) (by omega) (by omega)).mpr hcut, hnext, by omega⟩
  · -- the last segment that is appended, or the one before it
    obtain ⟨last, hlast⟩ : ∃ last, last = (200000000 - 1) / C * C := ⟨_, rfl⟩
    have hlt : w < if Cut (2 ^ 63) c ((s + last) * c) then (s + last + 1 - C) * c else (s + last + 1) * c := by
      rw [hlast]
      exact (lt_max_iff.mp hlt).resolve_left hloaded
    have hdvd : C ∣ last := hlast ▸ Nat.dvd_mul_left C _
    have hle : last ≤ 200000000 - 1 := hlast ▸ Nat.div_mul_le_self _ C
    have hend (m : ℕ) (hm : m < 200000000) : (s + m) * c + c ≤ s * c + 200000000 * c := by
      rw [← Nat.succ_mul, ← Nat.add_mul]
      exact Nat.mul_le_mul_right c (by omega)
    by_cases hcut : Cut (2 ^ 63) c ((s + last) * c)
    · rw [if_pos hcut] at hlt
      have hpos : last ≠ 0 := by
        intro hzero
        have : (s + last + 1 - C) * c ≤ s * c := Nat.mul_le_mul_right c (by omega)
        omega
      have hback : C ≤ last := Nat.le_of_dvd (Nat.pos_of_ne_zero hpos) hdvd
      have hbefore : (s + (last - C)) * c + c ≤ (s + last) * c := by
        rw [← Nat.succ_mul]
        exact Nat.mul_le_mul_right c (by omega)
      have hm := hend (last - C) (by omega)
      refine ⟨s + (last - C), Or.inr ⟨last - C, by omega, Nat.dvd_sub hdvd (dvd_refl C), rfl⟩, ?_, ?_, by omega⟩
      · rw [whole_iff (by omega) (by omega) (by omega)]
        unfold Cut at hcut ⊢
        omega
      · rw [← Nat.succ_mul]
        exact hlt.trans_le (Nat.mul_le_mul_right c (by omega))
    · rw [if_neg hcut, Nat.succ_mul] at hlt
      have hm := hend last (by omega)
      exact ⟨s + last, Or.inr ⟨last, by omega, hdvd, rfl⟩, (whole_iff (by omega) (by omega) (by omega)).mpr hcut, hlt,
        by omega⟩

theorem apart_of_neverCollides (hp : p.Checked) (hshape : Shape p F C d s c) (hnever : NeverCollides D p seed) :
    RegionsApart F C d s c := by
  have hc := hshape.seconds
  have hflows := hshape.flows
  have hshallow (hC : C ≠ 0) : (s + 200000000) * c ≤ 2 ^ 64 := by
    by_contra hlong
    obtain ⟨o, ho, y, hy, hmeet⟩ := exists_meet (h := 2 ^ 63) hc.1 (by omega) (by omega) (by omega) hshape.shallow.1
      (by omega) (Nat.lt_of_not_le hlong)
    have hflow : flowOf F C .insertShallow o = F + o % C := by rw [flowOf, Nat.max_eq_left (by omega)]
    have hmod : o % C < C := Nat.mod_lt o (by omega)
    refine hnever.loaded hp hshape (k := .insertShallow) ho (by omega) ?_ hmeet
    rwa [if_neg (by omega)]
  refine ⟨fun hF => ?_, hshallow, fun hF => ?_⟩
  · by_contra hlong
    obtain ⟨o, ho, y, hy, hmeet⟩ := exists_meet (h := 2 ^ 63) hc.1 (by omega) (by omega) (by omega) hshape.deep.1
      (by omega) (Nat.lt_of_not_le hlong)
    obtain ⟨k, m, hk, hm, heq⟩ := exists_kind d s ho
    have hflow := deep_flow_lt (C := C) hk hF m
    rw [heq] at hmeet
    refine hnever.loaded hp hshape hm (by omega) ?_ hmeet
    rwa [if_pos hflow]
  · subst hF
    have hend : d * c % 2 ^ 64 + 600000000 * c ≤ 2 ^ 64 := by
      by_contra hlong
      obtain ⟨o, ho, hmeet⟩ := exists_meet_turn (h := 2 ^ 63) hc.1 (by omega) (by omega) rfl (Nat.lt_of_not_le hlong)
      exact hnever.first_flow hp hshape ho (Or.inl hshape.shallow.1) hmeet
    refine ⟨hend, ?_⟩
    by_contra hover
    have hC : C ≠ 0 := by omega
    obtain ⟨z, hz, hwhole, hlow, hhigh⟩ := exists_onFirst hc hC (hshallow hC) (wholeFrom_bounds _ _ _)
      (Nat.lt_of_not_le hover)
    obtain ⟨o, ho, hmeet⟩ := exists_meet_after hc.1 (by omega) (by omega) rfl hwhole hlow hhigh hend
    exact hnever.first_flow hp hshape ho hz hmeet

end

theorem neverCollides_iff {k : Knobs} {p : Plan} (hp : compose k = .ok p) (hflows : 0 < p.totalFlows) (D : Digest)
    (seed : UInt64) : NeverCollides D p seed ↔
      RegionsApart p.deepFlowCount.toInt.toNat p.shallowFlowCount.toInt.toNat p.deepDepth.toInt.toNat
        p.shallowDepth.toInt.toNat p.chunkDurationSec.toInt.toNat :=
  ⟨apart_of_neverCollides (compose_checked hp) (compose_shape hp hflows),
    fun h => neverCollides_of_apart (compose_checked hp) (compose_shape hp hflows) h D seed⟩

/-- With a deep flow, no depth that a load reaches is too great. -/
theorem regionsApart_of_deep {F C d s c : ℕ} (hF : F ≠ 0) (hd : d ≤ 2 ^ 61) (hs : s ≤ 2 ^ 61) (hc : c ≤ 6) :
    RegionsApart F C d s c := by
  have hfit (n w : ℕ) (hn : n ≤ 2 ^ 61) (hw : w ≤ 600000000) : (n + w) * c ≤ 2 ^ 64 :=
    (Nat.mul_le_mul (show n + w ≤ 2 ^ 61 + 600000000 by omega) hc).trans (by norm_num)
  exact ⟨fun _ => hfit d _ hd (by omega), fun _ => hfit s _ hs (by omega), fun h => absurd h hF⟩

theorem smallPlan_neverCollides : compose smallKnobs = .ok smallPlan ∧ 0 < smallPlan.totalFlows ∧
    NeverCollides plainDigest smallPlan 7 :=
  ⟨compose_smallKnobs, by decide, (neverCollides_iff compose_smallKnobs (by decide) _ _).mpr
    (regionsApart_of_deep (by decide) (by decide) (by decide) (by decide))⟩

def shallowKnobs : Knobs := ⟨100, 6, 10, 50, 0, 6⟩

def shallowPlan : Plan := { shallowKnobs with
  deepSegments := 0
  shallowFlowCount := 2
  shallowSegments := 100
  totalSegments := 100
  totalFlows := 2
  sourcesCount := 1
  flowCollectionRows := 1
  objectsCount := 100 }

/-- The first deep segment that is appended is one that the first flow has from the start. -/
theorem shallowPlan_collides : compose shallowKnobs = .ok shallowPlan ∧ 0 < shallowPlan.totalFlows ∧
    (unitExecutor shallowPlan).doInsertDeep 0 =
      [⟨0, [⟨lit "lg-deep-0", lit "[60:0_66:0)", lit "0:0"⟩], lit "lg-deep-k-0"⟩] ∧
    ((newGen shallowPlan 7).segment plainDigest 0 10).timerange = lit "[60:0_66:0)" ∧
    ¬ NeverCollides plainDigest shallowPlan 7 := by
  have hp : compose shallowKnobs = .ok shallowPlan := by decide +kernel
  refine ⟨hp, by decide, by decide, by decide, fun hnever => ?_⟩
  have hshape : Shape shallowPlan 0 2 10 50 6 := compose_shape hp (by decide)
  exact hnever.loaded (compose_checked hp) hshape (k := .insertDeep) (m := 0) (j := 10) (by decide) (by decide)
    (by decide) ⟨60 + 2 ^ 63, ⟨by decide, by decide⟩, by decide, by decide⟩

end OpenTams.LoadWrites
