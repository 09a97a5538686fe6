import OpenTams.Freeze
import OpenTams.UpsertConc

/-!
# Codec and essence parameters of a flow with segments

`UpsertFlow` compares the codec it is sent with the one it has read, and counts
the segments, in statements that take no lock, and it does not compare essence
parameters at all. What it changes of a flow with segments is nothing, in runs in
which no other call about the flow commits between its first read and its end and
in which it is sent the essence parameters that are stored.
-/

namespace OpenTams

open Sql Sql.Prog

def StoreCall.isContentWrite (x : StoreCall) : Bool := x.isUpsert || x.segmentFlow.isSome

def StoreCall.sent : StoreCall → Option Flow
  | .upsertFlow f => some f
  | _ => none

def EssenceKept (d d' : DB) : Prop :=
  ∀ g r r', d.flows.get g = some r → d'.flows.get g = some r' → d.segmentsOf g ≠ [] →
    r'.codec = r.codec ∧ r'.essenceParameters = r.essenceParameters

section
variable {n : Nat}

/-- No other call about the flow commits between the first read of an upsert and its end. -/
def SparesUpserts (calls : Fin n → StoreCall) (s : Sys DB Write Lock Stmt Err Answer n) (a : Act n) : Prop :=
  ∀ p q, a = .go p → s.commitsNow p = true → q ≠ p → (calls q).isUpsert = true →
    (calls q).flowId = (calls p).flowId → s.ran q .upsertCheckFlow = true → (s.procs q).prog.Quiet

instance (calls : Fin n → StoreCall) (s : Sys DB Write Lock Stmt Err Answer n) (a : Act n) :
    Decidable (SparesUpserts calls s a) :=
  inferInstanceAs (Decidable (∀ p q, a = .go p → s.commitsNow p = true → q ≠ p → (calls q).isUpsert = true →
    (calls q).flowId = (calls p).flowId → s.ran q .upsertCheckFlow = true → (s.procs q).prog.Quiet))

/-- An upsert that commits over segments sends the essence parameters that are stored. -/
def SendsStored (calls : Fin n → StoreCall) (s : Sys DB Write Lock Stmt Err Answer n) (a : Act n) : Prop :=
  ∀ p, a = .go p → s.commitsNow p = true → ∀ f ∈ (calls p).sent, ∀ r ∈ s.db.flows.get f.id,
    s.db.segmentsOf f.id ≠ [] → r.essenceParameters = nilJSON f.essenceParameters

instance (calls : Fin n → StoreCall) (s : Sys DB Write Lock Stmt Err Answer n) (a : Act n) :
    Decidable (SendsStored calls s a) :=
  inferInstanceAs (Decidable (∀ p, a = .go p → s.commitsNow p = true → ∀ f ∈ (calls p).sent,
    ∀ r ∈ s.db.flows.get f.id, s.db.segmentsOf f.id ≠ [] → r.essenceParameters = nilJSON f.essenceParameters))

end

/-! ## What the calls rely on and guarantee -/

def sparingFlow (g : Uuid) : Rely DB Write where
  rel d d' := (Lock.flow g).Same d d' ∧ SourcesKept d d'
  refl d := ⟨.refl _ d, .refl d⟩
  trans h h' := ⟨h.1.trans h'.1, h.2.trans h'.2⟩
  congr w h := ⟨h.1.write w, h.2.write w⟩

def StoreCall.rely : StoreCall → Rely DB Write
  | .upsertFlow f => sparingFlow f.id
  | _ => .none

def Frozen (f : Flow) (d d' : DB) : Prop :=
  ∀ r r', d.flows.get f.id = some r → d'.flows.get f.id = some r' → d.segmentsOf f.id ≠ [] →
    r'.codec = r.codec ∧
      (r'.essenceParameters = r.essenceParameters ∨ r'.essenceParameters = nilJSON f.essenceParameters)

structure StoreCall.Guarantee (x : StoreCall) (d d' : DB) : Prop where
  others : ∀ g, g ≠ x.flowId → (Lock.flow g).Same d d'
  sources : SourcesKept d d'
  frozen : ∀ f, x = .upsertFlow f → Frozen f d d'

section
variable {f : Flow} {x : Sess Write Lock} {d d' v : DB} {c : Constraints}

theorem frozen_refl (f : Flow) (d : DB) : Frozen f d d := by
  intro r r' h h' _
  cases h.symm.trans h'
  exact ⟨rfl, Or.inl rfl⟩

theorem same_putFlow {r : FlowRow} {g : Uuid} (hg : g ≠ r.id) (hv : v = { d with sources := v.sources }) :
    (Lock.flow g).Same d (v.write (.putFlow r)) := by
  constructor
  · show d.flows.get g = (v.flows.put r).get g
    rw [Table.get_put_ne _ (Ne.symm hg), hv]
  · show d.segmentsOf g = v.segmentsOf g
    rw [hv]
    rfl

/-- What an upsert has checked is still true: the codec is the same, or there are no segments. -/
def CodecStays (f : Flow) (d : DB) : Prop :=
  ∀ r, d.flows.get f.id = some r → d.segmentsOf f.id ≠ [] → r.codec = f.codec

theorem obeys_upsert (f : Flow) :
    Obeys storeGuard ObjectsThere (sparingFlow f.id) (StoreCall.upsertFlow f).Guarantee (upsertFlow f) := by
  refine Obeys.inTx (Q := fun _ _ _ => True) fun t d _ => ?_
  refine rg_upsertBody (K := CodecStays f) guardsRows_storeGuard (fun _ _ h => h.2) ?_ ?_ ?_ ?_
  · intro d d' r hrel hr hcodec r' hr' hne
    rw [← hrel.1.1, hr] at hr'
    cases hr'
    exact hcodec.resolve_right hne
  · intro d d' hrel hK r hr hne
    exact hK r (hrel.1.1.trans hr) (hrel.1.2 ▸ hne)
  · intro x d hd h
    refine h.delivers guardsRows_storeGuard fun v now hv hkept _ => ⟨?_, ?_, hkept, ?_⟩
    · rw [hv]
      exact hd
    · exact fun g hg => same_putFlow hg hv
    · intro f' hf' r r' hr
      cases hf'
      cases h.flow.symm.trans hr
  · intro x d hd h hK
    refine h.delivers guardsRows_storeGuard hd ⟨fun g _ => .refl _ d, .refl d, fun f' _ => frozen_refl f' d⟩ ?_
    intro r now hr
    have hid : r.id = f.id := Table.key_of_get hr
    refine ⟨hd, fun g hg => same_putFlow (fun he => hg (he.trans hid)) rfl, .refl d, ?_⟩
    intro f' hf' r₀ r' hr₀ hr' hne
    cases hf'
    cases hr.symm.trans hr₀
    have hget : (d.write (.putFlow (updatedFlowRow f now r))).flows.get f.id = some (updatedFlowRow f now r) := by
      rw [← hid]
      exact Table.get_put_self d.flows (updatedFlowRow f now r)
    cases hget.symm.trans hr'
    exact ⟨(hK r hr hne).symm, Or.inr rfl⟩

theorem sources_segmentWrite {x : StoreCall} (hx : x.segmentFlow.isSome) (c : Constraints) (t : Time) (d : DB) :
    ((x.prog c).run t d).2.sources = d.sources := by
  cases x with
  | insertSegments nextval batch =>
    simp only [StoreCall.prog, run_map]
    exact (keeps_insertSegments (J := fun v => v.sources = d.sources) (fun _ _ h => h) (fun _ _ _ h => h)
      fun _ _ _ _ _ h => h).run t rfl
  | deleteSegmentsByTimerange q =>
    simp only [StoreCall.prog, run_map]
    exact (keeps_deleteSegmentsByTimerange (J := fun v => v.sources = d.sources) (fun _ _ _ _ h => h) (fun _ _ _ h => h)
      fun _ _ _ _ h => h).run t rfl
  | _ => cases hx

theorem obeys_contentWrite {x : StoreCall} (hx : x.isContentWrite = true) (c : Constraints) :
    Obeys storeGuard ObjectsThere x.rely x.Guarantee (x.prog c) := by
  by_cases hseg : x.segmentFlow.isSome
  · have hrely : x.rely = .none := by
      cases x with
      | upsertFlow f => cases hseg
      | _ => rfl
    rw [hrely]
    have hcall : Call storeGuard ObjectsThere Rely.none (x.prog c) := call_segmentWrite (fun _ h => h) c hseg
    refine (hcall.obeys fun t d hd => objectsThere_call (Or.inl hseg) c t hd).mono ?_
    rintro d _ - ⟨t, rfl⟩
    refine ⟨fun g hg => ?_, .of_eq (sources_segmentWrite hseg c t d), fun f hf => ?_⟩
    · have hpart := call_flowPart_other (Ne.symm hg) rfl c t d
      exact ⟨(congrArg (·.1) hpart).symm, (congrArg (·.2.2.2) hpart).symm⟩
    · rw [hf] at hseg
      cases hseg
  · cases x with
    | upsertFlow f => exact (obeys_upsert f).map _
    | insertSegments nextval batch => exact absurd rfl hseg
    | deleteSegmentsByTimerange q => exact absurd rfl hseg
    | _ => cases hx

end

/-! ## Every interleaving -/

section
variable {n : Nat} {c : Constraints} {calls : Fin n → StoreCall} {s s' : Sys DB Write Lock Stmt Err Answer n} {a : Act n}

structure FrozenInv (c : Constraints) (calls : Fin n → StoreCall) (s : Sys DB Write Lock Stmt Err Answer n) : Prop where
  rg : RgInv storeGuard ObjectsThere (fun p => (calls p).rely) (fun p => (calls p).Guarantee)
    (fun p => (calls p).prog c) s
  reads : ∀ q, (calls q).isUpsert = true → ReadsFirst (fun p => (calls p).prog c) .upsertCheckFlow s q

theorem opensWith_upsert {x : StoreCall} (hx : x.isUpsert = true) (c : Constraints) :
    (x.prog c).OpensWith .upsertCheckFlow := by
  cases x with
  | upsertFlow f => exact ⟨rfl, trivial, trivial⟩
  | _ => cases hx

/-- What is committed meets what an upsert of another flow relies on, and of the same flow by the condition. -/
theorem FrozenInv.bears (hs : FrozenInv c calls s) (hC : SparesUpserts calls s a) {p : Fin n} (ha : a = .go p)
    (hnow : s.commitsNow p = true) {d' : DB} (hT : (calls p).Guarantee s.db d') :
    Bears (fun p => (calls p).rely) (fun p => (calls p).prog c) s p d' := by
  intro q hq hopen
  cases hup : (calls q).isUpsert with
  | false =>
    have hrely : (calls q).rely = .none := by
      cases hx : calls q with
      | upsertFlow f => rw [hx] at hup; cases hup
      | _ => rfl
    exact Or.inr (Or.inr (show (calls q).rely.rel s.db d' by rw [hrely]; trivial))
  | true =>
    rcases (hs.reads q hup).opened hopen with hf | hran | hquiet
    · exact Or.inl hf
    · by_cases hflow : (calls q).flowId = (calls p).flowId
      · exact Or.inr (Or.inl (hC p q ha hnow hq hup hflow hran))
      · right; right
        show (calls q).rely.rel s.db d'
        cases hx : calls q with
        | upsertFlow f =>
          rw [hx] at hflow
          exact ⟨hT.others f.id hflow, hT.sources⟩
        | _ => rw [hx] at hup; cases hup
    · exact Or.inr (Or.inl hquiet)

theorem FrozenInv.act (hcalls : ∀ p, (calls p).isContentWrite = true) (hs : FrozenInv c calls s)
    (hC : SparesUpserts calls s a) (ha : s.act a = some s') :
    FrozenInv c calls s' ∧
      (s'.db = s.db ∨ ∃ p, a = .go p ∧ s.commitsNow p = true ∧ (calls p).Guarantee s.db s'.db) := by
  obtain ⟨hrg, hstep⟩ := hs.rg.act (fun p => obeys_contentWrite (hcalls p) c) ha
    fun p hp hnow hT => hs.bears hC hp hnow hT
  refine ⟨⟨hrg, fun q hq => ?_⟩, hstep⟩
  rcases act_cases ha with ⟨dt, -, rfl⟩ | ⟨p, prog, cn, es, hm, rfl⟩
  · exact hs.reads q hq
  · exact (hs.reads q hq).move (opensWith_upsert hq c) hm

/-- **The essence is frozen.** In every run whose steps meet the two conditions, no step changes the codec or
the essence parameters of a flow that has segments. -/
theorem essence_frozen (hcalls : ∀ p, (calls p).isContentWrite = true) (t : Time) {d : DB} (hd : ObjectsThere d)
    {as : List (Act n)} (hr : (Sys.start t d fun p => (calls p).prog c).runs as = some s)
    (hC : (Sys.start t d fun p => (calls p).prog c).Along
      (fun s a _ => SparesUpserts calls s a ∧ SendsStored calls s a) (as ++ [a]))
    (ha : s.act a = some s') {p : Fin n} (hp : a = .go p) (hup : (calls p).isUpsert = true) :
    EssenceKept s.db s'.db := by
  obtain ⟨hCas, hCa⟩ := Sys.along_append hC hr
  have hstart : FrozenInv c calls (Sys.start t d fun p => (calls p).prog c) := ⟨rgInv_start t hd, fun q _ => Or.inl rfl⟩
  have hs : FrozenInv c calls s :=
    Sys.runs_rule (fun s a s' hs hC ha => (hs.act hcalls hC.1 ha).1) hstart hCas hr
  have hCa : SparesUpserts calls s a ∧ SendsStored calls s a := (hCa s' ha).1
  intro g r r' hg hg' hne
  rcases (hs.act hcalls hCa.1 ha).2 with hdb | ⟨q, hq, hnow, hT⟩
  · rw [hdb] at hg'
    cases hg.symm.trans hg'
    exact ⟨rfl, rfl⟩
  cases hp.symm.trans hq
  cases hx : calls p with
  | upsertFlow f =>
    rw [hx] at hT
    by_cases hgf : g = f.id
    · subst hgf
      obtain ⟨hcodec, hess⟩ := hT.frozen f rfl r r' hg hg' hne
      refine ⟨hcodec, hess.elim id fun h => ?_⟩
      exact h.trans (hCa.2 p hp hnow f (by rw [hx]; rfl) r hg hne).symm
    · rw [← (hT.others g hgf).1, hg] at hg'
      cases hg'
      exact ⟨rfl, rfl⟩
  | _ => rw [hx] at hup; cases hup

end

def oneSegment : StoreCall := .insertSegments id ⟨1, [sampleSegment "o" "[0:0_1:0)" 0 1], lit "default"⟩

def orderlyCalls : Fin 3 → StoreCall
  | 0 => .upsertFlow { sampleFlow with codec := some (lit "video/h264") }
  | 1 => oneSegment
  | 2 => .upsertFlow { sampleFlow with codec := some (lit "video/h264"), label := some (lit "news") }

def orderlyTurns : List (Act 3) := Act.turns 2 [0, 0, 0, 0, 0, 1, 1, 1, 1, 1, 1, 1, 1, 2, 2, 2]

theorem orderlyCalls_frozen : ∃ s s',
    (Sys.start 0 oneFlow fun p => (orderlyCalls p).prog {}).runs orderlyTurns = some s ∧ s.act (.go 2) = some s' ∧
      s.db.segmentsOf 1 ≠ [] ∧ (s'.db.flows.get 1).map (·.label) = some (some (lit "news")) ∧
      EssenceKept s.db s'.db := by
  have hfacts : ((Sys.start 0 oneFlow fun p => (orderlyCalls p).prog {}).runs orderlyTurns).any (fun s =>
      decide (s.db.segmentsOf 1 ≠ []) && (s.act (.go 2)).any fun s' =>
        decide ((s'.db.flows.get 1).map (·.label) = some (some (lit "news")))) = true := by
    decide +kernel
  obtain ⟨s, hs, hfacts⟩ := (Option.any_eq_true _ _).mp hfacts
  obtain ⟨hne, hfacts⟩ := Bool.and_eq_true_iff.mp hfacts
  obtain ⟨s', hs', hlabel⟩ := (Option.any_eq_true _ _).mp hfacts
  refine ⟨s, s', hs, hs', of_decide_eq_true hne, of_decide_eq_true hlabel, ?_⟩
  exact essence_frozen (c := {}) (by decide) 0 (by unfold ObjectsThere; decide +kernel) hs (by decide +kernel) hs' rfl rfl

def essenceCalls : Fin 3 → StoreCall
  | 0 => .upsertFlow { sampleFlow with essenceParameters := lit "\x7b\x7d" }
  | 1 => oneSegment
  | 2 => .upsertFlow { sampleFlow with codec := some (lit "video/h264") }

def essenceTurns : List (Act 3) := Act.turns 2 [1, 1, 1, 1, 1, 1, 1, 1, 0, 0, 0]

/-- The insert commits between the check of the codec and the update. -/
def codecTurns : List (Act 3) := Act.turns 2 [2, 2, 2, 1, 1, 1, 1, 1, 1, 1, 1, 2]

def FlowRow.essence (r : FlowRow) : Option Str × Option Json := (r.codec, r.essenceParameters)

/-- After the turns the call's next step changes the essence of a flow that has segments. -/
def ChangesEssence (turns : List (Act 3)) (p : Fin 3) : Prop :=
  ∃ s s', (Sys.start 0 oneFlow fun p => (essenceCalls p).prog {}).runs turns = some s ∧ s.act (.go p) = some s' ∧
    ¬ EssenceKept s.db s'.db

theorem changesEssence {turns : List (Act 3)} {p : Fin 3} {x y : Option Str × Option Json}
    (h : ((Sys.start 0 oneFlow fun p => (essenceCalls p).prog {}).runs turns).any (fun s =>
      decide (s.db.segmentsOf 1 ≠ []) && decide ((s.db.flows.get 1).map FlowRow.essence = some x) &&
        (s.act (.go p)).any fun s' => decide ((s'.db.flows.get 1).map FlowRow.essence = some y)) = true)
    (hxy : x ≠ y) : ChangesEssence turns p := by
  simp only [Option.any_eq_true, Bool.and_eq_true, decide_eq_true_eq, Option.map_eq_some_iff] at h
  obtain ⟨s, hs, ⟨hne, r, hr, rfl⟩, s', hs', r', hr', rfl⟩ := h
  refine ⟨s, s', hs, hs', fun hkept => hxy ?_⟩
  obtain ⟨hcodec, hessence⟩ := hkept 1 r r' hr hr' hne
  rw [FlowRow.essence, FlowRow.essence, hcodec, hessence]

/-- Each of the two upserts commits a change while the flow has a segment. -/
theorem essence_changed : ChangesEssence essenceTurns 0 ∧ ChangesEssence codecTurns 2 :=
  ⟨changesEssence (x := (none, none)) (y := (none, some (lit "\x7b\x7d"))) (by decide +kernel) (by decide),
    changesEssence (x := (none, none)) (y := (some (lit "video/h264"), none)) (by decide +kernel) (by decide)⟩

end OpenTams
