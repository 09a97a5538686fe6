import OpenTams.Locking
import OpenTams.RelyGuarantee
import OpenTams.UpsertSound

/-!
# UpsertFlow among other transactions

`UpsertFlow` reads the flow and the source without locks. What it may rely on
when it creates a flow is that sources are not deleted and keep their format, and
that the rows it has inserted are its own until it commits.
-/

namespace OpenTams

open Sql Sql.Prog

def SourcesKept (d d' : DB) : Prop :=
  ∀ i src, d.sources.get i = some src → ∃ src', d'.sources.get i = some src' ∧ src'.format = src.format

theorem SourcesKept.refl (d : DB) : SourcesKept d d := fun _ src h => ⟨src, h, rfl⟩

theorem SourcesKept.trans {d d' d'' : DB} (h : SourcesKept d d') (h' : SourcesKept d' d'') : SourcesKept d d'' := by
  intro i src hs
  obtain ⟨src', hs', hf⟩ := h i src hs
  obtain ⟨src'', hs'', hf'⟩ := h' i src' hs'
  exact ⟨src'', hs'', hf'.trans hf⟩

theorem SourcesKept.of_eq {d d' : DB} (h : d'.sources = d.sources) : SourcesKept d d' := by
  intro i src hs
  exact ⟨src, h ▸ hs, rfl⟩

theorem sourcesKept_putSource {r : SourceRow} {d : DB} (h : d.sources.get r.id = none) :
    SourcesKept d (d.write (.putSource r)) := by
  intro i src hs
  have hne : r.id ≠ i := fun he => by rw [← he, h] at hs; cases hs
  exact ⟨src, (Table.get_put_ne d.sources hne).trans hs, rfl⟩

theorem SourcesKept.write {d d' : DB} (w : Write) (h : SourcesKept d d') : SourcesKept (d.write w) (d'.write w) := by
  cases w with
  | putSource r =>
    intro i src hs
    by_cases hi : r.id = i
    · subst hi
      have hr : ∀ v : DB, (v.write (.putSource r)).sources.get r.id = some r := fun v => Table.get_put_self v.sources r
      cases (hr d).symm.trans hs
      exact ⟨r, hr d', rfl⟩
    · obtain ⟨src', hs', hf⟩ := h i src ((Table.get_put_ne d.sources hi).symm.trans hs)
      exact ⟨src', (Table.get_put_ne d'.sources hi).trans hs', hf⟩
  | _ => exact h

structure GuardsRows (G : Guard DB Write Lock) : Prop where
  source : ∀ {i d d'}, G.same (.source i) d d' → d.sources.get i = d'.sources.get i
  flow : ∀ {g d d'}, G.same (.flow g) d d' → d.flows.get g = d'.flows.get g
  putSource : ∀ r v, G.Within [.source r.id] v (v.write (.putSource r))
  putFlow : ∀ r v, G.Within [.flow r.id] v (v.write (.putFlow r))

theorem guardsRows_storeGuard : GuardsRows storeGuard where
  source h := h
  flow h := h.1
  putSource r v := by
    intro ℓ hℓ
    cases ℓ with
    | source i =>
      have hne : r.id ≠ i := fun e => hℓ (by simp [e])
      exact (Table.get_put_ne v.sources hne).symm
    | _ => first | rfl | exact ⟨rfl, rfl⟩
  putFlow := within_putFlow

section
variable {G : Guard DB Write Lock} {I : DB → Prop} {R : Rely DB Write} {T : DB → DB → Prop} {f : Flow}
  {x : Sess Write Lock} {d d' : DB} {t : Time}

/-- The source of a flow to be created is there, or is inserted by the transaction itself. -/
inductive SourceReady (f : Flow) (x : Sess Write Lock) (d : DB) : Prop
  | found {src : SourceRow} : d.sources.get f.sourceId = some src → src.format = f.format → x.pending = [] →
      SourceReady f x d
  | made {src : SourceRow} : src.id = f.sourceId → src.format = f.format → d.sources.get f.sourceId = none →
      Lock.source f.sourceId ∈ x.held → x.pending = [.putSource src] → SourceReady f x d

theorem SourceReady.stable (hG : GuardsRows G) (hR : ∀ d d', R.rel d d' → SourcesKept d d') (h : SourceReady f x d)
    (he : Env G I R x.held d d') : SourceReady f x d' := by
  cases h with
  | found hs hf hp =>
    obtain ⟨src', hs', hf'⟩ := hR d d' he.stable.2 _ _ hs
    exact .found hs' (hf'.trans hf) hp
  | made hid hf hnone hl hp => exact .made hid hf ((hG.source (he.stable.1 _ hl)).symm.trans hnone) hl hp

theorem SourceReady.view (hG : GuardsRows G) (h : SourceReady f x d) :
    (∃ src, (writeAll x.pending d).sources.get f.sourceId = some src ∧ src.format = f.format) ∧
      writeAll x.pending d = { d with sources := (writeAll x.pending d).sources } ∧
      SourcesKept d (writeAll x.pending d) ∧ G.Within x.held d (writeAll x.pending d) := by
  cases h with
  | found hs hf hp =>
    rw [hp]
    exact ⟨⟨_, hs, hf⟩, rfl, .refl d, .refl G _ d⟩
  | @made src hid hf hnone hl hp =>
    rw [hp]
    refine ⟨⟨src, ?_, hf⟩, rfl, sourcesKept_putSource (hid ▸ hnone), ?_⟩
    · rw [← hid]
      exact Table.get_put_self d.sources src
    · refine (hG.putSource src d).mono fun ℓ hℓ => ?_
      rw [List.mem_singleton.mp hℓ, hid]
      exact hl

theorem rg_ensureSource (hx : x.pending = []) :
    Rg G I R T (fun _ x d => SourceReady f x d) (ensureSource f ((d.sources.get f.sourceId).map (·.format))) x d := by
  cases hs : d.sources.get f.sourceId with
  | none =>
    refine rg_stmtE fun d' _ _ hok => ?_
    rw [hx, writeAll_nil] at hok ⊢
    cases hnone : d'.sources.get f.sourceId with
    | some src =>
      rw [hnone] at hok
      cases hok
    | none =>
      let src : SourceRow := { id := f.sourceId, format := f.format, created := x.now, updated := x.now }
      refine @SourceReady.made _ _ _ src rfl rfl hnone ?_ ?_
      · exact List.mem_append_right _ (List.mem_singleton_self _)
      · rw [Sess.run, hx]
        rfl
  | some src =>
    simp only [Option.map_some, ensureSource]
    split
    · trivial
    · rename_i hf
      exact .found hs (not_not.mp hf) hx

structure Creating (f : Flow) (x' : Sess Write Lock) (d : DB) : Prop where
  source : ∃ x, SourceReady f x d ∧ x' = x.run ⟨[.flow f.id], [.putFlow (newFlowRow f x.now)]⟩
  flow : d.flows.get f.id = none

theorem Creating.stable (hG : GuardsRows G) (hR : ∀ d d', R.rel d d' → SourcesKept d d') (h : Creating f x d)
    (he : Env G I R x.held d d') : Creating f x d' := by
  obtain ⟨⟨x₀, hs, rfl⟩, hf⟩ := h
  have hlock : Lock.flow f.id ∈ (x₀.run ⟨[.flow f.id], [Write.putFlow (newFlowRow f x₀.now)]⟩).held :=
    List.mem_append_right _ (List.mem_singleton_self _)
  refine ⟨⟨x₀, hs.stable hG hR (he.mono fun ℓ hℓ => List.mem_append_left _ hℓ), rfl⟩, ?_⟩
  rw [← hG.flow (he.stable.1 _ hlock)]
  exact hf

theorem rg_createFlow (hG : GuardsRows G) (hR : ∀ d d', R.rel d d' → SourcesKept d d') (hx : x.pending = []) :
    Rg G I R T (fun _ x d => Creating f x d) (createFlow f) x d := by
  refine Rg.bind (flat_query ..) (rg_query fun d₁ _ => ?_)
  rw [hx, writeAll_nil]
  refine Rg.bind (flat_ensureSource f _) ((rg_ensureSource hx).post fun _ x d hs => ?_)
  refine rg_stmtE fun d₂ _ he hok => ?_
  have hs₂ := hs.stable hG hR he
  have hview : (writeAll x.pending d₂).flows = d₂.flows := by rw [(hs₂.view hG).2.1]
  cases hv : flowInsertViolation f (writeAll x.pending d₂) with
  | some e =>
    rw [hv] at hok
    cases hok
  | none =>
    refine ⟨⟨x, hs₂, by simp⟩, ?_⟩
    unfold flowInsertViolation at hv
    rw [hview] at hv
    cases hg : d₂.flows.get f.id with
    | none => rfl
    | some r =>
      rw [hg] at hv
      cases hv

theorem Creating.delivers (hG : GuardsRows G) (h : Creating f x d)
    (hcommit : ∀ (v : DB) (now : Time), v = { d with sources := v.sources } → SourcesKept d v →
      (∃ src, v.sources.get f.sourceId = some src ∧ src.format = f.format) →
      I (v.write (.putFlow (newFlowRow f now))) ∧ T d (v.write (.putFlow (newFlowRow f now)))) :
    Delivers G I T x d := by
  obtain ⟨⟨x₀, hs, rfl⟩, hf⟩ := h
  obtain ⟨hsrc, hview, hkept, hwithin⟩ := hs.view hG
  have hI := hcommit (writeAll x₀.pending d) x₀.now hview hkept hsrc
  have hpend : writeAll (x₀.run ⟨[.flow f.id], [Write.putFlow (newFlowRow f x₀.now)]⟩).pending d =
      (writeAll x₀.pending d).write (.putFlow (newFlowRow f x₀.now)) := by
    rw [Sess.view_run]
    rfl
  refine ⟨hpend ▸ hI.1, hpend ▸ ?_, hpend ▸ hI.2⟩
  refine (hwithin.mono fun ℓ hℓ => List.mem_append_left _ hℓ).trans ?_
  exact (hG.putFlow (newFlowRow f x₀.now) _).mono fun ℓ hℓ => List.mem_append_right _ hℓ

/-! ## Update -/

/-- The transaction that updates the flow, up to its commit: the row is locked, or there was none. -/
inductive Updating (f : Flow) (x : Sess Write Lock) (d : DB) : Prop
  | absent : x.pending = [] → Updating f x d
  | row {r : FlowRow} {now : Time} : d.flows.get f.id = some r → Lock.flow f.id ∈ x.held →
      x.pending = [.putFlow (updatedFlowRow f now r)] → Updating f x d

theorem Updating.stable (hG : GuardsRows G) (h : Updating f x d) (he : Env G I R x.held d d') : Updating f x d' := by
  cases h with
  | absent hp => exact .absent hp
  | row hr hl hp => exact .row ((hG.flow (he.stable.1 _ hl)).symm.trans hr) hl hp

theorem Updating.delivers (hG : GuardsRows G) (h : Updating f x d) (hd : I d) (hT : T d d)
    (hcommit : ∀ r now, d.flows.get f.id = some r →
      I (d.write (.putFlow (updatedFlowRow f now r))) ∧ T d (d.write (.putFlow (updatedFlowRow f now r)))) :
    Delivers G I T x d := by
  cases h with
  | absent hp =>
    have hview : writeAll x.pending d = d := by rw [hp, writeAll_nil]
    exact ⟨hview.symm ▸ hd, hview.symm ▸ .refl G _ d, hview.symm ▸ hT⟩
  | @row r now hr hl hp =>
    have hview : writeAll x.pending d = d.write (.putFlow (updatedFlowRow f now r)) := by rw [hp]; rfl
    obtain ⟨hI, hT'⟩ := hcommit r now hr
    refine ⟨hview.symm ▸ hI, hview.symm ▸ ?_, hview.symm ▸ hT'⟩
    refine (hG.putFlow (updatedFlowRow f now r) d).mono fun ℓ hℓ => ?_
    have hid : r.id = f.id := Table.key_of_get hr
    rw [List.mem_singleton.mp hℓ, show (updatedFlowRow f now r).id = f.id from hid]
    exact hl

theorem rg_checkCodec (hx : x.pending = []) (hd : I d) (existing : Option Str) :
    Rg G I R T (fun _ x' d' => x' = x ∧ Env G I R x.held d d' ∧ (existing = f.codec ∨ d'.segmentsOf f.id = []))
      (checkCodec f existing) x d := by
  unfold checkCodec
  split
  · rename_i hc
    exact ⟨rfl, .refl hd, Or.inl (codecEqual_iff.mp hc)⟩
  · refine Rg.bind (flat_query ..) (rg_query fun d' he => ?_)
    rw [hx, writeAll_nil]
    split
    · trivial
    · rename_i hcount
      exact ⟨rfl, he, Or.inr (List.length_eq_zero_iff.mp (Nat.eq_zero_of_not_pos hcount))⟩

theorem rg_updateFlow {K : DB → Prop} {existing : Uuid × Str × Option Str} (hx : x.pending = []) (hd : I d)
    (hcheck : ∀ d', Env G I R x.held d d' → existing.2.2 = f.codec ∨ d'.segmentsOf f.id = [] → K d')
    (hK : ∀ d d', R.rel d d' → K d → K d') :
    Rg G I R T (fun _ x d => Updating f x d ∧ K d) (updateFlow f existing) x d := by
  unfold updateFlow
  split
  · trivial
  split
  · trivial
  refine Rg.bind (flat_checkCodec f _) ((rg_checkCodec hx hd _).post ?_)
  rintro _ x' d₁ ⟨rfl, he, hcodec⟩
  refine Rg.bind (flat_stmt ..) (rg_stmt fun d₂ he₂ => ?_)
  refine ⟨?_, hK d₁ d₂ he₂.stable.2 (hcheck d₁ he hcodec)⟩
  rw [hx, writeAll_nil]
  cases hr : d₂.flows.get f.id with
  | none => exact .absent (by simp [Sess.run, hx])
  | some r => exact .row hr (by simp [Sess.run]) (by simp [Sess.run, hx]; rfl)

/-- **UpsertFlow among others.** What is left to show is what the two kinds of commits do. -/
theorem rg_upsertBody {K : DB → Prop} (hG : GuardsRows G) (hR : ∀ d d', R.rel d d' → SourcesKept d d')
    (hcheck : ∀ d d' r, R.rel d d' → d.flows.get f.id = some r → r.codec = f.codec ∨ d'.segmentsOf f.id = [] → K d')
    (hK : ∀ d d', R.rel d d' → K d → K d')
    (hcreate : ∀ x d, I d → Creating f x d → Delivers G I T x d)
    (hupdate : ∀ x d, I d → Updating f x d → K d → Delivers G I T x d) :
    Rg G I R T (fun _ _ _ => True) (upsertBody f) { now := t } d := by
  refine Rg.bind (flat_query ..) (rg_query fun d₁ he₁ => ?_)
  rw [writeAll_nil]
  cases hr : d₁.flows.get f.id with
  | none =>
    refine Rg.bind (flat_createFlow f) ((rg_createFlow hG hR rfl).post fun _ x d hc => ?_)
    exact rg_commitThen fun d' he => hcreate x d' he.inv (hc.stable hG hR he)
  | some r =>
    refine Rg.bind (flat_updateFlow f _) ((rg_updateFlow (K := K) rfl he₁.inv ?_ hK).post ?_)
    · exact fun d' he hcodec => hcheck d₁ d' r he.stable.2 hr hcodec
    · rintro _ x d ⟨hu, hk⟩
      exact rg_commitThen fun d' he => hupdate x d' he.inv (hu.stable hG he) (hK d d' he.stable.2 hk)

end

end OpenTams
