import OpenTams.Eval
import OpenTams.StoreSound

/-!
# What UpsertFlow does alone

One equation for each way a call of `UpsertFlow` that runs alone can end: a flow
is created, an existing flow is updated, or the call is refused and changes
nothing.
-/

namespace OpenTams

open Sql Sql.Prog

def ensuredSource (f : Flow) (t : Time) (d : DB) : DB :=
  if (d.sources.get f.sourceId).isSome then d
  else d.write (.putSource { id := f.sourceId, format := f.format, created := t, updated := t })

/-- The source of a new flow is not there, or has the flow's format. -/
def SourceAgrees (f : Flow) (d : DB) : Prop := ∀ src ∈ d.sources.get f.sourceId, src.format = f.format

instance (f : Flow) (d : DB) : Decidable (SourceAgrees f d) :=
  inferInstanceAs (Decidable (∀ src ∈ d.sources.get f.sourceId, src.format = f.format))

/-- What may not change does not, and the codec does not while there are segments. -/
def Updatable (f : Flow) (d : DB) (r : FlowRow) : Prop :=
  r.sourceId = f.sourceId ∧ r.format = f.format ∧ (r.codec = f.codec ∨ d.segmentsOf f.id = [])

instance (f : Flow) (d : DB) (r : FlowRow) : Decidable (Updatable f d r) :=
  inferInstanceAs (Decidable (_ ∧ _ ∧ (_ ∨ _)))

section
variable {f : Flow} {t : Time} {d : DB} {r : FlowRow}

theorem codecEqual_iff {a b : Option Str} : codecEqual a b = true ↔ a = b := by
  cases a <;> cases b <;> simp [codecEqual]

theorem flat_ensureSource (f : Flow) (src : Option Str) : (ensureSource f src).Flat := by
  cases src with
  | none => exact flat_stmtE ..
  | some srcFormat =>
    simp only [ensureSource]
    split <;> trivial

theorem flat_createFlow (f : Flow) : (createFlow f).Flat :=
  (flat_query ..).bind fun src => (flat_ensureSource f src).bind fun _ => flat_stmtE ..

theorem flat_checkCodec (f : Flow) (existing : Option Str) : (checkCodec f existing).Flat := by
  unfold checkCodec
  split
  · trivial
  · refine (flat_query ..).bind fun n => ?_
    split <;> trivial

theorem flat_updateFlow (f : Flow) (existing : Uuid × Str × Option Str) : (updateFlow f existing).Flat := by
  unfold updateFlow
  split
  · trivial
  split
  · trivial
  exact (flat_checkCodec f _).bind fun _ => (flat_stmt ..).bind fun _ => trivial

theorem commits_upsertBody (f : Flow) : (upsertBody f).Commits := by
  refine (flat_query ..).bind_commits fun existing => ?_
  cases existing with
  | none => exact (flat_createFlow f).bind_commits fun _ => commits_commitThen ..
  | some x => exact (flat_updateFlow f x).bind_commits fun _ => commits_commitThen ..

theorem eval_upsertBody :
    (upsertBody f).eval t d =
      (upsertExisting f ((d.flows.get f.id).map fun r => (r.sourceId, r.format, r.codec))).eval t d := rfl

/-! ## Creation -/

theorem eval_insertSource (h : d.sources.get f.sourceId = none) :
    (insertSource f.sourceId f.format).eval t d = .ok ((), ensuredSource f t d) := by
  rw [insertSource, eval_stmtE, ensuredSource, h]
  rfl

theorem eval_ensureSource (h : SourceAgrees f d) :
    (ensureSource f ((d.sources.get f.sourceId).map (·.format))).eval t d = .ok ((), ensuredSource f t d) := by
  cases hs : d.sources.get f.sourceId with
  | none => exact eval_insertSource hs
  | some src =>
    have hfmt : src.format = f.format := h src hs
    simp only [Option.map_some, ensureSource, hfmt, ne_eq, not_true_eq_false, if_false, ensuredSource, hs,
      Option.isSome_some, if_true]
    rfl

theorem ensuredSource_flows (f : Flow) (t : Time) (d : DB) : (ensuredSource f t d).flows = d.flows := by
  unfold ensuredSource
  split <;> rfl

theorem ensuredSource_source (f : Flow) (t : Time) (d : DB) : ((ensuredSource f t d).sources.get f.sourceId).isSome := by
  unfold ensuredSource
  split
  · assumption
  · rw [DB.write, Table.get_put]
    simp

theorem flowInsertViolation_ensured (hnew : d.flows.get f.id = none) :
    flowInsertViolation f (ensuredSource f t d) = none := by
  rw [flowInsertViolation, ensuredSource_flows, hnew, Option.isSome_none]
  simp [Option.isSome_iff_ne_none.mp (ensuredSource_source f t d)]

theorem eval_insertFlow (hnew : d.flows.get f.id = none) :
    (insertFlow f).eval t (ensuredSource f t d) =
      .ok ((), (ensuredSource f t d).write (.putFlow (newFlowRow f t))) := by
  rw [insertFlow, eval_stmtE, flowInsertViolation_ensured hnew]
  rfl

theorem upsertFlow_create (hnew : d.flows.get f.id = none) (hsrc : SourceAgrees f d) :
    (upsertFlow f).run t d = (.ok true, (ensuredSource f t d).write (.putFlow (newFlowRow f t))) := by
  rw [upsertFlow, run_inTx_ok (commits_upsertBody f), eval_upsertBody, hnew, Option.map_none, upsertExisting]
  refine eval_bind_ok.mpr ⟨(), _, ?_, eval_commitThen ..⟩
  rw [createFlow]
  exact eval_bind_ok.mpr ⟨_, d, rfl, eval_bind_ok.mpr ⟨(), _, eval_ensureSource hsrc, eval_insertFlow hnew⟩⟩

theorem upsertFlow_mismatch (hnew : d.flows.get f.id = none) (hsrc : ¬ SourceAgrees f d) :
    ∃ e, (upsertFlow f).run t d = (.error e, d) := by
  rw [SourceAgrees] at hsrc
  push Not at hsrc
  obtain ⟨src, hs, hne⟩ := hsrc
  refine ⟨.app (.new .formatMismatch [.text "source format is ", .quoted src.format, .text ", flow format ",
    .quoted f.format, .text " does not match"]), run_inTx_of_error (commits_upsertBody f) ?_⟩
  rw [eval_upsertBody, hnew, Option.map_none, upsertExisting, eval_bind, createFlow]
  have hq : (selectSource f.sourceId).eval t d = .ok (some src.format, d) := by
    rw [selectSource, query, eval_stmt, show d.sources.get f.sourceId = some src from hs]
    rfl
  rw [eval_bind, hq]
  simp only [Except.bind]
  rw [eval_bind, ensureSource, if_pos hne]
  rfl

/-! ## Update -/

theorem eval_checkCodec (existing : Option Str) :
    (checkCodec f existing).eval t d =
      if existing = f.codec ∨ d.segmentsOf f.id = [] then .ok ((), d)
      else .error (immutableField "codec cannot be changed when segments exist") := by
  unfold checkCodec
  by_cases hc : existing = f.codec
  · rw [if_pos (codecEqual_iff.mpr hc), if_pos (Or.inl hc)]
    rfl
  · rw [if_neg (mt codecEqual_iff.mp hc), eval_bind]
    simp only [countSegments, query, eval_stmt, Except.bind, hc, false_or]
    by_cases hs : d.segmentsOf f.id = []
    · rw [if_pos hs, hs, if_neg (by simp)]
      rfl
    · rw [if_neg hs, if_pos (List.length_pos_iff.mpr hs)]
      rfl

theorem upsertFlow_update (hr : d.flows.get f.id = some r) (h : Updatable f d r) :
    (upsertFlow f).run t d = (.ok false, d.write (.putFlow (updatedFlowRow f t r))) := by
  obtain ⟨hsrc, hfmt, hcodec⟩ := h
  rw [upsertFlow, run_inTx_ok (commits_upsertBody f), eval_upsertBody, hr, Option.map_some, upsertExisting]
  refine eval_bind_ok.mpr ⟨(), _, ?_, eval_commitThen ..⟩
  rw [updateFlow, if_neg (not_not.mpr hsrc), if_neg (not_not.mpr hfmt)]
  refine eval_bind_ok.mpr ⟨(), d, ?_, eval_bind_ok.mpr ⟨true, _, ?_, rfl⟩⟩
  · rw [eval_checkCodec, if_pos hcodec]
  · rw [updateFlowRow, eval_stmt, hr]
    rfl

theorem upsertFlow_immutable (hr : d.flows.get f.id = some r) (h : ¬ Updatable f d r) :
    ∃ e, (upsertFlow f).run t d = (.error e, d) := by
  have hbody : ∃ e, (upsertBody f).eval t d = .error e := by
    rw [eval_upsertBody, hr, Option.map_some, upsertExisting, eval_bind, updateFlow]
    split
    · exact ⟨_, rfl⟩
    split
    · exact ⟨_, rfl⟩
    rename_i hsrc hfmt
    have hcodec : ¬ (r.codec = f.codec ∨ d.segmentsOf f.id = []) := fun hc =>
      h ⟨not_not.mp hsrc, not_not.mp hfmt, hc⟩
    rw [eval_bind, eval_checkCodec, if_neg hcodec]
    exact ⟨_, rfl⟩
  obtain ⟨e, he⟩ := hbody
  exact ⟨e, run_inTx_of_error (commits_upsertBody f) he⟩

/-! ## Every outcome -/

inductive Upserted (f : Flow) (t : Time) (d : DB) : Bool → DB → Prop
  | created : d.flows.get f.id = none → SourceAgrees f d →
      Upserted f t d true ((ensuredSource f t d).write (.putFlow (newFlowRow f t)))
  | updated {r : FlowRow} : d.flows.get f.id = some r → Updatable f d r →
      Upserted f t d false (d.write (.putFlow (updatedFlowRow f t r)))

/-- **UpsertFlow creates, updates, or changes nothing.** -/
theorem upsertFlow_cases (f : Flow) (t : Time) (d : DB) :
    (∃ b d', (upsertFlow f).run t d = (.ok b, d') ∧ Upserted f t d b d') ∨
      ∃ e, (upsertFlow f).run t d = (.error e, d) := by
  cases hr : d.flows.get f.id with
  | none =>
    by_cases hs : SourceAgrees f d
    · exact Or.inl ⟨true, _, upsertFlow_create hr hs, .created hr hs⟩
    · exact Or.inr (upsertFlow_mismatch hr hs)
  | some r =>
    by_cases hu : Updatable f d r
    · exact Or.inl ⟨false, _, upsertFlow_update hr hu, .updated hr hu⟩
    · exact Or.inr (upsertFlow_immutable hr hu)

theorem upsertFlow_upserted {b : Bool} {d' : DB} (h : (upsertFlow f).run t d = (.ok b, d')) : Upserted f t d b d' := by
  rcases upsertFlow_cases f t d with ⟨b', d₁, hrun, hu⟩ | ⟨e, hrun⟩
  · cases hrun.symm.trans h
    exact hu
  · cases hrun.symm.trans h

end

end OpenTams
