import OpenTams.DeleteSound
import OpenTams.RefCount
import OpenTams.Sources
import OpenTams.UpsertSound

/-!
# The life of a source

A source is made by the first flow that names it. `DeleteFlow` deletes the row of
the flow and what hangs on it, and never the source: after the delete of the last
flow of a source the source stays. Sources and the flows that reference them agree
exactly as long as no such delete happens.
-/

namespace OpenTams

open Sql Sql.Prog

/-! ## Calls -/

inductive CatalogCall where
  | flow (x : { x : StoreCall // x.segmentFlow = none })
  | source (x : SourceCall)

def CatalogCall.prog (c : Constraints) : CatalogCall → Tx Unit
  | .flow x => (x.1.prog c).map fun _ => ()
  | .source x => x.prog

def SourcesInUse (d : DB) : Prop := ∀ s, (d.sources.get s).isSome ↔ ∃ r ∈ d.flows.rows, r.sourceId = s

def SharesSource (d : DB) (r : FlowRow) : Prop := ∃ r' ∈ d.flows.rows, r'.id ≠ r.id ∧ r'.sourceId = r.sourceId

instance (d : DB) (r : FlowRow) : Decidable (SharesSource d r) :=
  inferInstanceAs (Decidable (∃ r' ∈ d.flows.rows, r'.id ≠ r.id ∧ r'.sourceId = r.sourceId))

def CatalogCall.SparesSource (d : DB) : CatalogCall → Prop
  | .flow ⟨.deleteFlow id, _⟩ => ∀ r ∈ d.flows.get id, SharesSource d r
  | _ => True

instance (d : DB) : (x : CatalogCall) → Decidable (x.SparesSource d)
  | .source _ => .isTrue trivial
  | .flow ⟨x, hx⟩ => match x, hx with
    | .deleteFlow id, _ => inferInstanceAs (Decidable (∀ r ∈ d.flows.get id, SharesSource d r))
    | .upsertFlow _, _ | .putFlowTag _ _ _, _ | .deleteFlowTag _ _, _ | .putFlowLabel _ _, _ | .deleteFlowLabel _, _
    | .putFlowDescription _ _, _ | .deleteFlowDescription _, _ | .putFlowReadOnly _ _, _ | .putFlowCollection _ _, _
    | .deleteFlowCollection _, _ | .putFlowAvgBitRate _ _, _ | .deleteFlowAvgBitRate _, _ | .putFlowMaxBitRate _ _, _
    | .deleteFlowMaxBitRate _, _ | .insertSegments _ _, _ | .deleteSegmentsByTimerange _, _ => .isTrue trivial

/-! ## Writes -/

section
variable {d d' : DB} {r r' : FlowRow}

theorem SourcesInUse.of_eq (h : SourcesInUse d) (hsources : ∀ s, (d'.sources.get s).isSome = (d.sources.get s).isSome)
    (hflows : d'.flows = d.flows) : SourcesInUse d' := fun s => by rw [hsources, hflows]; exact h s

theorem SourcesInUse.putFlow (h : SourcesInUse d) (hr : d.flows.get r'.id = some r) (hs : r'.sourceId = r.sourceId) :
    SourcesInUse (d.write (.putFlow r')) := by
  have hid : r.id = r'.id := Table.key_of_get hr
  intro s
  refine (h s).trans ⟨?_, ?_⟩
  · rintro ⟨x, hx, rfl⟩
    by_cases he : x.id = r'.id
    · have hxr : x = r := Table.eq_of_mem hx (Table.mem_of_get hr) (he.trans hid.symm)
      exact ⟨r', Table.mem_of_get (Table.get_put_self d.flows r'), hs.trans (congrArg _ hxr).symm⟩
    · exact ⟨x, List.mem_append_left _ (Table.mem_del.mpr ⟨hx, he⟩), rfl⟩
  · rintro ⟨x, hx, rfl⟩
    rcases List.mem_append.mp hx with hx | hx
    · exact ⟨x, (Table.mem_del.mp hx).1, rfl⟩
    · rw [List.mem_singleton.mp hx]
      exact ⟨r, Table.mem_of_get hr, hs.symm⟩

theorem SourcesInUse.create (h : SourcesInUse d) (hnew : d.flows.get r.id = none) (hflows : d'.flows = d.flows)
    (hsources : ∀ s, (d'.sources.get s).isSome ↔ (d.sources.get s).isSome ∨ s = r.sourceId) :
    SourcesInUse (d'.write (.putFlow r)) := by
  intro s
  have hrows : (d'.flows.put r).rows = d.flows.rows ++ [r] := by rw [hflows]; exact Table.rows_put_new hnew
  refine (hsources s).trans ?_
  show _ ↔ ∃ x ∈ (d'.flows.put r).rows, x.sourceId = s
  rw [hrows, h s]
  simp only [List.mem_append, List.mem_singleton, or_and_right, exists_or, exists_eq_left]
  exact or_congr_right eq_comm

theorem sourcesInUse_withoutFlow (h : SourcesInUse d) (hr : d.flows.get r.id = some r) :
    SourcesInUse (d.withoutFlow r.id) ↔ SharesSource d r := by
  have hrows : ∀ x, x ∈ (d.withoutFlow r.id).flows.rows ↔ x ∈ d.flows.rows ∧ x.id ≠ r.id :=
    fun x => Table.mem_del (t := d.flows) (k := r.id)
  constructor
  · intro h'
    obtain ⟨x, hx, hs⟩ := (h' r.sourceId).mp ((h r.sourceId).mpr ⟨r, Table.mem_of_get hr, rfl⟩)
    exact ⟨x, ((hrows x).mp hx).1, ((hrows x).mp hx).2, hs⟩
  · rintro ⟨r', hr', hne, hs⟩ s
    refine (h s).trans ⟨?_, ?_⟩
    · rintro ⟨x, hx, rfl⟩
      by_cases he : x.id = r.id
      · have hxr : x = r := Table.eq_of_mem hx (Table.mem_of_get hr) he
        exact ⟨r', (hrows r').mpr ⟨hr', hne⟩, hs.trans (congrArg _ hxr).symm⟩
      · exact ⟨x, (hrows x).mpr ⟨hx, he⟩, rfl⟩
    · rintro ⟨x, hx, hxs⟩
      exact ⟨x, ((hrows x).mp hx).1, hxs⟩

end

/-! ## Steps -/

structure Tidy (d : DB) : Prop where
  inUse : SourcesInUse d
  noSegments : d.segments.rows = []

theorem tidy_empty : Tidy DB.empty := by
  refine ⟨fun s => ⟨fun hs => ?_, ?_⟩, rfl⟩
  · cases hs
  · rintro ⟨r, hr, -⟩
    cases hr

section
variable {d : DB} {t : Time}

theorem tidy_setters (g : Uuid) : KeptBySetters g Tidy where
  flow r r' v hr hf h := by
    have hid : r'.id = g := (FlowRow.id_of_fixed hf).trans (Table.key_of_get hr)
    exact ⟨h.inUse.putFlow (hid.symm ▸ hr) (congrArg (·.2.1) hf), h.noSegments⟩
  tag _ _ _ h := ⟨h.inUse, h.noSegments⟩
  delTag _ _ h := ⟨h.inUse, h.noSegments⟩
  item _ _ _ h := ⟨h.inUse, h.noSegments⟩
  delItem _ _ h := ⟨h.inUse, h.noSegments⟩

theorem ensuredSource_isSome (f : Flow) (t : Time) (d : DB) (s : Uuid) :
    ((ensuredSource f t d).sources.get s).isSome ↔ (d.sources.get s).isSome ∨ s = f.sourceId := by
  unfold ensuredSource
  split
  · rename_i hsome
    exact ⟨Or.inl, fun h => h.elim id fun he => he ▸ hsome⟩
  · show ((d.sources.put _).get s).isSome ↔ _
    rw [Table.get_put]
    split
    · rename_i he
      exact ⟨fun _ => Or.inr he.symm, fun _ => rfl⟩
    · rename_i hne
      exact ⟨Or.inl, fun h => h.elim id fun he => absurd he.symm hne⟩

theorem tidy_upsertFlow (f : Flow) (h : Tidy d) : Tidy ((upsertFlow f).run t d).2 := by
  rcases upsertFlow_cases f t d with ⟨b, d', hrun, hup⟩ | ⟨e, hrun⟩ <;> rw [hrun]
  · cases hup with
    | created hnew hsrc =>
      refine ⟨h.inUse.create (r := newFlowRow f t) hnew (ensuredSource_flows f t d) (ensuredSource_isSome f t d), ?_⟩
      have : (ensuredSource f t d).segments = d.segments := by unfold ensuredSource; split <;> rfl
      exact (congrArg _ this).trans h.noSegments
    | @updated r hr hu =>
      have hid : r.id = f.id := Table.key_of_get hr
      have hold : d.flows.get (updatedFlowRow f t r).id = some r := (congrArg d.flows.get hid).trans hr
      exact ⟨h.inUse.putFlow hold rfl, h.noSegments⟩
  · exact h

theorem commits_deleteFlowBody (id : Uuid) : (deleteFlowBody id).Commits := by
  refine (flat_query ..).bind_commits fun refs => (flat_forEach (fun _ _ => flat_stmtE ..) _ _).bind_commits fun _ =>
    (flat_stmt ..).bind_commits fun found => ?_
  cases found
  · trivial
  · exact commits_commitThen ..

theorem deleteFlow_noSegments {id : Uuid} (h : d.segments.rows = []) :
    ((deleteFlow id).run t d).2 = if (d.flows.get id).isSome then d.withoutFlow id else d := by
  have hnil : d.segmentsOf id = [] := by rw [DB.segmentsOf, h]; rfl
  have hbody : (deleteFlowBody id).eval t d = (do
      let found ← deleteFlowRow id
      if found then .commitThen .deleteFlowCommit (failed "metastore: DeleteFlow: commit: ") ()
      else .fail (notFound "flow not found") : Tx Unit).eval t d := by
    show (Prog.forEach deleteFlowDecrement 0 ((d.segmentsOf id).map (·.objectId)).dedup >>= fun _ => _).eval t d = _
    rw [hnil]
    rfl
  rw [deleteFlowRow, eval_bind, eval_stmt] at hbody
  cases hr : d.flows.get id with
  | none =>
    simp only [hr] at hbody
    rw [deleteFlow, run_inTx_of_error (commits_deleteFlowBody id) hbody]
    rfl
  | some r =>
    simp only [hr] at hbody
    rw [deleteFlow, (run_inTx_ok (commits_deleteFlowBody id)).mpr hbody]
    exact writeAll_deleteFlow d id

/-- The delete leaves the sources in use exactly if the flow was not the last of its source. -/
theorem inUse_deleteFlow {id : Uuid} (h : Tidy d) :
    SourcesInUse ((deleteFlow id).run t d).2 ↔ ∀ r ∈ d.flows.get id, SharesSource d r := by
  rw [deleteFlow_noSegments h.noSegments]
  cases hr : d.flows.get id with
  | none =>
    refine ⟨fun _ r hr => ?_, fun _ => h.inUse⟩
    cases hr
  | some r =>
    have hid : r.id = id := Table.key_of_get hr
    subst hid
    rw [Option.isSome_some, if_pos rfl, sourcesInUse_withoutFlow h.inUse hr]
    simp only [Option.mem_some_iff, forall_eq']

theorem noSegments_deleteFlow {id : Uuid} (h : d.segments.rows = []) :
    ((deleteFlow id).run t d).2.segments.rows = [] := by
  refine (keeps_deleteFlow (J := fun v => v.segments.rows = []) (fun _ _ _ _ h => h) fun v hv => ?_).run t h
  have hnil : v.segmentsOf id = [] := by rw [DB.segmentsOf, hv]; rfl
  show (v.segments.delAll ((v.segmentsOf id).map (·.id))).rows = []
  rw [hnil]
  exact hv

theorem keeps_sourceExists {J : DB → Prop} (id : Uuid) : (sourceExists id).Keeps J :=
  keeps_query.bind fun b => by cases b <;> trivial

theorem SourceField.set_id (f : SourceField) (now : Time) (r : SourceRow) : (f.set now r).id = r.id := by
  cases f <;> rfl

theorem keeps_updateSourceField (id : Uuid) (f : SourceField) : (updateSourceField id f).Keeps Tidy := by
  refine (keeps_stmt fun now v hv => ?_).bind fun b => by cases b <;> trivial
  cases hr : v.sources.get id with
  | none => exact hv
  | some r =>
    have hid : (f.set now r).id = id := (f.set_id now r).trans (Table.key_of_get hr)
    refine ⟨hv.inUse.of_eq (fun s => ?_) rfl, hv.noSegments⟩
    show ((v.sources.put (f.set now r)).get s).isSome = _
    rw [Table.get_put]
    split
    · rename_i he
      rw [← he, hid, hr]
      rfl
    · rfl

theorem keeps_sourceCall (x : SourceCall) : x.prog.Keeps Tidy := by
  cases x with
  | putSourceTag id name value =>
    refine (keeps_sourceExists id).bind fun _ => keeps_stmtE fun now v hv => ?_
    dsimp only
    split
    · exact hv
    · exact ⟨hv.inUse, hv.noSegments⟩
  | deleteSourceTag id name =>
    refine (keeps_sourceExists id).bind fun _ => keeps_stmt fun now v hv => ?_
    split
    · exact hv
    · exact ⟨hv.inUse, hv.noSegments⟩
  | putSourceLabel id label => exact keeps_updateSourceField id _
  | deleteSourceLabel id => exact keeps_updateSourceField id _
  | putSourceDescription id desc => exact keeps_updateSourceField id _
  | deleteSourceDescription id => exact keeps_updateSourceField id _

theorem tidy_step (c : Constraints) (x : CatalogCall) (t : Time) (h : Tidy d) (hC : x.SparesSource d) :
    Tidy ((x.prog c).run t d).2 := by
  cases x with
  | source x => exact (keeps_sourceCall x).run t h
  | flow x =>
    obtain ⟨x, hx⟩ := x
    rw [CatalogCall.prog, run_map]
    cases x with
    | upsertFlow f =>
      simp only [StoreCall.prog, run_map]
      exact tidy_upsertFlow f h
    | deleteFlow id =>
      simp only [StoreCall.prog, run_map]
      exact ⟨(inUse_deleteFlow h).mpr hC, noSegments_deleteFlow h.noSegments⟩
    | insertSegments nextval batch => cases hx
    | deleteSegmentsByTimerange q => cases hx
    | _ => exact (keeps_setter c (tidy_setters _) rfl).run t h

theorem sparesSource_of_inUse (c : Constraints) (x : CatalogCall) (t : Time) (h : Tidy d)
    (h' : SourcesInUse ((x.prog c).run t d).2) : x.SparesSource d := by
  cases x with
  | source x => trivial
  | flow x =>
    obtain ⟨x, hx⟩ := x
    cases x with
    | deleteFlow id =>
      rw [CatalogCall.prog, run_map] at h'
      simp only [StoreCall.prog, run_map] at h'
      exact (inUse_deleteFlow h).mp h'
    | _ => trivial

end

/-! ## Runs -/

/-- **Sources and the flows that reference them agree in every state of a run exactly if no call
deletes the last flow of a source.** -/
theorem sources_in_use_iff (c : Constraints) (h : List (CatalogCall × Time)) :
    (∀ h', h' <+: h → SourcesInUse (replay (CatalogCall.prog c) DB.empty h')) ↔
      Meets (CatalogCall.prog c) (fun d x => x.SparesSource d) DB.empty h := by
  exact (meets_iff_prefixes (fun d hd => hd.inUse) (fun x t d hd hC => tidy_step c x t hd hC)
    (fun x t d hd hQ => sparesSource_of_inUse c x t hd hQ) tidy_empty).symm

def sharingRun : List (CatalogCall × Time) :=
  [(.flow ⟨.upsertFlow sampleFlow, rfl⟩, 0), (.flow ⟨.upsertFlow { sampleFlow with id := 2 }, rfl⟩, 1),
    (.source (.putSourceLabel sampleFlow.sourceId (lit "studio")), 2),
    (.source (.putSourceTag sampleFlow.sourceId (lit "site") (lit "\"x\"")), 3), (.flow ⟨.deleteFlow 1, rfl⟩, 4)]

theorem sharingRun_inUse :
    (∀ h', h' <+: sharingRun → SourcesInUse (replay (CatalogCall.prog {}) DB.empty h')) ∧
      (replay (CatalogCall.prog {}) DB.empty sharingRun).flows.rows.map (·.id) = [2] := by
  refine ⟨(sources_in_use_iff {} sharingRun).mpr ?_, ?_⟩
  · decide +kernel
  · decide +kernel

def abandoningRun : List (CatalogCall × Time) :=
  [(.flow ⟨.upsertFlow sampleFlow, rfl⟩, 0), (.flow ⟨.deleteFlow sampleFlow.id, rfl⟩, 1)]

/-- A flow is made and deleted: its source is left behind. -/
theorem source_left_behind :
    ((replay (CatalogCall.prog {}) DB.empty abandoningRun).sources.get sampleFlow.sourceId).isSome = true ∧
      (replay (CatalogCall.prog {}) DB.empty abandoningRun).flows.rows = [] ∧
      ¬ SourcesInUse (replay (CatalogCall.prog {}) DB.empty abandoningRun) := by
  have hsource :
      ((replay (CatalogCall.prog {}) DB.empty abandoningRun).sources.get sampleFlow.sourceId).isSome = true := by
    decide +kernel
  have hflows : (replay (CatalogCall.prog {}) DB.empty abandoningRun).flows.rows = [] := by decide +kernel
  refine ⟨hsource, hflows, fun h => ?_⟩
  obtain ⟨r, hr, -⟩ := (h sampleFlow.sourceId).mp hsource
  rw [hflows] at hr
  cases hr

end OpenTams
