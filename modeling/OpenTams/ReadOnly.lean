import OpenTams.RefCount

/-!
# Read-only flows

What a call does to a flow it is not about, and what the guarded writers do to
a read-only flow: nothing. `UpsertFlow` and `DeleteFlow` do not look at the
flag, and change or delete a read-only flow like any other.
-/

namespace OpenTams

open Sql

def DB.flowPart (d : DB) (f : Uuid) : Option FlowRow × List TagRow × List CollectionRow × List SegmentRow :=
  (d.flows.get f, d.tagsOf f, d.collectionOf f, d.segmentsOf f)

/-! ## Calls about another flow -/

section
variable {f g : Uuid} (hne : g ≠ f)
include hne

theorem tagsOf_putTag {r : TagRow} (hr : r.flowId = g) (v : DB) : (v.write (.putTag r)).tagsOf f = v.tagsOf f := by
  refine Table.filter_put_of_not v.flowTags fun x hk => ?_
  have hx : x.flowId = g := (congrArg Prod.fst hk).trans hr
  simpa [hx] using hne

theorem tagsOf_delTag (n : Str) (v : DB) : (v.write (.delTag g n)).tagsOf f = v.tagsOf f := by
  simp only [DB.tagsOf, DB.write, Table.filter_del]
  refine Table.filter_ne_key fun x _ hk => ?_
  cases hk
  simpa using hne

theorem collectionOf_putItem {r : CollectionRow} (hr : r.flowId = g) (v : DB) :
    (v.write (.putItem r)).collectionOf f = v.collectionOf f := by
  refine Table.filter_put_of_not v.flowCollection fun x hk => ?_
  have hx : x.flowId = g := (congrArg Prod.fst hk).trans hr
  simpa [hx] using hne

theorem collectionOf_delItem (i : Uuid) (v : DB) : (v.write (.delItem g i)).collectionOf f = v.collectionOf f := by
  simp only [DB.collectionOf, DB.write, Table.filter_del]
  refine Table.filter_ne_key fun x _ hk => ?_
  cases hk
  simpa using hne

theorem flowPart_putFlow (r : FlowRow) (v : DB) (hr : r.id = g) : (v.write (.putFlow r)).flowPart f = v.flowPart f :=
  congrArg (·, v.tagsOf f, v.collectionOf f, v.segmentsOf f) (Table.get_put_ne v.flows (hr ▸ hne))

theorem flowPart_keptByMetadata (P : Option FlowRow × List TagRow × List CollectionRow × List SegmentRow) :
    KeptByMetadata g fun v => v.flowPart f = P where
  source _ _ h := h
  flow r v hr h := (flowPart_putFlow hne r v hr).trans h
  tag r v hr h := by rw [← h, DB.flowPart, tagsOf_putTag hne hr]; rfl
  delTag n v h := by rw [← h, DB.flowPart, tagsOf_delTag hne n]; rfl
  item r v hr h := by rw [← h, DB.flowPart, collectionOf_putItem hne hr]; rfl
  delItem i v h := by rw [← h, DB.flowPart, collectionOf_delItem hne i]; rfl

theorem filter_delAll_other {κ ρ : Type} [DecidableEq κ] {key : ρ → κ} (t : Table κ ρ key) (flow : ρ → Uuid)
    (p : ρ → Bool) :
    ((t.delAll (((t.rows.filter fun r => flow r = g).filter p).map key)).rows.filter fun r => flow r = f) =
      t.rows.filter fun r => flow r = f := by
  rw [List.filter_filter, Table.rows_delAll_filter, List.filter_filter]
  refine List.filter_congr fun r _ => ?_
  by_cases hf : flow r = f
  · simp [hf, Ne.symm hne]
  · simp [hf]

theorem flowPart_withoutFlow (v : DB) : (v.withoutFlow g).flowPart f = v.flowPart f := by
  have hseg := filter_delAll_other hne v.segments SegmentRow.flowId fun _ => true
  have htag := filter_delAll_other hne v.flowTags TagRow.flowId fun _ => true
  have hitem := filter_delAll_other hne v.flowCollection CollectionRow.flowId fun _ => true
  simp only [List.filter_true] at hseg htag hitem
  exact Prod.ext (Table.get_del_ne _ hne) (Prod.ext htag (Prod.ext hitem hseg))

theorem call_flowPart_other {x : StoreCall} (hx : x.flowId = g) (c : Constraints) (t : Time) (d : DB) :
    ((x.prog c).run t d).2.flowPart f = d.flowPart f := by
  have hmeta := flowPart_keptByMetadata hne (d.flowPart f)
  have hne' : x.flowId ≠ f := hx ▸ hne
  cases hm : x.isMetadata with
  | true =>
    rw [← hx] at hmeta
    exact (keeps_metadata (J := fun v => v.flowPart f = d.flowPart f) c hmeta hm).run t rfl
  | false =>
    cases x with
    | deleteFlow id =>
      simp only [StoreCall.prog, Prog.run_map]
      refine (keeps_deleteFlow (J := fun v => v.flowPart f = d.flowPart f) (fun _ _ _ _ h => h) fun v h => ?_).run t rfl
      exact (flowPart_withoutFlow hne' v).trans h
    | insertSegments nextval batch =>
      simp only [StoreCall.prog, Prog.run_map]
      refine (keeps_insertSegments (J := fun v => v.flowPart f = d.flowPart f) (fun _ _ h => h)
        (fun r v hr h => (flowPart_putFlow hne r v (hr.trans hx)).trans h) fun r v hr hid _ h => ?_).run t rfl
      have hrf : r.flowId ≠ f := fun e => hne' (hr.symm.trans e)
      rw [← h, DB.flowPart, segmentsOf_putSegment hid, if_neg hrf, List.append_nil]
      rfl
    | deleteSegmentsByTimerange q =>
      simp only [StoreCall.prog, Prog.run_map]
      refine (keeps_deleteSegmentsByTimerange (J := fun v => v.flowPart f = d.flowPart f) (fun _ _ _ _ h => h)
        (fun r v hr h => (flowPart_putFlow hne r v (hr.trans hx)).trans h) fun lo hi v _ h => ?_).run t rfl
      have hseg := filter_delAll_other hne' v.segments SegmentRow.flowId (deleteMatches q lo hi)
      rw [← h]
      exact congrArg (v.flows.get f, v.tagsOf f, v.collectionOf f, ·) hseg
    | _ => cases hm

end

/-! ## Guarded calls about a read-only flow -/

/-- The calls that look at `read_only` before they write. -/
def StoreCall.isGuarded : StoreCall → Bool
  | .upsertFlow _ => false
  | .deleteFlow _ => false
  | .putFlowReadOnly _ _ => false
  | _ => true

section
variable {d : DB} {t : Time}

theorem flowWritable_refused {f : Uuid} {r : FlowRow} {α : Type} (hr : d.flows.get f = some r) (hro : r.readOnly = true)
    (k : Unit → Tx α) : (flowWritable f >>= k).run t d = (.error readOnlyErr, d) := by
  simp only [flowWritable, selectReadOnly, Prog.run, Prog.bind_eq, Prog.query, Prog.stmt, Prog.bind, Prog.exec,
    Conn.view_none, Conn.run_none, hr, Option.map_some, hro, requireWritable, writeAll_nil]

theorem putFlowCollection_refused {f : Uuid} {r : FlowRow} (hr : d.flows.get f = some r) (hro : r.readOnly = true)
    (items : List CollectionItem) : (putFlowCollection f items).run t d = (.error readOnlyErr, d) := by
  rw [putFlowCollection, Prog.run_inTx]
  simp only [putCollectionBody, selectReadOnly, Prog.bind_eq, Prog.query, Prog.stmt, Prog.bind, Prog.exec,
    Conn.view_some, Conn.run_some, writeAll_nil, hr, Option.map_some, hro, requireWritable]

theorem segmentGuard_refused {f : Uuid} {α : Type} {op : String} {rest : Tx α} {e : Err}
    (hro : ∀ r, d.flows.get f = some r → r.readOnly = true) :
    ∃ e', (Prog.inTx e (do let guard ← getFlowForSegmentWrite f; checkGuard op guard; rest)).run t d =
      (.error e', d) := by
  have hwp : Wp Alone t (fun _ _ _ => False) (fun _ _ _ => False)
      (do let guard ← getFlowForSegmentWrite f; checkGuard op guard; rest) [] d :=
    wp_guard (fun _ he => by rw [he]) fun r hr hw => by
      rw [hro r hr] at hw
      cases hw
  rcases hwp.run_inTx (e := e) with h | ⟨_, _, _, -, hf⟩ | ⟨_, _, _, -, hf⟩
  · exact h
  · exact hf.elim
  · exact hf.elim

theorem segmentWrite_refused {x : StoreCall} (hx : x.segmentFlow.isSome)
    (hro : ∀ r, d.flows.get x.flowId = some r → r.readOnly = true) (c : Constraints) :
    ∃ e, (x.prog c).run t d = (.error e, d) := by
  cases x with
  | insertSegments nextval batch =>
    have hins : ∃ e, (insertSegments c nextval batch).run t d = (.error e, d) := by
      unfold insertSegments
      split
      · exact ⟨_, rfl⟩
      · exact segmentGuard_refused hro
    exact hins.imp fun _ he => Prog.run_map_error he _
  | deleteSegmentsByTimerange q =>
    have hdel : ∃ e, (deleteSegmentsByTimerange q).run t d = (.error e, d) := segmentGuard_refused hro
    exact hdel.imp fun _ he => Prog.run_map_error he _
  | _ => cases hx

theorem guarded_refused {x : StoreCall} {r : FlowRow} (hx : x.isGuarded = true) (hr : d.flows.get x.flowId = some r)
    (hro : r.readOnly = true) (c : Constraints) : ∃ e, (x.prog c).run t d = (.error e, d) := by
  cases x with
  | upsertFlow f => cases hx
  | deleteFlow id => cases hx
  | putFlowReadOnly id b => cases hx
  | putFlowCollection id items => exact ⟨_, Prog.run_map_error (putFlowCollection_refused hr hro items) _⟩
  | insertSegments nextval batch =>
    exact segmentWrite_refused rfl (fun r' hr' => by cases hr.symm.trans hr'; exact hro) c
  | deleteSegmentsByTimerange q =>
    exact segmentWrite_refused rfl (fun r' hr' => by cases hr.symm.trans hr'; exact hro) c
  | _ => exact ⟨_, Prog.run_map_error (flowWritable_refused hr hro _) _⟩

end

/-! ## Runs -/

/-- The call is about another flow, or looks at `read_only` first. -/
def StoreCall.Spares (f : Uuid) (x : StoreCall) : Prop := x.flowId ≠ f ∨ x.isGuarded = true

instance (f : Uuid) (x : StoreCall) : Decidable (x.Spares f) :=
  inferInstanceAs (Decidable (x.flowId ≠ f ∨ x.isGuarded = true))

theorem call_flowPart_spares {f : Uuid} {r : FlowRow} {d : DB} {x : StoreCall} (hr : d.flows.get f = some r)
    (hro : r.readOnly = true) (hx : x.Spares f) (c : Constraints) (t : Time) :
    ((x.prog c).run t d).2.flowPart f = d.flowPart f := by
  by_cases hf : x.flowId = f
  · subst hf
    obtain ⟨e, he⟩ := guarded_refused (t := t) (hx.resolve_left fun h => h rfl) hr hro c
    rw [he]
  · exact call_flowPart_other hf rfl c t d

theorem replay_flowPart {f : Uuid} {r : FlowRow} {d : DB} (hr : d.flows.get f = some r) (hro : r.readOnly = true)
    {c : Constraints} {h : List (StoreCall × Time)} (hs : ∀ x ∈ h, x.1.Spares f) :
    (replay (StoreCall.prog c) d h).flowPart f = d.flowPart f := by
  have hm : Meets (StoreCall.prog c) (fun _ => StoreCall.Spares f) d h := meets_of_forall hs d
  refine replay_rule (P := fun v => v.flowPart f = d.flowPart f) (fun x t v hv hx => ?_) rfl hm
  have hv' : v.flows.get f = some r := (congrArg Prod.fst hv).trans hr
  exact (call_flowPart_spares hv' hro hx c t).trans hv

/-- **Read-only flows.** From any state in which the flow is read-only, a run
without `UpsertFlow`, `DeleteFlow` and `PutFlowReadOnly` of that flow leaves its
row, tags, collection and segments as they are, and every call about it is refused. -/
theorem readOnly_protected {f : Uuid} {r : FlowRow} {d : DB} (hr : d.flows.get f = some r) (hro : r.readOnly = true)
    {c : Constraints} {h : List (StoreCall × Time)} (hs : ∀ x ∈ h, x.1.Spares f) :
    (replay (StoreCall.prog c) d h).flowPart f = d.flowPart f ∧
    ∀ pre x t post, h = pre ++ (x, t) :: post → x.flowId = f →
      ∃ e, ((x.prog c).run t (replay (StoreCall.prog c) d pre)).1 = .error e := by
  refine ⟨replay_flowPart hr hro hs, ?_⟩
  rintro pre x t post rfl rfl
  have hpre := replay_flowPart (c := c) hr hro fun y hy => hs y (List.mem_append_left _ hy)
  have hx : x.Spares x.flowId := hs (x, t) List.mem_append_cons_self
  obtain ⟨e, he⟩ := guarded_refused (t := t) (hx.resolve_left fun h => h rfl)
    ((congrArg Prod.fst hpre).trans hr) hro c
  exact ⟨e, by rw [he]⟩

def frozenStore : DB := replay (StoreCall.prog {}) DB.empty
  [(.upsertFlow sampleFlow, 0), (.insertSegments id sharedBatch, 1), (.putFlowReadOnly 1 true, 2)]

def relabelled : Flow := { sampleFlow with label := some (lit "new"), readOnly := true }

/-- `UpsertFlow` and `DeleteFlow` do not look at the flag: the one relabels the
read-only flow, the other deletes it with its segments. -/
theorem readOnly_ignored :
    ((frozenStore.flows.get 1).map (·.readOnly) = some true ∧ (frozenStore.segmentsOf 1).length = 2) ∧
    (((StoreCall.upsertFlow relabelled).prog {}).run 3 frozenStore).1 = .ok (.created false) ∧
    ((((StoreCall.upsertFlow relabelled).prog {}).run 3 frozenStore).2.flows.get 1).map (·.label) =
      some (some (lit "new")) ∧
    (((StoreCall.deleteFlow 1).prog {}).run 3 frozenStore).1 = .ok .done ∧
    (((StoreCall.deleteFlow 1).prog {}).run 3 frozenStore).2.flowPart 1 = (none, [], [], []) := by
  decide +kernel

def refusedRun : List (StoreCall × Time) :=
  [(.putFlowTag 1 (lit "k") (lit "v"), 3), (.putFlowLabel 1 (lit "new"), 4), (.putFlowCollection 1 [], 5),
    (.upsertFlow { relabelled with id := 7 }, 6), (.insertSegments id sharedBatch, 7),
    (.deleteSegmentsByTimerange ⟨1, ⟨none, .unbounded, none, .unbounded⟩, none⟩, 8), (.deleteFlow 7, 9)]

theorem readOnly_protected_refusedRun :
    ∃ r, frozenStore.flows.get 1 = some r ∧ r.readOnly = true ∧ (∀ x ∈ refusedRun, x.1.Spares 1) ∧
    (replay (StoreCall.prog {}) frozenStore refusedRun).flowPart 1 = frozenStore.flowPart 1 ∧
    ∀ pre x t post, refusedRun = pre ++ (x, t) :: post → x.flowId = 1 →
      ∃ e, ((x.prog {}).run t (replay (StoreCall.prog {}) frozenStore pre)).1 = .error e := by
  obtain ⟨r, hr, hro⟩ : ∃ r, frozenStore.flows.get 1 = some r ∧ r.readOnly = true := by
    have : (frozenStore.flows.get 1).any (·.readOnly) = true := by decide +kernel
    simpa [Option.any_eq_true] using this
  have hs : ∀ x ∈ refusedRun, x.1.Spares 1 := by decide +kernel
  exact ⟨r, hr, hro, hs, readOnly_protected hr hro hs⟩

end OpenTams
