import OpenTams.PutFlow
import OpenTams.ReadOnly

/-!
# The timerange column of a flow

The segment writers derive `flows.timerange` from the rows they leave. PUT of a
flow writes the column too, and always NULL, as `apiFlowToMetastore` sets no
timerange. The column says what the segments of the flow are for exactly as long
as no PUT updates a flow that has segments.
-/

namespace OpenTams

open Sql Sql.Prog

/-! ## Calls -/

inductive FlowCall where
  | put (id : Uuid) (body : FlowObject)
  | write (x : { x : StoreCall // x.isUpsert = false })

def FlowCall.prog (E : EssenceReader) (c : Constraints) : FlowCall → Tx Unit
  | .put id body => (Handler.putFlow E (some id) (some body)).map fun _ => ()
  | .write x => (x.1.prog c).map fun _ => ()

/-- The PUT is accepted and updates a flow that is there. -/
def Replaces (E : EssenceReader) (d : DB) (id : Uuid) (body : FlowObject) : Prop :=
  (FlowService.validateVideoFlow E (apiFlowToMetastore id (parseFlowBody body))).isOk = true ∧
    ∃ r ∈ d.flows.get id, Updatable (apiFlowToMetastore id (parseFlowBody body)) d r

instance (E : EssenceReader) (d : DB) (id : Uuid) (body : FlowObject) : Decidable (Replaces E d id body) :=
  inferInstanceAs (Decidable (_ ∧ ∃ r ∈ d.flows.get id, Updatable (apiFlowToMetastore id (parseFlowBody body)) d r))

def FlowCall.SparesContent (E : EssenceReader) (d : DB) : FlowCall → Prop
  | .put id body => Replaces E d id body → d.segmentsOf id = []
  | .write _ => True

instance (E : EssenceReader) (d : DB) : (x : FlowCall) → Decidable (x.SparesContent E d)
  | .put id body => inferInstanceAs (Decidable (Replaces E d id body → d.segmentsOf id = []))
  | .write _ => .isTrue trivial

/-! ## The column and the rows -/

/-- NULL where there are no rows, and else the string of the range from the start of a first row to
the end of a last one. -/
structure FlowRow.Fresh (r : FlowRow) (rows : List SegmentRow) : Prop where
  null : r.timerange = none ↔ rows = []
  span : ∀ text, r.timerange = some text → ∃ first ∈ rows, ∃ last ∈ rows,
    (∀ s ∈ rows, first.lowerNs ≤ s.lowerNs ∧ s.lowerNs ≤ last.lowerNs) ∧
      ∃ tr tr', parse first.timerange = .ok tr ∧ parse last.timerange = .ok tr' ∧
        (joinSpan tr tr').string = some text

structure Timely (g : Uuid) (d : DB) : Prop where
  row : ∀ r, d.flows.get g = some r → r.Fresh (d.segmentsOf g)
  absent : d.flows.get g = none → d.segmentsOf g = []

section
variable {g : Uuid} {d v : DB} {r : FlowRow} {t : Time}

theorem renderSpan_ok {first last text : Str} (h : renderSpan (some first) (some last) = .ok (some text)) :
    ∃ tr tr', parse first = .ok tr ∧ parse last = .ok tr' ∧ (joinSpan tr tr').string = some text := by
  rw [renderSpan] at h
  split at h
  · cases h
  rename_i tr htr
  split at h
  · cases h
  rename_i tr' htr'
  split at h
  · cases h
  rename_i span hspan
  cases h
  exact ⟨tr, tr', htr, htr', hspan⟩

theorem renderSpan_ne_none {first last : Str} : renderSpan (some first) (some last) ≠ .ok none := by
  unfold renderSpan
  repeat' split
  all_goals exact fun h => by cases h

theorem fresh_of_render (h : renderSpan (spanRows v g).1 (spanRows v g).2 = .ok r.timerange) :
    r.Fresh (v.segmentsOf g) := by
  rcases spanRows_cases v g with ⟨hnil, hspan⟩ | ⟨first, hf, last, hl, hspan, hle⟩
  · rw [hspan] at h
    have hnone : r.timerange = none := (Except.ok.inj h).symm
    exact ⟨⟨fun _ => hnil, fun _ => hnone⟩, fun text ht => by rw [hnone] at ht; cases ht⟩
  · rw [hspan] at h
    constructor
    · refine ⟨fun hnone => ?_, fun hnil => ?_⟩
      · rw [hnone] at h
        exact absurd h renderSpan_ne_none
      · rw [hnil] at hf
        cases hf
    · intro text ht
      rw [ht] at h
      refine ⟨first, hf, last, hl, fun s hs => ?_, renderSpan_ok h⟩
      simp only [Int64.le_iff_toInt_le]
      exact hle s hs

theorem fresh_nil (h : r.timerange = none) : r.Fresh [] :=
  ⟨⟨fun _ => rfl, fun _ => h⟩, fun text ht => by rw [h] at ht; cases ht⟩

/-! ## Steps -/

theorem Timely.of_flowPart {d' : DB} (h : Timely g d) (he : d'.flowPart g = d.flowPart g) : Timely g d' := by
  have hrow : d'.flows.get g = d.flows.get g := congrArg (·.1) he
  have hseg : d'.segmentsOf g = d.segmentsOf g := congrArg (·.2.2.2) he
  exact ⟨fun r hr => hseg ▸ h.row r (hrow ▸ hr), fun hn => hseg ▸ h.absent (hrow ▸ hn)⟩

theorem timely_put {d' : DB} (hput : d'.flows = d.flows.put r) (hr : r.id = g) (h : r.Fresh (d'.segmentsOf g)) :
    Timely g d' := by
  subst hr
  have hget : d'.flows.get r.id = some r := by rw [hput]; exact Table.get_put_self d.flows r
  refine ⟨fun r' hr' => ?_, fun hn => ?_⟩
  · cases hget.symm.trans hr'
    exact h
  · cases hget.symm.trans hn

theorem timely_setters (g : Uuid) : KeptBySetters g (Timely g) where
  flow r r' v hr hf h := by
    have hid : r'.id = g := (FlowRow.id_of_fixed hf).trans (Table.key_of_get hr)
    have htr : r'.timerange = r.timerange := congrArg (·.2.2.2.2.2) hf
    exact timely_put (d := v) rfl hid ⟨htr ▸ (h.row r hr).null, htr ▸ (h.row r hr).span⟩
  tag _ _ _ h := ⟨h.row, h.absent⟩
  delTag _ _ h := ⟨h.row, h.absent⟩
  item _ _ _ h := ⟨h.row, h.absent⟩
  delItem _ _ h := ⟨h.row, h.absent⟩

theorem timely_withoutFlow (v : DB) (g : Uuid) : Timely g (v.withoutFlow g) := by
  refine ⟨fun r hr => ?_, fun _ => ?_⟩
  · have : (v.withoutFlow g).flows.get g = none := Table.get_del_self v.flows g
    cases this.symm.trans hr
  · have hrows := rows_delSegments v g fun _ => true
    rw [List.filter_true] at hrows
    show (v.segments.delAll ((v.segmentsOf g).map (·.id))).rows.filter _ = []
    rw [hrows, List.filter_filter, List.filter_eq_nil_iff]
    simp

theorem timely_insert {c : Constraints} {nextval : Nat → Nat} {batch : InsertBatch} (h : Timely batch.flowId d) :
    Timely batch.flowId ((insertSegments c nextval batch).run t d).2 := by
  cases hrun : (insertSegments c nextval batch).run t d with
  | mk a d' =>
    cases a with
    | error e =>
      have := insertSegments_refused (congrArg Prod.fst hrun)
      rw [hrun] at this
      exact this ▸ h
    | ok a =>
      obtain ⟨bounds, hins⟩ := insertSegments_inserted hrun
      obtain ⟨r, span, hr, -, hspan, hput⟩ := hins.flow
      have hid : r.id = batch.flowId := Table.key_of_get hr
      exact timely_put hput hid (fresh_of_render hspan)

theorem timely_delete {q : DeleteQuery} (h : Timely q.flowId d) :
    Timely q.flowId ((deleteSegmentsByTimerange q).run t d).2 := by
  rcases deleteSegmentsByTimerange_cases q t d with he | ⟨r, span, v, hr, -, hspan, he⟩
  · rw [he]
    exact h
  · rw [he]
    have hid : r.id = q.flowId := Table.key_of_get hr
    exact timely_put (d := v) rfl hid (fresh_of_render hspan)

theorem timely_own {x : StoreCall} (hx : x.isUpsert = false) (c : Constraints) (h : Timely x.flowId d) :
    Timely x.flowId ((x.prog c).run t d).2 := by
  cases x with
  | upsertFlow f => cases hx
  | deleteFlow id =>
    simp only [StoreCall.prog, run_map]
    exact (keeps_deleteFlow (J := Timely id) (fun _ _ _ _ h => ⟨h.row, h.absent⟩) fun v _ => timely_withoutFlow v id).run t h
  | insertSegments nextval batch =>
    simp only [StoreCall.prog, run_map]
    exact timely_insert h
  | deleteSegmentsByTimerange q =>
    simp only [StoreCall.prog, run_map]
    exact timely_delete h
  | _ => exact (keeps_setter c (timely_setters _) rfl).run t h

theorem timely_write {x : StoreCall} (hx : x.isUpsert = false) (c : Constraints) (h : ∀ g, Timely g d) (g : Uuid) :
    Timely g ((x.prog c).run t d).2 := by
  by_cases hg : x.flowId = g
  · subst hg
    exact timely_own hx c (h _)
  · exact (h g).of_flowPart (call_flowPart_other hg rfl c t d)

end

/-! ## PUT -/

section
variable {E : EssenceReader} {id : Uuid} {body : FlowObject} {d : DB} {t : Time}

theorem putFlow_cases (E : EssenceReader) (id : Uuid) (body : FlowObject) (t : Time) (d : DB) :
    ¬ Replaces E d id body ∧
      (((Handler.putFlow E (some id) (some body)).run t d).2 = d ∨
        d.flows.get id = none ∧ ((Handler.putFlow E (some id) (some body)).run t d).2 =
          (ensuredSource (apiFlowToMetastore id (parseFlowBody body)) t d).write
            (.putFlow (newFlowRow (apiFlowToMetastore id (parseFlowBody body)) t))) ∨
    Replaces E d id body ∧ ∃ r, d.flows.get id = some r ∧ ((Handler.putFlow E (some id) (some body)).run t d).2 =
      d.write (.putFlow (updatedFlowRow (apiFlowToMetastore id (parseFlowBody body)) t r)) := by
  rw [run_putFlow_db, FlowService.upsertFlow]
  cases hv : FlowService.validateVideoFlow E (apiFlowToMetastore id (parseFlowBody body)) with
  | error e =>
    refine Or.inl ⟨fun h => ?_, Or.inl rfl⟩
    rw [Replaces, hv] at h
    cases h.1
  | ok u =>
    have hid : (apiFlowToMetastore id (parseFlowBody body)).id = id := rfl
    cases hr : d.flows.get id with
    | none =>
      refine Or.inl ⟨fun h => ?_, ?_⟩
      · obtain ⟨r, hr', -⟩ := h.2
        rw [hr] at hr'
        cases hr'
      · by_cases hs : SourceAgrees (apiFlowToMetastore id (parseFlowBody body)) d
        · exact Or.inr ⟨rfl, congrArg Prod.snd (upsertFlow_create hr hs)⟩
        · obtain ⟨e, he⟩ := upsertFlow_mismatch (t := t) hr hs
          exact Or.inl (congrArg Prod.snd he)
    | some r =>
      by_cases hu : Updatable (apiFlowToMetastore id (parseFlowBody body)) d r
      · exact Or.inr ⟨⟨by rw [hv]; rfl, r, hr, hu⟩, r, rfl, congrArg Prod.snd (upsertFlow_update hr hu)⟩
      · obtain ⟨e, he⟩ := upsertFlow_immutable (t := t) hr hu
        refine Or.inl ⟨fun h => ?_, Or.inl (congrArg Prod.snd he)⟩
        obtain ⟨r', hr', hu'⟩ := h.2
        cases hr.symm.trans hr'
        exact hu hu'

theorem ensuredSource_segmentsOf (f : Flow) (t : Time) (d : DB) (g : Uuid) :
    (ensuredSource f t d).segmentsOf g = d.segmentsOf g := by
  unfold ensuredSource
  split <;> rfl

theorem timely_putFlow (h : ∀ g, Timely g d) (hC : Replaces E d id body → d.segmentsOf id = []) (g : Uuid) :
    Timely g ((Handler.putFlow E (some id) (some body)).run t d).2 := by
  have hother : id ≠ g → Timely g ((Handler.putFlow E (some id) (some body)).run t d).2 := by
    intro hne
    rw [run_putFlow_db, FlowService.upsertFlow]
    split
    · exact h g
    · have hpart := call_flowPart_other (x := .upsertFlow (apiFlowToMetastore id (parseFlowBody body))) hne rfl {} t d
      simp only [StoreCall.prog, run_map] at hpart
      exact (h g).of_flowPart hpart
  by_cases hne : id = g
  swap
  · exact hother hne
  subst hne
  rcases putFlow_cases E id body t d with ⟨-, he | ⟨hnew, he⟩⟩ | ⟨hrep, r, hr, he⟩ <;> rw [he]
  · exact h id
  · refine timely_put (d := ensuredSource (apiFlowToMetastore id (parseFlowBody body)) t d) rfl rfl ?_
    have hnil := (ensuredSource_segmentsOf (apiFlowToMetastore id (parseFlowBody body)) t d id).trans
      ((h id).absent hnew)
    exact hnil.symm ▸ fresh_nil rfl
  · have hid : r.id = id := Table.key_of_get hr
    refine timely_put (d := d) rfl hid ?_
    exact (hC hrep).symm ▸ fresh_nil rfl

theorem putFlow_stale (hrep : Replaces E d id body) (hne : d.segmentsOf id ≠ []) :
    ∃ r ∈ ((Handler.putFlow E (some id) (some body)).run t d).2.flows.rows,
      ¬ r.Fresh (((Handler.putFlow E (some id) (some body)).run t d).2.segmentsOf r.id) := by
  rcases putFlow_cases E id body t d with ⟨hno, -⟩ | ⟨-, r, hr, he⟩
  · exact absurd hrep hno
  · rw [he]
    have hid : r.id = id := Table.key_of_get hr
    have hget := Table.get_put_self d.flows (updatedFlowRow (apiFlowToMetastore id (parseFlowBody body)) t r)
    refine ⟨_, Table.mem_of_get hget, fun hf => hne ?_⟩
    have hnil : d.segmentsOf r.id = [] := hf.null.mp rfl
    exact hid ▸ hnil

end

/-! ## Runs -/

theorem timely_step (E : EssenceReader) (c : Constraints) (x : FlowCall) (t : Time) {d : DB} (h : ∀ g, Timely g d)
    (hC : x.SparesContent E d) (g : Uuid) : Timely g ((x.prog E c).run t d).2 := by
  cases x with
  | put id body =>
    rw [FlowCall.prog, run_map]
    exact timely_putFlow h hC g
  | write x =>
    rw [FlowCall.prog, run_map]
    exact timely_write x.2 c h g

/-- **The column is fresh in every state of a run exactly if no PUT updates a flow with segments.** -/
theorem flowTimerange_fresh_iff (E : EssenceReader) (c : Constraints) (h : List (FlowCall × Time)) :
    (∀ h', h' <+: h → ∀ r ∈ (replay (FlowCall.prog E c) DB.empty h').flows.rows,
      r.Fresh ((replay (FlowCall.prog E c) DB.empty h').segmentsOf r.id)) ↔
    Meets (FlowCall.prog E c) (fun d x => x.SparesContent E d) DB.empty h := by
  have hempty : ∀ g, Timely g DB.empty := fun g => ⟨fun r hr => (by cases hr), fun _ => rfl⟩
  refine (meets_iff_prefixes (P := fun d => ∀ g, Timely g d)
    (Q := fun d => ∀ r ∈ d.flows.rows, r.Fresh (d.segmentsOf r.id)) ?_ ?_ ?_ hempty).symm
  · exact fun d hd r hr => (hd r.id).row r (Table.get_of_mem hr)
  · exact fun x t d hd hC => timely_step E c x t hd hC
  · intro x t d _ hQ
    cases x with
    | write x => trivial
    | put id body =>
      rw [FlowCall.prog, run_map] at hQ
      intro hrep
      by_contra hne
      obtain ⟨r, hr, hstale⟩ := putFlow_stale (t := t) hrep hne
      exact hstale (hQ r hr)

def orderlyRun : List (FlowCall × Time) :=
  [(.put 1 plainBody, 0), (.put 1 { plainBody with label := some (lit "late news") }, 1),
    (.write ⟨.insertSegments id sharedBatch, rfl⟩, 2), (.write ⟨.putFlowLabel 1 (lit "news"), rfl⟩, 3),
    (.write ⟨.deleteSegmentsByTimerange ⟨1, ⟨some ⟨0, 0⟩, .inclusive, some ⟨1, 0⟩, .exclusive⟩, none⟩, rfl⟩, 4)]

theorem orderlyRun_fresh :
    (∀ h', h' <+: orderlyRun → ∀ r ∈ (replay (FlowCall.prog (fun _ => none) {}) DB.empty h').flows.rows,
      r.Fresh ((replay (FlowCall.prog (fun _ => none) {}) DB.empty h').segmentsOf r.id)) ∧
    ((replay (FlowCall.prog (fun _ => none) {}) DB.empty orderlyRun).flows.get 1).map (·.timerange) =
      some (some (lit "[1:0_2:0)")) := by
  refine ⟨(flowTimerange_fresh_iff (fun _ => none) {} orderlyRun).mpr ?_, ?_⟩
  · decide +kernel
  · decide +kernel

def overwritingRun : List (FlowCall × Time) :=
  [(.put 1 plainBody, 0), (.write ⟨.insertSegments id sharedBatch, rfl⟩, 1), (.put 1 plainBody, 2)]

/-- After the second PUT the column is NULL beside two segments. -/
theorem overwritingRun_stale :
    ¬ ∀ h', h' <+: overwritingRun → ∀ r ∈ (replay (FlowCall.prog (fun _ => none) {}) DB.empty h').flows.rows,
      r.Fresh ((replay (FlowCall.prog (fun _ => none) {}) DB.empty h').segmentsOf r.id) := by
  intro h
  have hrow : (replay (FlowCall.prog (fun _ => none) {}) DB.empty overwritingRun).flows.rows.any (fun r =>
      decide (r.timerange = none) &&
        decide (((replay (FlowCall.prog (fun _ => none) {}) DB.empty overwritingRun).segmentsOf r.id).length = 2)) =
      true := by decide +kernel
  simp only [List.any_eq_true, Bool.and_eq_true, decide_eq_true_eq] at hrow
  obtain ⟨r, hr, hnull, htwo⟩ := hrow
  rw [(h overwritingRun (List.prefix_refl _) r hr).null.mp hnull] at htwo
  cases htwo

end OpenTams
