import OpenTams.Interleave
import OpenTams.ReadOnly
import OpenTams.SegmentConc

/-!
# Freezing a flow under concurrent writes

`PutFlowReadOnly` against the writers that look at the flag. The metadata
writers read it in a statement of its own and without a lock, so the flag can
be set between their check and their write. The segment writers read it under
the row lock they keep to their end, so it cannot.
-/

namespace OpenTams

open Sql

/-! ## Metadata writers -/

/-- The writers of tags, label, description, bit rates and collection. -/
def StoreCall.isFieldWrite (x : StoreCall) : Bool := x.isMetadata && x.isGuarded

def StoreCall.guardStmt : StoreCall → Stmt
  | .putFlowCollection _ _ => .collectionCheck
  | _ => .flowWritable

section
variable {id f : Uuid}

theorem guarded_requireWritable {α : Type} (name : Stmt) (e : Err) (k : Unit → Tx α) :
    (selectReadOnly name e id >>= fun readOnly => requireWritable readOnly >>= k).Guarded name (Writable id) := by
  refine ⟨rfl, trivial, fun t v => ⟨rfl, ?_⟩⟩
  show Writable id v ∨ (requireWritable ((v.flows.get id).map (·.readOnly)) >>= k).Quiet
  unfold Writable
  cases (v.flows.get id).map (·.readOnly) with
  | none => exact Or.inr trivial
  | some b =>
    cases b with
    | true => exact Or.inr trivial
    | false => exact Or.inl rfl

theorem writable_putFlow {r : FlowRow} {v : DB} (hr : r.id = f → r.readOnly = false) (h : Writable f v) :
    Writable f (v.write (.putFlow r)) := by
  unfold Writable DB.write
  by_cases hf : r.id = f
  · subst hf
    rw [Table.get_put_self, Option.map_some, hr rfl]
  · rw [Table.get_put_ne _ hf]
    exact h

end

theorem guarded_fieldWrite {x : StoreCall} (hx : x.isFieldWrite = true) (c : Constraints) :
    (x.prog c).Guarded x.guardStmt (Writable x.flowId) := by
  cases x with
  | upsertFlow f => cases hx
  | deleteFlow id => cases hx
  | putFlowReadOnly id b => cases hx
  | insertSegments nextval batch => cases hx
  | deleteSegmentsByTimerange q => cases hx
  | putFlowCollection id items =>
    have hbody : (putFlowCollection id items).Guarded .collectionCheck (Writable id) :=
      ⟨trivial, (guarded_requireWritable ..).deferRollback⟩
    exact hbody.map _
  | _ => exact (guarded_requireWritable ..).map _

section
variable {id f : Uuid}

theorem flat_flowWritable (id : Uuid) : (flowWritable id).Flat := by
  refine (Prog.flat_query ..).bind fun b => ?_
  rcases b with _ | _ | _ <;> trivial

theorem steady_flowWritable {b : Bool} : (flowWritable id).Steady (Writable f) b := by
  refine (Prog.flat_query ..).bind_steady Prog.steady_query fun r => ?_
  rcases r with _ | _ | _ <;> trivial

theorem steady_updateFlowRow {name : Stmt} {e : Err} {u : Time → FlowRow → FlowRow}
    (hid : ∀ now r, (u now r).id = r.id) (hu : ∀ now r, id = f → r.readOnly = false → (u now r).readOnly = false) :
    (updateFlowRow name e id u).Steady (Writable f) false := by
  refine Prog.steady_stmt fun t v d hd h => ?_
  cases hd rfl
  cases hg : v.flows.get id with
  | none => exact h
  | some r =>
    refine writable_putFlow (fun hf => ?_) h
    have hrf : id = f := (Table.key_of_get hg).symm.trans ((hid t r).symm.trans hf)
    refine hu t r hrf ?_
    simpa [Writable, ← hrf, hg] using h

theorem steady_requireRow {b found : Bool} : (requireRow found).Steady (Writable f) b := by
  cases found <;> trivial

theorem steady_clearCollection {name : Stmt} {e : Err} {b : Bool} :
    (clearCollection name e id).Steady (Writable f) b := by
  refine Prog.steady_stmt fun t v d _ h => writeAll_rule (fun w hw d hd => ?_) h
  obtain ⟨r, -, rfl⟩ := List.mem_map.mp hw
  exact hd

theorem steady_updateFlowField {x : FlowField} : (updateFlowField id x).Steady (Writable f) false := by
  refine (flat_flowWritable id).bind_steady steady_flowWritable fun _ => ?_
  refine (Prog.flat_stmt ..).bind_steady (steady_updateFlowRow (fun _ _ => ?_) fun _ _ _ h => ?_) fun _ =>
    steady_requireRow
  · cases x <;> rfl
  · cases x <;> exact h

theorem steady_putFlowReadOnly {b : Bool} (h : id ≠ f ∨ b = false) :
    (putFlowReadOnly id b).Steady (Writable f) false := by
  refine (Prog.flat_stmt ..).bind_steady (steady_updateFlowRow ?_ fun _ _ hf _ => ?_) fun _ => steady_requireRow
  · exact fun _ _ => rfl
  · exact h.resolve_left fun hne => hne hf

theorem steady_putFlowCollection {items : List CollectionItem} :
    (putFlowCollection id items).Steady (Writable f) false := by
  refine Prog.steady_inTx ((Prog.flat_query ..).bind_steady Prog.steady_query fun r => ?_)
  refine Prog.Flat.bind_steady (by rcases r with _ | _ | _ <;> trivial)
    (by rcases r with _ | _ | _ <;> trivial) fun _ => ?_
  refine (Prog.flat_stmt ..).bind_steady steady_clearCollection fun _ => ?_
  refine Prog.Flat.bind_steady (Prog.flat_forEach (fun _ _ => Prog.flat_stmtE ..) _ _)
    (Prog.steady_forEach (fun _ _ => Prog.flat_stmtE ..) (fun i ci => Prog.steady_stmtE fun t v d _ h => ?_) _ _)
    fun _ => Prog.steady_commitThen
  dsimp only
  split <;> exact h

end

theorem steady_fieldWrite {x : StoreCall} (hx : x.isFieldWrite = true) (c : Constraints) (f : Uuid) :
    (x.prog c).Steady (Writable f) false := by
  cases x with
  | upsertFlow f => cases hx
  | deleteFlow id => cases hx
  | putFlowReadOnly id b => cases hx
  | insertSegments nextval batch => cases hx
  | deleteSegmentsByTimerange q => cases hx
  | putFlowCollection id items => exact steady_putFlowCollection.map _
  | putFlowTag id name value =>
    refine ((flat_flowWritable id).bind_steady steady_flowWritable fun _ => Prog.steady_stmtE fun t v d _ h => ?_).map _
    dsimp only
    split <;> exact h
  | deleteFlowTag id name =>
    refine ((flat_flowWritable id).bind_steady steady_flowWritable fun _ => Prog.steady_stmt fun t v d _ h => ?_).map _
    split <;> exact h
  | deleteFlowCollection id =>
    exact ((flat_flowWritable id).bind_steady steady_flowWritable fun _ => steady_clearCollection).map _
  | _ => exact steady_updateFlowField.map _

/-! ## Runs of metadata writers -/

def StoreCall.freezes : StoreCall → Option Uuid
  | .putFlowReadOnly id true => some id
  | _ => none

section
variable {n : Nat} {c : Constraints} {calls : Fin n → StoreCall}

/-- No flow is frozen while a field write of that flow is between its check and its end. -/
def NoFreezeBetween (calls : Fin n → StoreCall) (s : Sys DB Write Lock Stmt Err Answer n) (a : Act n) : Prop :=
  ∀ p q, a = .go p → (calls p).freezes = some (calls q).flowId → (calls q).isFieldWrite = true →
    s.ran q (calls q).guardStmt = true → (s.procs q).prog.Quiet

instance (s : Sys DB Write Lock Stmt Err Answer n) (a : Act n) : Decidable (NoFreezeBetween calls s a) := by
  unfold NoFreezeBetween
  infer_instance

structure FreezeInv (calls : Fin n → StoreCall) (s : Sys DB Write Lock Stmt Err Answer n) : Prop where
  stage : ∀ p, (calls p).isFieldWrite = true → CheckStage (calls p).guardStmt (Writable (calls p).flowId) s p
  steady : ∀ p f, (calls p).freezes ≠ some f → (s.procs p).Steady (Writable f)

theorem steady_call {x : StoreCall} (hx : x.isFieldWrite = true ∨ ∃ id b, x = .putFlowReadOnly id b) {f : Uuid}
    (hf : x.freezes ≠ some f) : (x.prog c).Steady (Writable f) false := by
  rcases hx with hx | ⟨id, b, rfl⟩
  · exact steady_fieldWrite hx c f
  · refine (steady_putFlowReadOnly ?_).map _
    cases b with
    | false => exact Or.inr rfl
    | true => exact Or.inl fun e => hf (congrArg some e)

theorem freezeInv_start (hx : ∀ p, (calls p).isFieldWrite = true ∨ ∃ id b, calls p = .putFlowReadOnly id b) (t : Time)
    (d : DB) : FreezeInv calls (Sys.start t d fun p => (calls p).prog c) where
  stage p hp := Or.inl ⟨guarded_fieldWrite hp c, fun x h => by cases h⟩
  steady p _ hf := ⟨steady_call (hx p) hf, fun x h => by cases h⟩

theorem FreezeInv.move {s : Sys DB Write Lock Stmt Err Answer n} {a : Act n} {p : Fin n} {prog : Tx Answer}
    {cn : Conn DB Write Lock} {es : List (Event n Stmt)} (hs : FreezeInv calls s) (hC : NoFreezeBetween calls s a)
    (hm : s.Moves a p prog cn es) : FreezeInv calls ((s.set p prog cn).log es) := by
  refine ⟨fun q hq => (hs.stage q hq).move hm fun hran hquiet hok => ?_, fun q f hf => ?_⟩
  · by_cases hfr : (calls p).freezes = some (calls q).flowId
    · cases hm with
      | go _ _ => exact absurd (hC p q rfl hfr hq hran) hquiet
      | err _ => exact hok
    · exact ((hs.steady p _ hfr).move hm).1 hok
  · by_cases hqp : q = p
    · subst hqp
      rw [procs_moved]
      exact ((hs.steady q f hf).move hm).2
    · rw [procs_other s hqp]
      exact hs.steady q f hf

/-- **Freezing under field writes.** In every run in which no flow is frozen between
the check and the end of a field write, whatever statement of a field write commits,
its check apart, commits while the committed flag is false. -/
theorem fieldWrites_while_writable
    (hx : ∀ p, (calls p).isFieldWrite = true ∨ ∃ id b, calls p = .putFlowReadOnly id b) {t : Time} {d : DB}
    {as : List (Act n)} {s : Sys DB Write Lock Stmt Err Answer n}
    (hbetween : (Sys.start t d fun p => (calls p).prog c).Along (fun s a _ => NoFreezeBetween calls s a) as)
    (hr : (Sys.start t d fun p => (calls p).prog c).runs as = some s) {p : Fin n}
    (hp : (calls p).isFieldWrite = true) (hcommit : s.commitsNow p = true)
    (hname : (s.procs p).prog.name? ≠ some (calls p).guardStmt) : Writable (calls p).flowId s.db := by
  have hs : FreezeInv calls s :=
    Sys.runs_moves (fun s dt hs => ⟨hs.stage, hs.steady⟩) (fun s a p prog c es hs hC hm => hs.move hC hm)
      (freezeInv_start hx t d) hbetween hr
  exact (hs.stage p hp).commits hcommit hname

end

def taggingCalls : Fin 3 → StoreCall
  | 0 => .putFlowTag 1 (lit "k") (lit "v")
  | 1 => .putFlowReadOnly 1 true
  | 2 => .putFlowReadOnly 1 false

/-- The flag is set between the check and the write of `PutFlowTag`, which commits its tag and succeeds. -/
theorem tag_after_freeze :
    ∃ s s', (Sys.start 0 oneFlow fun p => (taggingCalls p).prog {}).runs [.go 0, .go 1] = some s ∧
      s.commitsNow 0 = true ∧ (s.procs 0).prog.name? = some .putFlowTag ∧ ¬ Writable 1 s.db ∧
      s.act (.go 0) = some s' ∧ s'.db.flowTags.rows = [⟨1, lit "k", lit "v"⟩] ∧
      (s'.procs 0).prog.result? = some (.ok .done) := by
  have hfacts : ((Sys.start 0 oneFlow fun p => (taggingCalls p).prog {}).runs [.go 0, .go 1]).any (fun s =>
      s.commitsNow 0 && decide ((s.procs 0).prog.name? = some .putFlowTag) && decide (¬ Writable 1 s.db) &&
        (s.act (.go 0)).any fun s' => decide (s'.db.flowTags.rows = [⟨1, lit "k", lit "v"⟩]) &&
          decide ((s'.procs 0).prog.result? = some (.ok .done))) = true := by
    decide +kernel
  simp only [Option.any_eq_true, Bool.and_eq_true, decide_eq_true_eq] at hfacts
  obtain ⟨s, hs, ⟨⟨hcommit, hname⟩, hfrozen⟩, s', hs', htags, hdone⟩ := hfacts
  exact ⟨s, s', hs, hcommit, hname, hfrozen, hs', htags, hdone⟩

/-- The flag is set and cleared before the check. -/
theorem tag_after_unfreeze :
    ∃ s, (Sys.start 0 oneFlow fun p => (taggingCalls p).prog {}).runs [.go 1, .go 2, .go 0] = some s ∧
      s.commitsNow 0 = true ∧ (s.procs 0).prog.name? = some .putFlowTag ∧ Writable 1 s.db := by
  obtain ⟨s, hs⟩ := Option.isSome_iff_exists.mp (by decide +kernel :
    ((Sys.start 0 oneFlow fun p => (taggingCalls p).prog {}).runs [.go 1, .go 2, .go 0]).isSome = true)
  have hnext : ((Sys.start 0 oneFlow fun p => (taggingCalls p).prog {}).runs [.go 1, .go 2, .go 0]).map (fun s =>
      (s.commitsNow 0, (s.procs 0).prog.name?)) = some (true, some .putFlowTag) := by decide +kernel
  rw [hs, Option.map_some, Option.some.injEq, Prod.mk.injEq] at hnext
  have hx : ∀ p, (taggingCalls p).isFieldWrite = true ∨ ∃ id b, taggingCalls p = .putFlowReadOnly id b := by
    intro p
    match p with
    | 0 => exact Or.inl rfl
    | 1 => exact Or.inr ⟨_, _, rfl⟩
    | 2 => exact Or.inr ⟨_, _, rfl⟩
  refine ⟨s, hs, hnext.1, hnext.2, ?_⟩
  exact fieldWrites_while_writable (p := 0) hx (by decide +kernel) hs rfl hnext.1 (by rw [hnext.2]; decide)

/-! ## Segment writers -/

theorem guarded_segmentGuard {α : Type} {f : Uuid} {op : String} {rest : Tx α} :
    (do let guard ← getFlowForSegmentWrite f; checkGuard op guard; rest : Tx α).Guarded .getFlowForSegmentWrite
      (Writable f) := by
  refine ⟨rfl, trivial, fun t v => ⟨rfl, ?_⟩⟩
  rw [writable_iff]
  cases hg : v.flows.get f with
  | none =>
    right
    simp only [hg]
    trivial
  | some r =>
    cases hr : r.readOnly with
    | false => exact Or.inl ⟨r, rfl, hr⟩
    | true =>
      right
      simp only [hg, hr]
      trivial

theorem guarded_segmentWrite {x : StoreCall} (hx : x.segmentFlow.isSome) (c : Constraints) :
    (x.prog c).Guarded .getFlowForSegmentWrite (Writable x.flowId) := by
  cases x with
  | insertSegments nextval batch =>
    have hins : (insertSegments c nextval batch).Guarded .getFlowForSegmentWrite (Writable batch.flowId) := by
      unfold insertSegments
      split
      · trivial
      · exact ⟨trivial, guarded_segmentGuard.deferRollback⟩
    exact hins.map _
  | deleteSegmentsByTimerange q =>
    have hdel : (deleteSegmentsByTimerange q).Guarded .getFlowForSegmentWrite (Writable q.flowId) :=
      ⟨trivial, guarded_segmentGuard.deferRollback⟩
    exact hdel.map _
  | _ => cases hx

theorem objectsThere_call {x : StoreCall} (hx : x.segmentFlow.isSome ∨ ∃ id b, x = .putFlowReadOnly id b)
    (c : Constraints) (t : Time) {d : DB} (hd : ObjectsThere d) : ObjectsThere ((x.prog c).run t d).2 := by
  have hobj : ∀ r v, ObjectsThere v → ObjectsThere (v.write (.putObject r)) := by
    intro r v hv s hs
    have := hv s hs
    simp only [DB.write, Table.get_put]
    split
    · rfl
    · exact this
  have hflow : ∀ r v, ObjectsThere v → ObjectsThere (v.write (.putFlow r)) := fun _ _ h => h
  rcases hx with hx | ⟨id, b, rfl⟩
  · cases x with
    | insertSegments nextval batch =>
      simp only [StoreCall.prog, Prog.run_map]
      refine (keeps_insertSegments hobj (fun r v _ h => hflow r v h) fun r v _ hid hr h => ?_).run t hd
      intro s hs
      rw [segments_putSegment hid, List.mem_append, List.mem_singleton] at hs
      rcases hs with hs | rfl
      · exact h s hs
      · exact hr
    | deleteSegmentsByTimerange q =>
      simp only [StoreCall.prog, Prog.run_map]
      refine (keeps_deleteSegmentsByTimerange (fun _ _ v _ h => hobj _ v h) (fun r v _ h => hflow r v h)
        fun lo hi v _ h => ?_).run t hd
      intro s hs
      rw [Table.rows_delAll] at hs
      exact h s (List.mem_of_mem_filter hs)
    | _ => cases hx
  · have hmeta : KeptByMetadata id ObjectsThere :=
      ⟨fun _ _ h => h, fun _ _ _ h => h, fun _ _ _ h => h, fun _ _ h => h, fun _ _ _ h => h, fun _ _ h => h⟩
    exact (keeps_metadata (x := .putFlowReadOnly id b) c hmeta rfl).run t hd

section
variable {n : Nat} {c : Constraints} {calls : Fin n → StoreCall}
  (hx : ∀ p, (calls p).segmentFlow.isSome ∨ ∃ id b, calls p = .putFlowReadOnly id b)
include hx

theorem call_freeze (p : Fin n) : Call storeGuard ObjectsThere Rely.none ((calls p).prog c) := by
  rcases hx p with h | ⟨id, b, h⟩
  · exact call_segmentWrite (fun _ hd => hd) c h
  · rw [h]
    exact (call_putFlowReadOnly id b).map _

/-- **Freezing under segment writes.** However `InsertSegments`, `DeleteSegmentsByTimerange` and
`PutFlowReadOnly` calls are interleaved, a segment write that commits a change does so while the
committed flag is false, and one that finds the flag set at its locked read changes nothing,
then or later. -/
theorem segmentWrites_while_writable {d : DB} (hd : ObjectsThere d) {t : Time} {as : List (Act n)}
    {s s' : Sys DB Write Lock Stmt Err Answer n} (hr : (Sys.start t d fun p => (calls p).prog c).runs as = some s)
    {p : Fin n} (hp : (calls p).segmentFlow.isSome) (hgo : s.go p = some s') :
    (s'.db ≠ s.db → Writable (calls p).flowId s.db) ∧
    (Fresh (fun p => (calls p).prog c) s p → ¬ Writable (calls p).flowId s.db →
      s'.db = s.db ∧ ∀ bs s₂ a s₃, s'.runs bs = some s₂ → a = .go p ∨ a = .err p → s₂.act a = some s₃ →
        s₃.db = s₂.db) := by
  have hinv := (serializable (call_freeze hx) (fun p t d hd => objectsThere_call (hx p) c t hd) hd hr).1
  constructor
  · intro hne
    by_contra hw
    obtain ⟨-, ⟨-, t', hat, -, -⟩ | ⟨-, hdb⟩⟩ := go_inv (call_freeze hx) hinv
      (fun t => objectsThere_call (hx p) c t hinv.db) hgo fun _ _ q _ _ => Or.inr trivial
    · obtain ⟨e, he⟩ := segmentWrite_refused (t := t') hp (d := s.db) (fun r hr => by
        by_contra hro
        exact hw (writable_iff.mpr ⟨r, hr, by simpa using hro⟩)) c
      exact hne (by rw [hat, he])
    · exact hne hdb
  · intro hfresh hw
    obtain ⟨ls, prog, cn, hsm, hfree, rfl⟩ := go_eq_some hgo
    obtain ⟨hquiet, hdb⟩ := fresh_refused (guarded_segmentWrite hp c) (call_freeze hx p) hfresh hw hsm
    refine ⟨hdb, fun bs s₂ a s₃ hbs ha hact => ?_⟩
    have hq₂ : (s₂.procs p).prog.Quiet := quiet_runs (by rwa [procs_moved]) hbs
    rcases act_cases hact with ⟨dt, rfl, -⟩ | ⟨q, prog', c', es, hm, rfl⟩
    · rcases ha with ha | ha <;> cases ha
    · have hqp : q = p := by rcases ha with rfl | rfl <;> cases hm <;> rfl
      subst hqp
      exact (hq₂.move hm).2

end

def insertingCalls : Fin 3 → StoreCall
  | 0 => .insertSegments id ⟨1, [sampleSegment "o" "[0:0_1:0)" 0 1], lit "default"⟩
  | 1 => .putFlowReadOnly 1 true
  | 2 => .putFlowReadOnly 1 false

def flippingSchedule : List (Act 3) := Act.turns 2 [0, 1, 2, 0, 0, 0, 0, 0, 0]

theorem insert_after_flips :
    ∃ s s', (Sys.start 0 oneFlow fun p => (insertingCalls p).prog {}).runs flippingSchedule = some s ∧
      s.go 0 = some s' ∧ s'.db ≠ s.db ∧ Writable 1 s.db := by
  have hcommit : (((Sys.start 0 oneFlow fun p => (insertingCalls p).prog {}).runs flippingSchedule).bind fun s =>
      (s.go 0).map fun s' => decide (s'.db = s.db)) = some false := by decide +kernel
  obtain ⟨s, hs, hcommit⟩ := Option.bind_eq_some_iff.mp hcommit
  obtain ⟨s', hgo, hne⟩ := Option.map_eq_some_iff.mp hcommit
  have hx : ∀ p, (insertingCalls p).segmentFlow.isSome ∨ ∃ id b, insertingCalls p = .putFlowReadOnly id b := by
    intro p
    match p with
    | 0 => exact Or.inl rfl
    | 1 => exact Or.inr ⟨_, _, rfl⟩
    | 2 => exact Or.inr ⟨_, _, rfl⟩
  have hd : ObjectsThere oneFlow := by unfold ObjectsThere; decide +kernel
  have hne' : s'.db ≠ s.db := of_decide_eq_false hne
  exact ⟨s, s', hs, hgo, hne', (segmentWrites_while_writable hx hd hs rfl hgo).1 hne'⟩

end OpenTams
