import OpenTams.History
import OpenTams.Locking
import OpenTams.RefCount

/-!
# Deleting a flow while segments are registered

`DeleteFlow` reads the flow's objects in its first statement and locks the flow
only in its second. An `InsertSegments` that commits in between is missed by the
decrement and caught by the cascade, and the counts of its objects stay too
high. Where no insert commits there, interleaved calls keep the counts exact.
-/

namespace OpenTams

open Sql

/-! ## What DeleteFlow relies on -/

def flowParts (f : Uuid) : Rely DB Write where
  rel d d' := d.segmentsOf f = d'.segmentsOf f ∧ d.tagsOf f = d'.tagsOf f ∧ d.collectionOf f = d'.collectionOf f
  refl _ := ⟨rfl, rfl, rfl⟩
  trans h h' := ⟨h.1.trans h'.1, h.2.1.trans h'.2.1, h.2.2.trans h'.2.2⟩
  congr w h := by
    obtain ⟨h1, h2, h3⟩ := h
    cases w <;> simp_all only [write_eq, DB.write, DB.segmentsOf, DB.tagsOf, DB.collectionOf, Table.filter_put,
      Table.filter_del, and_self]

section
variable {t : Time} {f : Uuid} {ls : List Lock} {d v : DB}

theorem within_withoutFlow (v : DB) (f : Uuid) :
    storeGuard.Within (Lock.flow f :: (v.segmentsOf f).map (fun r => Lock.segment r.id) ++
      (v.tagsOf f).map (fun r => Lock.tag r.flowId r.name) ++
      (v.collectionOf f).map (fun r => Lock.item r.flowId r.itemId) ++
      (v.segmentsOf f).map fun r => Lock.object r.objectId) v (v.withoutFlow f) := by
  have hseg := within_delSegments fun r (hr : r ∈ v.segmentsOf f) => hr
  rw [writeAll_delSegment] at hseg
  intro ℓ hℓ
  have h := hseg ℓ fun hm => hℓ (by simp only [List.cons_append, List.mem_cons, List.mem_append] at hm ⊢; tauto)
  cases ℓ with
  | flow g =>
    have hne : f ≠ g := fun e => hℓ (by simp [e])
    exact ⟨(Table.get_del_ne _ hne).symm, h.2⟩
  | tag g k =>
    refine (Table.get_delAll_ne v.flowTags fun hm => hℓ ?_).symm
    obtain ⟨r, hr, he⟩ := List.mem_map.mp hm
    cases he
    simp only [List.cons_append, List.mem_cons, List.mem_append, List.mem_map]
    exact Or.inr (Or.inl (Or.inl (Or.inr ⟨r, hr, rfl⟩)))
  | item g k =>
    refine (Table.get_delAll_ne v.flowCollection fun hm => hℓ ?_).symm
    obtain ⟨r, hr, he⟩ := List.mem_map.mp hm
    cases he
    simp only [List.cons_append, List.mem_cons, List.mem_append, List.mem_map]
    exact Or.inr (Or.inl (Or.inr ⟨r, hr, rfl⟩))
  | object o => exact h
  | segment i => exact h
  | source g => rfl
  | sourceTag g k => rfl
  | key k => rfl

theorem held_deleteFlowBody (hd : ObjectsThere d) :
    Wp (storeGuard.Stable (flowParts f)) t (fun _ _ _ => True) (fun _ ls v => storeGuard.Within ls d v)
      (deleteFlowBody f) [] d := by
  refine Wp.bind (wp_query (fun v' hv' => by rw [hv'.2.1]) ?_)
  refine Wp.seq (wp_forEach_done (J := fun done ls v => (∀ o ∈ done, Lock.object o ∈ ls) ∧ storeGuard.Within ls d v ∧
    v.segments = d.segments ∧ ∀ o, (d.objects.get o).isSome → (v.objects.get o).isSome) ?_
    ⟨(fun o ho => by cases ho), .refl _ _ _, rfl, fun _ h => h⟩) ?_
  · rintro o done rest ls v hrefs ⟨hobj, hw, hseg, hrow⟩
    have hm : o ∈ ((d.segmentsOf f).map (·.objectId)).dedup := by simp [hrefs]
    obtain ⟨r, hr, rfl⟩ := List.mem_map.mp (List.mem_dedup.mp hm)
    refine (held_subRefCount (hrow _ (hd r (List.mem_of_mem_filter hr)))).post ?_
    rintro _ _ v' ⟨rfl, hput, hseg', hkeep⟩
    refine ⟨fun o' ho' => ?_, ?_, hseg'.trans hseg, fun o' h => hkeep o' (hrow o' h)⟩
    · rcases List.mem_append.mp ho' with h | h
      · exact List.mem_append_left _ (hobj o' h)
      · rw [List.mem_singleton.mp h]
        exact List.mem_append_right _ (List.mem_singleton_self _)
    · exact (hw.mono fun _ hm => List.mem_append_left _ hm).trans (hput.mono fun _ hm => List.mem_append_right _ hm)
  · rintro _ ls v ⟨hobj, hw, hseg, -⟩
    have hof : v.segmentsOf f = d.segmentsOf f := by rw [DB.segmentsOf, hseg]; rfl
    cases hg : v.flows.get f with
    | none =>
      refine wp_dead ?_
      simp only [hg]
      trivial
    | some r =>
      refine Wp.bind (wp_stmt (fun v' hv' => ?_) ?_)
      · simp only [hg, Option.isNone_some, Bool.false_eq_true, if_false] at hv'
        have hflow := (same_flow hv' List.mem_append_cons_self).1
        obtain ⟨h1, h2, h3⟩ := hv'.2
        simp only [hflow, h1, h2, h3, and_self]
      · simp only [hg, Option.isNone_some, Option.isSome_some, Bool.false_eq_true, if_false, if_true]
        refine wp_commitThen ?_
        rw [writeAll_deleteFlow]
        refine (hw.mono fun _ hm => List.mem_append_left _ hm).trans ((within_withoutFlow v f).mono fun ℓ hm => ?_)
        rcases List.mem_append.mp hm with hm | hm
        · exact List.mem_append_right _ hm
        · obtain ⟨x, hx, rfl⟩ := List.mem_map.mp hm
          rw [hof] at hx
          exact List.mem_append_left _ (hobj _ (List.mem_dedup.mpr (List.mem_map_of_mem hx)))

theorem oneTx_deleteFlowBody (f : Uuid) : (deleteFlowBody f).OneTx := by
  refine (Prog.flat_query ..).bind_oneTx fun refs => (Prog.flat_forEach (fun _ _ => flat_subRefCount ..) _ _).bind_oneTx
    fun _ => (Prog.flat_stmt ..).bind_oneTx fun found => ?_
  split
  · exact Prog.oneTx_commitThen _ _ _
  · trivial

theorem call_deleteFlow {I : DB → Prop} (hI : ∀ d, I d → ObjectsThere d) (f : Uuid) :
    Call storeGuard I (flowParts f) (deleteFlow f) :=
  Call.inTx (oneTx_deleteFlowBody f) fun _ d hd => held_deleteFlowBody (hI d hd)

end

/-! ## Runs -/

section
variable {n : Nat} {c : Constraints} {f : Uuid} {q₀ : Fin n} {calls : Fin n → StoreCall}

/-- `DeleteFlow` has read the flow's objects and its transaction is open. -/
def Deleting (q₀ : Fin n) (s : Sys DB Write Lock Stmt Err Answer n) : Prop :=
  s.ran q₀ .deleteFlowRefs = true ∧ (s.procs q₀).sess.isSome = true

/-- No object is referenced twice by the flow, and nobody else changes the flow's segments while it is being deleted. -/
def NoneBetween (f : Uuid) (q₀ : Fin n) (s : Sys DB Write Lock Stmt Err Answer n) (a : Act n)
    (s' : Sys DB Write Lock Stmt Err Answer n) : Prop :=
  s.db.ObjectsOnce f ∧ (a ≠ .go q₀ → Deleting q₀ s → s'.db.segmentsOf f = s.db.segmentsOf f)

instance (f : Uuid) (q₀ : Fin n) (s : Sys DB Write Lock Stmt Err Answer n) (a : Act n)
    (s' : Sys DB Write Lock Stmt Err Answer n) : Decidable (NoneBetween f q₀ s a s') := by
  unfold NoneBetween Deleting
  infer_instance

def relies (f : Uuid) (q₀ p : Fin n) : Rely DB Write := if p = q₀ then flowParts f else Rely.none

theorem ran_log {s : Sys DB Write Lock Stmt Err Answer n} {p : Fin n} {x : Stmt} {prog : Tx Answer}
    {cn : Conn DB Write Lock} (h : s.ran q₀ x = true) : ((s.set p prog cn).log (s.event p)).ran q₀ x = true := by
  simp only [Sys.ran, Sys.log, Sys.set, List.any_append, Bool.or_eq_true] at h ⊢
  exact Or.inl h

variable (hdel : calls q₀ = .deleteFlow f)
include hdel

theorem snapshot_step {s s' : Sys DB Write Lock Stmt Err Answer n} {p : Fin n}
    (hs : Sql.Inv storeGuard RefExact (relies f q₀) (fun p => (calls p).prog c) s) (hgo : s.go p = some s')
    (h : s.ran q₀ .deleteFlowRefs = true ∨ (s.procs q₀).sess = none ∨ Fresh (fun p => (calls p).prog c) s q₀) :
    s'.ran q₀ .deleteFlowRefs = true ∨ (s'.procs q₀).sess = none ∨ Fresh (fun p => (calls p).prog c) s' q₀ := by
  obtain ⟨ls, prog, cn, hsm, -, rfl⟩ := go_eq_some hgo
  by_cases hp : p = q₀
  · subst hp
    have hself : (((s.set p prog cn).log (s.event p)).procs p) = ⟨prog, cn.sess⟩ := Function.update_self ..
    unfold Fresh at h ⊢
    rw [hself]
    rcases h with h | hnone | ⟨err, t, hcall, hx⟩
    · exact Or.inl (ran_log h)
    · right
      have hst := hs.stage p
      simp only [Sys.conn] at hsm
      generalize s.procs p = pr at hst hsm hnone
      cases hst with
      | idle =>
        simp only [hdel] at hsm ⊢
        cases hsm
        exact Or.inr ⟨_, s.clock, rfl, rfl⟩
      | opened _ _ => cases hnone
      | @done q hq =>
        cases q with
        | rollback next => cases hsm; exact Or.inl rfl
        | ret a => cases hsm
        | fail e => cases hsm
        | _ => cases hq
    · left
      simp only [hdel] at hcall
      have hname : (s.procs p).prog.name? = some .deleteFlowRefs := by
        rw [← (Prog.begin.inj hcall).2]
        rfl
      simp [Sys.ran, Sys.log, Sys.event, hname]
  · have hother : (((s.set p prog cn).log (s.event p)).procs q₀) = s.procs q₀ := Function.update_of_ne (Ne.symm hp) ..
    unfold Fresh at h ⊢
    rw [hother]
    exact h.imp_left ran_log

variable (hins : ∀ p, p ≠ q₀ → ∃ nextval batch, calls p = .insertSegments nextval batch)
include hins

theorem call_race (p : Fin n) : Call storeGuard RefExact (relies f q₀ p) ((calls p).prog c) := by
  by_cases hp : p = q₀
  · simp only [hp, relies, if_true, hdel]
    exact (call_deleteFlow (fun _ hd => hd.fk) f).map _
  · obtain ⟨nextval, batch, he⟩ := hins p hp
    rw [he]
    exact (call_insertSegments c nextval batch).map _

theorem race_refs {p : Fin n} {t : Time} {d : DB} (hd : RefExact d) (honce : d.ObjectsOnce f) :
    RefExact (((calls p).prog c).run t d).2 := by
  refine call_refs _ _ _ hd ?_
  by_cases hp : p = q₀
  · rw [hp, hdel]
    exact honce
  · obtain ⟨nextval, batch, he⟩ := hins p hp
    rw [he]
    trivial

omit hdel in
theorem race_parts {p : Fin n} (hp : p ≠ q₀) {t : Time} {d : DB} :
    (((calls p).prog c).run t d).2.tagsOf f = d.tagsOf f ∧
      (((calls p).prog c).run t d).2.collectionOf f = d.collectionOf f := by
  obtain ⟨nextval, batch, he⟩ := hins p hp
  rw [he]
  simp only [StoreCall.prog, Prog.run_map]
  exact (keeps_insertSegments (J := fun v => v.tagsOf f = d.tagsOf f ∧ v.collectionOf f = d.collectionOf f)
    (fun _ _ h => h) (fun _ _ _ h => h) fun _ _ _ _ _ h => h).run t ⟨rfl, rfl⟩

/-- **Deleting a flow under inserts.** In every run in which no insert changes the flow's segments
between `DeleteFlow`'s first statement and its end, every committed count is exact. -/
theorem deleteFlow_race_refs {d : DB} (hd : RefExact d) {t : Time} {as : List (Act n)}
    {s : Sys DB Write Lock Stmt Err Answer n}
    (hbetween : (Sys.start t d fun p => (calls p).prog c).Along (NoneBetween f q₀) as)
    (hr : (Sys.start t d fun p => (calls p).prog c).runs as = some s) :
    ∀ r ∈ s.db.objects.rows, r.refCount = (s.db.segmentsOn r.id).length := by
  have hP : Sql.Inv storeGuard RefExact (relies f q₀) (fun p => (calls p).prog c) s ∧
      (s.ran q₀ .deleteFlowRefs = true ∨ (s.procs q₀).sess = none ∨ Fresh (fun p => (calls p).prog c) s q₀) := by
    refine Sys.runs_rule (P := fun s => Sql.Inv storeGuard RefExact (relies f q₀) (fun p => (calls p).prog c) s ∧
      (s.ran q₀ .deleteFlowRefs = true ∨ (s.procs q₀).sess = none ∨ Fresh (fun p => (calls p).prog c) s q₀))
      ?_ ⟨inv_start t d hd, Or.inr (Or.inl rfl)⟩ hbetween hr
    rintro s a s' ⟨hs, hw⟩ ⟨honce, hkeep⟩ ha
    cases a with
    | tick dt => cases ha; exact ⟨⟨hs.db, hs.stage, hs.locks⟩, hw⟩
    | err p =>
      obtain ⟨hs', prog, -, rfl⟩ := err_inv (call_race hdel hins) hs ha
      refine ⟨hs', ?_⟩
      by_cases hp : p = q₀
      · subst hp
        exact Or.inr (Or.inl (by simp [Sys.set]))
      · have hother : (s.set p prog ⟨s.db, none⟩).procs q₀ = s.procs q₀ := Function.update_of_ne (Ne.symm hp) ..
        unfold Fresh at hw ⊢
        rw [hother]
        exact hw
    | go p =>
      refine ⟨(go_inv (call_race hdel hins) hs (fun _ => race_refs hdel hins hs.db honce) ha fun t hdb => ?_).1,
        snapshot_step hdel hs ha hw⟩
      intro q hq hsess
      by_cases hq₀ : q = q₀
      · subst hq₀
        rcases hw with hran | hnone | hfresh
        · right
          have hseg := hkeep (fun e => hq (by cases e; rfl)) ⟨hran, hsess⟩
          have hparts := race_parts (f := f) (c := c) (t := t) (d := s.db) hins (Ne.symm hq)
          rw [← hdb] at hparts
          simp only [relies, if_true]
          exact ⟨hseg.symm, hparts.1.symm, hparts.2.symm⟩
        · rw [hnone] at hsess; cases hsess
        · exact Or.inl hfresh
      · right
        simp only [relies, hq₀, if_false]
        trivial
  intro r hr
  have := hP.1.db.count r.id r (Table.get_of_mem hr)
  simpa [DB.refs] using this

end

def racingCalls : Fin 2 → StoreCall
  | 0 => .deleteFlow 1
  | 1 => .insertSegments id ⟨1, [sampleSegment "o" "[0:0_1:0)" 0 1], lit "default"⟩

/-- The insert commits between the two statements of `DeleteFlow`. -/
def racingSchedule : List (Act 2) := Act.turns 1 [0, 0, 1, 1, 1, 1, 1, 1, 1, 1, 1, 0, 0, 0]

/-- Both calls succeed and the object is left with a reference but no segment. -/
theorem refCount_after_race :
    ∃ s, (Sys.start 0 oneFlow fun p => (racingCalls p).prog {}).runs racingSchedule = some s ∧
      (∀ p, ∃ a, (s.procs p).prog.result? = some (.ok a)) ∧
      ¬ ∀ r ∈ s.db.objects.rows, r.refCount = (s.db.segmentsOn r.id).length := by
  have hfacts : ((Sys.start 0 oneFlow fun p => (racingCalls p).prog {}).runs racingSchedule).any (fun s =>
      (List.finRange 2).all (fun p => (s.procs p).prog.result?.any (·.isOk)) &&
        s.db.objects.rows.any fun r => decide (r.refCount ≠ (s.db.segmentsOn r.id).length)) = true := by
    decide +kernel
  simp only [Option.any_eq_true, Bool.and_eq_true, List.all_eq_true, List.any_eq_true, decide_eq_true_eq] at hfacts
  obtain ⟨s, hs, hended, r, hr, hcount⟩ := hfacts
  refine ⟨s, hs, fun p => ?_, fun h => hcount (h r hr)⟩
  obtain ⟨x, hx, hok⟩ := hended p (List.mem_finRange p)
  cases x with
  | ok a => exact ⟨a, hx⟩
  | error e => cases hok

def orderlySchedule : List (Act 2) := Act.turns 1 [0, 1, 1, 1, 1, 1, 1, 1, 1, 1, 0, 0, 0, 0, 0]

theorem refCount_after_orderly :
    ∃ s, (Sys.start 0 oneFlow fun p => (racingCalls p).prog {}).runs orderlySchedule = some s ∧
      ∀ r ∈ s.db.objects.rows, r.refCount = (s.db.segmentsOn r.id).length := by
  obtain ⟨s, hs⟩ := Option.isSome_iff_exists.mp (by decide +kernel :
    ((Sys.start 0 oneFlow fun p => (racingCalls p).prog {}).runs orderlySchedule).isSome = true)
  have hdel : racingCalls 0 = .deleteFlow 1 := rfl
  refine ⟨s, hs, deleteFlow_race_refs hdel (fun p hp => ?_)
    (replay_metadata refsPlus_keptByMetadata refExact_empty (by decide)) (by decide +kernel) hs⟩
  match p with
  | 0 => exact absurd rfl hp
  | 1 => exact ⟨_, _, rfl⟩

end OpenTams
