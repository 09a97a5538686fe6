import Mathlib.Order.WithBot
import OpenTams.Deadlock
import OpenTams.SegmentConc

/-!
# Segment writers that wait for each other

`InsertSegments` locks the row of its flow and then the rows of the objects in the
order of the batch, `DeleteSegmentsByTimerange` in the order in which its delete
reports them. Where these orders agree, no writers wait for each other in a
circle. Nothing in the code makes them agree: two batches that name two shared
objects the other way round are each left waiting for the other.
-/

namespace OpenTams

open Sql Prog

/-! ## The order of the locks -/

def rowLock : Lock → Bool
  | .flow _ => true
  | .object _ => true
  | _ => false

section
variable {R : Type} [Preorder R]

/-- Objects by their rank, after all flows. -/
def lockRank (rank : Str → R) : Lock → WithBot R
  | .object o => rank o
  | _ => ⊥

/-- Each object is a repeated one or comes after all before it. -/
def InOrder (rank : Str → R) (os : List Str) : Prop :=
  ∀ i (h : i < os.length), os[i] ∈ os.take i ∨ ∀ o ∈ os.take i, rank o < rank os[i]

instance [DecidableLT R] (rank : Str → R) (os : List Str) : Decidable (InOrder rank os) :=
  inferInstanceAs (Decidable (∀ i (h : i < os.length), os[i] ∈ os.take i ∨ ∀ o ∈ os.take i, rank o < rank os[i]))

end

def StoreCall.batchObjects : StoreCall → List Str
  | .insertSegments _ batch => batch.segments.map (·.objectId)
  | _ => []

def StoreCall.deletedObjects (v : DB) : StoreCall → List Str
  | .deleteSegmentsByTimerange q => match queryBounds q.timerange with
    | .ok (some (lo, hi)) => (groupCounts ((v.segmentsOf q.flowId).filter (deleteMatches q lo hi))).map (·.1)
    | _ => []
  | _ => []

section
variable {R : Type} [Preorder R] {rank : Str → R}

def StoreCall.FindsInOrder (rank : Str → R) (x : StoreCall) (name : Stmt) (v : DB) : Prop :=
  name = .deleteSegments → InOrder rank (x.deletedObjects v)

instance [DecidableLT R] (rank : Str → R) (x : StoreCall) (name : Stmt) (v : DB) :
    Decidable (x.FindsInOrder rank name v) :=
  inferInstanceAs (Decidable (name = .deleteSegments → InOrder rank (x.deletedObjects v)))

theorem InOrder.split {pre post : List Str} {o : Str} (h : InOrder rank (pre ++ o :: post)) :
    o ∈ pre ∨ ∀ o' ∈ pre, rank o' < rank o := by
  have hlen : pre.length < (pre ++ o :: post).length := by simp
  simpa using h pre.length hlen

/-! ## What a writer holds -/

structure Holds (f : Uuid) (os : List Str) (held : List Lock) : Prop where
  flow : Lock.flow f ∈ held
  rows : ∀ ℓ ∈ held, rowLock ℓ = true → ℓ = .flow f ∨ ∃ o ∈ os, ℓ = .object o

structure HoldsAll (f : Uuid) (os : List Str) (held : List Lock) : Prop extends Holds f os held where
  objects : ∀ o ∈ os, Lock.object o ∈ held

variable {V : Stmt → DB → Prop} {f : Uuid} {os : List Str} {held ls : List Lock}

theorem holds_flow (f : Uuid) : Holds f [] [.flow f] :=
  ⟨List.mem_singleton_self _, fun _ hℓ _ => Or.inl (List.mem_singleton.mp hℓ)⟩

theorem Holds.append {os' : List Str} (h : Holds f os held)
    (hls : ∀ ℓ ∈ ls, rowLock ℓ = true → ∃ o ∈ os', ℓ = .object o) : Holds f (os ++ os') (held ++ ls) where
  flow := List.mem_append_left _ h.flow
  rows ℓ hℓ hK := by
    rcases List.mem_append.mp hℓ with hℓ | hℓ
    · rcases h.rows ℓ hℓ hK with hf | ⟨o, ho, rfl⟩
      · exact Or.inl hf
      · exact Or.inr ⟨o, List.mem_append_left _ ho, rfl⟩
    · obtain ⟨o, ho, rfl⟩ := hls ℓ hℓ hK
      exact Or.inr ⟨o, List.mem_append_right _ ho, rfl⟩

theorem Holds.append_other (h : Holds f os held) (hls : ∀ ℓ ∈ ls, rowLock ℓ = false) : Holds f os (held ++ ls) := by
  have hno : ∀ ℓ ∈ ls, rowLock ℓ = true → ∃ o ∈ ([] : List Str), ℓ = .object o := fun ℓ hℓ hK => by
    rw [hls ℓ hℓ] at hK
    cases hK
  have := h.append hno
  rwa [List.append_nil] at this

theorem Holds.append_object (h : Holds f os held) (o : Str) : Holds f (os ++ [o]) (held ++ [.object o]) :=
  h.append fun _ hℓ _ => ⟨o, List.mem_singleton_self _, List.mem_singleton.mp hℓ⟩

theorem Holds.follows {o : Str} (h : Holds f os held) (ho : Lock.object o ∈ held ∨ ∀ o' ∈ os, rank o' < rank o) :
    Follows rowLock (lockRank rank) held (.object o) := by
  intro _
  refine ho.imp_right fun hlt ℓ hℓ hK => ?_
  rcases h.rows ℓ hℓ hK with rfl | ⟨o', ho', rfl⟩
  · exact WithBot.bot_lt_coe _
  · exact WithBot.coe_lt_coe.mpr (hlt o' ho')

theorem follows_other {ℓ : Lock} (h : rowLock ℓ = false) : Follows rowLock (lockRank rank) held ℓ := by
  intro hK
  rw [h] at hK
  cases hK

/-! ## Statements -/

theorem orders_guard {α : Type} {op : String} {rest : Tx α} {Q : α → Option (List Lock) → Prop}
    (h : rest.Orders rowLock (lockRank rank) V Q (some [.flow f])) :
    (do let guard ← getFlowForSegmentWrite f; checkGuard op guard; rest : Tx α).Orders rowLock (lockRank rank) V Q
      (some []) := by
  refine Orders.bind (orders_stmt fun t v => ⟨fun _ _ _ => Or.inr fun ℓ' hℓ' => (by cases hℓ'), fun _ => ?_⟩)
  cases hg : v.flows.get f with
  | none =>
    exact trivial
  | some r =>
    cases hr : r.readOnly with
    | true =>
      simp only [hr]
      trivial
    | false => simpa [hg, hr, lockIf, checkGuard] using h

theorem orders_registerObject {batch : InsertBatch} {i : Nat} {seg : Segment} (h : HoldsAll f os held)
    (ho : seg.objectId ∈ os ∨ ∀ o ∈ os, rank o < rank seg.objectId) :
    (registerObject batch i seg).Orders rowLock (lockRank rank) V
      (fun _ => Holding (HoldsAll f (os ++ [seg.objectId]))) (some held) := by
  unfold registerObject
  split
  · trivial
  refine orders_stmtE fun t v => ⟨fun ℓ hℓ => ?_, fun _ _ _ => ⟨h.append_object _, fun o ho => ?_⟩⟩
  · rw [List.mem_singleton.mp hℓ]
    exact h.follows (ho.imp_left (h.objects _))
  · rcases List.mem_append.mp ho with ho | ho
    · exact List.mem_append_left _ (h.objects o ho)
    · rw [List.mem_singleton.mp ho]
      exact List.mem_append_right _ (List.mem_singleton_self _)

theorem orders_checkObjectTimerange {i : Nat} {seg : Segment} {J : List Lock → Prop} (h : J held) :
    (checkObjectTimerange i seg).Orders rowLock (lockRank rank) V (fun _ => Holding J) (some held) := by
  unfold checkObjectTimerange
  split
  · exact h
  · exact orders_read fun _ => h

theorem orders_insertSegment {c : Constraints} {nextval : Nat → Nat} {i : Nat} {x : Segment × NsBounds}
    (h : Holds f os held) :
    (insertSegment c nextval f i x).Orders rowLock (lockRank rank) V (fun _ => Holding (Holds f os)) (some held) := by
  have hother : ∀ ℓ ∈ [Lock.segment (nextval i)], rowLock ℓ = false := fun ℓ hℓ => by rw [List.mem_singleton.mp hℓ]; rfl
  exact orders_stmtE fun t v => ⟨fun ℓ hℓ => follows_other (hother ℓ hℓ), fun _ _ _ => h.append_other hother⟩

theorem orders_decrementRefCount {i : Nat} {x : Str × Nat} (h : Holds f os held) (ho : ∀ o ∈ os, rank o < rank x.1) :
    (decrementRefCount i x).Orders rowLock (lockRank rank) V (fun _ => Holding (Holds f (os ++ [x.1]))) (some held) := by
  refine orders_stmtE fun t v => ?_
  cases v.objects.get x.1 with
  | none => exact ⟨fun ℓ hℓ => (by cases hℓ), fun _ _ _ => h.append fun ℓ hℓ => (by cases hℓ)⟩
  | some r =>
    refine ⟨fun ℓ hℓ => ?_, fun _ _ _ => h.append_object x.1⟩
    rw [List.mem_singleton.mp hℓ]
    exact h.follows (Or.inr ho)

/-- The refresh asks for the flow's row again; the commit lets go of everything. -/
theorem orders_refresh {α : Type} {m : Msg} {name : Stmt} {e : Err} {a : α} (h : Holds f os held) :
    (do refreshFlowTimerange m f; .commitThen name e a : Tx α).Orders rowLock (lockRank rank) V (fun _ _ => True)
      (some held) := by
  refine Orders.bind (Orders.seq (J := (· = held)) (orders_read fun _ => rfl) ?_)
  rintro span _ rfl
  refine orders_stmt fun t v => ⟨?_, fun _ => ⟨trivial, trivial⟩⟩
  cases v.flows.get f with
  | none => exact fun ℓ hℓ => (by cases hℓ)
  | some r =>
    intro ℓ hℓ _
    rw [List.mem_singleton.mp hℓ]
    exact Or.inl h.flow

/-! ## Calls -/

theorem orders_insertBody {c : Constraints} {nextval : Nat → Nat} {batch : InsertBatch} {bounds : List NsBounds}
    (hb : InOrder rank (batch.segments.map (·.objectId))) :
    (insertBody c nextval batch bounds).Orders rowLock (lockRank rank) V (fun _ _ => True) (some []) := by
  refine orders_guard ?_
  refine Orders.seq (orders_forEach (J := fun _ => HoldsAll batch.flowId []) ?_ ⟨holds_flow _, fun o ho => (by cases ho)⟩)
    fun _ held h => ?_
  · intro i pre x post held _ h
    exact orders_read fun _ => h
  refine Orders.seq (orders_forEach (J := fun pre => HoldsAll batch.flowId (pre.map (·.objectId))) ?_ h)
    fun _ held h => ?_
  · intro i pre seg post held hsegs h
    rw [hsegs, List.map_append, List.map_cons] at hb
    rw [List.map_append]
    exact orders_registerObject h hb.split
  have hall : Holds batch.flowId (batch.segments.map (·.objectId)) held := h.toHolds
  refine Orders.seq (orders_forEach (J := fun _ => Holds batch.flowId (batch.segments.map (·.objectId))) ?_ hall)
    fun _ held h => ?_
  · intro i pre seg post held _ h
    exact orders_checkObjectTimerange h
  refine Orders.seq (orders_forEach (J := fun _ => Holds batch.flowId (batch.segments.map (·.objectId))) ?_ h)
    fun _ held h => orders_refresh h
  intro i pre x post held _ h
  exact orders_insertSegment h

theorem nodup_groupCounts (rows : List SegmentRow) : ((groupCounts rows).map (·.1)).Nodup := by
  have hkeys : (groupCounts rows).map (·.1) = (rows.map (·.objectId)).dedup := by
    rw [groupCounts, List.map_map]
    exact List.map_id _
  rw [hkeys]
  exact List.nodup_dedup _

theorem orders_deleteWithin {q : DeleteQuery} {lo hi : Option Int64} (hq : queryBounds q.timerange = .ok (some (lo, hi)))
    (h : Holds q.flowId [] held) :
    (deleteWithin q lo hi).Orders rowLock (lockRank rank) ((StoreCall.deleteSegmentsByTimerange q).FindsInOrder rank)
      (fun _ _ => True) (some held) := by
  have hother : ∀ rows : List SegmentRow, ∀ ℓ ∈ rows.map (Lock.segment ·.id), rowLock ℓ = false := by
    intro rows ℓ hℓ
    obtain ⟨r, -, rfl⟩ := List.mem_map.mp hℓ
    rfl
  refine Orders.bind (orders_stmt fun t v => ⟨fun ℓ hℓ => follows_other (hother _ ℓ hℓ), fun hV => ?_⟩)
  have hord := hV rfl
  simp only [StoreCall.deletedObjects, hq] at hord
  have hnodup := nodup_groupCounts ((v.segmentsOf q.flowId).filter (deleteMatches q lo hi))
  have hheld := h.append_other (hother ((v.segmentsOf q.flowId).filter (deleteMatches q lo hi)))
  refine Orders.seq (orders_forEach (J := fun pre => Holds q.flowId (pre.map (·.1))) ?_ hheld)
    fun _ held h => orders_refresh h
  intro i pre x post held hxs h
  rw [hxs, List.map_append, List.map_cons] at hord hnodup
  rw [List.map_append]
  refine orders_decrementRefCount h (hord.split.resolve_left fun hmem => ?_)
  exact (List.nodup_append.mp hnodup).2.2 _ hmem _ List.mem_cons_self rfl

theorem orders_segmentWrite {x : StoreCall} (hx : x.segmentFlow.isSome) (hb : InOrder rank x.batchObjects)
    (c : Constraints) :
    (x.prog c).Orders rowLock (lockRank rank) (x.FindsInOrder rank) (fun _ _ => True) none := by
  cases x with
  | insertSegments nextval batch =>
    refine Orders.bind (?_ : (insertSegments c nextval batch).Orders _ _ _ (fun _ _ => True) none)
    unfold insertSegments
    split
    · trivial
    · exact Orders.inTx (orders_insertBody hb)
  | deleteSegmentsByTimerange q =>
    refine Orders.bind (Orders.inTx (orders_guard ?_))
    unfold deleteQueried
    split
    · trivial
    · trivial
    · rename_i hq
      exact orders_deleteWithin hq (holds_flow _)
  | _ => cases hx

/-- **Segment writers whose objects come in one order never wait in a circle.** -/
theorem segmentWrites_no_deadlock {n : Nat} {c : Constraints} {calls : Fin n → StoreCall}
    (hx : ∀ p, (calls p).segmentFlow.isSome) (hb : ∀ p, InOrder rank (calls p).batchObjects) {t : Time} {d : DB}
    {as : List (Act n)} {s : Sys DB Write Lock Stmt Err Answer n}
    (hr : (Sys.start t d fun p => (calls p).prog c).runs as = some s)
    (hV : (Sys.start t d fun p => (calls p).prog c).Along
      (fun s a _ => s.Sees (fun p => (calls p).FindsInOrder rank) a) as) :
    ¬ s.Deadlock rowLock :=
  not_deadlock_runs (fun p => orders_segmentWrite (hx p) (hb p) c) hr hV

end

def pairBatch (f : Uuid) (o o' : String) : InsertBatch where
  flowId := f
  segments := [sampleSegment o "[0:0_1:0)" 0 1, sampleSegment o' "[1:0_2:0)" 1 2]
  controlledStorageId := lit "default"

def sharingPair : DB := replay (StoreCall.prog {}) twoFlows [(.insertSegments id (pairBatch 2 "a" "b"), 1)]

def alignedCalls : Fin 2 → StoreCall
  | 0 => .insertSegments (· + 2) (pairBatch 1 "a" "b")
  | 1 => .deleteSegmentsByTimerange ⟨2, ⟨none, .unbounded, none, .unbounded⟩, none⟩

def alignedSchedule : List (Act 2) := Act.turns 1 [1, 1, 1, 1, 0, 0, 0, 0]

/-- The insert waits for the delete, which waits for nobody. -/
theorem aligned_writes_wait :
    ∃ s, (Sys.start 2 sharingPair fun p => (alignedCalls p).prog {}).runs alignedSchedule = some s ∧
      (∃ p q, s.Waits rowLock p q) ∧ ¬ s.Deadlock rowLock := by
  have hwait : ((Sys.start 2 sharingPair fun p => (alignedCalls p).prog {}).runs alignedSchedule).map (fun s =>
      decide (∃ p q, s.Waits rowLock p q)) = some true := by decide +kernel
  obtain ⟨s, hs, hwait⟩ := Option.map_eq_some_iff.mp hwait
  have hx : ∀ p, (alignedCalls p).segmentFlow.isSome := by decide
  have hb : ∀ p, InOrder (fun o => (o.headD 0).toNat) (alignedCalls p).batchObjects := by decide +kernel
  refine ⟨s, hs, of_decide_eq_true hwait, ?_⟩
  exact segmentWrites_no_deadlock hx hb hs (by decide +kernel)

def crossedCalls : Fin 2 → StoreCall
  | 0 => .insertSegments id (pairBatch 1 "a" "b")
  | 1 => .insertSegments (· + 2) (pairBatch 2 "b" "a")

def crossedSchedule : List (Act 2) := Act.turns 1 [0, 0, 0, 0, 0, 1, 1, 1, 1, 1]

theorem crossed_batches_deadlock :
    (∀ p, (crossedCalls p).segmentFlow.isSome) ∧
    (∀ p q, p ≠ q → (crossedCalls p).segmentFlow ≠ (crossedCalls q).segmentFlow) ∧
    ∃ s, (Sys.start 1 twoFlows fun p => (crossedCalls p).prog {}).runs crossedSchedule = some s ∧
      s.Deadlock rowLock := by
  have hcircle : ((Sys.start 1 twoFlows fun p => (crossedCalls p).prog {}).runs crossedSchedule).map (fun s =>
      decide (∃ p q, s.Waits rowLock p q ∧ s.Waits rowLock q p)) = some true := by decide +kernel
  obtain ⟨s, hs, hcircle⟩ := Option.map_eq_some_iff.mp hcircle
  obtain ⟨p, q, hpq, hqp⟩ := of_decide_eq_true hcircle
  exact ⟨by decide, by decide, s, hs, p, .tail (.single hpq) hqp⟩

end OpenTams
