import Mathlib.Data.List.Sort
import OpenTams.Fallible
import OpenTams.SegmentInv

/-!
# How RegisterBatch sorts its segments

The service rejects some segments of a request itself, and the store answers for
the others by their position among the survivors. Each segment has its own
verdict; the result should list the accepted segments and the failures in the
order of the request. The source looks a refused segment up with the position it
has in the request, and lists its own rejections first.
-/

namespace OpenTams

open Sql Fallible

/-! ## The store -/

def registerWith (insert : InsertBatch → Tx InsertResult) (storageId : Str) (req : RegisterParams) :
    Tx RegisterResult :=
  if req.segments.length = 0 then
    .fail (.wrap [.text "segment: register: empty batch: "] (.sentinel .serviceInvalidRequest))
  else if (screen 0 req.segments).survivors.length = 0 then
    .ret ⟨.outcomeAllRejected, [], (screen 0 req.segments).failed⟩
  else do
    let r ← (insert ⟨req.flowId, (screen 0 req.segments).survivors, storageId⟩).attempt
    finishRegister (screen 0 req.segments) r

theorem registerBatch_eq (c : Constraints) (storageId : Str) (nextval : Nat → Nat) (req : RegisterParams) :
    registerBatch c storageId nextval req = registerWith (insertSegments c nextval) storageId req := rfl

structure InsertResult.Partitions (r : InsertResult) (n : Nat) : Prop where
  accepted : r.acceptedIndices.Pairwise (· < ·)
  rejected : r.rejectedIndices.Pairwise (· < ·)
  covers : ∀ k, k < n ↔ k ∈ r.acceptedIndices ∨ k ∈ r.rejectedIndices
  apart : ∀ k ∈ r.acceptedIndices, k ∉ r.rejectedIndices

/-! ## Verdicts -/

inductive Verdict where
  | rejected (f : FailedSegment)
  | accepted (seg : Segment)
  | refused (f : FailedSegment)

def Verdict.segment? : Verdict → Option Segment
  | accepted seg => some seg
  | _ => none

def Verdict.rejection? : Verdict → Option FailedSegment
  | rejected f => some f
  | _ => none

def Verdict.refusal? : Verdict → Option FailedSegment
  | refused f => some f
  | _ => none

def Verdict.failure? (v : Verdict) : Option FailedSegment := v.rejection?.or v.refusal?

/-- The reason that stands beside the index, with what the service puts for one that is left out. -/
def givenReason (r : InsertResult) (k : Nat) : RejectReason :=
  match r.rejectReasons[r.rejectedIndices.idxOf k]? with
  | some x => ⟨if x.type ≠ [] then x.type else problemType .schemaValidation, x.detail⟩
  | none => ⟨problemType .schemaValidation, [.text "rejected by metastore"]⟩

def refusedSegment (reason : RejectReason) (seg : Segment) : FailedSegment :=
  { segment := seg, reason := reason.detail, type := reason.type, title := "Schema Validation Failed", status := 400 }

def verdicts (r : InsertResult) (k : Nat) : List Segment → List Verdict
  | [] => []
  | seg :: segs => match rejectSegment (stampURLs seg) with
    | some f => .rejected f :: verdicts r k segs
    | none =>
      (if k ∈ r.acceptedIndices then .accepted (stampURLs seg)
        else .refused (refusedSegment (givenReason r k) (stampURLs seg))) :: verdicts r (k + 1) segs

/-- Every segment once, on its side and in the order of the request, and the outcome that says which side is empty. -/
structure Partitioned (r : InsertResult) (segs : List Segment) (res : RegisterResult) : Prop where
  accepted : res.accepted = (verdicts r 0 segs).filterMap Verdict.segment?
  failed : res.failed = (verdicts r 0 segs).filterMap Verdict.failure?
  lengths : res.accepted.length + res.failed.length = segs.length
  outcome : (res.outcome = .outcomeAllAccepted ↔ res.failed = []) ∧
    (res.outcome = .outcomeAllRejected ↔ res.accepted = [])

/-! ## Lists -/

section
variable {α β : Type}

/-- Of two kinds of entries, picked by `g` and `h` and told apart by `Q`, those of `g` come first. -/
theorem filterMap_append_iff {g h : α → Option β} {Q : β → Prop} {l : List α} {R : List β}
    (hg : ∀ a ∈ l, ∀ b, g a = some b → Q b ∧ h a = none) (hh : ∀ a ∈ l, ∀ b, h a = some b → ¬ Q b) :
    l.filterMap (fun a => (g a).or (h a)) = l.filterMap g ++ R ↔
      R = l.filterMap h ∧ l.Pairwise fun a b => (h a).isSome → g b = none := by
  induction l with
  | nil => exact ⟨fun h => ⟨h.symm, .nil⟩, fun h => h.1.symm⟩
  | cons a l ih =>
    obtain ⟨hga', hg⟩ := List.forall_mem_cons.mp hg
    obtain ⟨hha', hh⟩ := List.forall_mem_cons.mp hh
    have ih := ih hg hh
    rw [List.pairwise_cons]
    cases hga : g a with
    | some b =>
      obtain ⟨-, hnone⟩ := hga' b hga
      simp [hga, hnone, ih]
    | none =>
      cases hha : h a with
      | none => simp [hga, hha, ih]
      | some b =>
        -- from here on there must be none of the first kind
        simp only [List.filterMap_cons, hga, hha, Option.none_or, Option.isSome_some, forall_const]
        by_cases hall : ∀ w ∈ l, g w = none
        · have hor : l.filterMap (fun a => (g a).or (h a)) = l.filterMap h :=
            List.filterMap_congr fun w hw => by rw [hall w hw, Option.none_or]
          rw [List.filterMap_eq_nil_iff.mpr hall, hor, List.nil_append]
          refine ⟨fun he => ⟨he.symm, hall, ?_⟩, fun he => he.1.symm⟩
          exact List.pairwise_of_forall_mem_list fun v _ w hw _ => hall w hw
        · refine iff_of_false ?_ fun he => hall he.2.1
          intro he
          cases hG : l.filterMap g with
          | nil => exact hall (List.filterMap_eq_nil_iff.mp hG)
          | cons b' G =>
            rw [hG, List.cons_append, List.cons.injEq] at he
            obtain ⟨w, hw, hgw⟩ := List.mem_filterMap.mp (hG ▸ List.mem_cons_self : b' ∈ l.filterMap g)
            exact hha' b hha (he.1 ▸ (hg w hw b' hgw).1)

theorem foldl_eq_self {f : β → α → β} {l : List α} (h : ∀ a ∈ l, ∀ b, f b a = b) (b : β) : l.foldl f b = b := by
  induction l generalizing b with
  | nil => rfl
  | cons a l ih =>
    obtain ⟨ha, hl⟩ := List.forall_mem_cons.mp h
    rw [List.foldl_cons, ha, ih hl]

theorem mapM_eq_some_map {f : α → Option β} {g : α → β} {l : List α} :
    l.mapM f = some (l.map g) ↔ ∀ a ∈ l, f a = some (g a) := by
  rw [mapM_eq_some, List.forall₂_map_right_iff, List.forall₂_same]

end

/-! ## The screening -/

theorem length_sides (vs : List Verdict) :
    (vs.filterMap Verdict.segment?).length + (vs.filterMap Verdict.failure?).length = vs.length := by
  induction vs with
  | nil => rfl
  | cons v vs ih =>
    cases v with
    | accepted seg =>
      simp only [List.filterMap_cons, Verdict.segment?, Verdict.failure?, Verdict.rejection?, Verdict.refusal?,
        Option.or_none, List.length_cons]
      omega
    | rejected f | refused f =>
      simp only [List.filterMap_cons, Verdict.segment?, Verdict.failure?, Verdict.rejection?, Verdict.refusal?,
        Option.or_none, Option.none_or, List.length_cons]
      omega

section
variable (r : InsertResult) (k i : Nat) (segs : List Segment)

theorem rejections_verdicts : (verdicts r k segs).filterMap Verdict.rejection? = (screen i segs).failed := by
  induction segs generalizing k i with
  | nil => rfl
  | cons seg segs ih =>
    simp only [verdicts, screen]
    cases hr : rejectSegment (stampURLs seg) with
    | some f => exact congrArg (f :: ·) (ih k (i + 1))
    | none =>
      refine Eq.trans ?_ (ih (k + 1) (i + 1))
      by_cases hk : k ∈ r.acceptedIndices
      · simp only [hk, if_true]
        rfl
      · simp only [hk, if_false]
        rfl

/-- What the verdicts say of the survivors, in their order. -/
theorem filterMap_verdicts {β : Type} {g : Verdict → Option β} (hg : ∀ f, g (.rejected f) = none) :
    (verdicts r k segs).filterMap g = ((screen i segs).survivors.zipIdx k).filterMap fun p =>
      if p.2 ∈ r.acceptedIndices then g (.accepted p.1) else g (.refused (refusedSegment (givenReason r p.2) p.1)) := by
  induction segs generalizing k i with
  | nil => rfl
  | cons seg segs ih =>
    simp only [verdicts, screen]
    cases hr : rejectSegment (stampURLs seg) with
    | some f => rw [List.filterMap_cons_none (hg f), ih k (i + 1)]
    | none =>
      rw [List.zipIdx_cons, List.filterMap_cons, List.filterMap_cons, ih (k + 1) (i + 1)]
      by_cases hk : k ∈ r.acceptedIndices
      · simp only [hk, if_true]
      · simp only [hk, if_false]

theorem segments_verdicts : (verdicts r k segs).filterMap Verdict.segment? =
    (((screen i segs).survivors.zipIdx k).filter fun p => p.2 ∈ r.acceptedIndices).map (·.1) := by
  rw [filterMap_verdicts r k i segs fun _ => rfl, ← List.filterMap_eq_map, List.filterMap_filter]
  simp [Verdict.segment?]

theorem refusals_verdicts : (verdicts r k segs).filterMap Verdict.refusal? =
    (((screen i segs).survivors.zipIdx k).filter fun p => p.2 ∉ r.acceptedIndices).map
      fun p => refusedSegment (givenReason r p.2) p.1 := by
  rw [filterMap_verdicts r k i segs fun _ => rfl, ← List.filterMap_eq_map, List.filterMap_filter]
  simp [Verdict.refusal?]

/-- The two kinds of failures are told apart by their segments. -/
theorem failures_apart : ∀ v ∈ verdicts r k segs,
    (∀ f, v.rejection? = some f → rejectSegment f.segment ≠ none ∧ v.refusal? = none) ∧
      ∀ f, v.refusal? = some f → ¬ rejectSegment f.segment ≠ none := by
  induction segs generalizing k with
  | nil => exact fun v hv => by cases hv
  | cons seg segs ih =>
    simp only [verdicts]
    cases hr : rejectSegment (stampURLs seg) with
    | some f =>
      refine List.forall_mem_cons.mpr ⟨⟨fun f' hf' => ?_, fun f' hf' => by cases hf'⟩, ih k⟩
      cases hf'
      rw [rejectSegment_segment hr, hr]
      exact ⟨Option.some_ne_none f, rfl⟩
    | none =>
      refine List.forall_mem_cons.mpr ⟨?_, ih (k + 1)⟩
      split
      · exact ⟨fun f' hf' => (by cases hf'), fun f' hf' => by cases hf'⟩
      · refine ⟨fun f' hf' => (by cases hf'), fun f' hf' => ?_⟩
        cases hf'
        exact not_not_intro hr

theorem length_verdicts : (verdicts r k segs).length = segs.length := by
  induction segs generalizing k with
  | nil => rfl
  | cons seg segs ih =>
    simp only [verdicts]
    split
    · exact congrArg (· + 1) (ih k)
    · exact congrArg (· + 1) (ih (k + 1))

theorem length_survivorIdx : (screen i segs).survivorIdx.length = (screen i segs).survivors.length := by
  induction segs generalizing i with
  | nil => rfl
  | cons seg segs ih =>
    simp only [screen]
    split
    · exact ih (i + 1)
    · exact congrArg (· + 1) (ih (i + 1))

theorem screen_nil {i : Nat} {segs : List Segment} (hs : (screen i segs).survivors = [])
    (hf : (screen i segs).failed = []) : segs = [] := by
  cases segs with
  | nil => rfl
  | cons seg segs =>
    simp only [screen] at hs hf
    split at hs
    · rename_i hr
      rw [hr] at hf
      cases hf
    · cases hs

end

/-! ## The result -/

theorem rejectReason_eq {r : InsertResult} (hnodup : r.rejectedIndices.Nodup) {k : Nat} (hk : k ∈ r.rejectedIndices) :
    rejectReason r k = givenReason r k := by
  obtain ⟨before, after, hs⟩ := List.append_of_mem hk
  rw [hs, List.nodup_append] at hnodup
  obtain ⟨-, hafter, hne⟩ := hnodup
  have hbefore : k ∉ before := fun h => hne k h k List.mem_cons_self rfl
  have hafter : k ∉ after := (List.nodup_cons.mp hafter).1
  have hidx : r.rejectedIndices.idxOf k = before.length := by
    rw [hs, List.idxOf_append, if_neg hbefore, List.idxOf_cons_self, Nat.zero_add]
  unfold rejectReason givenReason
  rw [hidx, hs, List.zipIdx_append, List.foldl_append, List.zipIdx_cons, List.foldl_cons, Nat.zero_add]
  rw [foldl_eq_self, foldl_eq_self]
  · dsimp only
    cases r.rejectReasons[before.length]? with
    | none => rfl
    | some x => simp only [if_true]
  · intro p hp b
    have hne : p.1 ≠ k := fun he => hbefore (he ▸ List.fst_mem_of_mem_zipIdx hp)
    dsimp only
    split
    · rw [if_neg hne]
    · rfl
  · intro p hp b
    have hne : p.1 ≠ k := fun he => hafter (he ▸ List.fst_mem_of_mem_zipIdx hp)
    dsimp only
    split
    · rw [if_neg hne]
    · rfl

section
variable {r : InsertResult} {segs : List Segment}

theorem accepted_mapM (h : r.Partitions (screen 0 segs).survivors.length) :
    r.acceptedIndices.mapM (fun i => (screen 0 segs).survivors[i]?) =
      some ((verdicts r 0 segs).filterMap Verdict.segment?) := by
  rw [segments_verdicts r 0 0]
  generalize (screen 0 segs).survivors = survivors at h
  have hidx : r.acceptedIndices = ((survivors.zipIdx.filter fun p => p.2 ∈ r.acceptedIndices).map (·.2)) := by
    refine List.Pairwise.eq_of_mem_iff h.accepted ?_ fun k => ?_
    · have hsub : ((survivors.zipIdx.filter fun p => p.2 ∈ r.acceptedIndices).map (·.2)).Sublist
          (survivors.zipIdx.map (·.2)) := List.filter_sublist.map _
      refine List.Pairwise.sublist hsub ?_
      rw [List.zipIdx_map_snd]
      exact List.pairwise_lt_range' 1
    · simp only [List.mem_map, List.mem_filter, List.mem_zipIdx_iff_getElem?, decide_eq_true_eq]
      constructor
      · intro hk
        have hlt := (h.covers k).mpr (Or.inl hk)
        exact ⟨(survivors[k], k), ⟨List.getElem?_eq_getElem hlt, hk⟩, rfl⟩
      · rintro ⟨p, ⟨-, hp⟩, rfl⟩
        exact hp
  conv_lhs => rw [hidx]
  rw [List.mapM_map, mapM_eq_some_map]
  intro p hp
  exact List.mem_zipIdx_iff_getElem?.mp (List.mem_of_mem_filter hp)

def refusedPairs (x : Screened) (r : InsertResult) : List ((Nat × Segment) × Nat) :=
  (x.survivorIdx.zip x.survivors).zipIdx.filter fun p => p.2 ∉ r.acceptedIndices

theorem mem_refusedPairs (h : r.Partitions (screen 0 segs).survivors.length) {p : (Nat × Segment) × Nat} :
    p ∈ refusedPairs (screen 0 segs) r ↔ p.2 ∈ r.rejectedIndices ∧ (screen 0 segs).survivorIdx[p.2]? = some p.1.1 ∧
      (screen 0 segs).survivors[p.2]? = some p.1.2 := by
  rw [refusedPairs, List.mem_filter, List.mem_zipIdx_iff_getElem?, List.getElem?_zip_eq_some, decide_eq_true_eq]
  constructor
  · rintro ⟨⟨hi, hs⟩, hno⟩
    have hlt := (List.getElem?_eq_some_iff.mp hs).1
    exact ⟨((h.covers p.2).mp hlt).resolve_left hno, hi, hs⟩
  · rintro ⟨hk, hi, hs⟩
    exact ⟨⟨hi, hs⟩, fun hacc => h.apart p.2 hacc hk⟩

theorem refusedPairs_idx : ((screen 0 segs).survivorIdx.zipIdx.filter fun p => p.2 ∉ r.acceptedIndices) =
    (refusedPairs (screen 0 segs) r).map fun p => (p.1.1, p.2) := by
  have hfst := List.map_fst_zip (length_survivorIdx 0 segs).le
  conv_lhs => rw [← hfst, List.zipIdx_map, List.filter_map]
  rfl

theorem refusedPairs_seg : ((screen 0 segs).survivors.zipIdx.filter fun p => p.2 ∉ r.acceptedIndices) =
    (refusedPairs (screen 0 segs) r).map fun p => (p.1.2, p.2) := by
  have hsnd := List.map_snd_zip (length_survivorIdx 0 segs).ge
  conv_lhs => rw [← hsnd, List.zipIdx_map, List.filter_map]
  rfl

theorem assemble_eq (h : r.Partitions (screen 0 segs).survivors.length) :
    assemble (screen 0 segs) r =
      ((refusedPairs (screen 0 segs) r).mapM fun p => storeRejected (screen 0 segs).survivors r p.2 p.1.1).map
        fun refused => ⟨registerOutcome ((verdicts r 0 segs).filterMap Verdict.segment?) ((screen 0 segs).failed ++ refused),
          (verdicts r 0 segs).filterMap Verdict.segment?, (screen 0 segs).failed ++ refused⟩ := by
  rw [assemble, accepted_mapM h, refusedPairs_idx, List.mapM_map, Option.map_eq_bind]
  rfl

theorem storeRejected_eq (h : r.Partitions (screen 0 segs).survivors.length) {p : (Nat × Segment) × Nat}
    (hp : p ∈ refusedPairs (screen 0 segs) r) :
    storeRejected (screen 0 segs).survivors r p.2 p.1.1 = some (refusedSegment (givenReason r p.2) p.1.2) ↔
      (screen 0 segs).survivors[p.1.1]? = (screen 0 segs).survivors[p.2]? := by
  obtain ⟨hk, -, hs⟩ := (mem_refusedPairs h).mp hp
  have hreason := rejectReason_eq (h.rejected.imp Nat.ne_of_lt) hk
  have heq : storeRejected (screen 0 segs).survivors r p.2 p.1.1 =
      (screen 0 segs).survivors[p.1.1]?.map (refusedSegment (givenReason r p.2)) := by
    rw [← hreason]
    rfl
  have hinj : Function.Injective (refusedSegment (givenReason r p.2)) :=
    fun s s' hss => congrArg FailedSegment.segment hss
  rw [heq, hs, ← Option.map_some (f := refusedSegment (givenReason r p.2)), (Option.map_injective hinj).eq_iff]

theorem registerOutcome_iff {accepted : List Segment} {failed : List FailedSegment}
    (h : accepted.length + failed.length ≠ 0) :
    (registerOutcome accepted failed = .outcomeAllAccepted ↔ failed = []) ∧
      (registerOutcome accepted failed = .outcomeAllRejected ↔ accepted = []) := by
  cases accepted with
  | nil =>
    cases failed with
    | nil => exact absurd rfl h
    | cons f failed => simp [registerOutcome]
  | cons seg accepted =>
    cases failed with
    | nil => simp [registerOutcome]
    | cons f failed => simp [registerOutcome]

/-- **The result is right** exactly if the positions of the refused segments among the survivors hold the same
segments as their positions in the request, and no rejection of the service comes after a refusal. -/
theorem assemble_partitioned_iff (hne : segs ≠ []) (h : r.Partitions (screen 0 segs).survivors.length) :
    (∃ res, assemble (screen 0 segs) r = some res ∧ Partitioned r segs res) ↔
      (∀ k ∈ r.rejectedIndices, ∀ i, (screen 0 segs).survivorIdx[k]? = some i →
        (screen 0 segs).survivors[i]? = (screen 0 segs).survivors[k]?) ∧
      (verdicts r 0 segs).Pairwise fun v w => v.refusal?.isSome → w.rejection? = none := by
  have hrej := rejections_verdicts r 0 0 segs
  have href : (verdicts r 0 segs).filterMap Verdict.refusal? =
      (refusedPairs (screen 0 segs) r).map fun p => refusedSegment (givenReason r p.2) p.1.2 := by
    rw [refusals_verdicts r 0 0, refusedPairs_seg, List.map_map]
    rfl
  have hsplit : ∀ refused, (verdicts r 0 segs).filterMap Verdict.failure? = (screen 0 segs).failed ++ refused ↔
      refused = (verdicts r 0 segs).filterMap Verdict.refusal? ∧
        (verdicts r 0 segs).Pairwise fun v w => v.refusal?.isSome → w.rejection? = none := by
    intro refused
    rw [← hrej]
    exact filterMap_append_iff (fun v hv => (failures_apart r 0 segs v hv).1)
      fun v hv => (failures_apart r 0 segs v hv).2
  constructor
  · rintro ⟨res, hres, hp⟩
    rw [assemble_eq h] at hres
    obtain ⟨refused, hm, rfl⟩ := Option.map_eq_some_iff.mp hres
    obtain ⟨rfl, hpw⟩ := (hsplit refused).mp hp.failed.symm
    rw [href, mapM_eq_some_map] at hm
    refine ⟨fun k hk i hi => ?_, hpw⟩
    have hlt := (h.covers k).mpr (Or.inr hk)
    have hmem : ((i, (screen 0 segs).survivors[k]), k) ∈ refusedPairs (screen 0 segs) r :=
      (mem_refusedPairs h).mpr ⟨hk, hi, List.getElem?_eq_getElem hlt⟩
    exact (storeRejected_eq h hmem).mp (hm _ hmem)
  · rintro ⟨hsame, hpw⟩
    have hm : (refusedPairs (screen 0 segs) r).mapM
        (fun p => storeRejected (screen 0 segs).survivors r p.2 p.1.1) =
        some ((verdicts r 0 segs).filterMap Verdict.refusal?) := by
      rw [href, mapM_eq_some_map]
      intro p hp
      obtain ⟨hk, hi, -⟩ := (mem_refusedPairs h).mp hp
      exact (storeRejected_eq h hp).mpr (hsame p.2 hk p.1.1 hi)
    have hfailed := (hsplit _).mpr ⟨rfl, hpw⟩
    have hlen := (length_sides (verdicts r 0 segs)).trans (length_verdicts r 0 segs)
    rw [hfailed] at hlen
    refine ⟨_, by rw [assemble_eq h, hm]; rfl, rfl, hfailed.symm, hlen, registerOutcome_iff fun h0 => ?_⟩
    exact hne (List.length_eq_zero_iff.mp (hlen.symm.trans h0))

end

/-! ## The call -/

section
variable {insert : InsertBatch → Tx InsertResult} {storageId : Str} {req : RegisterParams} {t : Time} {d : DB}
  {r : InsertResult}

theorem run_registerWith (hne : req.segments ≠ [])
    (hins : (screen 0 req.segments).survivors ≠ [] →
      ((insert ⟨req.flowId, (screen 0 req.segments).survivors, storageId⟩).run t d).1 = .ok r)
    (h : r.Partitions (screen 0 req.segments).survivors.length) :
    ((registerWith insert storageId req).run t d).1 = (assemble (screen 0 req.segments) r).elim (.error .panic) .ok := by
  have hlen : req.segments.length ≠ 0 := fun h0 => hne (List.length_eq_zero_iff.mp h0)
  unfold registerWith
  rw [if_neg hlen]
  by_cases hs : (screen 0 req.segments).survivors.length = 0
  · -- nothing reaches the store, which has nothing to answer for
    have hnil := List.length_eq_zero_iff.mp hs
    have hpairs : refusedPairs (screen 0 req.segments) r = [] := by rw [refusedPairs, hnil, List.zip_nil_right]; rfl
    have haccepted : (verdicts r 0 req.segments).filterMap Verdict.segment? = [] := by
      rw [segments_verdicts r 0 0, hnil]
      rfl
    have hout : registerOutcome [] (screen 0 req.segments).failed = .outcomeAllRejected := by
      refine (registerOutcome_iff fun h0 => hne ?_).2.mpr rfl
      exact screen_nil hnil (List.length_eq_zero_iff.mp ((Nat.zero_add _).symm.trans h0))
    rw [if_pos hs, assemble_eq h, hpairs, haccepted, List.mapM_nil]
    show _ = Except.ok (RegisterResult.mk (registerOutcome [] ((screen 0 req.segments).failed ++ [])) []
      ((screen 0 req.segments).failed ++ []))
    rw [List.append_nil, hout]
    rfl
  · have hr := hins fun h0 => hs (List.length_eq_zero_iff.mpr h0)
    rw [if_neg hs]
    simp only [Prog.run, Prog.bind_eq, Prog.exec_bind, Prog.exec_attempt] at hr ⊢
    rw [hr, finishRegister]
    cases assemble (screen 0 req.segments) r with
    | none => rfl
    | some res => rfl

/-- **RegisterBatch partitions its input** exactly if, for every segment that the store refuses, the survivor at its
position in the request is the segment itself, and no segment the service rejects comes after one that
the store refuses. -/
theorem register_partitions_iff (hne : req.segments ≠ [])
    (hins : (screen 0 req.segments).survivors ≠ [] →
      ((insert ⟨req.flowId, (screen 0 req.segments).survivors, storageId⟩).run t d).1 = .ok r)
    (h : r.Partitions (screen 0 req.segments).survivors.length) :
    (∃ res, ((registerWith insert storageId req).run t d).1 = .ok res ∧ Partitioned r req.segments res) ↔
      (∀ k ∈ r.rejectedIndices, ∀ i, (screen 0 req.segments).survivorIdx[k]? = some i →
        (screen 0 req.segments).survivors[i]? = (screen 0 req.segments).survivors[k]?) ∧
      (verdicts r 0 req.segments).Pairwise fun v w => v.refusal?.isSome → w.rejection? = none := by
  rw [← assemble_partitioned_iff hne h, run_registerWith hne hins h]
  cases assemble (screen 0 req.segments) r with
  | none => simp
  | some res => simp

end

def goodSegment (o : String) (start : Int64) : Segment where
  objectId := lit o
  timerange := ⟨some ⟨start, 0⟩, .inclusive, some ⟨start + 1, 0⟩, .exclusive⟩
  timerangeRaw := lit "range"

def oneOfTwo (k : Nat) : InsertResult where
  acceptedIndices := [k]
  rejectedIndices := [1 - k]
  rejectReasons := [⟨[.text "urn:taken"], [.text "taken"]⟩]

theorem partitions_oneOfTwo {k : Nat} (hk : k < 2) : (oneOfTwo k).Partitions 2 where
  accepted := List.pairwise_singleton ..
  rejected := List.pairwise_singleton ..
  covers j := by
    simp only [oneOfTwo, List.mem_singleton]
    omega
  apart j hj hj' := by
    simp only [oneOfTwo, List.mem_singleton] at hj hj'
    omega

theorem partitioned_without_rejections :
    ∃ res, ((registerWith (fun _ => .ret (oneOfTwo 1)) [] ⟨1, [goodSegment "a" 0, goodSegment "b" 1]⟩).run 0
      DB.empty).1 = .ok res ∧ Partitioned (oneOfTwo 1) [goodSegment "a" 0, goodSegment "b" 1] res := by
  have hlen : (screen 0 [goodSegment "a" 0, goodSegment "b" 1]).survivors.length = 2 := by decide +kernel
  have hidx : (screen 0 [goodSegment "a" 0, goodSegment "b" 1]).survivorIdx = [0, 1] := by decide +kernel
  refine (register_partitions_iff (List.cons_ne_nil _ _) (fun _ => rfl) ?_).mpr ⟨?_, ?_⟩
  · rw [hlen]
    exact partitions_oneOfTwo (by decide)
  · intro k hk i hi
    rw [List.mem_singleton.mp hk, hidx] at hi
    cases hi
    rw [List.mem_singleton.mp hk]
  · have hrej : (screen 0 [goodSegment "a" 0, goodSegment "b" 1]).failed = [] := by decide +kernel
    rw [← rejections_verdicts (oneOfTwo 1) 0 0, List.filterMap_eq_nil_iff] at hrej
    exact List.pairwise_of_forall_mem_list fun v _ w hw _ => hrej w hw

def shiftedRequest : RegisterParams := ⟨1, [goodSegment "" 0, goodSegment "a" 1, goodSegment "b" 2]⟩

/-- The wrong segment is listed, or the index is out of range. -/
theorem rejection_shifts_refusals :
    (screen 0 shiftedRequest.segments).survivors.length = 2 ∧ (oneOfTwo 0).Partitions 2 ∧ (oneOfTwo 1).Partitions 2 ∧
    ((registerWith (fun _ => .ret (oneOfTwo 1)) [] shiftedRequest).run 0 DB.empty).1.map
      (fun res => (res.accepted.map (·.objectId), res.failed.map (·.segment.objectId))) =
      .ok ([lit "b"], [lit "", lit "b"]) ∧
    ((registerWith (fun _ => .ret (oneOfTwo 0)) [] shiftedRequest).run 0 DB.empty).1 = .error .panic := by
  refine ⟨by decide +kernel, partitions_oneOfTwo (by decide), partitions_oneOfTwo (by decide), ?_⟩
  decide +kernel

end OpenTams
