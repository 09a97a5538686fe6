import Mathlib.Algebra.BigOperators.Group.List.Lemmas
import OpenTams.FlowSpan

/-!
# What DeleteSegmentsByTimerange does

A delete removes exactly the rows whose nanoseconds all lie in the query range,
takes their references back object by object, and leaves the flow with the span
of the rows that remain. The comparison of the bounds is containment of the sets
they denote, for every mix of markers and for omitted sides.
-/

namespace OpenTams

open Sql Prog

/-! ## Query ranges -/

/-- The bounds a query range is compared by: none where it is empty, and else bounds of its nanoseconds. -/
theorem queryBounds_ok {tr : TimeRange} (h : tr.Wf) (hb : tr.denote = ∅ ∨ tr.FitsInt64) :
    tr.denote = ∅ ∧ queryBounds tr = .ok none ∨
      ∃ lo hi, queryBounds tr = .ok (some (lo, hi)) ∧ paramSet lo hi = tr.denote ∧ tr.denote ≠ ∅ := by
  unfold queryBounds
  by_cases hem : tr.denote = ∅
  · exact Or.inl ⟨hem, if_pos ((TimeRange.isEmpty_iff h).mpr hem)⟩
  · obtain ⟨b, hb⟩ := TimeRange.nsBounds_ok h hem (hb.resolve_left hem)
    rw [if_neg (mt (TimeRange.isEmpty_iff h).mp hem), hb]
    exact Or.inr ⟨_, _, rfl, by rw [paramSet_params, (TimeRange.nsBounds_denote h hb).1], hem⟩

theorem queryBounds_some {tr : TimeRange} (h : tr.Wf) {lo hi : Option Int64}
    (hb : queryBounds tr = .ok (some (lo, hi))) : paramSet lo hi = tr.denote ∧ tr.denote.Nonempty := by
  unfold queryBounds at hb
  split at hb
  · cases hb
  split at hb
  · cases hb
  rename_i b hbounds
  cases hb
  exact ⟨by rw [paramSet_params, (TimeRange.nsBounds_denote h hbounds).1],
    TimeRange.denote_nonempty_of_nsBounds h hbounds⟩

/-! ## The rows a query covers -/

/-- All the row's nanoseconds lie in the query range, and the row is the query's flow's and object's. -/
structure Covered (q : DeleteQuery) (r : SegmentRow) : Prop where
  flow : r.flowId = q.flowId
  within : r.span ⊆ q.timerange.denote
  object : ∀ o, q.objectId = some o → r.objectId = o

theorem span_subset_of_bounds {lo hi : Option Int64} {r : SegmentRow} (hlo : ∀ x, lo = some x → x ≤ r.lowerNs)
    (hhi : ∀ x, hi = some x → r.upperNs ≤ x) : r.span ⊆ paramSet lo hi := by
  simp only [Int64.le_iff_toInt_le] at hlo hhi
  rintro n ⟨hn, hn'⟩
  exact ⟨fun x hx => (hlo x hx).trans hn, fun x hx => hn'.trans_le (hhi x hx)⟩

theorem span_subset_paramSet {lo hi : Option Int64} {r : SegmentRow} (h : r.lowerNs < r.upperNs) :
    r.span ⊆ paramSet lo hi ↔ (∀ x, lo = some x → x ≤ r.lowerNs) ∧ ∀ x, hi = some x → r.upperNs ≤ x := by
  refine ⟨fun hs => ?_, fun hb => span_subset_of_bounds hb.1 hb.2⟩
  simp only [Int64.le_iff_toInt_le, Int64.lt_iff_toInt_lt] at h ⊢
  refine ⟨fun x hx => (hs ⟨le_rfl, h⟩).1 x hx, fun x hx => ?_⟩
  have : r.upperNs.toInt - 1 < x.toInt := (hs ⟨by omega, by omega⟩).2 x hx
  omega

/-- **The comparison is containment.** -/
theorem deleteMatches_iff {q : DeleteQuery} {lo hi : Option Int64} {r : SegmentRow} (h : r.lowerNs < r.upperNs)
    (hset : paramSet lo hi = q.timerange.denote) :
    (decide (r.flowId = q.flowId) && deleteMatches q lo hi r) = true ↔ Covered q r := by
  have hsub : r.span ⊆ paramSet lo hi ↔ _ := span_subset_paramSet h
  rw [hset] at hsub
  simp only [deleteMatches, Bool.and_eq_true, Option.all_eq_true, decide_eq_true_eq]
  constructor
  · rintro ⟨hf, ⟨hlo, hhi⟩, ho⟩
    exact ⟨hf, hsub.mpr ⟨hlo, hhi⟩, ho⟩
  · rintro ⟨hf, hw, ho⟩
    exact ⟨hf, hsub.mp hw, ho⟩

open Classical in
noncomputable def DB.covered (d : DB) (q : DeleteQuery) : List SegmentRow := d.segments.rows.filter fun r => Covered q r

open Classical in
noncomputable def DB.remaining (d : DB) (q : DeleteQuery) : List SegmentRow :=
  d.segments.rows.filter fun r => ¬ Covered q r

noncomputable def DB.removedRefs (d : DB) (q : DeleteQuery) (o : Str) : ℕ := ((d.covered q).map (·.objectId)).count o

theorem covered_eq_nil {d : DB} {q : DeleteQuery} : d.covered q = [] ↔ ∀ r ∈ d.segments.rows, ¬ Covered q r := by
  simp [DB.covered, List.filter_eq_nil_iff]

section
variable {t : Time} {v v' d : DB} {q : DeleteQuery} {lo hi : Option Int64}

open Classical in
theorem matching_eq_covered (h : ∀ r ∈ d.segments.rows, r.lowerNs < r.upperNs)
    (hset : paramSet lo hi = q.timerange.denote) :
    (d.segmentsOf q.flowId).filter (deleteMatches q lo hi) = d.covered q := by
  rw [segmentsOf_filter, DB.covered]
  refine List.filter_congr fun r hr => ?_
  rw [Bool.eq_iff_iff, deleteMatches_iff (h r hr) hset, decide_eq_true_iff]

open Classical in
theorem rows_delCovered (h : ∀ r ∈ d.segments.rows, r.lowerNs < r.upperNs)
    (hset : paramSet lo hi = q.timerange.denote) :
    (d.segments.delAll ((d.covered q).map (·.id))).rows = d.remaining q := by
  rw [← matching_eq_covered h hset, rows_delSegments, DB.remaining]
  refine List.filter_congr fun r hr => ?_
  rw [Bool.eq_iff_iff, Bool.not_eq_true', ← Bool.not_eq_true, deleteMatches_iff (h r hr) hset, decide_eq_true_iff]

/-! ## Counts -/

theorem sum_groupCounts (rows : List SegmentRow) : ((groupCounts rows).map (·.2)).sum = rows.length := by
  have hsum := List.sum_map_count_dedup_eq_length (rows.map (·.objectId))
  rw [List.length_map] at hsum
  rw [groupCounts, List.map_map]
  refine Eq.trans (congrArg List.sum (List.map_congr_left fun o _ => ?_)) hsum
  simp only [Function.comp]
  congr
  exact lawful_beq_subsingleton _ _

def withoutRefs (k : ℕ) (r : ObjectRow) : ObjectRow := { r with refCount := r.refCount - k }

theorem withoutRefs_zero (r : ObjectRow) : withoutRefs 0 r = r := by
  simp [withoutRefs]

theorem eval_decrementRefCount {i : Nat} {o : Str} {n : ℕ}
    (hfit : ∀ r, v.objects.get o = some r → fitsInt4 (r.refCount - n) = true) :
    ∃ v', (decrementRefCount i (o, n)).eval t v = .ok ((), v') ∧ v' = { v with objects := v'.objects } ∧
      ∀ x, v'.objects.get x = (v.objects.get x).map (withoutRefs (if o = x then n else 0)) := by
  rw [decrementRefCount, subRefCount, eval_stmtE]
  cases hg : v.objects.get o with
  | none =>
    refine ⟨v, rfl, rfl, fun x => ?_⟩
    split
    · rename_i hx
      rw [← hx, hg]
      rfl
    · simp [funext withoutRefs_zero]
  | some r =>
    simp only [hfit r hg, if_true]
    refine ⟨v.write (.putObject (withoutRefs n r)), rfl, rfl, fun x => ?_⟩
    have hkey : r.id = o := Table.key_of_get hg
    refine (Table.get_put v.objects (withoutRefs n r) x).trans ?_
    split
    · rename_i hx
      rw [← hx, show (withoutRefs n r).id = o from hkey, hg]
      simp
    · rename_i hx
      rw [if_neg (fun he => hx (hkey.trans he))]
      simp [funext withoutRefs_zero]

theorem eval_decrements {k : Str → ℕ} {os : List Str} {i : Nat} (hos : os.Nodup)
    (hfit : ∀ o ∈ os, ∀ r, v.objects.get o = some r → fitsInt4 (r.refCount - k o) = true) :
    ∃ v', (forEach decrementRefCount i (os.map fun o => (o, k o))).eval t v = .ok ((), v') ∧
      v' = { v with objects := v'.objects } ∧
      ∀ x, v'.objects.get x = (v.objects.get x).map (withoutRefs (if x ∈ os then k x else 0)) := by
  induction os generalizing i v with
  | nil => exact ⟨v, rfl, rfl, fun x => by simp [funext withoutRefs_zero]⟩
  | cons o os ih =>
    obtain ⟨hno, hos⟩ := List.nodup_cons.mp hos
    obtain ⟨hfo, hfit⟩ := List.forall_mem_cons.mp hfit
    obtain ⟨w, hw, hwv, hobj⟩ := eval_decrementRefCount (t := t) (i := i) hfo
    have hother : ∀ x ∈ os, w.objects.get x = v.objects.get x := by
      intro x hx
      rw [hobj, if_neg (fun he : o = x => hno (he ▸ hx))]
      simp [funext withoutRefs_zero]
    obtain ⟨v', hv', hvw, hobj'⟩ := ih (i := i + 1) (v := w) hos fun x hx r hr => hfit x hx r (hother x hx ▸ hr)
    refine ⟨v', eval_forEach_cons.mpr ⟨w, hw, hv'⟩, by rw [hvw, hwv], fun x => ?_⟩
    rw [hobj' x]
    by_cases hx : x ∈ os
    · rw [hother x hx, if_pos hx, if_pos (List.mem_cons_of_mem _ hx)]
    · rw [if_neg hx, funext withoutRefs_zero, Option.map_id', hobj x]
      by_cases he : o = x
      · subst he
        simp
      · simp [he, hx, Ne.symm he]

/-! ## The call -/

/-- `d'` is what a delete by a range that is not empty makes of `d`. -/
structure Deleted (q : DeleteQuery) (t : Time) (d d' : DB) : Prop where
  segments : d'.segments.rows = d.remaining q
  objects : ∀ o, d'.objects.get o = (d.objects.get o).map (withoutRefs (d.removedRefs q o))
  flow : ∃ r span, d.flows.get q.flowId = some r ∧
    d'.flows = d.flows.put { r with segmentsUpdated := some t, timerange := span } ∧
    (span = none ↔ d'.segmentsOf q.flowId = []) ∧
    ∀ text, span = some text → RangeText text (hull (d'.segmentsOf q.flowId))
  others : d' = { d with segments := d'.segments, objects := d'.objects, flows := d'.flows }

def HasRoom (q : DeleteQuery) (d : DB) : Prop :=
  ∀ o r, d.objects.get o = some r → 0 < d.removedRefs q o → fitsInt4 (r.refCount - d.removedRefs q o) = true

theorem commits_deleteWithin (q : DeleteQuery) (lo hi : Option Int64) : (deleteWithin q lo hi).Commits :=
  (flat_stmt ..).bind_commits fun _ => (flat_forEach (fun _ _ => flat_subRefCount ..) _ _).bind_commits fun _ =>
    (flat_refreshFlowTimerange _ _).bind_commits fun _ => commits_commitThen _ _ _

theorem eval_deleteWithin (h : SegmentInv SegmentRow.Canonical d) {r : FlowRow} (hr : d.flows.get q.flowId = some r)
    (hset : paramSet lo hi = q.timerange.denote) (hroom : HasRoom q d) :
    ∃ d', (deleteWithin q lo hi).eval t d = .ok (⟨(d.covered q).length⟩, d') ∧ Deleted q t d d' := by
  have hne : ∀ r ∈ d.segments.rows, r.lowerNs < r.upperNs := fun r hr => (h.rows r hr).nonempty
  have hmatch := matching_eq_covered hne hset
  have hrows := rows_delCovered hne hset
  let v₁ : DB := { d with segments := d.segments.delAll ((d.covered q).map (·.id)) }
  have h₁ : SegmentInv SegmentRow.Canonical v₁ := h.delAll _
  have hdel : (deleteRows q lo hi).eval t d = .ok (groupCounts (d.covered q), v₁) := by
    rw [deleteRows, eval_stmt, hmatch, writeAll_delSegment]
  have hfit : ∀ o ∈ ((d.covered q).map (·.objectId)).dedup, ∀ r, v₁.objects.get o = some r →
      fitsInt4 (r.refCount - d.removedRefs q o) = true := by
    intro o ho r hr
    exact hroom o r hr (List.count_pos_iff.mpr (List.mem_dedup.mp ho))
  obtain ⟨v₂, hdec, hv₂, hobj⟩ := eval_decrements (t := t) (v := v₁) (i := 0) (List.nodup_dedup _) hfit
  have hseg : v₂.segments = v₁.segments := by rw [hv₂]
  obtain ⟨span, hspan, hnone, htext⟩ := (h₁.of_eq hseg).flowSpan q.flowId
  have hflow : v₂.flows.get q.flowId = some r := by rw [hv₂]; exact hr
  let v₃ : DB := v₂.write (.putFlow { r with segmentsUpdated := some t, timerange := span })
  refine ⟨v₃, eval_bind_ok.mpr ⟨_, v₁, hdel, eval_bind_ok.mpr ⟨(), v₂, hdec, eval_bind_ok.mpr ⟨(), v₃, ?_, ?_⟩⟩⟩, ?_⟩
  · exact (eval_refreshFlowTimerange hflow).mpr ⟨span, hspan, rfl⟩
  · rw [eval_commitThen, sum_groupCounts]
  · refine ⟨?_, fun o => ?_, ⟨r, span, hr, ?_, hnone, htext⟩, ?_⟩
    · exact (congrArg Table.rows hseg).trans hrows
    · refine (hobj o).trans (congrArg (fun k => (d.objects.get o).map (withoutRefs k)) ?_)
      split
      · rfl
      · rename_i ho
        exact (List.count_eq_zero.mpr fun hm => ho (List.mem_dedup.mpr hm)).symm
    · show v₂.flows.put _ = d.flows.put _
      rw [hv₂]
    · simp only [v₃]
      rw [hv₂]
      rfl

theorem run_deleteEmpty {r : FlowRow} (hr : d.flows.get q.flowId = some r) (hro : r.readOnly = false)
    (hq : queryBounds q.timerange = .ok none) : (deleteSegmentsByTimerange q).run t d = (.ok {}, d) := by
  rw [deleteSegmentsByTimerange, run_inTx, deleteBody, deleteQueried, hq]
  simp [getFlowForSegmentWrite, stmt, bind_eq, Prog.bind, exec, Conn.view, checkGuard, hr, hro]

theorem deleteBody_within (hq : queryBounds q.timerange = .ok (some (lo, hi))) :
    deleteBody q = (do
      let guard ← getFlowForSegmentWrite q.flowId
      checkGuard "DeleteSegmentsByTimerange" guard
      deleteWithin q lo hi) := by
  rw [deleteBody, deleteQueried, hq]

theorem commits_deleteBody (hq : queryBounds q.timerange = .ok (some (lo, hi))) : (deleteBody q).Commits := by
  rw [deleteBody_within hq]
  exact (flat_stmt ..).bind_commits fun g => (flat_checkGuard _ g).bind_commits fun _ => commits_deleteWithin q lo hi

theorem run_deleteWithin {r : FlowRow} (hr : d.flows.get q.flowId = some r) (hro : r.readOnly = false)
    (hq : queryBounds q.timerange = .ok (some (lo, hi))) {a : DeleteResult} {d' : DB}
    (h : (deleteWithin q lo hi).eval t d = .ok (a, d')) : (deleteSegmentsByTimerange q).run t d = (.ok a, d') := by
  rw [deleteSegmentsByTimerange, run_inTx_ok (commits_deleteBody hq), deleteBody_within hq, eval_guard_writable hr hro]
  exact h

/-- Whatever the rows are, a delete changes nothing or ends by writing the span of the rows it left. -/
theorem deleteSegmentsByTimerange_cases (q : DeleteQuery) (t : Time) (d : DB) :
    ((deleteSegmentsByTimerange q).run t d).2 = d ∨
      ∃ r span v, d.flows.get q.flowId = some r ∧ v.flows = d.flows ∧
        renderSpan (spanRows v q.flowId).1 (spanRows v q.flowId).2 = .ok span ∧
        ((deleteSegmentsByTimerange q).run t d).2 =
          v.write (.putFlow { r with segmentsUpdated := some t, timerange := span }) := by
  have hpure : (deleteQueried q).Keeps (· = d) → ((deleteSegmentsByTimerange q).run t d).2 = d := fun hk =>
    (keeps_inTx (J := (· = d)) ((keeps_stmt fun _ _ h => h).bind fun g => (keeps_checkGuard _ g).bind fun _ => hk)).run t rfl
  unfold deleteQueried at hpure
  cases hq : queryBounds q.timerange with
  | error e => exact Or.inl (hpure (by rw [hq]; trivial))
  | ok bounds =>
    rcases bounds with _ | ⟨lo, hi⟩
    · exact Or.inl (hpure (by rw [hq]; trivial))
    cases he : (deleteBody q).eval t d with
    | error e => exact Or.inl (by rw [deleteSegmentsByTimerange, run_inTx_of_error (commits_deleteBody hq) he])
    | ok x =>
      obtain ⟨a, d'⟩ := x
      have hrun : (deleteSegmentsByTimerange q).run t d = (.ok a, d') := (run_inTx_ok (commits_deleteBody hq)).mpr he
      rw [deleteBody_within hq] at he
      obtain ⟨⟨r, hr, -⟩, k⟩ := eval_guard.mp he
      obtain ⟨xs, v₁, h₁, k₁⟩ := eval_bind_ok.mp k
      obtain ⟨_, v₂, h₂, k₂⟩ := eval_bind_ok.mp k₁
      obtain ⟨_, v₃, h₃, k₃⟩ := eval_bind_ok.mp k₂
      cases k₃
      have hv₁ : v₁.flows = d.flows := by
        rw [deleteRows, eval_stmt, writeAll_delSegment] at h₁
        cases h₁
        rfl
      have hv₂ : v₂.flows = d.flows :=
        (keeps_forEach (J := fun v => v.flows = d.flows)
          (fun _ _ => keeps_subRefCount (fun _ _ _ _ h => h) ..) _ _).eval h₂ hv₁
      obtain ⟨span, hspan, rfl⟩ := (eval_refreshFlowTimerange (hv₂ ▸ hr)).mp h₃
      exact Or.inr ⟨r, span, v₂, hr, hv₂, hspan, by rw [hrun]⟩

theorem Deleted.segmentInv {d' : DB} (h : Deleted q t d d') (hinv : SegmentInv SegmentRow.Canonical d) :
    SegmentInv SegmentRow.Canonical d' :=
  hinv.of_sublist (h.segments ▸ List.filter_sublist)

theorem Deleted.covered {d' : DB} (h : Deleted q t d d') : d'.covered q = [] := by
  refine covered_eq_nil.mpr fun r hr => ?_
  rw [h.segments, DB.remaining, List.mem_filter] at hr
  simpa using hr.2

theorem Deleted.writable {d' : DB} (h : Deleted q t d d') (hw : Writable q.flowId d) : Writable q.flowId d' := by
  obtain ⟨r, hr, hro⟩ := writable_iff.mp hw
  obtain ⟨r', span, hr', hput, -⟩ := h.flow
  cases hr.symm.trans hr'
  have hid : r.id = q.flowId := Table.key_of_get hr
  refine writable_iff.mpr ⟨{ r with segmentsUpdated := some t, timerange := span }, ?_, hro⟩
  rw [hput, ← hid]
  exact Table.get_put_self d.flows { r with segmentsUpdated := some t, timerange := span }

theorem deleteSegmentsByTimerange_run (hinv : SegmentInv SegmentRow.Canonical d)
    (hw : Writable q.flowId d) (hwf : q.timerange.Wf)
    (hb : q.timerange.denote = ∅ ∨ q.timerange.FitsInt64) (hroom : HasRoom q d) :
    ∃ d', (deleteSegmentsByTimerange q).run t d = (.ok ⟨(d.covered q).length⟩, d') ∧
      (q.timerange.denote = ∅ ∧ d' = d ∧ d.covered q = [] ∨ q.timerange.denote ≠ ∅ ∧ Deleted q t d d') := by
  obtain ⟨r, hr, hro⟩ := writable_iff.mp hw
  rcases queryBounds_ok hwf hb with ⟨hem, hq⟩ | ⟨lo, hi, hq, hset, hne⟩
  · have hnone : d.covered q = [] := by
      refine covered_eq_nil.mpr fun x hx hc => ?_
      have hlt := Int64.lt_iff_toInt_lt.mp (hinv.rows x hx).nonempty
      have : x.lowerNs.toInt ∈ q.timerange.denote := hc.within ⟨le_rfl, hlt⟩
      rw [hem] at this
      exact this
    exact ⟨d, by rw [run_deleteEmpty hr hro hq, hnone]; rfl, Or.inl ⟨hem, rfl, hnone⟩⟩
  · obtain ⟨d', heval, hdel⟩ := eval_deleteWithin (t := t) hinv hr hset hroom
    exact ⟨d', run_deleteWithin hr hro hq heval, Or.inr ⟨hne, hdel⟩⟩

end

/-- **Delete by timerange is exact.** From a state whose segments are canonical and apart, a delete of
a flow that can be written succeeds and counts the rows it covers; an empty range changes nothing, and
any other leaves exactly the rest. Repeated at once it removes nothing. -/
theorem deleteSegmentsByTimerange_exact {d : DB} {q : DeleteQuery} {text : Str}
    (hinv : SegmentInv SegmentRow.Canonical d) (hw : Writable q.flowId d) (hp : parse text = .ok q.timerange)
    (hb : q.timerange.denote = ∅ ∨ q.timerange.FitsInt64) (hroom : HasRoom q d) (t t' : Time) :
    ∃ d', (deleteSegmentsByTimerange q).run t d = (.ok ⟨(d.covered q).length⟩, d') ∧
      (q.timerange.denote = ∅ ∧ d' = d ∧ d.covered q = [] ∨ q.timerange.denote ≠ ∅ ∧ Deleted q t d d') ∧
      ∃ d'', (deleteSegmentsByTimerange q).run t' d' = (.ok ⟨0⟩, d'') ∧ d''.segments.rows = d'.segments.rows ∧
        ∀ o, d''.objects.get o = d'.objects.get o := by
  have hwf := (parse_text hp).1
  obtain ⟨d', hrun, hout⟩ := deleteSegmentsByTimerange_run (t := t) hinv hw hwf hb hroom
  refine ⟨d', hrun, hout, ?_⟩
  rcases hout with ⟨hem, rfl, hnone⟩ | ⟨hne, hdel⟩
  · obtain ⟨d'', hrun', h | h⟩ := deleteSegmentsByTimerange_run (t := t') hinv hw hwf hb hroom
    · rw [hnone] at hrun'
      exact ⟨d'', hrun', by rw [h.2.1], fun o => by rw [h.2.1]⟩
    · exact absurd hem h.1
  · have hnone := hdel.covered
    have hroom' : HasRoom q d' := fun o r hr hpos => by
      rw [DB.removedRefs, hnone] at hpos
      cases hpos
    obtain ⟨d'', hrun', h | h⟩ :=
      deleteSegmentsByTimerange_run (t := t') (hdel.segmentInv hinv) (hdel.writable hw) hwf hb hroom'
    · exact absurd h.1 hne
    · rw [hnone] at hrun'
      refine ⟨d'', hrun', ?_, fun o => ?_⟩
      · rw [h.2.segments, DB.remaining]
        exact List.filter_eq_self.mpr fun r hr => by simpa using covered_eq_nil.mp hnone r hr
      · rw [h.2.objects, DB.removedRefs, hnone]
        simp [funext withoutRefs_zero]

/-! ## Room -/

theorem removedRefs_le (d : DB) (q : DeleteQuery) (o : Str) : d.removedRefs q o ≤ (d.segmentsOn o).length := by
  have hsub : ((d.covered q).map (·.objectId)).Sublist (d.segments.rows.map (·.objectId)) :=
    List.filter_sublist.map _
  refine (hsub.count_le o).trans_eq ?_
  rw [List.count, List.countP_map, List.countP_eq_length_filter, DB.segmentsOn]
  exact congrArg List.length (List.filter_congr fun r _ => by
    rw [Bool.eq_iff_iff, Function.comp, beq_iff_eq, decide_eq_true_iff])

/-- Where the counts are exact and fit their column, every delete has room. -/
theorem RefExact.hasRoom {d : DB} (h : RefExact d) (hfit : ∀ r ∈ d.objects.rows, fitsInt4 r.refCount = true)
    (q : DeleteQuery) : HasRoom q d := by
  intro o r hr _
  have hle := removedRefs_le d q o
  have hcount := h.count o r hr
  have hmax := hfit r (Table.mem_of_get hr)
  simp only [fitsInt4, Bool.and_eq_true, decide_eq_true_eq, DB.refs] at hcount hmax ⊢
  omega

/-! ## A flow with two segments on one object -/

theorem segmentInv_insertIntoOneFlow {batch : InsertBatch} (h : ∀ seg ∈ batch.segments,
    parse seg.timerangeRaw = .ok seg.timerange ∧ segmentTimerangeViolation seg.timerange = none) :
    SegmentInv SegmentRow.Canonical ((insertSegments {} id batch).run 1 oneFlow).2 := by
  have hempty : SegmentInv SegmentRow.Canonical oneFlow := segmentInv_empty.of_eq (by decide +kernel)
  exact insertSegments_apart hempty fun seg hs b hb => rowsHave_canonical (h seg hs).1 (h seg hs).2 hb _

def sharedStore : DB := ((insertSegments {} id sharedBatch).run 1 oneFlow).2

theorem sharedStore_segmentInv : SegmentInv SegmentRow.Canonical sharedStore :=
  segmentInv_insertIntoOneFlow (by decide +kernel)

def firstSecond : DeleteQuery := { flowId := 1, timerange := ⟨some ⟨0, 0⟩, .inclusive, some ⟨1, 0⟩, .inclusive⟩ }

theorem firstSecond_deleted :
    ∃ d', (deleteSegmentsByTimerange firstSecond).run 2 sharedStore = (.ok ⟨1⟩, d') ∧
      Deleted firstSecond 2 sharedStore d' := by
  have hrefs : RefExact sharedStore :=
    call_refs (c := {}) (.insertSegments id sharedBatch) 1 oneFlow
      (call_refs (c := {}) (.upsertFlow sampleFlow) 0 DB.empty refExact_empty trivial) trivial
  have hfits : firstSecond.timerange.FitsInt64 :=
    ⟨fun s hs => (by cases hs; decide), fun e he => (by cases he; decide)⟩
  have hparse : parse (lit "[0:0_1:0]") = .ok firstSecond.timerange := by decide +kernel
  obtain ⟨d', hrun, hout, -⟩ := deleteSegmentsByTimerange_exact sharedStore_segmentInv (by decide +kernel) hparse
    (Or.inr hfits) (hrefs.hasRoom (by decide +kernel) firstSecond) 2 3
  have hone : ((deleteSegmentsByTimerange firstSecond).run 2 sharedStore).1 = .ok ⟨1⟩ := by decide +kernel
  rw [hrun] at hone
  refine ⟨d', hrun.trans (congrArg (·, d') hone), ?_⟩
  rcases hout with ⟨-, -, hnone⟩ | ⟨-, hdel⟩
  · rw [hnone] at hone
    cases hone
  · exact hdel

def lowCount : DB := sharedStore.write (.putObject ⟨lit "o", -2147483648, some (lit "default"), false⟩)

theorem lowCount_refused :
    SegmentInv SegmentRow.Canonical lowCount ∧ Writable 1 lowCount ∧
    parse (lit "_") = .ok ⟨none, .unbounded, none, .unbounded⟩ ∧
    (deleteSegmentsByTimerange { flowId := 1, timerange := ⟨none, .unbounded, none, .unbounded⟩ }).run 2 lowCount =
      (.error (.wrap [.text "metastore: DeleteSegmentsByTimerange: decrement ref_count: "] (.sql .outOfRange)),
        lowCount) :=
  ⟨sharedStore_segmentInv.of_eq rfl, by decide +kernel, by decide +kernel, by decide +kernel⟩

end OpenTams
