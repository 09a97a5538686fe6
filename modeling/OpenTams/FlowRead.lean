import OpenTams.DeleteSound
import OpenTams.Intersect
import OpenTams.Listing

/-!
# Reading a flow

`GetFlow` and `GetFlowTimerange` of `internal/metastore` and `GetFlow` of
`internal/service/flow`: the record with its tags and its collection, and on
request the span of the flow's segments, cut to a filter range.
-/

namespace OpenTams

open Sql Sql.Prog

/-! ## The store -/

structure StoredFlow where
  row : FlowRow
  tags : List (Str × Json)
  collection : List CollectionItem
  deriving DecidableEq

def CollectionRow.key (r : CollectionRow) : ℤ ×ₗ ℕ := toLex (r.sortOrder, r.itemId.toNat)

def scanItem (r : CollectionRow) : CollectionItem := ⟨r.itemId, r.role, r.containerMapping.getD []⟩

def collectionItems (v : DB) (id : Uuid) : List CollectionItem :=
  (orderBy CollectionRow.key false (v.collectionOf id)).map scanItem

def loadCollection (id : Uuid) : Option ListedFlow → Tx StoredFlow
  | none => .fail (notFound "flow not found")
  | some f => .query .getFlowCollection (failed "metastore: GetFlow: collection: ")
      fun v => ⟨f.row, f.tags, collectionItems v id⟩

def getFlow (id : Uuid) : Tx StoredFlow := do
  let f ← .query .getFlow (failed "metastore: GetFlow: ") fun v => (v.flows.get id).map (listedFlow v)
  loadCollection id f

def getFlowTimerange (id : Uuid) : Tx (Option Str) := flowSpan [.text "metastore: GetFlowTimerange: "] id

/-! ## The service -/

namespace FlowService

def setTimerange (f : StoredFlow) (tr : Str) : StoredFlow := { f with row := { f.row with timerange := some tr } }

/-- The computed span, cut to the filter; a flow without segments keeps what was read. -/
def withTimerange (f : StoredFlow) (trFilter : Option TimeRange) : Option Str → Tx StoredFlow
  | none => .ret f
  | some tr => match trFilter with
    | none => .ret (setTimerange f tr)
    | some filter => match parse tr with
      | .error e => .fail (.parse e)
      | .ok computed => match (computed.intersect filter).bind (·.string) with
        | none => .fail .panic
        | some str => .ret (setTimerange f str)

def getFlow (id : Uuid) (includeTimerange : Bool) (trFilter : Option TimeRange) : Tx StoredFlow := do
  let f ← OpenTams.getFlow id
  if includeTimerange then do
    let tr ← getFlowTimerange id
    withTimerange f trFilter tr
  else .ret f

end FlowService

section
variable {d : DB} {id : Uuid} {t : Time} {r : FlowRow}

def storedFlow (d : DB) (r : FlowRow) : StoredFlow :=
  ⟨r, (listedFlow d r).tags, collectionItems d r.id⟩

theorem run_getFlow_bind {α : Type} (hr : d.flows.get id = some r) (k : StoredFlow → Tx α) :
    (OpenTams.getFlow id >>= k).run t d = (k (storedFlow d r)).run t d := by
  have hid : r.id = id := Table.key_of_get hr
  rw [OpenTams.getFlow, bind_eq, bind_eq, bind_assoc, ← bind_eq, run_query_bind, hr]
  subst hid
  exact run_query_bind _ _ _ k

theorem run_service_getFlow (hr : d.flows.get id = some r) :
    (FlowService.getFlow id false none).run t d = (.ok (storedFlow d r), d) := by
  rw [FlowService.getFlow, run_getFlow_bind hr]
  rfl

theorem run_service_getFlow_timerange (hr : d.flows.get id = some r) {span : Option Str}
    (hspan : renderSpan (spanRows d id).1 (spanRows d id).2 = .ok span) (trFilter : Option TimeRange) :
    (FlowService.getFlow id true trFilter).run t d =
      (FlowService.withTimerange (storedFlow d r) trFilter span).run t d := by
  rw [FlowService.getFlow, run_getFlow_bind hr]
  simp only [if_true, getFlowTimerange, flowSpan]
  rw [run_read_bind, hspan]
  rfl

end

/-! ## The extent of a flow -/

def extent (rows : List SegmentRow) : Set ℤ :=
  {n | (∃ r ∈ rows, ∃ a ∈ r.span, a ≤ n) ∧ ∃ r ∈ rows, ∃ b ∈ r.span, n ≤ b}

def filterSet (trFilter : Option TimeRange) : Set ℤ := {n | ∀ tr ∈ trFilter, n ∈ tr.denote}

theorem hull_eq_extent {rows : List SegmentRow} (h : ∀ r ∈ rows, r.lowerNs < r.upperNs) : hull rows = extent rows := by
  ext n
  constructor
  · rintro ⟨r, hr, r', hr', hlo, hhi⟩
    have hlt := Int64.lt_iff_toInt_lt.mp (h r hr)
    have hlt' := Int64.lt_iff_toInt_lt.mp (h r' hr')
    exact ⟨⟨r, hr, _, ⟨le_rfl, hlt⟩, hlo⟩, r', hr', r'.upperNs.toInt - 1, ⟨by omega, by omega⟩, by omega⟩
  · rintro ⟨⟨r, hr, a, ⟨ha, -⟩, han⟩, r', hr', b, ⟨-, hb⟩, hnb⟩
    exact ⟨r, hr, r', hr', ha.trans han, hnb.trans_lt hb⟩

theorem denotes_string {tr : TimeRange} (h : tr.Wf) {text : Str} (ht : tr.string = some text) :
    (∃ tr', parse text = .ok tr' ∧ tr'.denote = tr.denote) ∧ RangeText text tr.denote ∧
      (text = lit "()" ↔ tr.denote = ∅) := by
  obtain ⟨tr', hp, -, hd⟩ := parse_string h ht
  have htext : RangeText text tr.denote := hd ▸ (parse_text hp).2
  refine ⟨⟨tr', hp, hd⟩, htext, htext.eq_empty, fun he => ?_⟩
  rw [TimeRange.string_of_empty h he] at ht
  exact (Option.some.inj ht).symm

/-- **The reported timerange is the true extent**, cut to the filter: of a flow
with segments in a store that meets the segment invariant. -/
theorem getFlow_reports_extent {d : DB} (h : SegmentInv SegmentRow.Canonical d) {id : Uuid} {r : FlowRow}
    (hr : d.flows.get id = some r) (hne : d.segmentsOf id ≠ []) (trFilter : Option TimeRange)
    (hfilter : ∀ tr ∈ trFilter, ∃ s, parse s = .ok tr) (t : Time) :
    ∃ f text, (FlowService.getFlow id true trFilter).run t d = (.ok f, d) ∧ f.row.timerange = some text ∧
      (∃ tr, parse text = .ok tr ∧ tr.denote = filterSet trFilter ∩ extent (d.segmentsOf id)) ∧
      RangeText text (filterSet trFilter ∩ extent (d.segmentsOf id)) ∧
      (text = lit "()" ↔ filterSet trFilter ∩ extent (d.segmentsOf id) = ∅) := by
  have hpos : ∀ r ∈ d.segmentsOf id, r.lowerNs < r.upperNs :=
    fun r hr => (h.rows r (List.mem_filter.mp hr).1).nonempty
  obtain ⟨tr, span, hspan, hwf, hstr, hden⟩ := h.joined hne
  rw [hull_eq_extent hpos] at hden
  rw [run_service_getFlow_timerange hr hspan]
  cases trFilter with
  | none =>
    have hall : filterSet none = Set.univ := by simp [filterSet]
    refine ⟨FlowService.setTimerange (storedFlow d r) span, span, rfl, rfl, ?_⟩
    rw [hall, Set.univ_inter, ← hden]
    exact denotes_string hwf hstr
  | some filter =>
    have hset : filterSet (some filter) = filter.denote := by simp [filterSet]
    obtain ⟨s, hs⟩ := hfilter filter rfl
    obtain ⟨computed, hp, hcwf, hcden⟩ := parse_string hwf hstr
    obtain ⟨res, hres, hrwf, hrden⟩ := TimeRange.intersect_spec hcwf (parse_text hs).1
    obtain ⟨text, htext, -⟩ := TimeRange.string_text hrwf
    refine ⟨FlowService.setTimerange (storedFlow d r) text, text, ?_, rfl, ?_⟩
    · simp only [FlowService.withTimerange, hp, hres, Option.bind_some, htext]
      rfl
    · rw [hset, Set.inter_comm, ← hden, ← hcden, ← hrden]
      exact denotes_string hrwf htext

def afterHalf : TimeRange := ⟨some ⟨0, 500000000⟩, .exclusive, some ⟨9223372036854775807, 0⟩, .inclusive⟩

theorem sharedStore_reports_extent :
    parse (lit "(0:500000000_9223372036854775807:0]") = .ok afterHalf ∧ sharedStore.segmentsOf 1 ≠ [] ∧
    ∃ f, (FlowService.getFlow 1 true (some afterHalf)).run 3 sharedStore = (.ok f, sharedStore) ∧
      f.row.timerange = some (lit "(0:500000000_2:0)") ∧
      RangeText (lit "(0:500000000_2:0)") (filterSet (some afterHalf) ∩ extent (sharedStore.segmentsOf 1)) := by
  have hparse : parse (lit "(0:500000000_9223372036854775807:0]") = .ok afterHalf := by decide +kernel
  have hne : sharedStore.segmentsOf 1 ≠ [] := by decide +kernel
  have hrow : (sharedStore.flows.get 1).isSome := by decide +kernel
  obtain ⟨r, hr⟩ := Option.isSome_iff_exists.mp hrow
  obtain ⟨f, text, hrun, htext, -, hrange, -⟩ :=
    getFlow_reports_extent sharedStore_segmentInv hr hne (some afterHalf)
      (fun tr htr => ⟨_, hparse.trans (congrArg _ (Option.some.inj htr))⟩) 3
  have hval : (((FlowService.getFlow 1 true (some afterHalf)).run 3 sharedStore).1.toOption.bind
      (·.row.timerange)) = some (lit "(0:500000000_2:0)") := by decide +kernel
  rw [hrun] at hval
  cases htext.symm.trans hval
  exact ⟨hparse, hne, f, hrun, htext, hrange⟩

end OpenTams
