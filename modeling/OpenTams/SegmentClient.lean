import Mathlib.Data.Set.Card
import OpenTams.ClientRange
import OpenTams.HeadSegments
import OpenTams.ListedAsSent
import OpenTams.PutFlow

/-!
# The client's listing of segments

`ListSegmentsPage` and `ListAllSegments` of `tools/internal/opentamsclient` against
the server's own handler. A query is a list of names and values; how they are
escaped is left out. The client sends the cursor as `key`, the server reads `page`
and passes over what it does not know.
-/

namespace OpenTams

open Sql

/-! ## Queries -/

abbrev Values := List (Str × Str)

def Values.get (q : Values) (name : String) : Option Str := (q.find? (·.1 = lit name)).map (·.2)

def parseBool (s : Str) : Option Bool :=
  if [lit "1", lit "t", lit "T", lit "TRUE", lit "true", lit "True"].contains s then some true
  else if [lit "0", lit "f", lit "F", lit "FALSE", lit "false", lit "False"].contains s then some false
  else none

/-- An optional query parameter; `none` is a value of the wrong form. -/
def Values.bind {α : Type} (q : Values) (name : String) (read : Str → Option α) : Option (Option α) :=
  match q.get name with
  | none => some none
  | some v => (read v).map some

def bindGetFlowSegments (q : Values) : Option GetFlowSegmentsParams := do
  let objectId ← q.bind "object_id" some
  let timerange ← q.bind "timerange" some
  let reverseOrder ← q.bind "reverse_order" parseBool
  let verboseStorage ← q.bind "verbose_storage" parseBool
  let acceptGetUrls ← q.bind "accept_get_urls" some
  let acceptStorageIds ← q.bind "accept_storage_ids" some
  let presigned ← q.bind "presigned" parseBool
  let includeObjectTimerange ← q.bind "include_object_timerange" parseBool
  let page ← q.bind "page" some
  let limit ← q.bind "limit" parseInt
  some {
    timerange, objectId, reverseOrder, verboseStorage, acceptGetUrls, acceptStorageIds, presigned
    includeObjectTimerange, page, limit }

/-! ## Requests -/

inductive RequestError where
  | http (statusCode : Nat)
  | decode
  deriving DecidableEq

/-- `do`: the test of the status comes before the body is read. -/
def Client.do {α : Type} (statusCode : Nat) (decoded : Except RequestError α) : Except RequestError α :=
  if 300 ≤ statusCode then .error (.http statusCode) else decoded

def Client.segmentsReceived : Except Err GetSegmentsResponse → Except RequestError (List ApiSegment × Str)
  | .ok (.ok body headers) => Client.do 200 (.ok (body, headers.xPagingNextKey.getD []))
  | .ok (.problem status _) => Client.do status (.error .decode)
  | .error e => Client.do (errorHandler e).status (.error .decode)

def Client.pageQuery (timerange cursor : Str) (limit : Int64) : Values :=
  (if timerange = [] then [] else [(lit "timerange", timerange)]) ++
    (if cursor = [] then [] else [(lit "key", cursor)]) ++
    if 0 < limit then [(lit "limit", intStr limit.toInt)] else []

section
variable (s : S3Store) (R : JsonReader) (flowId : Option Uuid) (timerange : Str)

def Client.listSegmentsPage (cursor : Str) (limit : Int64) (t : Time) (d : DB) :
    Except RequestError (List ApiSegment × Str) :=
  match bindGetFlowSegments (Client.pageQuery timerange cursor limit) with
  | none => Client.do 400 (.error .decode)
  | some p => Client.segmentsReceived ((Handler.getFlowSegments s R flowId p).run t d).1

/-- The loop of `ListAllSegments`; `n` requests have been made. `none` is a loop that goes on. -/
def Client.listAllLoop (fetch : ℕ → Str → Except RequestError (List ApiSegment × Str)) :
    ℕ → ℕ → Str → List ApiSegment → Option (Except RequestError (List ApiSegment))
  | 0, _, _, _ => none
  | fuel + 1, n, cursor, all => match fetch n cursor with
    | .error e => some (.error e)
    | .ok (page, next) =>
      if next = [] then some (.ok (all ++ page)) else listAllLoop fetch fuel (n + 1) next (all ++ page)

def defaultPageSize : Int64 := 250

def Client.listAllSegments (pageSize : Int64) (times : ℕ → Time) (d : DB) (fuel : ℕ) :
    Option (Except RequestError (List ApiSegment)) :=
  Client.listAllLoop (fun n cursor => Client.listSegmentsPage s R flowId timerange cursor pageSize (times n) d)
    fuel 0 [] []

end

/-! ## The wire name of the cursor -/

/-- The parameters that the server reads do not depend on the cursor. -/
theorem bind_pageQuery (timerange cursor : Str) (limit : Int64) :
    bindGetFlowSegments (Client.pageQuery timerange cursor limit) = some {
      timerange := if timerange = [] then none else some timerange
      limit := if 0 < limit then some limit else none } := by
  have hlimit : parseInt (intStr limit.toInt) = some limit := parseInt_intStr limit
  unfold Client.pageQuery
  split <;> split <;> split <;>
    simp +decide [bindGetFlowSegments, Values.bind, Values.get, hlimit]

def Client.pageLimit (pageSize : Int64) : ℕ := if pageSize ≤ 0 then 100 else min pageSize.toInt.toNat 1000

def DB.matching (d : DB) (f : Uuid) (range : Option TimeRange) : Set SegmentRow :=
  {r | r ∈ d.segments.rows ∧ r.flowId = f ∧
    ∃ tr, parse r.timerange = .ok tr ∧ ∀ asked, range = some asked → (tr.denote ∩ asked.denote).Nonempty}

def Client.Sent (s : S3Store) (r : SegmentRow) (a : ApiSegment) : Prop :=
  ∃ seg, Shows r seg ∧ a = servedSegment s none seg

/-- The client makes finitely many requests and returns each matching segment once. -/
def Client.ListsAll (s : S3Store) (R : JsonReader) (f : Uuid) (timerange : Str) (range : Option TimeRange)
    (pageSize : Int64) (times : ℕ → Time) (d : DB) : Prop :=
  ∃ fuel all, Client.listAllSegments s R (some f) timerange pageSize times d fuel = some (.ok all) ∧
    ∃ rows : List SegmentRow, rows.Nodup ∧ (∀ r, r ∈ rows ↔ r ∈ d.matching f range) ∧
      List.Forall₂ (Client.Sent s) rows all

section
variable {s : S3Store} {R : JsonReader} {f : Uuid} {timerange : Str} {range : Option TimeRange} {pageSize : Int64}
  {d : DB}

theorem listParams_client (hrange : listTimerange (if timerange = [] then none else some timerange) = .ok range)
    (pageSize : Int64) :
    ∃ limit, listParamsFromAPI {
        timerange := if timerange = [] then none else some timerange
        limit := if 0 < pageSize then some pageSize else none } = .ok { timerange := range, limit } ∧
      listLimit limit = Client.pageLimit pageSize := by
  have hparams (limit : Int64) (h : listLimitParam (if 0 < pageSize then some pageSize else none) = .ok limit) :
      listParamsFromAPI {
        timerange := if timerange = [] then none else some timerange
        limit := if 0 < pageSize then some pageSize else none } = .ok { timerange := range, limit } := by
    rw [listParamsFromAPI]
    dsimp only
    rw [hrange, h]
    rfl
  have hsign : pageSize ≤ 0 ↔ ¬ 0 < pageSize := by
    rw [Int64.le_iff_toInt_le, Int64.lt_iff_toInt_lt]
    exact Int.not_lt.symm
  unfold Client.pageLimit
  by_cases hpos : 0 < pageSize
  · rw [if_neg (fun h => hsign.mp h hpos)]
    by_cases hbig : 1000 < pageSize
    · refine ⟨1000, hparams _ ?_, ?_⟩
      · rw [if_pos hpos, listLimitParam, if_neg (fun h => hsign.mp h hpos), if_pos hbig]
      · rw [Int64.lt_iff_toInt_lt] at hbig
        change (1000 : ℤ) < pageSize.toInt at hbig
        rw [Nat.min_eq_right (by omega)]
        rfl
    · refine ⟨pageSize, hparams _ ?_, ?_⟩
      · rw [if_pos hpos, listLimitParam, if_neg (fun h => hsign.mp h hpos), if_neg hbig]
      · rw [Int64.lt_iff_toInt_lt] at hbig hpos
        change ¬ (1000 : ℤ) < pageSize.toInt at hbig
        change (0 : ℤ) < pageSize.toInt at hpos
        have heq : (listLimit pageSize : ℤ) = pageSize.toInt := listLimit_eq (by omega)
        omega
  · rw [if_pos (hsign.mpr hpos)]
    refine ⟨100, hparams _ ?_, rfl⟩
    rw [if_neg hpos]
    rfl

theorem listTimerange_parsed {text : Option Str} {tr : TimeRange} (h : listTimerange text = .ok range)
    (htr : range = some tr) : ∃ text, parse text = .ok tr := by
  cases text with
  | none =>
    cases h
    cases htr
  | some text =>
    rw [listTimerange] at h
    cases hp : parse text with
    | error e =>
      rw [hp] at h
      cases h
    | ok tr' =>
      rw [hp] at h
      cases h
      cases htr
      exact ⟨text, hp⟩

/-- The first page of the store is what every request is answered with. -/
theorem listSegmentsPage_eq {limit : Int64} (hread : ∀ r ∈ d.segmentsOf f, r.Readable)
    (hparams : listParamsFromAPI {
        timerange := if timerange = [] then none else some timerange
        limit := if 0 < pageSize then some pageSize else none } = .ok { timerange := range, limit })
    (hcheck : SegmentService.checkTimerange range = .ok ()) {page : SegmentPage} {t : Time}
    (hrun : (listSegments R (flowQuery f { timerange := range, limit })).run t d = (.ok page, d)) (cursor : Str) :
    Client.listSegmentsPage s R (some f) timerange cursor pageSize t d =
      .ok (page.items.map (servedSegment s none), page.nextCursor) := by
  obtain ⟨headers, hresp, hkey⟩ := get_of_page (s := s) (c := none) hparams hcheck hread hrun
  have hnext : (optStr page.nextCursor).getD [] = page.nextCursor := by
    unfold optStr
    split
    · rename_i hnil
      exact hnil.symm
    · rfl
  rw [Client.listSegmentsPage, bind_pageQuery]
  dsimp only
  rw [hresp, Client.segmentsReceived, hkey, hnext]
  rfl

theorem matching_iff (q : ListQuery) (hobject : q.objectId = none) {r : SegmentRow} :
    r ∈ d.matching q.flowId q.timerange ↔
      r ∈ d.segments.rows ∧ ∃ tr, parse r.timerange = .ok tr ∧ q.Selects r tr.denote := by
  constructor
  · rintro ⟨hr, hfl, tr, htr, hmeets⟩
    exact ⟨hr, tr, htr, hfl, hmeets, fun o ho => by cases hobject.symm.trans ho⟩
  · rintro ⟨hr, tr, htr, hfl, hmeets, -⟩
    exact ⟨hr, hfl, tr, htr, hmeets⟩

theorem sent_of_shows {rows : List SegmentRow} {items : List Segment} (h : List.Forall₂ Shows rows items) :
    List.Forall₂ (Client.Sent s) rows (items.map (servedSegment s none)) :=
  List.forall₂_map_right_iff.mpr (h.imp fun _ seg hshows => ⟨seg, hshows, rfl⟩)

/-- Every request of the client is answered alike: with all matching segments, or with a page and a cursor. -/
theorem client_page (s : S3Store) (R : JsonReader) (pageSize : Int64) (hinv : SegmentInv SegmentRow.WellStored d)
    (hflow : (d.flows.get f).isSome)
    (hrange : listTimerange (if timerange = [] then none else some timerange) = .ok range)
    (hcheck : SegmentService.checkTimerange range = .ok ()) :
    ∃ body next, (∀ cursor t, Client.listSegmentsPage s R (some f) timerange cursor pageSize t d = .ok (body, next)) ∧
      ∃ rows : List SegmentRow, rows.Nodup ∧ (∀ r, r ∈ rows ↔ r ∈ d.matching f range) ∧
        (next = [] ↔ rows.length ≤ Client.pageLimit pageSize) ∧
        (next = [] → List.Forall₂ (Client.Sent s) rows body) := by
  obtain ⟨limit, hparams, hlimit⟩ := listParams_client hrange pageSize
  obtain ⟨flow, hf⟩ := Option.isSome_iff_exists.mp hflow
  have hcanonical : SegmentInv SegmentRow.Canonical d := ⟨fun r hr => (hinv.rows r hr).canonical, hinv.apart⟩
  have hstored : ∀ r ∈ d.segmentsOf f, r.WellStored := fun r hr => hinv.rows r (List.mem_filter.mp hr).1
  have hread : ∀ r ∈ d.segmentsOf f, r.Readable := fun r hr => (hstored r hr).canonical.readable
  have hscan : ∀ r ∈ d.segmentsOf f, ∃ it, scanSegment r = .ok it := by
    intro r hr
    obtain ⟨_, tr, hparse, -⟩ := hread r hr
    exact scanSegment_some ⟨tr, hparse⟩ (hstored r hr).texts
  have hparsed : (flowQuery f { timerange := range, limit }).Parsed := fun tr htr => listTimerange_parsed hrange htr
  rcases queryBounds_cases (flowQuery f { timerange := range, limit }) with ⟨b, hb⟩ | ⟨tr, htr, hb⟩ | ⟨tr, e, htr, hb⟩
  · obtain ⟨p, last, hp⟩ : ∃ p last, rowPage (flowQuery f { timerange := range, limit }) b none d = (p, last) :=
      ⟨_, _, rfl⟩
    obtain ⟨page, hpage, hrun⟩ := fetch_scannable (R := R) hf hb hscan .start hp
    have hnext : page.nextCursor = [] ↔ last = none := by rw [hpage.next, nextCursor_eq_nil]
    refine ⟨_, _, fun cursor t => listSegmentsPage_eq hread hparams hcheck (hrun t) cursor,
      rowsAfter SegmentRow.key false (listCond (flowQuery f { timerange := range, limit }) b) none (d.segmentsOf f),
      nodup_rowsAfter (keys_nodup d f), fun r => ?_, ?_, fun hlast => ?_⟩
    · exact (mem_selected hcanonical hb hparsed).trans (matching_iff _ rfl).symm
    · rw [hnext, ← hlimit]
      exact pageAfter_last_iff hp
    · rcases pageAfter_eq (listLimit_pos limit) hp with ⟨hall, -⟩ | ⟨_, _, _, _, -, -, -, hsome⟩
      · exact sent_of_shows (hall ▸ hpage.items)
      · cases (hnext.mp hlast).symm.trans hsome
  · have hrun (t : Time) :=
      run_listSegments_empty (R := R) (t := t) (q := flowQuery f { timerange := range, limit }) hf htr hb
    refine ⟨_, _, fun cursor t => listSegmentsPage_eq hread hparams hcheck (hrun t) cursor, [], .nil, fun r => ?_,
      iff_of_true rfl (Nat.zero_le _), fun _ => .nil⟩
    refine ⟨nofun, fun ⟨_, _, _, _, hmeets⟩ => ?_⟩
    obtain ⟨n, -, hn⟩ := hmeets tr htr
    obtain ⟨text, hp⟩ := hparsed tr htr
    rw [(queryBounds_none (parse_text hp).1).mp hb] at hn
    cases hn
  · -- a range that the service has let through has bounds
    change range = some tr at htr
    rw [htr] at hcheck
    rcases queryBounds_of_check hcheck with ⟨-, hok⟩ | ⟨-, b, hok⟩
    · cases hb.symm.trans hok
    · cases hb.symm.trans hok

/-! ## The loop -/

section
variable {fetch : ℕ → Str → Except RequestError (List ApiSegment × Str)} {page : List ApiSegment}

theorem listAllLoop_last (h : ∀ n cursor, fetch n cursor = .ok (page, [])) (fuel n : ℕ) (cursor : Str)
    (all : List ApiSegment) : Client.listAllLoop fetch (fuel + 1) n cursor all = some (.ok (all ++ page)) := by
  rw [Client.listAllLoop, h]
  rfl

/-- A loop that is sent the same page with a key goes on. -/
theorem listAllLoop_forever {next : Str} (h : ∀ n cursor, fetch n cursor = .ok (page, next)) (hnext : next ≠ [])
    (fuel n : ℕ) (cursor : Str) (all : List ApiSegment) : Client.listAllLoop fetch fuel n cursor all = none := by
  induction fuel generalizing n cursor all with
  | zero => rfl
  | succ fuel ih =>
    rw [Client.listAllLoop, h]
    dsimp only
    rw [if_neg hnext, ih]

theorem listAllLoop_error (h : ∀ n cursor x, fetch n cursor ≠ .ok x) (fuel n : ℕ) (cursor : Str)
    (all found : List ApiSegment) : Client.listAllLoop fetch fuel n cursor all ≠ some (.ok found) := by
  cases fuel with
  | zero => nofun
  | succ fuel =>
    rw [Client.listAllLoop]
    cases hf : fetch n cursor with
    | error e => nofun
    | ok x => exact absurd hf (h n cursor x)

end

theorem segmentsReceived_ok {resp : Except Err GetSegmentsResponse} {x : List ApiSegment × Str}
    (h : Client.segmentsReceived resp = .ok x) : ∃ body headers, resp = .ok (.ok body headers) := by
  unfold Client.segmentsReceived at h
  split at h
  · exact ⟨_, _, rfl⟩
  · unfold Client.do at h
    split at h <;> cases h
  · unfold Client.do at h
    split at h <;> cases h

/-- A range that the service refuses is refused for every key. -/
theorem listSegmentsPage_refused (hrange : listTimerange (if timerange = [] then none else some timerange) = .ok range)
    (hcheck : SegmentService.checkTimerange range ≠ .ok ()) (cursor : Str) (t : Time) (x : List ApiSegment × Str) :
    Client.listSegmentsPage s R (some f) timerange cursor pageSize t d ≠ .ok x := by
  intro h
  rw [Client.listSegmentsPage, bind_pageQuery] at h
  obtain ⟨limit, hparams, -⟩ := listParams_client hrange pageSize
  obtain ⟨body, headers, hresp⟩ := segmentsReceived_ok h
  exact hcheck ((get_ok_iff hparams).mp hresp).1

theorem ncard_matching {rows : List SegmentRow} (hnodup : rows.Nodup) (hmem : ∀ r, r ∈ rows ↔ r ∈ d.matching f range) :
    (d.matching f range).ncard = rows.length := by
  have hset : d.matching f range = ↑rows.toFinset := by
    ext r
    rw [List.coe_toFinset]
    exact (hmem r).symm
  rw [hset, Set.ncard_coe_finset, List.toFinset_card_of_nodup hnodup]

/-- **The listing of the client ends with every matching segment exactly if they are on one page.** -/
theorem listAllSegments_iff (hinv : SegmentInv SegmentRow.WellStored d) (hflow : (d.flows.get f).isSome)
    (hrange : listTimerange (if timerange = [] then none else some timerange) = .ok range) (pageSize : Int64)
    (times : ℕ → Time) :
    Client.ListsAll s R f timerange range pageSize times d ↔
      SegmentService.checkTimerange range = .ok () ∧ (d.matching f range).ncard ≤ Client.pageLimit pageSize := by
  by_cases hcheck : SegmentService.checkTimerange range = .ok ()
  · obtain ⟨body, next, hpage, rows, hnodup, hmem, hnext, hsent⟩ :=
      client_page s R pageSize hinv hflow hrange hcheck
    rw [ncard_matching hnodup hmem, ← hnext]
    constructor
    · rintro ⟨fuel, all, hlist, -⟩
      refine ⟨hcheck, ?_⟩
      by_contra hne
      cases (listAllLoop_forever (fun n cursor => hpage cursor (times n)) hne fuel 0 [] []).symm.trans hlist
    · rintro ⟨-, rfl⟩
      exact ⟨1, body, listAllLoop_last (fun n cursor => hpage cursor (times n)) 0 0 [] [], rows, hnodup, hmem, hsent rfl⟩
  · refine iff_of_false ?_ fun h => hcheck h.1
    rintro ⟨fuel, all, hlist, -⟩
    exact listAllLoop_error (fun n cursor => listSegmentsPage_refused hrange hcheck cursor (times n)) fuel 0 [] [] all
      hlist

theorem matching_finite (d : DB) (f : Uuid) (range : Option TimeRange) :
    (d.matching f range).ncard ≤ d.segments.rows.length := by
  have hsub : d.matching f range ⊆ ↑d.segments.rows.toFinset := by
    rw [List.coe_toFinset]
    exact fun r hr => hr.1
  refine (Set.ncard_le_ncard hsub (Finset.finite_toSet _)).trans ?_
  rw [Set.ncard_coe_finset]
  exact List.toFinset_card_le _

theorem sharedStore_wellStored : SegmentInv SegmentRow.WellStored sharedStore := by
  have htexts : ∀ r ∈ sharedStore.segments.rows, r.tsOffset = [] ∧ r.objectTimerange = none ∧ r.lastDuration = none := by
    decide +kernel
  exact ⟨fun r hr => ⟨sharedStore_segmentInv.rows r hr, textsParse_of_absent (htexts r hr)⟩, sharedStore_segmentInv.apart⟩

theorem sharedStore_listsAll :
    SegmentInv SegmentRow.WellStored sharedStore ∧ (sharedStore.flows.get 1).isSome ∧
    Client.ListsAll plainStore canonicalReader 1 [] none defaultPageSize (fun _ => 2) sharedStore := by
  have hflow : (sharedStore.flows.get 1).isSome := by decide +kernel
  refine ⟨sharedStore_wellStored, hflow, ?_⟩
  refine (listAllSegments_iff sharedStore_wellStored hflow rfl defaultPageSize _).mpr ⟨rfl, ?_⟩
  exact (matching_finite sharedStore 1 none).trans (by decide +kernel)

end

/-! ## One segment more than a page -/

def secondRow (i : ℕ) : SegmentRow where
  id := i
  flowId := 1
  objectId := lit "o"
  timerange := (halfOpenRange (Int64.ofNat (i * 1000000000)) (Int64.ofNat ((i + 1) * 1000000000))).getD []
  lowerNs := Int64.ofNat (i * 1000000000)
  upperNs := Int64.ofNat ((i + 1) * 1000000000)
  tsOffset := []
  objectTimerange := none
  lastDuration := none
  keyFrameCount := none
  sampleOffset := none
  sampleCount := none
  getUrls := none
  createdAt := 0

section
variable {i n : ℕ}

theorem toInt_seconds (h : i ≤ 1000000) : (Int64.ofNat (i * 1000000000)).toInt = i * 1000000000 := by
  rw [Int64.toInt_ofNat_of_lt (by omega)]
  push_cast
  rfl

theorem secondRow_wellStored (h : i < 1000000) : (secondRow i).WellStored := by
  have hlt : (secondRow i).lowerNs < (secondRow i).upperNs := by
    rw [secondRow, Int64.lt_iff_toInt_lt, toInt_seconds (by omega), toInt_seconds (by omega)]
    omega
  obtain ⟨text, htext, hp⟩ := halfOpenRange_parse hlt
  have hraw : (secondRow i).timerange = text := congrArg (·.getD []) htext
  have hspan := denote_offsetTimestamp (secondRow i).lowerNs (secondRow i).upperNs
  refine ⟨⟨hlt, ?_, _, _, _, hraw ▸ hp, hspan.symm⟩, textsParse_of_absent ⟨rfl, rfl, rfl⟩⟩
  rw [hraw, SegmentRow.span, ← hspan]
  exact (parse_text hp).2

theorem secondRows_disjoint {j : ℕ} (hij : i < j) (h : j < 1000000) : Disjoint (secondRow i).span (secondRow j).span := by
  rw [Set.disjoint_left]
  rintro x ⟨-, hi⟩ ⟨hj, -⟩
  rw [secondRow, toInt_seconds (by omega)] at hi
  rw [secondRow, toInt_seconds (by omega)] at hj
  push_cast at hi
  omega

end

def secondsStore (n : ℕ) : DB :=
  { oneFlow with
    objects := ⟨[⟨lit "o", n, some (lit "default"), false⟩], List.nodup_singleton _⟩
    segments := ⟨(List.range n).map secondRow, by
      rw [List.map_map]
      exact List.nodup_range.map fun _ _ h => h⟩ }

theorem secondsStore_wellStored {n : ℕ} (h : n ≤ 1000000) : SegmentInv SegmentRow.WellStored (secondsStore n) where
  rows r hr := by
    obtain ⟨i, hi, rfl⟩ := List.mem_map.mp hr
    exact secondRow_wellStored (by have := List.mem_range.mp hi; omega)
  apart := by
    refine List.pairwise_map.mpr (List.pairwise_lt_range.imp_of_mem ?_)
    intro i j _ hj hij _
    have := List.mem_range.mp hj
    exact secondRows_disjoint hij (by omega)

theorem ncard_secondsStore {n : ℕ} (h : n ≤ 1000000) : ((secondsStore n).matching 1 none).ncard = n := by
  have hmem (r : SegmentRow) : r ∈ (List.range n).map secondRow ↔ r ∈ (secondsStore n).matching 1 none := by
    refine ⟨fun hr => ?_, And.left⟩
    obtain ⟨s, e, ety, hp, -⟩ := ((secondsStore_wellStored h).rows r hr).canonical.bounded
    obtain ⟨i, -, rfl⟩ := List.mem_map.mp hr
    exact ⟨hr, rfl, _, hp, nofun⟩
  rw [ncard_matching (.of_map _ (secondsStore n).segments.nodup) hmem]
  exact List.length_map _ |>.trans List.length_range

/-- With one segment more than the page size of the client, the first page is requested forever. -/
theorem secondsStore_forever :
    SegmentInv SegmentRow.WellStored (secondsStore 251) ∧ ((secondsStore 251).flows.get 1).isSome ∧
    ((secondsStore 251).matching 1 none).ncard = 251 ∧
    ∀ fuel, Client.listAllSegments plainStore canonicalReader (some 1) [] defaultPageSize (fun _ => 2) (secondsStore 251)
      fuel = none := by
  have hinv := secondsStore_wellStored (n := 251) (by decide)
  have hflow : ((secondsStore 251).flows.get 1).isSome := by decide +kernel
  refine ⟨hinv, hflow, ncard_secondsStore (by decide), fun fuel => ?_⟩
  obtain ⟨body, next, hpage, rows, hnodup, hmem, hnext, -⟩ := client_page plainStore canonicalReader
    defaultPageSize hinv hflow (show listTimerange (if ([] : Str) = [] then none else some []) = .ok none from rfl) rfl
  rw [← ncard_matching hnodup hmem, ncard_secondsStore (by decide)] at hnext
  exact listAllLoop_forever (fun n cursor => hpage cursor 2) (fun h => absurd (hnext.mp h) (by decide)) fuel 0 [] []

end OpenTams
