import OpenTams.DeleteSound
import OpenTams.Fallible
import OpenTams.Listing

/-!
# What a walk of ListSegments returns

A walk fetches page after page, each with the cursor of the one before, until
there is no cursor. Every fetch reads the state there is then. Whatever happens
between the fetches, the rows come in the order of the walk and none comes
twice, and a row that matches all along is not missed; over one state the pages
are the matching rows.
-/

namespace OpenTams

open Sql Prog Fallible

/-! ## Rows as they are listed -/

structure Shows (r : SegmentRow) (s : Segment) : Prop where
  flowId : s.flowId = r.flowId
  objectId : s.objectId = r.objectId
  timerange : parse r.timerange = .ok s.timerange
  tsOffset : (nullIfEmpty r.tsOffset).map parseTimestamp = s.tsOffset.map .ok
  objectTimerange : r.objectTimerange.map parse = s.objectTimerange.map .ok
  lastDuration : r.lastDuration.map parseTimestamp = s.lastDuration.map .ok
  raw : s.timerangeRaw = r.timerange ∧ s.tsOffsetRaw = r.tsOffset ∧
    s.objectTimerangeRaw = r.objectTimerange.getD [] ∧ s.lastDurationRaw = r.lastDuration.getD []
  counts : s.keyFrameCount = r.keyFrameCount ∧ s.sampleOffset = r.sampleOffset ∧ s.sampleCount = r.sampleCount
  getUrls : s.getUrls = r.getUrls.getD []

structure Scanned (r : SegmentRow) (it : SegmentItem) : Prop where
  seg : Shows r it.seg
  lowerNs : it.lowerNs = r.lowerNs
  upperNs : it.upperNs = r.upperNs
  segId : it.segId = Int64.ofNat r.id

structure SegmentRow.TextsParse (r : SegmentRow) : Prop where
  tsOffset : ∀ s, nullIfEmpty r.tsOffset = some s → ∃ ts, parseTimestamp s = .ok ts
  objectTimerange : ∀ s, r.objectTimerange = some s → ∃ tr, parse s = .ok tr
  lastDuration : ∀ s, r.lastDuration = some s → ∃ ts, parseTimestamp s = .ok ts

theorem scanText_ok {α : Type} {what : String} {f : Str → Except ParseError α} {s : Str} {a : α} :
    scanText what f s = .ok a ↔ f s = .ok a := mapError_ok

theorem scanOptional_ok {α : Type} {what : String} {f : Str → Except ParseError α} {o : Option Str} {a : Option α} :
    scanOptional what f o = .ok a ↔ o.map f = a.map .ok :=
  optional_ok (F := scanOptional what f) rfl fun _ => rfl

theorem scanOptional_some {α : Type} (what : String) {f : Str → Except ParseError α} {o : Option Str}
    (h : ∀ s, o = some s → ∃ a, f s = .ok a) : ∃ a, scanOptional what f o = .ok a := by
  cases o with
  | none => exact ⟨none, rfl⟩
  | some s =>
    obtain ⟨a, ha⟩ := h s rfl
    exact ⟨some a, scanOptional_ok.mpr (congrArg some ha)⟩

theorem scanSegment_ok {r : SegmentRow} {it : SegmentItem} (h : scanSegment r = .ok it) : Scanned r it := by
  obtain ⟨tr, htr, h⟩ := bind_ok.mp h
  obtain ⟨ts, hts, h⟩ := bind_ok.mp h
  obtain ⟨otr, hotr, h⟩ := bind_ok.mp h
  obtain ⟨dur, hdur, h⟩ := bind_ok.mp h
  cases h
  exact ⟨⟨rfl, rfl, scanText_ok.mp htr, scanOptional_ok.mp hts, scanOptional_ok.mp hotr, scanOptional_ok.mp hdur,
    ⟨rfl, rfl, rfl, rfl⟩, ⟨rfl, rfl, rfl⟩, rfl⟩, rfl, rfl, rfl⟩

theorem scanSegment_some {r : SegmentRow} (hp : ∃ tr, parse r.timerange = .ok tr) (ht : r.TextsParse) :
    ∃ it, scanSegment r = .ok it := by
  obtain ⟨tr, htr⟩ := hp
  obtain ⟨ts, hts⟩ := scanOptional_some "ts_offset" ht.tsOffset
  obtain ⟨otr, hotr⟩ := scanOptional_some "object_timerange" ht.objectTimerange
  obtain ⟨dur, hdur⟩ := scanOptional_some "last_duration" ht.lastDuration
  exact ⟨_, bind_ok.mpr ⟨tr, scanText_ok.mpr htr, bind_ok.mpr ⟨ts, hts, bind_ok.mpr ⟨otr, hotr,
    bind_ok.mpr ⟨dur, hdur, rfl⟩⟩⟩⟩⟩

/-! ## The rows a query selects -/

/-- The row is the query's flow's and object's, and `S` shares a nanosecond with the query range. -/
structure ListQuery.Selects (q : ListQuery) (r : SegmentRow) (S : Set ℤ) : Prop where
  flow : r.flowId = q.flowId
  meets : ∀ tr, q.timerange = some tr → (S ∩ tr.denote).Nonempty
  object : ∀ o, q.objectId = some o → r.objectId = o

def ListQuery.Parsed (q : ListQuery) : Prop := ∀ tr, q.timerange = some tr → ∃ text, parse text = .ok tr

theorem rowOverlaps_eq (lo hi : Option Int64) (r : SegmentRow) :
    rowOverlaps lo hi r = (int8rangeNonempty lo hi && decide (r.lowerNs < r.upperNs) && overlapCond lo hi r) := by
  rw [rowOverlaps, overlapCond, Bool.and_assoc]

theorem overlapCond_of_inter {lo hi : Option Int64} {r : SegmentRow} (h : (r.span ∩ paramSet lo hi).Nonempty) :
    overlapCond lo hi r = true := by
  have := rowOverlaps_iff.mpr h
  rw [rowOverlaps_eq, Bool.and_eq_true] at this
  exact this.2

/-- **The comparison is overlap** on rows and ranges that are not empty. -/
theorem overlapCond_iff {lo hi : Option Int64} {r : SegmentRow} (hne : (paramSet lo hi).Nonempty)
    (hr : r.lowerNs < r.upperNs) : overlapCond lo hi r = true ↔ (r.span ∩ paramSet lo hi).Nonempty := by
  refine ⟨fun h => rowOverlaps_iff.mp ?_, overlapCond_of_inter⟩
  have hrange : int8rangeNonempty lo hi = true := by
    obtain ⟨n, hlo, hhi⟩ := hne
    cases lo with
    | none => rfl
    | some x =>
      cases hi with
      | none => rfl
      | some y =>
        exact decide_eq_true (Int64.lt_iff_toInt_lt.mpr ((hlo x rfl).trans_lt (hhi y rfl)))
  rw [rowOverlaps_eq, hrange, decide_eq_true hr, h]
  rfl

theorem queryBounds_none {tr : TimeRange} (h : tr.Wf) : queryBounds tr = .ok none ↔ tr.denote = ∅ := by
  rw [← TimeRange.isEmpty_iff h, queryBounds]
  split
  · rename_i he
    exact ⟨fun _ => he, fun _ => rfl⟩
  · rename_i he
    refine ⟨fun hb => ?_, fun h => absurd h he⟩
    split at hb <;> cases hb

/-- The bounds the rows are compared with; a query without a range compares none. -/
inductive Filters (q : ListQuery) : Option (Option Int64 × Option Int64) → Prop
  | all : q.timerange = none → Filters q none
  | range {tr b} : q.timerange = some tr → queryBounds tr = .ok (some b) → Filters q (some b)

section
variable {R : JsonReader} {q : ListQuery} {b : Option (Option Int64 × Option Int64)} {d : DB} {r : SegmentRow}

theorem Filters.meets (hb : Filters q b) (hq : q.Parsed) {tr : TimeRange} (htr : q.timerange = some tr) :
    ∃ lo hi, b = some (lo, hi) ∧ paramSet lo hi = tr.denote ∧ tr.denote.Nonempty := by
  cases hb with
  | all hnone => cases hnone.symm.trans htr
  | @range tr' x htr' hx =>
    cases htr'.symm.trans htr
    obtain ⟨text, hp⟩ := hq tr htr
    exact ⟨_, _, rfl, queryBounds_some (parse_text hp).1 hx⟩

theorem listCond_of_selects (hb : Filters q b) (hq : q.Parsed) (h : q.Selects r r.span) : listCond q b r = true := by
  rw [listCond, Bool.and_eq_true]
  constructor
  · cases htr : q.timerange with
    | none =>
      cases hb with
      | all _ => rfl
      | range h _ => cases htr.symm.trans h
    | some tr =>
      obtain ⟨lo, hi, rfl, hset, -⟩ := hb.meets hq htr
      exact overlapCond_of_inter (hset ▸ h.meets tr htr)
  · rw [Option.all_eq_true]
    exact fun o ho => decide_eq_true (h.object o ho)

theorem listCond_iff (hb : Filters q b) (hq : q.Parsed) (hr : r.lowerNs < r.upperNs) :
    r.flowId = q.flowId ∧ listCond q b r = true ↔ q.Selects r r.span := by
  refine ⟨fun ⟨hf, h⟩ => ?_, fun h => ⟨h.flow, listCond_of_selects hb hq h⟩⟩
  rw [listCond, Bool.and_eq_true, Option.all_eq_true, Option.all_eq_true] at h
  refine ⟨hf, fun tr htr => ?_, fun o ho => of_decide_eq_true (h.2 o ho)⟩
  obtain ⟨lo, hi, rfl, hset, hne⟩ := hb.meets hq htr
  rw [← hset] at hne ⊢
  exact (overlapCond_iff hne hr).mp (h.1 _ rfl)

/-! ## One fetch -/

def cursorKey (c : Int64 × Int64) : ℤ ×ₗ ℤ := toLex (c.1.toInt, c.2.toInt)

inductive CursorFor : Str → Option (Int64 × Int64) → Prop
  | start : CursorFor [] none
  | after (lowerNs segId : Int64) : CursorFor (encodeSegCursor lowerNs segId) (some (lowerNs, segId))

/-- Row ids are those of a `BIGSERIAL` column. -/
def DB.IdsFit (d : DB) : Prop := ∀ r ∈ d.segments.rows, r.id < 2 ^ 63

instance (d : DB) : Decidable d.IdsFit := inferInstanceAs (Decidable (∀ r ∈ d.segments.rows, r.id < 2 ^ 63))

def nextCursor : Option SegmentRow → Str
  | none => []
  | some r => encodeSegCursor r.lowerNs (Int64.ofNat r.id)

structure PageOf (p : List SegmentRow) (last : Option SegmentRow) (page : SegmentPage) : Prop where
  items : List.Forall₂ Shows p page.items
  next : page.nextCursor = nextCursor last

theorem nextCursor_eq_nil {last : Option SegmentRow} : nextCursor last = [] ↔ last = none := by
  cases last with
  | none => simp [nextCursor]
  | some r => simp [nextCursor, encodeSegCursor_ne_nil]

theorem cursorKey_row {r : SegmentRow} (h : r.id < 2 ^ 63) : cursorKey (r.lowerNs, Int64.ofNat r.id) = r.key := by
  rw [cursorKey, SegmentRow.key, Int64.toInt_ofNat_of_lt h]

theorem listLimit_pos (limit : Int64) : 0 < listLimit limit := by
  unfold listLimit
  split
  · decide
  · rename_i h
    simp only [Bool.or_eq_true, decide_eq_true_eq, not_or, Int64.le_iff_toInt_le, not_le] at h
    have := h.1
    change 0 < limit.toInt at this
    omega

theorem run_fetchSegments {k : Option (Int64 × Int64)} {t : Time} :
    (fetchSegments q b k).run t d =
      (((listRows q b k d).mapM scanSegment).map (segmentPage (listLimit q.limit)), d) := by
  unfold fetchSegments Prog.run
  simp only [stmtE, exec, Conn.view]
  cases ((listRows q b k d).mapM scanSegment).map (segmentPage (listLimit q.limit)) <;> rfl

theorem run_listSegments_absent {t : Time} (hf : d.flows.get q.flowId = none) :
    (listSegments R q).run t d =
      (.error (.wrap [.text "metastore: ListSegments: flow ", .uuid q.flowId, .text ": "]
        (.sentinel .flowNotFound)), d) := by
  simp [listSegments, getFlowForSegmentRead, Prog.run, query, stmt, bind_eq, Prog.bind, exec, Conn.view, hf]

theorem run_listSegments_present {t : Time} {f : FlowRow} (hf : d.flows.get q.flowId = some f) :
    (listSegments R q).run t d = (match q.timerange with
      | none => listFiltered R q none
      | some tr => match queryBounds tr with
        | .error e => .fail (.wrap [.text "metastore: ListSegments: timerange: "] (.bounds e))
        | .ok none => .ret { effectiveLimit := listLimit q.limit }
        | .ok (some b) => listFiltered R q (some b)).run t d := by
  simp only [listSegments, getFlowForSegmentRead, Prog.run, query, stmt, bind_eq, Prog.bind, exec, Conn.view, hf]
  rfl

theorem present_of_listed {t : Time} {page : SegmentPage} (h : (listSegments R q).run t d = (.ok page, d)) :
    ∃ f, d.flows.get q.flowId = some f := by
  cases hf : d.flows.get q.flowId with
  | some f => exact ⟨f, rfl⟩
  | none =>
    rw [run_listSegments_absent hf] at h
    cases h

theorem run_listSegments_empty {t : Time} {f : FlowRow} (hf : d.flows.get q.flowId = some f) {tr : TimeRange}
    (htr : q.timerange = some tr) (hb : queryBounds tr = .ok none) :
    (listSegments R q).run t d = (.ok { effectiveLimit := listLimit q.limit }, d) := by
  rw [run_listSegments_present hf, htr]
  dsimp only
  rw [hb]
  rfl

theorem run_listSegments_filters {t : Time} {f : FlowRow} (hf : d.flows.get q.flowId = some f) (hb : Filters q b) :
    (listSegments R q).run t d = (listFiltered R q b).run t d := by
  rw [run_listSegments_present hf]
  cases hb with
  | all hnone => rw [hnone]
  | range htr hx =>
    rw [htr]
    dsimp only
    rw [hx]

theorem listFiltered_eq {k : Option (Int64 × Int64)} (h : CursorFor q.page k) :
    listFiltered R q b = fetchSegments q b k := by
  generalize hc : q.page = c at h
  cases h with
  | start => rw [listFiltered, if_pos hc]
  | after lowerNs segId => rw [listFiltered, hc, if_neg (encodeSegCursor_ne_nil lowerNs segId), decode_encodeSegCursor]

theorem Filters.page (hb : Filters q b) (c : Str) : Filters { q with page := c } b := by
  cases hb with
  | all h => exact .all h
  | range h h' => exact .range h h'

theorem run_fetch {t : Time} {f : FlowRow} (hf : d.flows.get q.flowId = some f) (hb : Filters q b) {c : Str}
    {k : Option (Int64 × Int64)} (hc : CursorFor c k) :
    (listSegments R { q with page := c }).run t d =
      (((listRows q b k d).mapM scanSegment).map (segmentPage (listLimit q.limit)), d) := by
  rw [run_listSegments_filters (q := { q with page := c }) hf (hb.page c), listFiltered_eq hc, run_fetchSegments]
  rfl

def rowPage (q : ListQuery) (b : Option (Option Int64 × Option Int64)) (k : Option (Int64 × Int64)) (d : DB) :
    List SegmentRow × Option SegmentRow :=
  pageAfter SegmentRow.key q.reverseOrder (listCond q b) (listLimit q.limit) (k.map cursorKey) (d.segmentsOf q.flowId)

theorem pageOf_scanned {k : Option (Int64 × Int64)} {items : List SegmentItem} {p : List SegmentRow}
    {last : Option SegmentRow} (h : (listRows q b k d).mapM scanSegment = .ok items)
    (hp : rowPage q b k d = (p, last)) :
    PageOf p last (segmentPage (listLimit q.limit) items) := by
  have hscan : List.Forall₂ Scanned (listRows q b k d) items := (mapM_ok.mp h).imp fun _ _ => scanSegment_ok
  obtain ⟨hitems, hlast⟩ := cutPage_forall₂ (listLimit q.limit) hscan
  have hcut : cutPage (listLimit q.limit) (listRows q b k d) = (p, last) := hp
  rw [hcut] at hitems hlast
  refine ⟨List.forall₂_map_right_iff.mpr (hitems.imp fun _ _ h => h.seg), ?_⟩
  rw [segmentPage]
  generalize (cutPage (listLimit q.limit) items).2 = lastItem at hlast
  cases hlast with
  | none => rfl
  | some h => rw [nextCursor, ← h.lowerNs, ← h.segId]

/-! ## Walks -/

variable (R q) in
/-- The fetches of a walk, each at its time on the state there is then, the pages they answer, and the
cursor the last of them hands out. -/
inductive SegmentWalk : Str → List (Time × DB) → List SegmentPage → Str → Prop
  | fetch {c t d page} : (listSegments R { q with page := c }).run t d = (.ok page, d) →
      SegmentWalk c [(t, d)] [page] page.nextCursor
  | next {c t d page fetches pages c'} : (listSegments R { q with page := c }).run t d = (.ok page, d) →
      page.nextCursor ≠ [] → SegmentWalk page.nextCursor fetches pages c' →
      SegmentWalk c ((t, d) :: fetches) (page :: pages) c'

theorem keys_nodup (d : DB) (f : Uuid) : ((d.segmentsOf f).map SegmentRow.key).Nodup := by
  have hid : ((d.segmentsOf f).map (·.id)).Nodup := d.segments.nodup.sublist (List.filter_sublist.map _)
  refine List.Nodup.of_map (fun k => (ofLex k).2) ?_
  rw [List.map_map]
  exact (List.map_map ▸ hid.map Nat.cast_injective : ((d.segmentsOf f).map fun r => (r.id : ℤ)).Nodup)

theorem mem_of_rowPage {k : Option (Int64 × Int64)} {p : List SegmentRow} {x : SegmentRow}
    (h : rowPage q b k d = (p, some x)) : x ∈ d.segments.rows := by
  obtain ⟨-, -, hx, -⟩ := rowsAfter_eq (listLimit_pos q.limit) (keys_nodup d q.flowId) h
  exact (List.mem_filter.mp (mem_rowsAfter.mp ((page_sublist (listLimit_pos q.limit) h).subset hx)).1).1

theorem rowPage_of_fetch {t : Time} {page : SegmentPage} {c : Str} {k : Option (Int64 × Int64)} (hb : Filters q b)
    (hc : CursorFor c k) (h : (listSegments R { q with page := c }).run t d = (.ok page, d)) :
    ∃ p last, rowPage q b k d = (p, last) ∧ PageOf p last page := by
  obtain ⟨f, hf⟩ : ∃ f, d.flows.get q.flowId = some f := present_of_listed (q := { q with page := c }) h
  rw [run_fetch hf hb hc] at h
  cases hm : (listRows q b k d).mapM scanSegment with
  | error e =>
    rw [hm] at h
    cases h
  | ok items =>
    rw [hm] at h
    cases h
    exact ⟨_, _, rfl, pageOf_scanned hm rfl⟩

/-- A walk is a walk by the key of the rows. -/
theorem SegmentWalk.rows {fetches : List (Time × DB)} {pages : List SegmentPage} {c c' : Str}
    {k : Option (Int64 × Int64)} (hb : Filters q b) (hc : CursorFor c k) (hids : ∀ x ∈ fetches, x.2.IdsFit)
    (h : SegmentWalk R q c fetches pages c') :
    ∃ ps last, Walk SegmentRow.key q.reverseOrder (listCond q b) (listLimit q.limit) (k.map cursorKey)
        (fetches.map fun x => x.2.segmentsOf q.flowId) ps last ∧
      List.Forall₂ (fun p page => List.Forall₂ Shows p page.items) ps pages ∧ c' = nextCursor last := by
  induction h generalizing k with
  | fetch hrun =>
    obtain ⟨p, last, hp, hpage⟩ := rowPage_of_fetch hb hc hrun
    exact ⟨[p], last, .page hp, .cons hpage.items .nil, hpage.next⟩
  | @next c t d page fetches pages c' hrun hne hw ih =>
    obtain ⟨hd, hids⟩ := List.forall_mem_cons.mp hids
    obtain ⟨p, last, hp, hpage⟩ := rowPage_of_fetch hb hc hrun
    cases last with
    | none => exact absurd hpage.next hne
    | some x =>
      have hcur : CursorFor page.nextCursor (some (x.lowerNs, Int64.ofNat x.id)) := by
        rw [hpage.next]
        exact .after x.lowerNs (Int64.ofNat x.id)
      obtain ⟨ps, last, hwalk, hpages, hend⟩ := ih hcur hids
      rw [Option.map_some, cursorKey_row (hd x (mem_of_rowPage hp))] at hwalk
      exact ⟨p :: ps, last, .next hp hwalk, .cons hpage.items hpages, hend⟩

theorem fetch_scannable {f : FlowRow} (hf : d.flows.get q.flowId = some f) (hb : Filters q b)
    (hscan : ∀ r ∈ d.segmentsOf q.flowId, ∃ it, scanSegment r = .ok it) {c : Str} {k : Option (Int64 × Int64)}
    (hc : CursorFor c k) {p : List SegmentRow} {last : Option SegmentRow} (hp : rowPage q b k d = (p, last)) :
    ∃ page, PageOf p last page ∧ ∀ t, (listSegments R { q with page := c }).run t d = (.ok page, d) := by
  have hrows : ∀ r ∈ listRows q b k d, ∃ it, scanSegment r = .ok it :=
    fun r hr => hscan r (mem_rowsAfter.mp ((List.take_sublist _ _).subset hr)).1
  obtain ⟨items, hitems⟩ := mapM_some hrows
  exact ⟨_, pageOf_scanned hitems hp, fun t => by rw [run_fetch hf hb hc, hitems]; rfl⟩

/-- A walk by the key over one state whose rows can be read is a walk. -/
theorem segmentWalk_of_walk {f : FlowRow} (hf : d.flows.get q.flowId = some f) (hb : Filters q b) (hids : d.IdsFit)
    (hscan : ∀ r ∈ d.segmentsOf q.flowId, ∃ it, scanSegment r = .ok it) {c : Str} {k : Option (Int64 × Int64)}
    (hc : CursorFor c k) {tables : List (List SegmentRow)} {ps : List (List SegmentRow)} {last : Option SegmentRow}
    (htables : ∀ T ∈ tables, T = d.segmentsOf q.flowId)
    (h : Walk SegmentRow.key q.reverseOrder (listCond q b) (listLimit q.limit) (k.map cursorKey) tables ps last) :
    ∃ pages, List.Forall₂ (fun p page => List.Forall₂ Shows p page.items) ps pages ∧
      ∀ times : List Time, times.length = ps.length →
        SegmentWalk R q c (times.map (·, d)) pages (nextCursor last) := by
  -- along the walk by the key; the cursor of a page stands for the key of its last row
  generalize hkey : k.map cursorKey = key at h
  induction h generalizing c k with
  | page hp =>
    subst hkey
    cases htables _ List.mem_cons_self
    obtain ⟨page, hpage, hrun⟩ := fetch_scannable (R := R) hf hb hscan hc hp
    refine ⟨[page], .cons hpage.items .nil, fun times htimes => ?_⟩
    obtain ⟨t, rfl⟩ := List.length_eq_one_iff.mp htimes
    rw [← hpage.next]
    exact .fetch (hrun t)
  | @next key rows tables p ps x last hp hw ih =>
    subst hkey
    obtain ⟨hrows, hrest⟩ := List.forall_mem_cons.mp htables
    subst hrows
    obtain ⟨page, hpage, hrun⟩ := fetch_scannable (R := R) hf hb hscan hc hp
    have hcur : CursorFor page.nextCursor (some (x.lowerNs, Int64.ofNat x.id)) := by
      rw [hpage.next]
      exact .after x.lowerNs (Int64.ofNat x.id)
    obtain ⟨pages, hpages, hwalk⟩ := ih hcur hrest (congrArg some (cursorKey_row (hids x (mem_of_rowPage hp))))
    refine ⟨page :: pages, .cons hpage.items hpages, fun times htimes => ?_⟩
    cases times with
    | nil => cases htimes
    | cons t times =>
      refine .next (hrun t) ?_ (hwalk times (by simpa using htimes))
      rw [hpage.next]
      exact encodeSegCursor_ne_nil _ _

/-- Over one state whose rows can be read there is a walk to the end. -/
theorem segmentWalk_total {f : FlowRow} (hf : d.flows.get q.flowId = some f) (hb : Filters q b) (hids : d.IdsFit)
    (hscan : ∀ r ∈ d.segmentsOf q.flowId, ∃ it, scanSegment r = .ok it) :
    ∃ (pages : List SegmentPage) (ps : List (List SegmentRow)),
      (∀ times : List Time, times.length = pages.length → SegmentWalk R q [] (times.map (·, d)) pages []) ∧
      List.Forall₂ (fun p page => List.Forall₂ Shows p page.items) ps pages ∧
      ps.flatten = rowsAfter SegmentRow.key q.reverseOrder (listCond q b) none (d.segmentsOf q.flowId) ∧
      ∀ p ∈ ps.dropLast, p.length = listLimit q.limit := by
  obtain ⟨ps, hw, hflat, hfull⟩ :
      ∃ ps, Walk SegmentRow.key q.reverseOrder (listCond q b) (listLimit q.limit) none
          (List.replicate ps.length (d.segmentsOf q.flowId)) ps none ∧
        ps.flatten = rowsAfter SegmentRow.key q.reverseOrder (listCond q b) none (d.segmentsOf q.flowId) ∧
        ∀ p ∈ ps.dropLast, p.length = listLimit q.limit :=
    walk_total (listLimit_pos q.limit) (keys_nodup d q.flowId) none
  obtain ⟨pages, hpages, hwalk⟩ := segmentWalk_of_walk (R := R) hf hb hids hscan .start
    (fun T hT => List.eq_of_mem_replicate hT) hw
  exact ⟨pages, ps, fun times ht => hwalk times (ht.trans hpages.length_eq.symm), hpages, hflat, hfull⟩

/-- A walk to the end returns every row that matches and is in all its states. -/
theorem SegmentWalk.returns {fetches : List (Time × DB)} {pages : List SegmentPage} (hb : Filters q b)
    (hids : ∀ x ∈ fetches, x.2.IdsFit) (h : SegmentWalk R q [] fetches pages [])
    (hr : ∀ x ∈ fetches, r ∈ x.2.segmentsOf q.flowId) (hcond : listCond q b r = true) :
    ∃ s ∈ pages.flatMap (·.items), Shows r s := by
  obtain ⟨ps, last, hw, hpages, hend⟩ := h.rows hb .start hids
  rw [nextCursor_eq_nil.mp hend.symm] at hw
  have hmem : r ∈ ps.flatten := hw.complete (listLimit_pos q.limit)
    (List.forall_mem_map.mpr fun x _ => keys_nodup x.2 q.flowId) (List.forall_mem_map.mpr hr) hcond rfl
  have hshows : List.Forall₂ Shows ps.flatten (pages.flatMap (·.items)) := by
    rw [List.flatMap_def]
    exact List.rel_flatten (List.forall₂_map_right_iff.mpr hpages)
  exact exists_of_forall₂ hshows.flip hmem

/-! ## Under writes -/

def NeverReused (states : List DB) : Prop :=
  ∀ d ∈ states, ∀ d' ∈ states, ∀ r ∈ d.segments.rows, ∀ r' ∈ d'.segments.rows, r.id = r'.id → r = r'

instance (states : List DB) : Decidable (NeverReused states) :=
  inferInstanceAs (Decidable (∀ d ∈ states, ∀ d' ∈ states, ∀ r ∈ d.segments.rows, ∀ r' ∈ d'.segments.rows,
    r.id = r'.id → r = r'))

theorem SegmentWalk.empty {fetches : List (Time × DB)} {pages : List SegmentPage} {c c' : Str} {tr : TimeRange}
    (htr : q.timerange = some tr) (hb : queryBounds tr = .ok none) (h : SegmentWalk R q c fetches pages c') :
    ∃ x page, fetches = [x] ∧ pages = [page] ∧ page.items = [] := by
  have hpage : ∀ {c t d page}, (listSegments R { q with page := c }).run t d = (.ok page, d) →
      page = { effectiveLimit := listLimit q.limit } := by
    intro c t d page hrun
    obtain ⟨f, hf⟩ := present_of_listed hrun
    rw [run_listSegments_empty hf htr hb] at hrun
    cases hrun
    rfl
  cases h with
  | fetch hrun => exact ⟨_, _, rfl, rfl, by rw [hpage hrun]⟩
  | next hrun hne _ => exact absurd (by rw [hpage hrun]) hne

theorem queryBounds_cases (q : ListQuery) :
    (∃ b, Filters q b) ∨ (∃ tr, q.timerange = some tr ∧ queryBounds tr = .ok none) ∨
      ∃ tr e, q.timerange = some tr ∧ queryBounds tr = .error e := by
  cases htr : q.timerange with
  | none => exact Or.inl ⟨none, .all htr⟩
  | some tr =>
    cases hb : queryBounds tr with
    | error e => exact Or.inr (Or.inr ⟨tr, e, rfl, hb⟩)
    | ok b =>
      cases b with
      | none => exact Or.inr (Or.inl ⟨tr, rfl, hb⟩)
      | some b => exact Or.inl ⟨some b, .range htr hb⟩

theorem not_listed_of_error {t : Time} {page : SegmentPage} {tr : TimeRange} {e : NsError} (htr : q.timerange = some tr)
    (hb : queryBounds tr = .error e) : (listSegments R q).run t d ≠ (.ok page, d) := by
  intro h
  obtain ⟨f, hf⟩ := present_of_listed h
  rw [run_listSegments_present hf, htr] at h
  dsimp only at h
  rw [hb] at h
  cases h

end

/-- **Paging is stable under writes.** In a walk over any states in which no id is reused, no row is
returned twice, the rows come strictly in the walk's order, and once the walk has ended every row that
matches and is in all its states has been returned exactly once. `ps` are the rows of the pages. -/
theorem segmentWalk_stable {R : JsonReader} {q : ListQuery} {fetches : List (Time × DB)} {pages : List SegmentPage}
    {c : Str} (hq : q.Parsed) (hids : ∀ x ∈ fetches, x.2.IdsFit) (hreuse : NeverReused (fetches.map (·.2)))
    (h : SegmentWalk R q [] fetches pages c) :
    ∃ ps : List (List SegmentRow), List.Forall₂ (fun p page => List.Forall₂ Shows p page.items) ps pages ∧
      List.Forall₂ (fun p x => ∀ r ∈ p, r ∈ x.2.segmentsOf q.flowId) ps fetches ∧
      (ps.flatten.map (·.id)).Nodup ∧ ps.flatten.Pairwise (fun a b => Before q.reverseOrder a.key b.key) ∧
      (c = [] → ∀ r, (∀ x ∈ fetches, r ∈ x.2.segments.rows) → q.Selects r r.span → ps.flatten.count r = 1) := by
  rcases queryBounds_cases q with ⟨b, hb⟩ | ⟨tr, htr, hb⟩ | ⟨tr, e, htr, hb⟩
  · obtain ⟨ps, last, hw, hpages, hend⟩ := h.rows hb .start hids
    have hlimit := listLimit_pos q.limit
    have hkeys : ∀ rows ∈ fetches.map (fun x => x.2.segmentsOf q.flowId), (rows.map SegmentRow.key).Nodup :=
      List.forall_mem_map.mpr fun x _ => keys_nodup x.2 q.flowId
    have hfrom : List.Forall₂ (fun p x => ∀ r ∈ p, r ∈ x.2.segmentsOf q.flowId) ps fetches :=
      List.forall₂_map_right_iff.mp (hw.subset hlimit)
    have hsorted := (hw.pairwise hlimit hkeys).1
    have hsource : ∀ r ∈ ps.flatten, ∃ d ∈ fetches.map (·.2), r ∈ d.segments.rows := by
      intro r hr
      obtain ⟨rows, hrows, hr⟩ := hw.source hlimit hr
      obtain ⟨x, hx, rfl⟩ := List.mem_map.mp hrows
      exact ⟨x.2, List.mem_map_of_mem hx, (List.mem_filter.mp hr).1⟩
    have hnodup : (ps.flatten.map (·.id)).Nodup := by
      refine List.pairwise_map.mpr (hsorted.imp_of_mem fun {r r'} hr hr' hlt hid => ?_)
      obtain ⟨d, hd, hrd⟩ := hsource r hr
      obtain ⟨d', hd', hrd'⟩ := hsource r' hr'
      rw [hreuse d hd d' hd' r hrd r' hrd' hid] at hlt
      exact Before.irrefl hlt
    refine ⟨ps, hpages, hfrom, hnodup, hsorted, fun hc r hr hsel => ?_⟩
    rw [nextCursor_eq_nil.mp (hend.symm.trans hc)] at hw
    have hmem := hw.complete hlimit hkeys
      (List.forall_mem_map.mpr fun x hx => List.mem_filter.mpr ⟨hr x hx, decide_eq_true hsel.flow⟩)
      (listCond_of_selects hb hq hsel) rfl
    exact List.count_eq_one_of_mem (List.Nodup.of_map _ hnodup) hmem
  · obtain ⟨x, page, rfl, rfl, hitems⟩ := h.empty htr hb
    refine ⟨[[]], .cons (hitems ▸ .nil) .nil, .cons (fun r hr => by cases hr) .nil, .nil, .nil, fun _ r _ hsel => ?_⟩
    obtain ⟨n, -, hn⟩ := hsel.meets tr htr
    obtain ⟨text, hp⟩ := hq tr htr
    rw [(queryBounds_none (parse_text hp).1).mp hb] at hn
    cases hn
  · cases h with
    | fetch hrun => exact absurd hrun (not_listed_of_error htr hb)
    | next hrun _ _ => exact absurd hrun (not_listed_of_error htr hb)

/-! ## Over one state -/

theorem forall_of_forall₂ {α β : Type} {T : α → β → Prop} {P : α → Prop} {Q : β → Prop} {xs : List α} {ys : List β}
    (h : List.Forall₂ T xs ys) (hx : ∀ x ∈ xs, P x) (hT : ∀ x y, T x y → P x → Q y) : ∀ y ∈ ys, Q y := by
  intro y hy
  obtain ⟨x, hmem, hxy⟩ := exists_of_forall₂ h hy
  exact hT x y hxy (hx x hmem)

theorem listLimit_eq {limit : Int64} (h : 1 ≤ limit.toInt ∧ limit.toInt ≤ 1000) :
    (listLimit limit : ℤ) = limit.toInt := by
  have hin : ¬ (limit ≤ 0 || hardLimit < limit) = true := by
    simp only [Bool.or_eq_true, decide_eq_true_eq, Int64.le_iff_toInt_le, Int64.lt_iff_toInt_lt]
    change ¬ (limit.toInt ≤ 0 ∨ 1000 < limit.toInt)
    omega
  rw [listLimit, if_neg hin]
  omega

theorem SegmentRow.Canonical.selects {r : SegmentRow} (h : r.Canonical) (q : ListQuery) :
    q.Selects r r.span ↔ ∃ tr, parse r.timerange = .ok tr ∧ q.Selects r tr.denote := by
  obtain ⟨s, e, ety, hp, hspan⟩ := h.bounded
  constructor
  · intro hsel
    exact ⟨_, hp, hspan ▸ hsel⟩
  · rintro ⟨tr, htr, hsel⟩
    cases hp.symm.trans htr
    exact hspan ▸ hsel

theorem mem_selected {q : ListQuery} {b : Option (Option Int64 × Option Int64)} {d : DB} {r : SegmentRow}
    (hinv : SegmentInv SegmentRow.Canonical d) (hb : Filters q b) (hq : q.Parsed) :
    r ∈ rowsAfter SegmentRow.key q.reverseOrder (listCond q b) none (d.segmentsOf q.flowId) ↔
      r ∈ d.segments.rows ∧ ∃ tr, parse r.timerange = .ok tr ∧ q.Selects r tr.denote := by
  rw [mem_rowsAfter, DB.segmentsOf, List.mem_filter, decide_eq_true_iff]
  constructor
  · rintro ⟨⟨hr, hfl⟩, hcond, -⟩
    have hc := hinv.rows r hr
    exact ⟨hr, (hc.selects q).mp ((listCond_iff hb hq hc.nonempty).mp ⟨hfl, hcond⟩)⟩
  · rintro ⟨hr, hsel⟩
    have hc := hinv.rows r hr
    obtain ⟨hfl, hcond⟩ := (listCond_iff hb hq hc.nonempty).mpr ((hc.selects q).mpr hsel)
    exact ⟨⟨hr, hfl⟩, hcond, rfl⟩

/-- **Segment listing is sound, complete and sorted.** -/
theorem listSegments_exact {R : JsonReader} {q : ListQuery} {d : DB} (hinv : SegmentInv SegmentRow.Canonical d)
    (hids : d.IdsFit) (hflow : (d.flows.get q.flowId).isSome) (hq : q.Parsed)
    (hfit : ∀ tr, q.timerange = some tr → tr.denote = ∅ ∨ tr.FitsInt64)
    (hlimit : 1 ≤ q.limit.toInt ∧ q.limit.toInt ≤ 1000) (htexts : ∀ r ∈ d.segmentsOf q.flowId, r.TextsParse) :
    ∃ (pages : List SegmentPage) (rows : List SegmentRow),
      (∀ times : List Time, times.length = pages.length → SegmentWalk R q [] (times.map (·, d)) pages []) ∧
      List.Forall₂ Shows rows (pages.flatMap (·.items)) ∧
      (∀ r, r ∈ rows ↔ r ∈ d.segments.rows ∧ ∃ tr, parse r.timerange = .ok tr ∧ q.Selects r tr.denote) ∧
      rows.Pairwise (fun a b => Before q.reverseOrder a.key b.key) ∧
      ∀ page ∈ pages.dropLast, (page.items.length : ℤ) = q.limit.toInt := by
  obtain ⟨f, hf⟩ := Option.isSome_iff_exists.mp hflow
  rcases queryBounds_cases q with ⟨b, hb⟩ | ⟨tr, htr, hb⟩ | ⟨tr, e, htr, hb⟩
  · -- the rows are compared: the walk by the key over the flow's rows is the walk of the fetches
    have hcan : ∀ r ∈ d.segmentsOf q.flowId, r.Canonical := fun r hr => hinv.rows r (List.mem_filter.mp hr).1
    have hscan : ∀ r ∈ d.segmentsOf q.flowId, ∃ it, scanSegment r = .ok it := by
      intro r hr
      obtain ⟨_, tr, hp, -⟩ := (hcan r hr).readable
      exact scanSegment_some ⟨tr, hp⟩ (htexts r hr)
    obtain ⟨pages, ps, hwalk, hpages, hflat, hfull⟩ := segmentWalk_total (R := R) hf hb hids hscan
    refine ⟨pages, ps.flatten, hwalk, ?_, fun r => ?_, ?_, ?_⟩
    · rw [List.flatMap_def]
      exact List.rel_flatten (List.forall₂_map_right_iff.mpr hpages)
    · rw [hflat]
      exact mem_selected hinv hb hq
    · rw [hflat]
      exact pairwise_rowsAfter (keys_nodup d q.flowId) rfl
    · rw [List.dropLast_eq_take, ← hpages.length_eq]
      refine forall_of_forall₂ (List.forall₂_take _ hpages) (List.dropLast_eq_take ▸ hfull) fun p page hp hlen => ?_
      rw [← hp.length_eq, hlen, listLimit_eq hlimit]
  · -- the range of the query is empty: one page without items, and no row meets the range
    refine ⟨[{ effectiveLimit := listLimit q.limit }], [], fun times ht => ?_, .nil, fun r => ?_, .nil,
      fun page hp => by cases hp⟩
    · obtain ⟨t, rfl⟩ := List.length_eq_one_iff.mp ht
      exact .fetch (run_listSegments_empty (q := { q with page := [] }) hf htr hb)
    · refine ⟨fun h => (by cases h), fun ⟨_, tr', _, hsel⟩ => ?_⟩
      obtain ⟨n, -, hn⟩ := hsel.meets tr htr
      obtain ⟨text, hp⟩ := hq tr htr
      rw [(queryBounds_none (parse_text hp).1).mp hb] at hn
      cases hn
  · -- a range whose bounds do not fit is excluded
    obtain ⟨text, hp⟩ := hq tr htr
    rcases queryBounds_ok (parse_text hp).1 (hfit tr htr) with ⟨-, hok⟩ | ⟨lo, hi, hok, -⟩
    · cases hb.symm.trans hok
    · cases hb.symm.trans hok

/-! ## Two segments of one flow -/

theorem textsParse_of_absent {r : SegmentRow} (h : r.tsOffset = [] ∧ r.objectTimerange = none ∧ r.lastDuration = none) :
    r.TextsParse :=
  ⟨fun s hs => (by rw [h.1] at hs; cases hs), fun s hs => (by rw [h.2.1] at hs; cases hs),
    fun s hs => by rw [h.2.2] at hs; cases hs⟩

def onePerPage : ListQuery := { flowId := 1, limit := 1 }

theorem onePerPage_parsed : onePerPage.Parsed := fun _ h => by cases h

theorem sharedStore_listed :
    ∃ (pages : List SegmentPage) (rows : List SegmentRow),
      SegmentWalk canonicalReader onePerPage [] (pages.map fun _ => (2, sharedStore)) pages [] ∧
      List.Forall₂ Shows rows (pages.flatMap (·.items)) ∧
      rows.Pairwise (fun a b => Before false a.key b.key) ∧ ∀ r, r ∈ rows ↔ r ∈ sharedStore.segments.rows := by
  have htexts : ∀ r ∈ sharedStore.segmentsOf 1, r.tsOffset = [] ∧ r.objectTimerange = none ∧ r.lastDuration = none := by
    decide +kernel
  have hflow : ∀ r ∈ sharedStore.segments.rows, r.flowId = 1 := by decide +kernel
  obtain ⟨pages, rows, hwalk, hshows, hmem, hsorted, -⟩ := listSegments_exact (R := canonicalReader) (q := onePerPage)
    sharedStore_segmentInv (show sharedStore.IdsFit by decide +kernel) (by decide +kernel) onePerPage_parsed
    (fun _ h => by cases h) (by decide) fun r hr => textsParse_of_absent (htexts r hr)
  refine ⟨pages, rows, ?_, hshows, hsorted, fun r => (hmem r).trans ⟨And.left, fun hr => ⟨hr, ?_⟩⟩⟩
  · simpa using hwalk (pages.map fun _ => 2) (by simp)
  · refine ((sharedStore_segmentInv.rows r hr).selects onePerPage).mp ⟨hflow r hr, fun _ h => (by cases h),
      fun _ h => by cases h⟩

def replacedStore : DB :=
  replay (StoreCall.prog {}) sharedStore
    [(.deleteSegmentsByTimerange firstSecond, 2), (.insertSegments (· + 2) { sharedBatch with
      segments := [sampleSegment "o" "[0:0_1:0)" 0 1] }, 3)]

def pageOn (c : Str) (d : DB) : SegmentPage :=
  match ((listSegments canonicalReader { onePerPage with page := c }).run 0 d).1 with
  | .ok page => page
  | .error _ => { effectiveLimit := 0 }

/-- A delete of the row that the cursor names and an insert at its lower bound after the first fetch. -/
theorem replacedStore_stable :
    ∃ ps : List (List SegmentRow), ps.length = 3 ∧ (ps.flatten.map (·.id)).Nodup ∧
      ∀ r ∈ sharedStore.segments.rows, r ∈ replacedStore.segments.rows → ps.flatten.count r = 1 := by
  let first := pageOn [] sharedStore
  let second := pageOn first.nextCursor replacedStore
  let third := pageOn second.nextCursor replacedStore
  let fetches : List (Time × DB) := [(0, sharedStore), (0, replacedStore), (0, replacedStore)]
  have hthird : (listSegments canonicalReader { onePerPage with page := second.nextCursor }).run 0 replacedStore =
      (.ok third, replacedStore) := by decide +kernel
  have hwalk : SegmentWalk canonicalReader onePerPage [] fetches [first, second, third] third.nextCursor :=
    .next (by decide +kernel) (by decide +kernel) (.next (by decide +kernel) (by decide +kernel) (.fetch hthird))
  have hids : ∀ x ∈ fetches, x.2.IdsFit := by decide +kernel
  have hreuse : NeverReused (fetches.map (·.2)) := by decide +kernel
  have hflow : ∀ r ∈ sharedStore.segments.rows, r.flowId = 1 := by decide +kernel
  obtain ⟨ps, hpages, -, hnodup, -, hall⟩ := segmentWalk_stable onePerPage_parsed hids hreuse hwalk
  refine ⟨ps, hpages.length_eq, hnodup, fun r hr hr' => hall (by decide +kernel) r ?_ ?_⟩
  · exact List.forall_mem_cons.mpr ⟨hr, List.forall_mem_cons.mpr ⟨hr', List.forall_mem_singleton.mpr hr'⟩⟩
  · exact ⟨hflow r hr, fun _ h => (by cases h), fun _ h => by cases h⟩

def offsetStore : DB :=
  ((insertSegments {} id { sharedBatch with
    segments := sharedBatch.segments.map fun s => { s with tsOffsetRaw := lit "x" } }).run 1 oneFlow).2

theorem offsetStore_unlisted :
    SegmentInv SegmentRow.Canonical offsetStore ∧ offsetStore.IdsFit ∧ (offsetStore.flows.get 1).isSome ∧
    ∀ R t, (listSegments R onePerPage).run t offsetStore = (.error (.wrap
      [.text "metastore: ListSegments: parse ", .text "ts_offset", .text " ", .quoted (lit "x"), .text ": "]
      (.parse (.expectedColon (lit "x")))), offsetStore) := by
  refine ⟨segmentInv_insertIntoOneFlow (by decide +kernel), show offsetStore.IdsFit by decide +kernel,
    by decide +kernel, fun R t => ?_⟩
  obtain ⟨f, hf⟩ := Option.isSome_iff_exists.mp (show (offsetStore.flows.get 1).isSome by decide +kernel)
  refine (run_fetch (q := onePerPage) hf (.all rfl) .start).trans (Prod.ext ?_ rfl)
  decide +kernel

end OpenTams
