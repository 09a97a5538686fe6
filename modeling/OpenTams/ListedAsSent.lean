import OpenTams.FlowSpan
import OpenTams.HeadSegments
import OpenTams.Unwritable

/-!
# Segments are listed as they were sent

A segment that POST accepts is converted, screened and stored; GET reads the row
back, converts it and puts its URLs in. The time strings are stored as they were
sent, with the empty string or NULL for an absent one, and no string that parses
is empty. A client reads the listing page after page, with the key that the
headers of a page hand out.
-/

namespace OpenTams

open Sql Sql.Prog Fallible

/-! ## Pages of the store -/

section
variable {R : JsonReader} {q : ListQuery} {t : Time} {d : DB} {page : SegmentPage}

theorem listSegments_reads : ((listSegments R q).run t d).2 = d := by
  cases hf : d.flows.get q.flowId with
  | none => rw [run_listSegments_absent hf]
  | some f =>
    have hfiltered : ∀ b, ((listFiltered R q b).run t d).2 = d := by
      intro b
      unfold listFiltered
      split
      · rw [run_fetchSegments]
      split
      · rfl
      · rw [run_fetchSegments]
    rw [run_listSegments_present hf]
    split
    · exact hfiltered none
    split
    · rfl
    · rfl
    · exact hfiltered _

theorem listed_cases (h : (listSegments R q).run t d = (.ok page, d)) :
    page = { effectiveLimit := listLimit q.limit } ∨
      ∃ b k items, (listRows q b k d).mapM scanSegment = .ok items ∧ page = segmentPage (listLimit q.limit) items := by
  obtain ⟨f, hf⟩ := present_of_listed h
  rcases queryBounds_cases q with ⟨b, hb⟩ | ⟨tr, htr, hb⟩ | ⟨tr, e, htr, hb⟩
  · have hfetch : ∀ k, (fetchSegments q b k).run t d = (.ok page, d) →
        ∃ items, (listRows q b k d).mapM scanSegment = .ok items ∧ page = segmentPage (listLimit q.limit) items := by
      intro k hk
      rw [run_fetchSegments] at hk
      cases hm : (listRows q b k d).mapM scanSegment with
      | error e =>
        rw [hm] at hk
        cases hk
      | ok items =>
        rw [hm] at hk
        cases hk
        exact ⟨items, rfl, rfl⟩
    rw [run_listSegments_filters hf hb, listFiltered] at h
    split at h
    · exact Or.inr ⟨b, none, hfetch none h⟩
    split at h
    · cases h
    · exact Or.inr ⟨b, _, hfetch _ h⟩
  · rw [run_listSegments_empty hf htr hb] at h
    cases h
    exact Or.inl rfl
  · exact absurd h (not_listed_of_error htr hb)

theorem sanitise_encodeSegCursor (lowerNs segId : Int64) :
    sanitiseHeaderValue (encodeSegCursor lowerNs segId) = encodeSegCursor lowerNs segId := by
  refine List.filter_eq_self.mpr fun b hb => ?_
  have := Base64.isBreak_encode hb
  simp only [Base64.isBreak, Bool.or_eq_false_iff, decide_eq_false_iff_not] at this
  simp [this.1, this.2]

/-- The cursor of a page goes into the headers as it is. -/
theorem sanitise_nextCursor (h : (listSegments R q).run t d = (.ok page, d)) :
    sanitiseHeaderValue page.nextCursor = page.nextCursor := by
  rcases listed_cases h with rfl | ⟨b, k, items, -, rfl⟩
  · rfl
  · rw [segmentPage]
    cases (cutPage (listLimit q.limit) items).2 with
    | none => rfl
    | some last => exact sanitise_encodeSegCursor _ _

/-- The loop of `pageSpan` keeps the earliest and the latest of the items it has seen. -/
theorem foldl_ends (xs : List SegmentItem) (e : SegmentItem × SegmentItem) :
    ∃ a b, xs.foldl (fun e it =>
        (if it.lowerNs < e.1.lowerNs then it else e.1, if e.2.upperNs < it.upperNs then it else e.2)) e = (a, b) ∧
      (a = e.1 ∨ a ∈ xs) ∧ (b = e.2 ∨ b ∈ xs) ∧ a.lowerNs.toInt ≤ e.1.lowerNs.toInt ∧
      e.2.upperNs.toInt ≤ b.upperNs.toInt ∧
      ∀ it ∈ xs, a.lowerNs.toInt ≤ it.lowerNs.toInt ∧ it.upperNs.toInt ≤ b.upperNs.toInt := by
  induction xs generalizing e with
  | nil => exact ⟨e.1, e.2, rfl, Or.inl rfl, Or.inl rfl, le_rfl, le_rfl, fun _ h => by cases h⟩
  | cons x xs ih =>
    rw [List.foldl_cons]
    obtain ⟨a, b, hfold, ha, hb, hlo, hhi, hall⟩ := ih
      (if x.lowerNs < e.1.lowerNs then x else e.1, if e.2.upperNs < x.upperNs then x else e.2)
    refine ⟨a, b, hfold, ?_⟩
    dsimp only at ha hb hlo hhi
    have hlower : (a = e.1 ∨ a ∈ x :: xs) ∧ a.lowerNs.toInt ≤ e.1.lowerNs.toInt ∧ a.lowerNs.toInt ≤ x.lowerNs.toInt := by
      by_cases hx : x.lowerNs < e.1.lowerNs
      · rw [if_pos hx] at ha hlo
        rw [Int64.lt_iff_toInt_lt] at hx
        exact ⟨Or.inr (List.mem_cons.mpr ha), by omega, hlo⟩
      · rw [if_neg hx] at ha hlo
        rw [Int64.lt_iff_toInt_lt] at hx
        exact ⟨ha.imp_right (List.mem_cons_of_mem x), hlo, by omega⟩
    have hupper : (b = e.2 ∨ b ∈ x :: xs) ∧ e.2.upperNs.toInt ≤ b.upperNs.toInt ∧ x.upperNs.toInt ≤ b.upperNs.toInt := by
      by_cases hx : e.2.upperNs < x.upperNs
      · rw [if_pos hx] at hb hhi
        rw [Int64.lt_iff_toInt_lt] at hx
        exact ⟨Or.inr (List.mem_cons.mpr hb), by omega, hhi⟩
      · rw [if_neg hx] at hb hhi
        rw [Int64.lt_iff_toInt_lt] at hx
        exact ⟨hb.imp_right (List.mem_cons_of_mem x), hhi, by omega⟩
    exact ⟨hlower.1, hupper.1, hlower.2.1, hupper.2.1, List.forall_mem_cons.mpr ⟨⟨hlower.2.2, hupper.2.2⟩, hall⟩⟩

theorem pageSpan_cons (x : SegmentItem) (xs : List SegmentItem) :
    ∃ a ∈ x :: xs, ∃ b ∈ x :: xs, pageSpan (x :: xs) = joinSpan a.seg.timerange b.seg.timerange ∧
      ∀ it ∈ x :: xs, a.lowerNs.toInt ≤ it.lowerNs.toInt ∧ it.upperNs.toInt ≤ b.upperNs.toInt := by
  obtain ⟨a, b, hfold, ha, hb, hlo, hhi, hall⟩ := foldl_ends xs (x, x)
  refine ⟨a, List.mem_cons.mpr ha, b, List.mem_cons.mpr hb, ?_, List.forall_mem_cons.mpr ⟨⟨hlo, hhi⟩, hall⟩⟩
  rw [pageSpan, hfold]

/-- Every item of a page is read from a row of the flow. -/
theorem mem_cut_row {b : Option (Option Int64 × Option Int64)} {k : Option (Int64 × Int64)} {items : List SegmentItem}
    (hitems : (listRows q b k d).mapM scanSegment = .ok items) {it : SegmentItem}
    (hit : it ∈ (cutPage (listLimit q.limit) items).1) : ∃ r ∈ d.segmentsOf q.flowId, Scanned r it := by
  obtain ⟨r, hr, hscan⟩ := exists_of_forall₂ (mapM_ok.mp hitems) (mem_cutPage hit)
  exact ⟨r, (mem_rowsAfter.mp ((List.take_sublist _ _).subset hr)).1, scanSegment_ok hscan⟩

/-- The span of a page of readable rows has a text, so the headers can be written. -/
theorem listed_string (hread : ∀ r ∈ d.segmentsOf q.flowId, r.Readable)
    (h : (listSegments R q).run t d = (.ok page, d)) : ∃ text, page.timerange.string = some text := by
  rcases listed_cases h with rfl | ⟨b, k, items, hitems, rfl⟩
  · exact ⟨_, rfl⟩
  have hrow : ∀ it ∈ (cutPage (listLimit q.limit) items).1, ∃ r : SegmentRow, r.Readable ∧
      parse r.timerange = .ok it.seg.timerange := by
    intro it hit
    obtain ⟨r, hr, hscan⟩ := mem_cut_row hitems hit
    exact ⟨r, hread r hr, hscan.seg.timerange⟩
  rw [segmentPage]
  dsimp only
  cases hcut : (cutPage (listLimit q.limit) items).1 with
  | nil => exact ⟨_, rfl⟩
  | cons x xs =>
    rw [hcut] at hrow
    obtain ⟨first, hfirst, last, hlast, hspan, -⟩ := pageSpan_cons x xs
    obtain ⟨r, hr, hp⟩ := hrow first hfirst
    obtain ⟨r', hr', hp'⟩ := hrow last hlast
    obtain ⟨tr, tr', text, htr, htr', -, -, htext⟩ := renderSpan_some hr hr'
    cases hp.symm.trans htr
    cases hp'.symm.trans htr'
    exact ⟨text, hspan ▸ htext⟩

end

/-! ## Pages of GET -/

def flowQuery (f : Uuid) (params : ListParams) : ListQuery := SegmentService.listQuery { params with flowId := f }

def servedSegment (s : S3Store) (presigned : Option Bool) (seg : Segment) : ApiSegment :=
  { segmentToAPI seg with getUrls := projectedURLs s seg presigned }

theorem projectSegmentURLs_eq (s : S3Store) (page : SegmentPage) (presigned : Option Bool) :
    projectSegmentURLs s page (segmentPageToAPI page) presigned = page.items.map (servedSegment s presigned) := by
  rw [projectSegmentURLs, segmentPageToAPI, List.zipWith_map_right, List.zipWith_self]
  rfl

theorem nextKey_segmentsHeaders (params : ListParams) (page : SegmentPage) (count : Nat) (text : Str) :
    (segmentsHeaders params page count text).xPagingNextKey = optStr (sanitiseHeaderValue page.nextCursor) := by
  rw [segmentsHeaders]
  cases optStr (sanitiseHeaderValue page.nextCursor) <;> rfl

section
variable {s : S3Store} {R : JsonReader} {f : Uuid} {g : GetFlowSegmentsParams} {params : ListParams} {t : Time} {d : DB}

theorem listParams_page (hg : listParamsFromAPI g = .ok params) (c : Option Str) :
    listParamsFromAPI { g with page := c } = .ok { params with page := c.getD [] } := by
  obtain ⟨tr, htr, hg⟩ := bind_ok.mp hg
  obtain ⟨limit, hlimit, hg⟩ := bind_ok.mp hg
  cases hg
  exact bind_ok.mpr ⟨tr, htr, bind_ok.mpr ⟨limit, hlimit, rfl⟩⟩

theorem segmentsListed_error (e : Err) (body : List ApiSegment) (headers : PagingHeaders) :
    ((Handler.segmentsListed s params (.error e)).run t d).1 ≠ .ok (.ok body headers) := by
  intro h
  unfold Handler.segmentsListed at h
  dsimp only at h
  repeat' split at h
  all_goals cases h

theorem listed_error (e : Err) : ∃ e', ((SegmentService.listed (.error e)).run t d).1 = .error e' := by
  unfold SegmentService.listed
  dsimp only
  repeat' split
  all_goals exact ⟨_, rfl⟩

theorem run_list_flow (hcheck : SegmentService.checkTimerange params.timerange = .ok ()) :
    ((SegmentService.list R { params with flowId := f }).run t d).1 =
      ((SegmentService.listed ((listSegments R (flowQuery f params)).run t d).1).run t d).1 := by
  have hlist : ((SegmentService.list R { params with flowId := f }).run t d).1 =
      ((SegmentService.listed ((listSegments R (flowQuery f params)).run t d).1).run t
        ((listSegments R (flowQuery f params)).run t d).2).1 := run_list hcheck
  rw [hlist, listSegments_reads]

/-- GET answers 200 exactly with a page of the store. -/
theorem get_ok_iff (hg : listParamsFromAPI g = .ok params) {body : List ApiSegment} {headers : PagingHeaders} :
    ((Handler.getFlowSegments s R (some f) g).run t d).1 = .ok (.ok body headers) ↔
      SegmentService.checkTimerange params.timerange = .ok () ∧ ∃ page text,
        (listSegments R (flowQuery f params)).run t d = (.ok page, d) ∧
        page.timerange.string = some text ∧ body = page.items.map (servedSegment s params.presigned) ∧
        headers = segmentsHeaders params page page.items.length text := by
  rw [Handler.getFlowSegments, hg]
  dsimp only
  rw [run_bind (settles_list R _).attempt, run_attempt]
  dsimp only
  cases hcheck : SegmentService.checkTimerange params.timerange with
  | error e =>
    have hlist : (SegmentService.list R { params with flowId := f }).run t d = (.error e, d) := by
      rw [SegmentService.list, hcheck]
      rfl
    rw [hlist]
    exact iff_of_false (segmentsListed_error e body headers) fun h => by cases h.1
  | ok u =>
    rw [run_list_flow hcheck]
    have hreads := listSegments_reads (R := R) (q := flowQuery f params) (t := t) (d := d)
    cases hrun : (listSegments R (flowQuery f params)).run t d with
    | mk x d' =>
      rw [hrun] at hreads
      obtain rfl : d = d' := hreads.symm
      cases x with
      | error e =>
        obtain ⟨e', he'⟩ := listed_error (t := t) (d := d) e
        rw [he']
        refine iff_of_false (segmentsListed_error e' body headers) ?_
        rintro ⟨-, page, text, h, -⟩
        cases h
      | ok page =>
        show ((Handler.segmentsListed s params (.ok page)).run t _).1 = _ ↔ _
        simp only [Handler.segmentsListed]
        cases htext : page.timerange.string with
        | none =>
          refine iff_of_false (fun h => by cases h) ?_
          rintro ⟨-, page', text, h, hsome, -⟩
          cases h
          cases htext.symm.trans hsome
        | some text =>
          rw [projectSegmentURLs_eq, segmentPageToAPI, List.length_map]
          constructor
          · intro h
            cases h
            exact ⟨trivial, page, text, rfl, htext, rfl, rfl⟩
          · rintro ⟨-, page', text', h, hsome, rfl, rfl⟩
            cases h
            cases htext.symm.trans hsome
            rfl

/-- The page that a key asks for, and the key it hands out. -/
theorem page_of_get (hg : listParamsFromAPI g = .ok params) {c : Option Str} {body : List ApiSegment}
    {headers : PagingHeaders}
    (h : ((Handler.getFlowSegments s R (some f) { g with page := c }).run t d).1 = .ok (.ok body headers)) :
    ∃ page, (listSegments R { flowQuery f params with page := c.getD [] }).run t d = (.ok page, d) ∧
      body = page.items.map (servedSegment s params.presigned) ∧ headers.xPagingNextKey = optStr page.nextCursor := by
  obtain ⟨-, page, text, hrun, -, rfl, rfl⟩ := (get_ok_iff (listParams_page hg c)).mp h
  refine ⟨page, hrun, rfl, ?_⟩
  rw [nextKey_segmentsHeaders, sanitise_nextCursor hrun]

theorem get_of_page (hg : listParamsFromAPI g = .ok params)
    (hcheck : SegmentService.checkTimerange params.timerange = .ok ()) (hread : ∀ r ∈ d.segmentsOf f, r.Readable)
    {c : Option Str} {page : SegmentPage}
    (h : (listSegments R { flowQuery f params with page := c.getD [] }).run t d = (.ok page, d)) :
    ∃ headers, ((Handler.getFlowSegments s R (some f) { g with page := c }).run t d).1 =
        .ok (.ok (page.items.map (servedSegment s params.presigned)) headers) ∧
      headers.xPagingNextKey = optStr page.nextCursor := by
  obtain ⟨text, htext⟩ := listed_string (q := { flowQuery f params with page := c.getD [] }) hread h
  refine ⟨_, (get_ok_iff (listParams_page hg c)).mpr ⟨hcheck, page, text, h, htext, rfl, rfl⟩, ?_⟩
  rw [nextKey_segmentsHeaders, sanitise_nextCursor h]

end

inductive GetWalk (s : S3Store) (R : JsonReader) (f : Uuid) (g : GetFlowSegmentsParams) (d : DB) :
    Option Str → List ApiSegment → Prop
  | last {c t body headers} :
      ((Handler.getFlowSegments s R (some f) { g with page := c }).run t d).1 = .ok (.ok body headers) →
      headers.xPagingNextKey = none → GetWalk s R f g d c body
  | next {c t body headers key rest} :
      ((Handler.getFlowSegments s R (some f) { g with page := c }).run t d).1 = .ok (.ok body headers) →
      headers.xPagingNextKey = some key → GetWalk s R f g d (some key) rest → GetWalk s R f g d c (body ++ rest)

theorem optStr_none {s : Str} : optStr s = none ↔ s = [] := by
  unfold optStr
  split <;> simp_all

theorem optStr_some {s key : Str} : optStr s = some key ↔ s ≠ [] ∧ s = key := by
  unfold optStr
  split <;> simp_all

section
variable {s : S3Store} {R : JsonReader} {f : Uuid} {g : GetFlowSegmentsParams} {params : ListParams} {d : DB}

theorem GetWalk.segmentWalk (hg : listParamsFromAPI g = .ok params) {c : Option Str} {listed : List ApiSegment}
    (h : GetWalk s R f g d c listed) :
    ∃ (times : List Time) (pages : List SegmentPage),
      SegmentWalk R (flowQuery f params) (c.getD []) (times.map (·, d)) pages [] ∧
      listed = (pages.flatMap (·.items)).map (servedSegment s params.presigned) := by
  induction h with
  | @last c t body headers hget hkey =>
    obtain ⟨page, hrun, rfl, hnext⟩ := page_of_get hg hget
    have hfetch := SegmentWalk.fetch hrun
    rw [optStr_none.mp (hnext.symm.trans hkey)] at hfetch
    exact ⟨[t], [page], hfetch, by simp⟩
  | @next c t body headers key rest hget hkey _ ih =>
    obtain ⟨page, hrun, rfl, hnext⟩ := page_of_get hg hget
    obtain ⟨hne, rfl⟩ := optStr_some.mp (hnext.symm.trans hkey)
    obtain ⟨times, pages, hwalk, rfl⟩ := ih
    exact ⟨t :: times, page :: pages, .next hrun hne hwalk, by simp⟩

theorem getWalk_of_segmentWalk (hg : listParamsFromAPI g = .ok params)
    (hcheck : SegmentService.checkTimerange params.timerange = .ok ()) (hread : ∀ r ∈ d.segmentsOf f, r.Readable)
    {c end_ : Str} {fetches : List (Time × DB)} {pages : List SegmentPage}
    (h : SegmentWalk R (flowQuery f params) c fetches pages end_)
    (hd : ∀ x ∈ fetches, x.2 = d) (hend : end_ = []) {key : Option Str} (hkey : key.getD [] = c) :
    GetWalk s R f g d key ((pages.flatMap (·.items)).map (servedSegment s params.presigned)) := by
  induction h generalizing key with
  | @fetch c t d' page hrun =>
    cases hd _ List.mem_cons_self
    subst hkey
    obtain ⟨headers, hget, hnext⟩ := get_of_page (s := s) hg hcheck hread hrun
    simpa using GetWalk.last hget (hnext.trans (optStr_none.mpr hend))
  | @next c t d' page fetches pages c' hrun hne _ ih =>
    cases hd _ List.mem_cons_self
    subst hkey
    obtain ⟨headers, hget, hnext⟩ := get_of_page (s := s) hg hcheck hread hrun
    have hrest := ih (fun x hx => hd x (List.mem_cons_of_mem _ hx)) hend
      (show (some page.nextCursor).getD [] = page.nextCursor from rfl)
    simpa using GetWalk.next hget (hnext.trans (optStr_some.mpr ⟨hne, rfl⟩)) hrest

end

/-! ## Rows as they are returned -/

structure Returned (p : FlowSegmentPost) (presigned : Option Bool) (a : ApiSegment) : Prop where
  objectId : a.objectId = p.objectId
  timerange : a.timerange = p.timerange
  tsOffset : a.tsOffset = p.tsOffset
  objectTimerange : a.objectTimerange = p.objectTimerange
  lastDuration : a.lastDuration = p.lastDuration
  counts : a.keyFrameCount = p.keyFrameCount ∧ a.sampleOffset = p.sampleOffset ∧ a.sampleCount = p.sampleCount
  getUrls : ∀ urls, p.getUrls = some urls → urls ≠ [] → (∀ u ∈ urls, u.label ≠ []) → presigned ≠ some true →
    a.getUrls = some (urls.map fun u => { url := u.url, label := some u.label, controlled := some false })

/-- An optional column that no parser has left empty is read back as it is. -/
theorem optionalRaw_getD {α : Type} {f : Str → Except ParseError α} {o : Option Str} {a : Option α}
    (hf : ∀ x, f [] ≠ .ok x) (h : o.map f = a.map .ok) : optionalRaw (o.getD []) = o := nullIfEmpty_raw hf h

theorem returned_of_shows {p : FlowSegmentPost} {r : SegmentRow} {seg : Segment} (hr : Recorded p r) (hs : Shows r seg)
    (s : S3Store) (presigned : Option Bool) : Returned p presigned (servedSegment s presigned seg) where
  objectId := hs.objectId.trans hr.objectId
  timerange := hs.raw.1.trans hr.timerange
  tsOffset := (congrArg optionalRaw hs.raw.2.1).trans hr.tsOffset
  objectTimerange := by
    show optionalRaw seg.objectTimerangeRaw = _
    rw [hs.raw.2.2.1, optionalRaw_getD parse_nil hs.objectTimerange, hr.objectTimerange]
  lastDuration := by
    show optionalRaw seg.lastDurationRaw = _
    rw [hs.raw.2.2.2, optionalRaw_getD parseTimestamp_nil hs.lastDuration, hr.lastDuration]
  counts := by
    obtain ⟨hk, ho, hc⟩ := hs.counts
    obtain ⟨hk', ho', hc'⟩ := hr.counts
    exact ⟨hk.trans hk', ho.trans ho', hc.trans hc'⟩
  getUrls := by
    intro urls hurls hne hlabels hpre
    have hstored : seg.getUrls = urls.map fun u => { url := u.url, label := u.label, controlled := false } := by
      rw [hs.getUrls, hr.getUrls, hurls]
      rfl
    have hbyos : byosGetURLs seg.getUrls presigned =
        urls.map fun u => { url := u.url, label := some u.label, controlled := some false } := by
      rw [byosGetURLs, if_neg hpre, hstored, List.map_map]
      refine List.map_congr_left fun u hu => ?_
      show ({ url := u.url, label := optStr u.label, controlled := some false } : SegGetURL) = _
      rw [optStr_some.mpr ⟨hlabels u hu, rfl⟩]
    cases urls with
    | nil => exact absurd rfl hne
    | cons u urls =>
      have hcontrolled : seg.isControlled = false := by
        rw [Segment.isControlled, hstored]
        rfl
      show projectedURLs s seg presigned = _
      rw [projectedURLs, hcontrolled, hbyos]
      rfl

/-! ## What is accepted is stored -/

/-- The response reports the segment as registered: it is 201, or 200 and does not list it as failed. -/
def Response.Accepts (p : FlowSegmentPost) : Response → Prop
  | created => True
  | bulkFailure failed => ∀ x ∈ failed, x.objectId = p.objectId → x.timerange ≠ some p.timerange
  | problem _ _ => False

section
variable {c : Constraints} {storageId : Str} {env : PostEnv} {body : FlowSegmentPostBody} {params : RegisterParams}
  {hash key : Str} {f : Uuid} {t : Time} {d d₁ d₂ d' : DB} {res : RegisterResult} {resp : Response}
  {p : FlowSegmentPost} {seg : Segment}

theorem assemble_failed {x : Screened} {r : InsertResult} (h : assemble x r = some res) :
    (∃ rejected, res.failed = x.failed ++ rejected) ∧ (res.outcome = .outcomeAllAccepted → res.failed = []) := by
  obtain ⟨accepted, -, h⟩ := Option.bind_eq_some_iff.mp h
  obtain ⟨rejected, -, h⟩ := Option.bind_eq_some_iff.mp h
  cases h
  refine ⟨⟨rejected, rfl⟩, fun ho => ?_⟩
  unfold registerOutcome at ho
  split at ho
  · rename_i hlen
    simp only [Bool.and_eq_true, decide_eq_true_eq] at hlen
    exact List.length_eq_zero_iff.mp hlen.1
  · split at ho <;> cases ho

/-- A segment that the response does not list as failed has been passed to the store. -/
theorem accepted_survives (hreg : (registerBatch c storageId env.nextval ⟨f, params.segments⟩).run t d₁ = (.ok res, d₂))
    (hseg : seg ∈ params.segments) (hc : Converts p seg)
    (hacc : res.outcome ≠ .outcomeAllAccepted → (Response.bulkFailure (registerFailureToAPI res.failed)).Accepts p) :
    stampURLs seg ∈ (screen 0 params.segments).survivors := by
  rcases screen_cases hseg 0 with ⟨x, hx, hxs⟩ | hs
  case inr => exact hs
  have hfailed : x ∈ res.failed ∧ res.outcome ≠ .outcomeAllAccepted := by
    obtain ⟨-, ⟨-, rfl, -⟩ | ⟨-, ⟨a, ha⟩, -⟩⟩ := registerBatch_ok hreg
    · exact ⟨hx, fun h => by cases h⟩
    · obtain ⟨⟨rejected, hrej⟩, hout⟩ := assemble_failed ha
      have hmem : x ∈ res.failed := hrej ▸ List.mem_append_left rejected hx
      refine ⟨hmem, fun ho => ?_⟩
      rw [hout ho] at hmem
      cases hmem
  have hobj : x.segment.objectId = p.objectId := by
    rw [hxs]
    exact hc.objectId
  have htr : optionalRaw x.segment.timerangeRaw = some p.timerange := by
    have hraw : x.segment.timerangeRaw = p.timerange := by
      rw [hxs]
      exact hc.timerange.1
    rw [hraw]
    refine if_neg fun he => ?_
    have hparse := hc.timerange.2
    rw [he] at hparse
    exact parse_nil _ hparse
  exact absurd htr (hacc hfailed.2 _ (List.mem_map_of_mem hfailed.1) hobj)

/-- The parts of an execution that acquires its key and is answered with 201 or 200. -/
theorem post_registered (hbody : registerParamsFromAPI body = .ok params)
    (hacq : (acquire key hash env.expiresAt).run t d = (.ok { status := .statusAcquired }, d₁))
    (hpost : (postFlowSegments c storageId env ⟨some f, some (postBody body hash), key⟩).run t d = (.ok resp, d'))
    (hacc : resp.Accepts p) :
    ∃ res d₂, (registerBatch c storageId env.nextval ⟨f, params.segments⟩).run t d₁ = (.ok res, d₂) ∧
      SameButKey key d₂ d' ∧
      (res.outcome ≠ .outcomeAllAccepted → (Response.bulkFailure (registerFailureToAPI res.failed)).Accepts p) := by
  have hk := (acquire_acquired hacq).1
  rw [postFlowSegments, checkPost_eq hbody, if_neg (key_ne_nil hk)] at hpost
  by_cases hlen : maxSegmentsBatch < params.segments.length
  · rw [if_pos hlen] at hpost
    cases hpost
    cases hacc
  rw [if_neg hlen] at hpost
  dsimp only at hpost
  rw [run_postChecked storageId env hacq, run_postAcquired] at hpost
  cases hreg : (registerBatch c storageId env.nextval ⟨f, params.segments⟩).run t d₁ with
  | mk r d₂ =>
    rw [hreg] at hpost
    dsimp only at hpost
    cases r with
    | error e =>
      cases hresp : registerErrorResponse e with
      | none =>
        rw [run_postRegistered_released hk t d₂ hresp] at hpost
        cases hpost
      | some resp' =>
        rw [postRegistered_error key hresp, run_storeThen hk] at hpost
        cases hpost
        obtain ⟨status, q, rfl, -⟩ := registerErrorResponse_problem hresp
        cases hacc
    | ok res =>
      refine ⟨res, d₂, rfl, ?_⟩
      by_cases ho : res.outcome = .outcomeAllAccepted
      · rw [postRegistered_created key ho, run_storeThen hk] at hpost
        cases hpost
        exact ⟨sameButKey_completed key _ _ d₂, fun h => absurd ho h⟩
      · rw [postRegistered_bulk key ho, run_storeThen hk] at hpost
        cases hpost
        exact ⟨sameButKey_completed key _ _ d₂, fun _ => hacc⟩

theorem accepted_stored (hbody : registerParamsFromAPI body = .ok params)
    (hreg : (registerBatch c storageId env.nextval ⟨f, params.segments⟩).run t d₁ = (.ok res, d₂))
    (hp : p ∈ body.posts)
    (hacc : res.outcome ≠ .outcomeAllAccepted → (Response.bulkFailure (registerFailureToAPI res.failed)).Accepts p) :
    (∃ r ∈ d₂.segmentsOf f, r ∉ d₁.segmentsOf f ∧ Recorded p r) ∧ ∃ flow, d₂.flows.get f = some flow := by
  obtain ⟨seg, hseg, hc⟩ := exists_of_forall₂ (registerParamsFromAPI_ok hbody).1.flip hp
  have hsurv := accepted_survives hreg hseg hc hacc
  obtain ⟨-, ⟨hnone, -⟩ | ⟨-, -, bounds, hins⟩⟩ := registerBatch_ok hreg
  · rw [List.length_eq_zero_iff.mp hnone] at hsurv
    cases hsurv
  obtain ⟨flow, hflow, -⟩ := hins.writable
  refine ⟨?_, flow, hflow⟩
  obtain ⟨k, hk⟩ := List.getElem?_of_mem hsurv
  obtain ⟨-, hbounds, -⟩ := checkBatch_iff.mp hins.checked
  have hzip : ((screen 0 params.segments).survivors.zip bounds)[k]? = some (stampURLs seg, (stampURLs seg).bounds) := by
    rw [List.getElem?_zip_eq_some, hbounds, List.getElem?_map, hk]
    exact ⟨rfl, rfl⟩
  have hnew : segmentRow (env.nextval (0 + k)) f (stampURLs seg) (stampURLs seg).bounds.lower
      (stampURLs seg).bounds.upper t ∈
      newRows env.nextval f t 0 ((screen 0 params.segments).survivors.zip bounds) :=
    mem_newRows.mpr ⟨k, _, hzip, rfl⟩
  refine ⟨_, ?_, hins.new_not_mem hnew,
    hc.recorded (env.nextval (0 + k)) f (stampURLs seg).bounds.lower (stampURLs seg).bounds.upper t⟩
  rw [hins.segmentsOf, if_pos rfl]
  exact List.mem_append_right _ hnew

end

theorem listParams_all {g : GetFlowSegmentsParams} {params : ListParams} (hg : listParamsFromAPI g = .ok params)
    (hall : g.timerange = none ∧ g.objectId = none) :
    params.timerange = none ∧ params.objectId = none ∧ params.presigned = g.presigned := by
  obtain ⟨tr, htr, hg⟩ := bind_ok.mp hg
  obtain ⟨limit, -, hg⟩ := bind_ok.mp hg
  cases hg
  rw [hall.1] at htr
  cases htr
  exact ⟨rfl, hall.2, rfl⟩

section
variable {c : Constraints} {storageId : Str} {env : PostEnv} {body : FlowSegmentPostBody} {params : RegisterParams}
  {hash key : Str} {f : Uuid} {t : Time} {d d₁ d' : DB} {resp : Response} {p : FlowSegmentPost}

/-- **Segments are listed as they were sent.** A request acquires its key and its response reports `p` as
registered. Then every listing of the flow that is read to its end has a segment that is `p`, and it
can be read to its end if all that the store held was put there through POST. -/
theorem accepted_listed_as_sent (hbody : registerParamsFromAPI body = .ok params)
    (hacq : (acquire key hash env.expiresAt).run t d = (.ok { status := .statusAcquired }, d₁))
    (hpost : (postFlowSegments c storageId env ⟨some f, some (postBody body hash), key⟩).run t d = (.ok resp, d'))
    (hp : p ∈ body.posts) (hacc : resp.Accepts p) (hids : d'.IdsFit) (s : S3Store) (R : JsonReader)
    {g : GetFlowSegmentsParams} {listParams : ListParams} (hg : listParamsFromAPI g = .ok listParams)
    (hall : g.timerange = none ∧ g.objectId = none) :
    (SegmentInv SegmentRow.WellStored d → ∃ listed, GetWalk s R f g d' none listed) ∧
    ∀ listed, GetWalk s R f g d' none listed → ∃ a ∈ listed, Returned p g.presigned a := by
  obtain ⟨res, d₂, hreg, hsame, hreported⟩ := post_registered hbody hacq hpost hacc
  obtain ⟨⟨r, hr, -, hrec⟩, flow, hflow⟩ := accepted_stored hbody hreg hp hreported
  have hsegs : d'.segments = d₂.segments := by rw [hsame.rest]
  have hflows : d'.flows = d₂.flows := by rw [hsame.rest]
  obtain ⟨htr, hobj, hpre⟩ := listParams_all hg hall
  have hb : Filters (flowQuery f listParams) none := .all htr
  constructor
  · intro hinv
    have hinv₁ : SegmentInv SegmentRow.WellStored d₁ := hinv.of_eq (by rw [(acquire_acquired hacq).2.2])
    have hposted : Request.Posted (.registerBatch env.nextval ⟨f, params.segments⟩) := ⟨body, params, hbody, rfl⟩
    have hinv₂ : SegmentInv SegmentRow.WellStored d₂ := by
      have hdb : SegmentInv SegmentRow.WellStored
          ((registerBatch c storageId env.nextval ⟨f, params.segments⟩).run t d₁).2 :=
        registerBatch_db hinv₁ (insertSegments_apart hinv₁ hposted.stores)
      rwa [hreg] at hdb
    have hrows : ∀ x ∈ d'.segmentsOf f, x.WellStored := fun x hx =>
      (hinv₂.of_eq hsegs).rows x (List.mem_filter.mp hx).1
    have hscan : ∀ x ∈ d'.segmentsOf f, ∃ it, scanSegment x = .ok it := by
      intro x hx
      obtain ⟨_, tr, hparse, -⟩ := (hrows x hx).canonical.readable
      exact scanSegment_some ⟨tr, hparse⟩ (hrows x hx).texts
    obtain ⟨pages, ps, hwalk, -⟩ :=
      segmentWalk_total (R := R) (q := flowQuery f listParams) (hflows ▸ hflow) hb hids hscan
    have hcheck : SegmentService.checkTimerange listParams.timerange = .ok () := by
      rw [htr]
      rfl
    refine ⟨_, getWalk_of_segmentWalk hg hcheck (fun x hx => (hrows x hx).canonical.readable)
      (hwalk (List.replicate pages.length 0) (List.length_replicate ..)) ?_ rfl rfl⟩
    intro x hx
    obtain ⟨_, -, rfl⟩ := List.mem_map.mp hx
    rfl
  · intro listed hlisted
    obtain ⟨times, pages, hwalk, rfl⟩ := hlisted.segmentWalk hg
    have hstate : ∀ x ∈ times.map (·, d'), x.2 = d' := by
      intro x hx
      obtain ⟨_, -, rfl⟩ := List.mem_map.mp hx
      rfl
    have hmem : r ∈ d'.segmentsOf f := by
      rw [DB.segmentsOf, hsegs]
      exact hr
    have hcond : listCond (flowQuery f listParams) none r = true := by
      simp only [listCond, flowQuery, SegmentService.listQuery, hobj]
      rfl
    obtain ⟨seg, hseg, hshows⟩ := hwalk.returns hb (fun x hx => (hstate x hx).symm ▸ hids)
      (fun x hx => (hstate x hx).symm ▸ hmem) hcond
    refine ⟨servedSegment s listParams.presigned seg, List.mem_map_of_mem hseg, ?_⟩
    rw [hpre]
    exact returned_of_shows hrec hshows s g.presigned

end

def fullPost : FlowSegmentPost where
  objectId := lit "o"
  timerange := lit "[0:0_1:0)"
  tsOffset := some (lit "-0:0")
  objectTimerange := some (lit "[5:0_6:0)")
  lastDuration := some (lit "0:40000000")
  keyFrameCount := some 1
  sampleOffset := some 2
  sampleCount := some 3
  getUrls := some [⟨lit "origin", lit "https://media/o"⟩]

def fullParams : RegisterParams where
  flowId := 0
  segments := [{ sampleSegment "o" "[0:0_1:0)" 0 1 with
    tsOffset := some ⟨0, 0⟩, tsOffsetRaw := lit "-0:0"
    objectTimerange := some ⟨some ⟨5, 0⟩, .inclusive, some ⟨6, 0⟩, .exclusive⟩, objectTimerangeRaw := lit "[5:0_6:0)"
    lastDuration := some ⟨0, 40000000⟩, lastDurationRaw := lit "0:40000000"
    keyFrameCount := some 1, sampleOffset := some 2, sampleCount := some 3
    getUrls := [⟨lit "https://media/o", lit "origin", false⟩] }]

def fullStore : DB :=
  ((postFlowSegments {} (lit "default") { expiresAt := 86400000000 }
    ⟨some 1, some (postBody (.single fullPost) (lit "a")), lit "k"⟩).run 1 oneFlow).2

theorem fullPost_listed_as_sent :
    ∃ listed, GetWalk plainStore canonicalReader 1 {} fullStore none listed ∧
      ∃ a ∈ listed, Returned fullPost none a := by
  have hbody : registerParamsFromAPI (.single fullPost) = .ok fullParams := by decide +kernel
  have hids : fullStore.IdsFit := by decide +kernel
  have hinv : SegmentInv SegmentRow.WellStored oneFlow := segmentInv_empty.of_eq rfl
  have hacq : (acquire (lit "k") (lit "a") 86400000000).run 1 oneFlow =
      (.ok { status := .statusAcquired }, ((acquire (lit "k") (lit "a") 86400000000).run 1 oneFlow).2) :=
    Prod.ext (by decide +kernel) rfl
  have hpost : (postFlowSegments {} (lit "default") { expiresAt := 86400000000 }
      ⟨some 1, some (postBody (.single fullPost) (lit "a")), lit "k"⟩).run 1 oneFlow = (.ok .created, fullStore) :=
    Prod.ext (by decide +kernel) rfl
  obtain ⟨hwalk, hlisted⟩ := accepted_listed_as_sent hbody hacq hpost List.mem_cons_self trivial hids plainStore
    canonicalReader (g := {}) rfl ⟨rfl, rfl⟩
  obtain ⟨listed, hget⟩ := hwalk hinv
  exact ⟨listed, hget, hlisted listed hget⟩

end OpenTams
