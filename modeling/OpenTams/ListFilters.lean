import OpenTams.FlowPages
import OpenTams.HeadSources
import OpenTams.PutFlow
import OpenTams.SegmentRead

/-!
# The filters of the two listings

GET of `/flows` and `/sources`, from the parameters of the query to the items of
the body. The handlers pass every filter on to the store but those on tags, which
they never read, and a `source_id` that is not a UUID, which the validator of the API
refuses before they see it; what the store is given it honours.
-/

namespace OpenTams

open Sql Sql.Prog

/-! ## GetFlows -/

/-- `api.GetFlowsParams`. `sourceId` is what `uuid.Parse` makes of the text; the parameters `tag.x` and
`tag_exists.x` are lists of their names `x` and values. -/
structure GetFlowsParams where
  sourceId : Option (Option Uuid) := none
  timerange : Option Str := none
  format : Option Str := none
  codec : Option Str := none
  label : Option Str := none
  tagName : List (Str × Str) := []
  tagExistsName : List (Str × Bool) := []
  frameWidth : Option Int64 := none
  frameHeight : Option Int64 := none
  page : Option Str := none
  limit : Option Int64 := none

def Err.isOutOfRange : Err → Bool
  | .bounds .startOutOfRange | .bounds .endOutOfRange => true
  | .wrap _ e => e.isOutOfRange
  | _ => false

inductive GetFlowsResponse where
  | ok (body : List FlowCommon) (headers : PagingHeaders)
  | badRequest (p : Problem)
  deriving DecidableEq

def getFlows400InvalidTimerange (detail : Msg) : GetFlowsResponse :=
  .badRequest (problemPtrs (problemTypeOf "invalid-timerange") "Bad Request" detail 400)

def ListedFlow.stored (f : ListedFlow) : StoredFlow := ⟨f.row, f.tags, []⟩

namespace Handler

def flowsFilter (params : GetFlowsParams) : ListFlowsParams where
  limit := match params.limit with
    | none => 100
    | some limit => if 1000 < limit then 1000 else limit
  pageFrom := params.page
  format := params.format
  codec := params.codec
  label := params.label
  frameWidth := params.frameWidth
  frameHeight := params.frameHeight
  sourceId := params.sourceId.join

def parseGetFlowsParams (params : GetFlowsParams) : Except ParseError ListFlowsParams :=
  match params.timerange with
  | none => .ok (flowsFilter params)
  | some s => match parse s with
    | .error e => .error e
    | .ok parsed => .ok { flowsFilter params with timerange := some parsed }

def flowsListed (p : ListFlowsParams) : Except Err FlowPage → Tx GetFlowsResponse
  | .error e =>
    if e.isOutOfRange then .ret (getFlows400InvalidTimerange (.text "timerange: " :: e.text)) else .fail e
  | .ok page => .ret (.ok (page.items.map fun f => mapFlowToAPI f.stored)
      (({ xPagingLimit := some p.limit.toInt } : PagingHeaders).withNext page.nextCursor))

def getFlows (R : JsonReader) (J : JsonFns) (params : GetFlowsParams) : Tx GetFlowsResponse :=
  match parseGetFlowsParams params with
  | .error e => .ret (getFlows400InvalidTimerange [.text "timerange: ", .parse e])
  | .ok p => do
    let page ← (listFlows R J p).attempt
    flowsListed p page

end Handler

/-- A handler behind the validator of the API, which answers 400 itself to what it refuses. -/
def validated {α : Type} (refused : Bool) (handler : Tx α) : Tx (Option α) :=
  if refused then .ret none else handler.map some

/-! ## What the filters ask for -/

/-- The tags of an item match the filters on tags; `M` says when a value of a filter matches that of a tag. -/
structure TagsMatch (M : Str → Json → Prop) (tagName : List (Str × Str)) (tagExistsName : List (Str × Bool))
    (tags : List (Str × Json)) : Prop where
  values : ∀ x ∈ tagName, ∃ v, (x.1, v) ∈ tags ∧ ∃ text ∈ csvSplit x.2, M text v
  present : ∀ x ∈ tagExistsName, x.2 = true ↔ ∃ v, (x.1, v) ∈ tags

def FrameIs (J : JsonFns) (name : String) (value : Int64) (a : FlowCommon) : Prop :=
  ∃ text, J.field a.essenceParameters (lit name) = some text ∧ J.toInt text = .ok value.toInt

structure FlowMatches (J : JsonFns) (M : Str → Json → Prop) (params : GetFlowsParams) (d : DB) (a : FlowCommon) :
    Prop where
  source : ∀ x, params.sourceId = some x → x = some a.sourceId
  format : ∀ x, params.format = some x → a.format = x
  codec : ∀ x, params.codec = some x → a.codec = some x
  label : ∀ x, params.label = some x → a.label = some x
  width : ∀ w, params.frameWidth = some w → FrameIs J "frame_width" w a
  height : ∀ h, params.frameHeight = some h → FrameIs J "frame_height" h a
  timerange : ∀ s, params.timerange = some s → ∃ tr r, parse s = .ok tr ∧ d.flows.get a.id = some r ∧ InRange d tr r
  tags : TagsMatch M params.tagName params.tagExistsName a.tags

structure GetSourcesParams extends SourcesRequest where
  tagName : List (Str × Str) := []
  tagExistsName : List (Str × Bool) := []

structure SourceMatches (M : Str → Json → Prop) (params : GetSourcesParams) (a : ApiSource) : Prop where
  format : ∀ x, params.format = some x → a.format = x
  label : ∀ x, params.label = some x → a.label = some x
  tags : TagsMatch M params.tagName params.tagExistsName (a.tags.getD [])

namespace Server

/-- `refuses` is what the validator refuses beside a `source_id` that is not a UUID. -/
def getFlows (refuses : GetFlowsParams → Bool) (R : JsonReader) (J : JsonFns) (params : GetFlowsParams) :
    Tx (Option GetFlowsResponse) :=
  validated (params.sourceId = some none || refuses params) (Handler.getFlows R J params)

def getSources (refuses : GetSourcesParams → Bool) (R : JsonReader) (J : JsonFns) (params : GetSourcesParams) :
    Tx (Option GetSourcesResponse) :=
  validated (refuses params) (Handler.getSources R J params.toSourcesRequest)

end Server

/-- The request is answered with the items in a state whose segments are as they were registered. -/
def ServesFlows (refuses : GetFlowsParams → Bool) (R : JsonReader) (J : JsonFns) (params : GetFlowsParams) (d : DB)
    (body : List FlowCommon) : Prop :=
  SegmentInv SegmentRow.Canonical d ∧
    ∃ t headers, ((Server.getFlows refuses R J params).run t d).1 = .ok (some (.ok body headers))

def ServesSources (refuses : GetSourcesParams → Bool) (R : JsonReader) (J : JsonFns) (params : GetSourcesParams) (d : DB)
    (body : List ApiSource) : Prop :=
  ∃ t headers, ((Server.getSources refuses R J params).run t d).1 = .ok (some ⟨body, headers⟩)

/-! ## What is honoured -/

section
variable {R : JsonReader} {J : JsonFns} {t : Time} {d : DB}

theorem settles_listFlows (R : JsonReader) (J : JsonFns) (p : ListFlowsParams) : (listFlows R J p).Settles := by
  unfold listFlows
  split
  · exact settles_fail _
  split
  · exact settles_stmtE _ _ _ _
  split
  · exact settles_fail _
  · exact settles_stmtE _ _ _ _

theorem validated_ok {α : Type} {refused : Bool} {handler : Tx α} {x : α} :
    ((validated refused handler).run t d).1 = .ok (some x) ↔ refused = false ∧ (handler.run t d).1 = .ok x := by
  unfold validated
  cases refused with
  | true => exact iff_of_false (fun h => by cases h) fun h => by cases h.1
  | false =>
    rw [if_neg Bool.false_ne_true, run_map, and_iff_right rfl]
    cases (handler.run t d).1 with
    | error e => exact iff_of_false (fun h => by cases h) fun h => by cases h
    | ok y => simp [Except.map]

theorem getFlows_ok {params : GetFlowsParams} {body : List FlowCommon} {headers : PagingHeaders} :
    ((Handler.getFlows R J params).run t d).1 = .ok (.ok body headers) ↔
      ∃ p page, Handler.parseGetFlowsParams params = .ok p ∧ ((listFlows R J p).run t d).1 = .ok page ∧
        body = page.items.map (fun f => mapFlowToAPI f.stored) ∧
        headers = ({ xPagingLimit := some p.limit.toInt } : PagingHeaders).withNext page.nextCursor := by
  unfold Handler.getFlows
  cases Handler.parseGetFlowsParams params with
  | error e =>
    refine iff_of_false (fun h => by cases h) ?_
    rintro ⟨_, _, h, -⟩
    cases h
  | ok p =>
    dsimp only
    rw [run_bind (settles_listFlows R J p).attempt, run_attempt]
    dsimp only
    cases hpage : ((listFlows R J p).run t d).1 with
    | error e =>
      refine iff_of_false (fun h => ?_) ?_
      · rw [Handler.flowsListed] at h
        split at h <;> cases h
      · rintro ⟨_, _, hp, h, -⟩
        cases hp
        cases hpage.symm.trans h
    | ok page =>
      constructor
      · intro h
        cases h
        exact ⟨p, page, rfl, hpage, rfl, rfl⟩
      · rintro ⟨_, _, hp, h, rfl, rfl⟩
        cases hp
        cases hpage.symm.trans h
        rfl

theorem parseGetFlowsParams_ok {params : GetFlowsParams} {p : ListFlowsParams}
    (h : Handler.parseGetFlowsParams params = .ok p) :
    p = { Handler.flowsFilter params with timerange := p.timerange } ∧
      params.timerange.map parse = p.timerange.map .ok := by
  unfold Handler.parseGetFlowsParams at h
  cases htr : params.timerange with
  | none =>
    rw [htr] at h
    cases h
    exact ⟨rfl, rfl⟩
  | some s =>
    rw [htr] at h
    dsimp only at h
    cases hs : parse s with
    | error e =>
      rw [hs] at h
      cases h
    | ok tr =>
      rw [hs] at h
      cases h
      exact ⟨rfl, congrArg some hs⟩

theorem flowMatches_of_satisfies {M : Str → Json → Prop} {params : GetFlowsParams} {p : ListFlowsParams}
    (hp : Handler.parseGetFlowsParams params = .ok p) {r : FlowRow} (hr : r ∈ d.flows.rows) (hs : Satisfies J p d r)
    (hsource : params.sourceId ≠ some none)
    (htags : TagsMatch M params.tagName params.tagExistsName (mapFlowToAPI (listedFlow d r).stored).tags) :
    FlowMatches J M params d (mapFlowToAPI (listedFlow d r).stored) := by
  obtain ⟨heq, htr⟩ := parseGetFlowsParams_ok hp
  rw [heq] at hs
  have hframe : ∀ {name value}, HasFrame J name value r →
      FrameIs J name value (mapFlowToAPI (listedFlow d r).stored) := by
    rintro name value ⟨e, text, he, hf, hi⟩
    refine ⟨text, ?_, hi⟩
    show J.field (r.essenceParameters.getD []) (lit name) = some text
    rw [he]
    exact hf
  refine ⟨fun x hx => ?_, hs.columns.format, hs.columns.codec, hs.columns.label, fun w hw => hframe (hs.width w hw),
    fun h hh => hframe (hs.height h hh), fun s hx => ?_, htags⟩
  · cases x with
    | none => exact absurd hx hsource
    | some id =>
      have hid : r.sourceId = id := hs.columns.source id (congrArg Option.join hx)
      exact congrArg some hid.symm
  · rw [hx, Option.map_some] at htr
    cases hq : p.timerange with
    | none =>
      rw [hq] at htr
      cases htr
    | some tr =>
      rw [hq] at htr
      exact ⟨tr, r, Option.some.inj htr, Table.get_of_mem hr, hs.inRange tr hq⟩

theorem sourceMatches_of_cond {M : Str → Json → Prop} {params : GetSourcesParams} {r : SourceRow}
    (h : sourceCond J (Handler.getSourcesParams params.toSourcesRequest) d r = true)
    (htags : TagsMatch M params.tagName params.tagExistsName ((mapSource (scanSource d r)).tags.getD [])) :
    SourceMatches M params (mapSource (scanSource d r)) := by
  simp only [sourceCond, Handler.getSourcesParams, Bool.and_eq_true, Option.all_eq_true, decide_eq_true_eq] at h
  exact ⟨h.1.1.2, h.1.1.1, htags⟩

/-! ## What is not -/

/-- Filters on tags are not satisfied whatever the tags are. -/
theorem exists_not_tagsMatch (M : Str → Json → Prop) {tagName : List (Str × Str)} {tagExistsName : List (Str × Bool)}
    (h : ¬ (tagName = [] ∧ tagExistsName = [])) :
    ∃ tag : Option (Str × Json), ¬ TagsMatch M tagName tagExistsName tag.toList := by
  by_cases hname : tagName = []
  · obtain ⟨⟨name, present⟩, hmem⟩ := List.exists_mem_of_ne_nil _ fun he => h ⟨hname, he⟩
    cases present with
    | true =>
      refine ⟨none, fun hm => ?_⟩
      obtain ⟨v, hv⟩ := (hm.present _ hmem).mp rfl
      cases hv
    | false =>
      refine ⟨some (name, []), fun hm => ?_⟩
      cases (hm.present _ hmem).mpr ⟨[], List.mem_singleton.mpr rfl⟩
  · obtain ⟨x, hmem⟩ := List.exists_mem_of_ne_nil _ hname
    refine ⟨none, fun hm => ?_⟩
    obtain ⟨v, hv, -⟩ := hm.values x hmem
    cases hv

def DB.retag (d : DB) (id : Uuid) (tag : Option (Str × Json)) : DB :=
  { d with
    flowTags := ⟨tag.toList.map fun x => ⟨id, x.1, x.2⟩, by cases tag <;> simp⟩
    sourceTags := ⟨tag.toList.map fun x => ⟨id, x.1, x.2⟩, by cases tag <;> simp⟩ }

section
variable {id : Uuid} {tag : Option (Str × Json)}

theorem listedFlow_retag (r : FlowRow) : (listedFlow (d.retag r.id tag) r).tags = tag.toList := by
  cases tag <;> simp [listedFlow, DB.tagsOf, DB.retag]

theorem scanSource_retag (r : SourceRow) : (scanSource (d.retag r.id tag) r).tags = tag.toList := by
  cases tag <;> simp [scanSource, DB.sourceTagsOf, DB.retag]

/-- A listing that is not asked for tags finds the same rows. -/
theorem fetchFlows_retag {p : ListFlowsParams} (hexists : p.tagExists = []) (hvalues : p.tagValues = [])
    {bounds : Option (Option (Option Int64 × Option Int64))} {k : Option (Time × Uuid)} {page : FlowPage}
    (h : ((fetchFlows J p bounds k).run t d).1 = .ok page) :
    ∃ rows : List FlowRow, page.items = rows.map (listedFlow d) ∧
      ∀ id tag, ((fetchFlows J p bounds k).run t (d.retag id tag)).1 =
        .ok ⟨rows.map (listedFlow (d.retag id tag)), page.nextCursor⟩ := by
  have hrows : ∀ id tag, flowRows J p bounds k (d.retag id tag) = flowRows J p bounds k d := by
    intro id tag
    simp only [flowRows, flowConds, hexists, hvalues]
    rfl
  rw [run_fetchFlows] at h
  cases hfound : flowRows J p bounds k d with
  | error e =>
    rw [hfound] at h
    cases h
  | ok rows =>
    rw [hfound] at h
    cases h
    refine ⟨_, rfl, fun id tag => ?_⟩
    rw [run_fetchFlows, hrows, hfound]
    rfl

theorem listFlows_retag {p : ListFlowsParams} (hexists : p.tagExists = []) (hvalues : p.tagValues = []) {page : FlowPage}
    (h : ((listFlows R J p).run t d).1 = .ok page) :
    ∃ rows : List FlowRow, page.items = rows.map (listedFlow d) ∧
      ∀ id tag, ((listFlows R J p).run t (d.retag id tag)).1 =
        .ok ⟨rows.map (listedFlow (d.retag id tag)), page.nextCursor⟩ := by
  unfold listFlows at h ⊢
  cases hb : flowBounds p.timerange with
  | error e =>
    rw [hb] at h
    cases h
  | ok bounds =>
    rw [hb] at h
    dsimp only at h ⊢
    cases hc : p.pageFrom with
    | none =>
      rw [hc] at h
      exact fetchFlows_retag hexists hvalues h
    | some s =>
      rw [hc] at h
      dsimp only at h ⊢
      cases hd : decodeCursor R s with
      | none =>
        rw [hd] at h
        cases h
      | some c =>
        rw [hd] at h
        exact fetchFlows_retag hexists hvalues h

theorem servesFlows_retag {refuses : GetFlowsParams → Bool} {params : GetFlowsParams} {body : List FlowCommon}
    (h : ServesFlows refuses R J params d body) {a : FlowCommon} (ha : a ∈ body) (tag : Option (Str × Json)) :
    ∃ d' body', ServesFlows refuses R J params d' body' ∧ ∃ a ∈ body', a.tags = tag.toList := by
  obtain ⟨hinv, t, headers, hget⟩ := h
  obtain ⟨haccepted, hget⟩ := validated_ok.mp hget
  obtain ⟨p, page, hp, hpage, rfl, rfl⟩ := getFlows_ok.mp hget
  have hfilter := (parseGetFlowsParams_ok hp).1
  obtain ⟨rows, hitems, hretag⟩ := listFlows_retag (by rw [hfilter]; rfl) (by rw [hfilter]; rfl) hpage
  rw [hitems, List.map_map] at ha
  obtain ⟨r, hr, rfl⟩ := List.mem_map.mp ha
  refine ⟨d.retag r.id tag, _, ⟨hinv.of_eq rfl, t, _, validated_ok.mpr ⟨haccepted, getFlows_ok.mpr
    ⟨p, _, hp, hretag r.id tag, rfl, rfl⟩⟩⟩, mapFlowToAPI (listedFlow (d.retag r.id tag) r).stored, ?_, listedFlow_retag r⟩
  exact List.mem_map_of_mem (List.mem_map_of_mem hr)

/-- The rows of a listing meet the conditions, and it finds them whatever their tags are. -/
theorem getSources_rows {req : SourcesRequest} {body : List ApiSource} {headers : PagingHeaders}
    (h : ((Handler.getSources R J req).run t d).1 = .ok ⟨body, headers⟩) :
    ∃ rows : List SourceRow, body = rows.map (fun r => mapSource (scanSource d r)) ∧
      (∀ r ∈ rows, sourceCond J (Handler.getSourcesParams req) d r = true) ∧
      ∀ id tag, ((Handler.getSources R J req).run t (d.retag id tag)).1 =
        .ok ⟨rows.map fun r => mapSource (scanSource (d.retag id tag) r), headers⟩ := by
  have hget : Handler.getSources R J req = (listSources R J (Handler.getSourcesParams req)).map fun page =>
      ⟨page.items.map mapSource, sourcesHeaders (Handler.getSourcesParams req) page⟩ := rfl
  have hrows : ∀ c id tag, sourceRows J (Handler.getSourcesParams req) c (d.retag id tag) =
      sourceRows J (Handler.getSourcesParams req) c d := fun _ _ _ => rfl
  simp only [hget, run_map, listSources_eq] at h ⊢
  cases hc : pageCursor R (Handler.getSourcesParams req).pageFrom with
  | none =>
    rw [hc] at h
    cases h
  | some c =>
    rw [hc] at h
    simp only [fetchSources, run_read, hrows] at h ⊢
    cases hfound : sourceRows J (Handler.getSourcesParams req) c d with
    | error e =>
      rw [hfound] at h
      cases h
    | ok rows =>
      rw [hfound] at h
      cases h
      refine ⟨_, List.map_map, fun r hr => ?_, fun id tag => ?_⟩
      · unfold sourceRows at hfound
        split at hfound
        · cases hfound
        split at hfound
        · cases hfound
        cases hfound
        exact (mem_rowsAfter.mp ((List.take_sublist _ _).subset (mem_cutPage hr))).2.1
      · simp [Except.map, sourcePage, sourcesHeaders]

theorem servesSources_retag {refuses : GetSourcesParams → Bool} {params : GetSourcesParams} {body : List ApiSource}
    (h : ServesSources refuses R J params d body) {a : ApiSource} (ha : a ∈ body) (tag : Option (Str × Json)) :
    ∃ d' body', ServesSources refuses R J params d' body' ∧ ∃ a ∈ body', a.tags.getD [] = tag.toList := by
  obtain ⟨t, headers, hget⟩ := h
  obtain ⟨haccepted, hget⟩ := validated_ok.mp hget
  obtain ⟨rows, rfl, -, hretag⟩ := getSources_rows hget
  obtain ⟨r, hr, rfl⟩ := List.mem_map.mp ha
  refine ⟨d.retag r.id tag, _, ⟨t, _, validated_ok.mpr ⟨haccepted, hretag r.id tag⟩⟩, _, List.mem_map_of_mem hr, ?_⟩
  rw [← scanSource_retag (d := d) r, mapSource]
  dsimp only
  split
  · rename_i hnil
    rw [hnil]
    rfl
  · rfl

end

end

theorem flowsHonoured_of_untagged {M : Str → Json → Prop} {R : JsonReader} {J : JsonFns} {d : DB}
    {refuses : GetFlowsParams → Bool} {params : GetFlowsParams} {body : List FlowCommon}
    (h : ServesFlows refuses R J params d body)
    (htags : ∀ a ∈ body, TagsMatch M params.tagName params.tagExistsName a.tags) :
    ∀ a ∈ body, FlowMatches J M params d a := by
  obtain ⟨hinv, t, headers, hget⟩ := h
  obtain ⟨haccepted, hget⟩ := validated_ok.mp hget
  have hsource : params.sourceId ≠ some none := by
    intro hnone
    rw [hnone] at haccepted
    cases haccepted
  obtain ⟨p, page, hp, hpage, rfl, -⟩ := getFlows_ok.mp hget
  obtain ⟨bounds, hb, hitems⟩ := listFlows_items hpage
  intro a ha
  obtain ⟨x, hx, rfl⟩ := List.mem_map.mp ha
  obtain ⟨r, hr, rfl, hcond⟩ := hitems x hx
  have hparsed : ∀ tr, p.timerange = some tr → ∃ text, parse text = .ok tr := by
    intro tr htr
    have hmap := (parseGetFlowsParams_ok hp).2
    rw [htr] at hmap
    obtain ⟨text, -, htext⟩ := Option.map_eq_some_iff.mp hmap
    exact ⟨text, htext⟩
  have hs : Satisfies J p d r := (flowConds_true (flowBounds_inRange hinv hparsed hb)).mp hcond
  exact flowMatches_of_satisfies hp hr hs hsource (htags _ ha)

theorem sourcesHonoured_of_untagged {M : Str → Json → Prop} {R : JsonReader} {J : JsonFns} {d : DB}
    {refuses : GetSourcesParams → Bool} {params : GetSourcesParams} {body : List ApiSource}
    (h : ServesSources refuses R J params d body)
    (htags : ∀ a ∈ body, TagsMatch M params.tagName params.tagExistsName (a.tags.getD [])) :
    ∀ a ∈ body, SourceMatches M params a := by
  obtain ⟨t, headers, hget⟩ := h
  obtain ⟨rows, rfl, hconds, -⟩ := getSources_rows (validated_ok.mp hget).2
  intro a ha
  obtain ⟨r, hr, rfl⟩ := List.mem_map.mp ha
  exact sourceMatches_of_cond (hconds r hr) (htags _ ha)

/-- Listings that show any tags, or none, on an item they show honour their filters in every state only without
filters on tags. -/
theorem untagged_of_honoured {α : Type} {serves : DB → List α → Prop} {honours : DB → α → Prop}
    {tags : α → List (Str × Json)} {values : List (Str × Str)} {present : List (Str × Bool)} {M : Str → Json → Prop}
    (hretag : ∀ d body, serves d body → ∀ a ∈ body, ∀ tag : Option (Str × Json),
      ∃ d' body', serves d' body' ∧ ∃ a ∈ body', tags a = tag.toList)
    (htags : ∀ d a, honours d a → TagsMatch M values present (tags a)) {d : DB} {body : List α} (h : serves d body)
    (hbody : body ≠ []) (hall : ∀ d body, serves d body → ∀ a ∈ body, honours d a) : values = [] ∧ present = [] := by
  by_contra hne
  obtain ⟨tag, htag⟩ := exists_not_tagsMatch M hne
  obtain ⟨a, ha⟩ := List.exists_mem_of_ne_nil _ hbody
  obtain ⟨d', body', h', a', ha', heq⟩ := hretag d body h a ha tag
  exact htag (heq ▸ htags d' a' (hall d' body' h' a' ha'))

/-- **Which filters are honoured.** A request that some state answers with an item has every item of every response
satisfy every filter it supplies, whatever the state, exactly if it has no filter on tags. -/
theorem filters_honoured_iff (M : Str → Json → Prop) (R : JsonReader) (J : JsonFns) :
    (∀ refuses params, (∃ d body, ServesFlows refuses R J params d body ∧ body ≠ []) →
      ((∀ d body, ServesFlows refuses R J params d body → ∀ a ∈ body, FlowMatches J M params d a) ↔
        params.tagName = [] ∧ params.tagExistsName = [])) ∧
    ∀ refuses params, (∃ d body, ServesSources refuses R J params d body ∧ body ≠ []) →
      ((∀ d body, ServesSources refuses R J params d body → ∀ a ∈ body, SourceMatches M params a) ↔
        params.tagName = [] ∧ params.tagExistsName = []) := by
  have huntagged : ∀ tags, TagsMatch M [] [] tags := fun _ => ⟨fun _ h => (by cases h), fun _ h => by cases h⟩
  constructor
  · rintro refuses params ⟨d, body, hserves, hbody⟩
    refine ⟨untagged_of_honoured (fun d body h a ha tag => servesFlows_retag h ha tag) (fun d a h => h.tags) hserves hbody,
      ?_⟩
    rintro ⟨hname, hexists⟩ d body hserves
    refine flowsHonoured_of_untagged hserves fun a _ => ?_
    rw [hname, hexists]
    exact huntagged _
  · rintro refuses params ⟨d, body, hserves, hbody⟩
    refine ⟨untagged_of_honoured (fun d body h a ha tag => servesSources_retag h ha tag) (fun d a h => h.tags) hserves hbody,
      ?_⟩
    rintro ⟨hname, hexists⟩ d body hserves
    refine sourcesHonoured_of_untagged hserves fun a _ => ?_
    rw [hname, hexists]
    exact huntagged _

/-! ## A flow and a source without tags -/

def untaggedFlows : List FlowCommon := oneFlow.flows.rows.map fun r => mapFlowToAPI (listedFlow oneFlow r).stored

def untaggedSources : List ApiSource := oneFlow.sources.rows.map fun r => mapSource (scanSource oneFlow r)

/-- A request for video flows is answered with the flow, which is one. -/
theorem format_filter_honoured :
    ∃ body, ServesFlows (fun _ => false) canonicalReader decimalJson { format := some (lit "urn:x-nmos:format:video") }
        oneFlow body ∧ body ≠ [] ∧
      ∀ a ∈ body, FlowMatches decimalJson (fun _ _ => True) { format := some (lit "urn:x-nmos:format:video") }
        oneFlow a := by
  have hserves : ServesFlows (fun _ => false) canonicalReader decimalJson
      { format := some (lit "urn:x-nmos:format:video") } oneFlow untaggedFlows :=
    ⟨segmentInv_empty.of_eq rfl, 1, { xPagingLimit := some 100 }, by decide +kernel⟩
  have hbody : untaggedFlows ≠ [] := by decide +kernel
  exact ⟨untaggedFlows, hserves, hbody,
    ((filters_honoured_iff _ _ _).1 _ _ ⟨_, _, hserves, hbody⟩).mpr ⟨rfl, rfl⟩ _ _ hserves⟩

/-- Both are returned to a request for what has the tag `news`, although any value is taken for a match. -/
theorem filters_ignored :
    (∃ body, ServesFlows (fun _ => false) canonicalReader decimalJson { tagExistsName := [(lit "news", true)] } oneFlow
        body ∧
      ∃ a ∈ body, ¬ FlowMatches decimalJson (fun _ _ => True) { tagExistsName := [(lit "news", true)] } oneFlow a) ∧
    ∃ body, ServesSources (fun _ => false) canonicalReader decimalJson { tagExistsName := [(lit "news", true)] } oneFlow
        body ∧
      ∃ a ∈ body, ¬ SourceMatches (fun _ _ => True) { tagExistsName := [(lit "news", true)] } a := by
  have hflow : ∃ a ∈ untaggedFlows, a.tags = [] := by decide +kernel
  have hsource : ∃ a ∈ untaggedSources, a.tags = none := by decide +kernel
  refine ⟨⟨untaggedFlows, ⟨segmentInv_empty.of_eq rfl, 1, { xPagingLimit := some 100 }, by decide +kernel⟩, ?_⟩,
    untaggedSources, ⟨1, { xPagingLimit := some 100 }, by decide +kernel⟩, ?_⟩
  · obtain ⟨a, ha, htags⟩ := hflow
    refine ⟨a, ha, fun h => ?_⟩
    obtain ⟨v, hv⟩ := (h.tags.present _ List.mem_cons_self).mp rfl
    rw [htags] at hv
    cases hv
  · obtain ⟨a, ha, htags⟩ := hsource
    refine ⟨a, ha, fun h => ?_⟩
    obtain ⟨v, hv⟩ := (h.tags.present _ List.mem_cons_self).mp rfl
    rw [htags] at hv
    cases hv

end OpenTams
