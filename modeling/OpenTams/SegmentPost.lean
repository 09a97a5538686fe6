import OpenTams.PostSegments
import OpenTams.SegmentPages

/-!
# The body of POST /flows/{id}/segments

`RegisterParamsFromAPI` of `internal/httpx/conversion`: the body is one segment
or an array of them, and each becomes a domain segment that keeps the client's
time strings next to what they parse to. So every row the service stores comes
from strings that parse, which is the invariant of the segment table that
reading it back and comparing with it rest on. What `json.Unmarshal` makes of
the body is an argument.
-/

namespace OpenTams

open Sql Fallible

/-! ## Conversion -/

structure PostGetURL where
  label : Str
  url : Str
  deriving DecidableEq

structure FlowSegmentPost where
  objectId : Str
  timerange : Str
  tsOffset : Option Str := none
  objectTimerange : Option Str := none
  lastDuration : Option Str := none
  keyFrameCount : Option Int64 := none
  sampleOffset : Option Int64 := none
  sampleCount : Option Int64 := none
  getUrls : Option (List PostGetURL) := none
  deriving DecidableEq

/-- What the body unmarshals to; `other` is neither an object nor an array of them. -/
inductive FlowSegmentPostBody where
  | array (arr : List FlowSegmentPost)
  | single (p : FlowSegmentPost)
  | other

def FlowSegmentPostBody.asFlowSegmentPostBody1 : FlowSegmentPostBody → Option (List FlowSegmentPost)
  | .array arr => some arr
  | _ => none

def FlowSegmentPostBody.asFlowSegmentPost : FlowSegmentPostBody → Option FlowSegmentPost
  | .single p => some p
  | _ => none

def timeField {α : Type} (field : String) (f : Str → Except ParseError α) (s : Str) : Except Err α :=
  (f s).mapError fun e => .wrap [.text field, .text ": "] (.parse e)

def optionalTimeField {α : Type} (field : String) (f : Str → Except ParseError α) :
    Option Str → Except Err (Option α)
  | none => .ok none
  | some s => (timeField field f s).map some

def setTimeFields (seg : Segment) (tr : Str) (tsOffset objectTimerange lastDuration : Option Str) :
    Except Err Segment := do
  let parsed ← timeField "timerange" parse tr
  let ts ← optionalTimeField "ts_offset" parseTimestamp tsOffset
  let otr ← optionalTimeField "object_timerange" parse objectTimerange
  let ld ← optionalTimeField "last_duration" parseTimestamp lastDuration
  .ok { seg with
    timerange := parsed
    timerangeRaw := tr
    tsOffset := ts
    tsOffsetRaw := tsOffset.getD []
    objectTimerange := otr
    objectTimerangeRaw := objectTimerange.getD []
    lastDuration := ld
    lastDurationRaw := lastDuration.getD [] }

def zeroSegment (objectId : Str) : Segment :=
  { objectId, timerange := ⟨none, .inclusive, none, .inclusive⟩, timerangeRaw := [] }

def postToSegment (p : FlowSegmentPost) : Except Err Segment := do
  let seg ← setTimeFields (zeroSegment p.objectId) p.timerange p.tsOffset p.objectTimerange p.lastDuration
  .ok { seg with
    keyFrameCount := p.keyFrameCount
    sampleOffset := p.sampleOffset
    sampleCount := p.sampleCount
    getUrls := (p.getUrls.getD []).map fun g => { url := g.url, label := g.label, controlled := false } }

def segmentsFromPosts (i : Nat) : List FlowSegmentPost → Except Err (List Segment)
  | [] => .ok []
  | p :: ps => match postToSegment p with
    | .error e => .error (.app (.new .schemaValidation ([.text "segments[", .int i, .text "]: "] ++ e.text)))
    | .ok seg => (segmentsFromPosts (i + 1) ps).map (seg :: ·)

/-- The flow id is set by the handler. -/
def registerParamsFromPostArray (arr : List FlowSegmentPost) : Except Err RegisterParams :=
  (segmentsFromPosts 0 arr).map fun segments => { flowId := 0, segments }

def registerParamsFromSingle (body : FlowSegmentPostBody) : Except Err RegisterParams :=
  match body.asFlowSegmentPost with
  | some single =>
    if single.objectId ≠ [] then registerParamsFromPostArray [single]
    else .error unexpected
  | none => .error unexpected
where
  unexpected : Err :=
    .app (.new .schemaValidation [.text "request body: expected FlowSegmentPost or [FlowSegmentPost]"])

def registerParamsFromAPI (body : FlowSegmentPostBody) : Except Err RegisterParams :=
  match body.asFlowSegmentPostBody1 with
  | some arr => if 0 < arr.length then registerParamsFromPostArray arr else registerParamsFromSingle body
  | none => registerParamsFromSingle body

def postBody (body : FlowSegmentPostBody) (hash : Str) : PostBody where
  segments := (registerParamsFromAPI body).map (·.segments)
  hash := .ok hash

/-! ## What is converted -/

def FlowSegmentPostBody.posts : FlowSegmentPostBody → List FlowSegmentPost
  | .array arr => arr
  | .single p => [p]
  | .other => []

structure Converts (p : FlowSegmentPost) (seg : Segment) : Prop where
  objectId : seg.objectId = p.objectId
  timerange : seg.timerangeRaw = p.timerange ∧ parse p.timerange = .ok seg.timerange
  tsOffset : seg.tsOffsetRaw = p.tsOffset.getD [] ∧ p.tsOffset.map parseTimestamp = seg.tsOffset.map .ok
  objectTimerange : seg.objectTimerangeRaw = p.objectTimerange.getD [] ∧
    p.objectTimerange.map parse = seg.objectTimerange.map .ok
  lastDuration : seg.lastDurationRaw = p.lastDuration.getD [] ∧
    p.lastDuration.map parseTimestamp = seg.lastDuration.map .ok
  counts : seg.keyFrameCount = p.keyFrameCount ∧ seg.sampleOffset = p.sampleOffset ∧ seg.sampleCount = p.sampleCount
  getUrls : seg.getUrls = (p.getUrls.getD []).map fun g => { url := g.url, label := g.label, controlled := false }

theorem timeField_ok {α : Type} {field : String} {f : Str → Except ParseError α} {s : Str} {a : α} :
    timeField field f s = .ok a ↔ f s = .ok a := mapError_ok

theorem optionalTimeField_ok {α : Type} {field : String} {f : Str → Except ParseError α} {o : Option Str}
    {a : Option α} : optionalTimeField field f o = .ok a ↔ o.map f = a.map .ok :=
  optional_ok (F := optionalTimeField field f) rfl fun _ => rfl

theorem postToSegment_ok {p : FlowSegmentPost} {seg : Segment} (h : postToSegment p = .ok seg) : Converts p seg := by
  obtain ⟨timed, ht, h⟩ := bind_ok.mp h
  obtain ⟨tr, htr, ht⟩ := bind_ok.mp ht
  obtain ⟨ts, hts, ht⟩ := bind_ok.mp ht
  obtain ⟨otr, hotr, ht⟩ := bind_ok.mp ht
  obtain ⟨ld, hld, ht⟩ := bind_ok.mp ht
  cases ht
  cases h
  exact ⟨rfl, ⟨rfl, timeField_ok.mp htr⟩, ⟨rfl, optionalTimeField_ok.mp hts⟩, ⟨rfl, optionalTimeField_ok.mp hotr⟩,
    ⟨rfl, optionalTimeField_ok.mp hld⟩, ⟨rfl, rfl, rfl⟩, rfl⟩

theorem segmentsFromPosts_ok {i : Nat} {ps : List FlowSegmentPost} {segs : List Segment}
    (h : segmentsFromPosts i ps = .ok segs) : List.Forall₂ Converts ps segs := by
  induction ps generalizing i segs with
  | nil =>
    cases h
    exact .nil
  | cons p ps ih =>
    rw [segmentsFromPosts] at h
    split at h
    · cases h
    · rename_i seg hseg
      cases hrest : segmentsFromPosts (i + 1) ps with
      | error e =>
        rw [hrest] at h
        cases h
      | ok rest =>
        rw [hrest] at h
        cases h
        exact .cons (postToSegment_ok hseg) (ih hrest)

theorem registerParamsFromPostArray_ok {arr : List FlowSegmentPost} {params : RegisterParams}
    (h : registerParamsFromPostArray arr = .ok params) : List.Forall₂ Converts arr params.segments := by
  unfold registerParamsFromPostArray at h
  cases hs : segmentsFromPosts 0 arr with
  | error e =>
    rw [hs] at h
    cases h
  | ok segs =>
    rw [hs] at h
    cases h
    exact segmentsFromPosts_ok hs

/-- **What is accepted is converted**, segment by segment, and is not empty. -/
theorem registerParamsFromAPI_ok {body : FlowSegmentPostBody} {params : RegisterParams}
    (h : registerParamsFromAPI body = .ok params) :
    List.Forall₂ Converts body.posts params.segments ∧ params.segments ≠ [] := by
  have hne : ∀ {ps : List FlowSegmentPost}, List.Forall₂ Converts ps params.segments → ps ≠ [] →
      params.segments ≠ [] := by
    intro ps hf hps he
    rw [he] at hf
    exact hps (List.forall₂_nil_right_iff.mp hf)
  cases body with
  | array arr =>
    simp only [registerParamsFromAPI, FlowSegmentPostBody.asFlowSegmentPostBody1] at h
    split at h
    · rename_i hpos
      have hf := registerParamsFromPostArray_ok h
      exact ⟨hf, hne hf (List.length_pos_iff.mp hpos)⟩
    · cases h
  | single p =>
    simp only [registerParamsFromAPI, FlowSegmentPostBody.asFlowSegmentPostBody1, registerParamsFromSingle,
      FlowSegmentPostBody.asFlowSegmentPost] at h
    split at h
    · have hf := registerParamsFromPostArray_ok h
      exact ⟨hf, hne hf (List.cons_ne_nil p [])⟩
    · cases h
  | other => cases h

/-! ## What is stored -/

structure Recorded (p : FlowSegmentPost) (r : SegmentRow) : Prop where
  objectId : r.objectId = p.objectId
  timerange : r.timerange = p.timerange
  tsOffset : nullIfEmpty r.tsOffset = p.tsOffset
  objectTimerange : r.objectTimerange = p.objectTimerange
  lastDuration : r.lastDuration = p.lastDuration
  counts : r.keyFrameCount = p.keyFrameCount ∧ r.sampleOffset = p.sampleOffset ∧ r.sampleCount = p.sampleCount
  getUrls : r.getUrls.getD [] = (p.getUrls.getD []).map fun g => { url := g.url, label := g.label, controlled := false }

/-- A row whose strings can all be parsed, and whose bounds are what its timerange denotes. -/
structure SegmentRow.WellStored (r : SegmentRow) : Prop where
  canonical : r.Canonical
  texts : r.TextsParse

/-- An absent string is stored as the empty one, which no parser accepts. -/
theorem nullIfEmpty_raw {α : Type} {f : Str → Except ParseError α} {o : Option Str} {a : Option α}
    (hf : ∀ x, f [] ≠ .ok x) (h : o.map f = a.map .ok) : nullIfEmpty (o.getD []) = o := by
  rcases optional_cases h with ⟨rfl, -⟩ | ⟨s, x, rfl, -, hs⟩
  · rfl
  · refine if_neg fun he => ?_
    rw [Option.getD_some] at he
    rw [he] at hs
    exact hf x hs

theorem parse_nil (tr : TimeRange) : parse [] ≠ .ok tr := by
  intro h
  cases h

theorem parseTimestamp_nil (ts : Timestamp) : parseTimestamp [] ≠ .ok ts := by
  intro h
  cases h

section
variable {p : FlowSegmentPost} {seg : Segment}

theorem Converts.recorded (h : Converts p seg) (i : Nat) (f : Uuid) (lo hi : Int64) (now : Time) :
    Recorded p (segmentRow i f (stampURLs seg) lo hi now) where
  objectId := h.objectId
  timerange := h.timerange.1
  tsOffset := (congrArg nullIfEmpty h.tsOffset.1).trans (nullIfEmpty_raw parseTimestamp_nil h.tsOffset.2)
  objectTimerange := (congrArg nullIfEmpty h.objectTimerange.1).trans (nullIfEmpty_raw parse_nil h.objectTimerange.2)
  lastDuration := (congrArg nullIfEmpty h.lastDuration.1).trans (nullIfEmpty_raw parseTimestamp_nil h.lastDuration.2)
  counts := h.counts
  getUrls := by
    have hstamp : (stampURLs seg).getUrls = seg.getUrls := by
      rw [stampURLs, h.getUrls, List.map_map]
      rfl
    rw [segmentRow, hstamp, ← h.getUrls, marshalGetURLs]
    split
    · rename_i hnil
      rw [hnil]
      rfl
    · rfl

theorem rowsHave_wellStored (h : Converts p seg) (hv : segmentTimerangeViolation seg.timerange = none) {b : NsBounds}
    (hb : seg.timerange.nsBounds = .ok b) (f : Uuid) : RowsHave SegmentRow.WellStored f (stampURLs seg, b) := by
  intro lo hi hlo hhi i now
  have hp : parse (stampURLs seg).timerangeRaw = .ok (stampURLs seg).timerange := by
    rw [stampURLs, h.timerange.1]
    exact h.timerange.2
  have hrec := h.recorded i f lo hi now
  have hparses : ∀ {α : Type} {g : Str → Except ParseError α} {o : Option Str} {a : Option α},
      o.map g = a.map .ok → ∀ s, o = some s → ∃ x, g s = .ok x := by
    intro α g o a hmap s hs
    rcases optional_cases hmap with ⟨rfl, -⟩ | ⟨s', x, rfl, -, hx⟩
    · cases hs
    · cases hs
      exact ⟨x, hx⟩
  refine ⟨rowsHave_canonical hp hv hb f lo hi hlo hhi i now, ?_, ?_, ?_⟩
  · rw [hrec.tsOffset]
    exact hparses h.tsOffset.2
  · rw [hrec.objectTimerange]
    exact hparses h.objectTimerange.2
  · rw [hrec.lastDuration]
    exact hparses h.lastDuration.2

end

/-- Every segment that reaches the store comes from one of the body's. -/
theorem survivor_converts {body : FlowSegmentPostBody} {params : RegisterParams}
    (h : registerParamsFromAPI body = .ok params) {seg : Segment} (hs : seg ∈ (screen 0 params.segments).survivors) :
    ∃ p ∈ body.posts, ∃ s, Converts p s ∧ seg = stampURLs s ∧ segmentTimerangeViolation seg.timerange = none := by
  obtain ⟨hv, s, hmem, rfl⟩ := mem_survivors hs
  obtain ⟨p, hp, hc⟩ := exists_of_forall₂ (registerParamsFromAPI_ok h).1 hmem
  exact ⟨p, hp, s, hc, rfl, hv⟩

def Request.Posted : Request → Prop
  | .registerBatch _ req => ∃ body params, registerParamsFromAPI body = .ok params ∧ req.segments = params.segments
  | .store (.insertSegments _ _) => False
  | .store _ => True

theorem Request.Posted.stores {x : Request} (hx : x.Posted) : x.Stores SegmentRow.WellStored := by
  cases x with
  | registerBatch nextval req =>
    intro seg hseg b hb
    obtain ⟨body, params, hbody, hsegs⟩ := hx
    rw [hsegs] at hseg
    obtain ⟨p, -, s, hc, rfl, hv⟩ := survivor_converts hbody hseg
    exact rowsHave_wellStored hc hv hb req.flowId
  | store x => cases x <;> exact hx

end OpenTams
