import OpenTams.HeadSources
import OpenTams.Listing

/-!
# Reading segments

GET and HEAD of `/flows/{id}/segments`: the conversion of the query parameters,
`List` of `internal/service/segment`, the URLs that a segment is served with, and
the two handlers. What `uuid.Parse` makes of the path is an argument. A segment
without stored URLs is taken as one of the controlled storage, and its URLs are
made by the object store; the others are served with what was stored.
-/

namespace OpenTams

open Sql

/-! ## Parameters -/

structure GetFlowSegmentsParams where
  timerange : Option Str := none
  objectId : Option Str := none
  reverseOrder : Option Bool := none
  verboseStorage : Option Bool := none
  acceptGetUrls : Option Str := none
  acceptStorageIds : Option Str := none
  presigned : Option Bool := none
  includeObjectTimerange : Option Bool := none
  page : Option Str := none
  limit : Option Int64 := none
  deriving DecidableEq

structure ListParams where
  flowId : Uuid := 0
  timerange : Option TimeRange := none
  objectId : Option Str := none
  reverseOrder : Bool := false
  verboseStorage : Bool := false
  acceptGetUrls : List Str := []
  acceptStorageIds : List Str := []
  presigned : Option Bool := none
  includeObjectTimerange : Bool := false
  page : Str := []
  limit : Int64
  deriving DecidableEq

def csvSplit (s : Str) : List Str := if s = [] then [] else s.splitOn (ch ',')

def listTimerange : Option Str → Except Err (Option TimeRange)
  | none => .ok none
  | some s => match parse s with
    | .error e => .error (.app (.new .schemaValidation [.text "timerange: ", .parse e]))
    | .ok tr => .ok (some tr)

def listLimitParam : Option Int64 → Except Err Int64
  | none => .ok 100
  | some limit =>
    if limit ≤ 0 then .error (.app (.new .schemaValidation [.text "limit must be >= 1"]))
    else if 1000 < limit then .ok 1000
    else .ok limit

def listParamsFromAPI (p : GetFlowSegmentsParams) : Except Err ListParams := do
  let timerange ← listTimerange p.timerange
  let limit ← listLimitParam p.limit
  .ok {
    timerange
    objectId := p.objectId
    reverseOrder := p.reverseOrder.getD false
    verboseStorage := p.verboseStorage.getD false
    acceptGetUrls := (p.acceptGetUrls.map csvSplit).getD []
    acceptStorageIds := (p.acceptStorageIds.map csvSplit).getD []
    presigned := p.presigned
    includeObjectTimerange := p.includeObjectTimerange.getD false
    page := p.page.getD []
    limit }

/-! ## The service -/

namespace SegmentService

/-- Bounds beyond `int64` nanoseconds are refused; an empty range is not. -/
def checkQueryTimerange (tr : TimeRange) : Except Err Unit :=
  match tr.nsBounds with
  | .error .startOutOfRange => .error (.app (.new .invalidTimerange ([.text "timerange: start of ",
      .str (tr.string.getD []), .text ": "] ++ (Err.bounds .startOutOfRange).text)))
  | .error .endOutOfRange => .error (.app (.new .invalidTimerange ([.text "timerange: end of ",
      .str (tr.string.getD []), .text ": "] ++ (Err.bounds .endOutOfRange).text)))
  | _ => .ok ()

def checkTimerange : Option TimeRange → Except Err Unit
  | none => .ok ()
  | some tr => checkQueryTimerange tr

/-- The query of the store; what it does not read is not passed on. -/
def listQuery (req : ListParams) : ListQuery where
  flowId := req.flowId
  timerange := req.timerange
  objectId := req.objectId
  reverseOrder := req.reverseOrder
  page := req.page
  limit := req.limit

def listed : Except Err SegmentPage → Tx SegmentPage
  | .ok page => .ret page
  | .error e =>
    if e.is .flowNotFound then .fail (.wrap [.text "segment: list: "] (.sentinel .serviceFlowNotFound))
    else if e.is .invalidCursor then .fail e
    else .fail (e.within [.text "segment: list: "])

def list (R : JsonReader) (req : ListParams) : Tx SegmentPage :=
  match checkTimerange req.timerange with
  | .error e => .fail e
  | .ok () => do
    let page ← (listSegments R (listQuery req)).attempt
    listed page

end SegmentService

/-! ## URLs -/

structure BackendInfo where
  storageId : Str
  provider : Str
  region : Str
  storeProduct : Str
  deriving DecidableEq

structure DownloadURLSet where
  storageId : Str
  storageURI : Str
  presignedURL : Str := []
  backend : BackendInfo
  deriving DecidableEq

/-- The object store; `presign` signs the key of an object, if a client is configured. -/
structure S3Store where
  bucket : Str
  backend : BackendInfo
  presign : Option (Str → Option Str)

/-- Signing is skipped for `presigned=false`; an error is `none`. -/
def S3Store.generateDownloadURL (s : S3Store) (objectId : Str) (presigned : Option Bool) : Option DownloadURLSet :=
  let set : DownloadURLSet :=
    { storageId := s.backend.storageId, storageURI := lit "s3://" ++ s.bucket ++ lit "/" ++ objectId, backend := s.backend }
  if presigned = some false then some set
  else match s.presign with
    | none => none
    | some sign => (sign objectId).map fun url => { set with presignedURL := url }

structure SegGetURL where
  url : Str
  label : Option Str := none
  storageId : Option Str := none
  presigned : Option Bool := none
  controlled : Option Bool := none
  deriving DecidableEq

def optStr (s : Str) : Option Str := if s = [] then none else some s

def backendLabel (b : BackendInfo) : Str :=
  b.provider ++ lit "." ++ b.region ++ lit ":" ++ b.storeProduct ++ lit ":opentams"

def controlledGetURLs (s : S3Store) (objectId : Str) (presigned : Option Bool) : Option (List SegGetURL) :=
  (s.generateDownloadURL objectId presigned).map fun set =>
    (if presigned = some true then [] else
      [{ url := set.storageURI, label := optStr (backendLabel set.backend), storageId := optStr set.storageId }]) ++
    if presigned ≠ some false ∧ set.presignedURL ≠ [] then
      [{ url := set.presignedURL, label := optStr (backendLabel set.backend), storageId := optStr set.storageId,
         presigned := some true }]
    else []

def byosGetURLs (stored : List GetURL) (presigned : Option Bool) : List SegGetURL :=
  if presigned = some true then [] else
    stored.map fun g => { url := g.url, label := optStr g.label, controlled := some false }

/-- A segment without stored URLs is one of the controlled storage. -/
def Segment.isControlled (seg : Segment) : Bool := seg.getUrls.isEmpty

def projectedURLs (s : S3Store) (seg : Segment) (presigned : Option Bool) : Option (List SegGetURL) :=
  if seg.isControlled then controlledGetURLs s seg.objectId presigned
  else match byosGetURLs seg.getUrls presigned with
    | [] => none
    | entries => some entries

/-! ## Responses -/

structure ApiSegment where
  objectId : Str
  timerange : Str
  tsOffset : Option Str
  objectTimerange : Option Str
  lastDuration : Option Str
  keyFrameCount : Option Int64
  sampleOffset : Option Int64
  sampleCount : Option Int64
  getUrls : Option (List SegGetURL)
  deriving DecidableEq

def segmentToAPI (s : Segment) : ApiSegment where
  objectId := s.objectId
  timerange := s.timerangeRaw
  tsOffset := optionalRaw s.tsOffsetRaw
  objectTimerange := optionalRaw s.objectTimerangeRaw
  lastDuration := optionalRaw s.lastDurationRaw
  keyFrameCount := s.keyFrameCount
  sampleOffset := s.sampleOffset
  sampleCount := s.sampleCount
  getUrls := if s.getUrls = [] then none else
    some (s.getUrls.map fun g => { url := g.url, label := some g.label, controlled := some g.controlled })

def segmentPageToAPI (page : SegmentPage) : List ApiSegment := page.items.map segmentToAPI

def projectSegmentURLs (s : S3Store) (page : SegmentPage) (out : List ApiSegment) (presigned : Option Bool) :
    List ApiSegment :=
  List.zipWith (fun seg a => { a with getUrls := projectedURLs s seg presigned }) page.items out

def sanitiseHeaderValue (s : Str) : Str := s.filter fun b => b ≠ 13 && b ≠ 10

def segmentsHeaders (params : ListParams) (page : SegmentPage) (count : Nat) (timerange : Str) : PagingHeaders :=
  ({ xPagingLimit := some page.effectiveLimit
     xPagingCount := some count
     xPagingReverseOrder := some params.reverseOrder
     xPagingTimerange := some timerange } : PagingHeaders).withNext (optStr (sanitiseHeaderValue page.nextCursor))

inductive GetSegmentsResponse where
  | ok (body : List ApiSegment) (headers : PagingHeaders)
  | problem (status : Nat) (p : Problem)
  deriving DecidableEq

namespace GetSegmentsResponse

def status : GetSegmentsResponse → Nat
  | ok _ _ => 200
  | problem status _ => status

def headers : GetSegmentsResponse → PagingHeaders
  | ok _ headers => headers
  | problem _ _ => {}

end GetSegmentsResponse

inductive HeadSegmentsResponse where
  | ok (headers : PagingHeaders)
  | badRequest
  deriving DecidableEq

namespace HeadSegmentsResponse

def status : HeadSegmentsResponse → Nat
  | ok _ => 200
  | badRequest => 400

def headers : HeadSegmentsResponse → PagingHeaders
  | ok headers => headers
  | badRequest => {}

end HeadSegmentsResponse

def getSegments400 (typ : Msg) (title : String) (detail : Msg) : GetSegmentsResponse :=
  .problem 400 (problemPtrs typ title detail 400)

def getSegments404 (detail : Msg) : GetSegmentsResponse :=
  .problem 404 (problemPtrs (problemTypeOf "not-found") "Not Found" detail 404)

def timerangeDetail : Msg → Bool
  | .text s :: _ => (lit "timerange:").isPrefixOf (lit s)
  | _ => false

def listParamsErrorType (e : Err) : Msg :=
  match e.asApp with
  | some ae =>
    if ae.code = .schemaValidation then
      if timerangeDetail ae.detail then problemTypeOf "invalid-timerange" else problemTypeOf "schema-validation"
    else problemTypeOf "invalid-timerange"
  | none => problemTypeOf "invalid-timerange"

def invalidTimerangeDetail (e : Err) : Option Msg :=
  match e.asApp with
  | some ae => if ae.code = .invalidTimerange then some ae.detail else none
  | none => none

/-! ## The handlers -/

namespace Handler

def segmentsListed (s : S3Store) (params : ListParams) : Except Err SegmentPage → Tx GetSegmentsResponse
  | .error e =>
    if e.is .serviceFlowNotFound then .ret (getSegments404 [.text "flow not found"])
    else if e.is .invalidCursor then .ret (getSegments400 (problemTypeOf "invalid-cursor") "Bad Request" e.text)
    else match invalidTimerangeDetail e with
      | some detail => .ret (getSegments400 (problemTypeOf "invalid-timerange") "Bad Request" detail)
      | none => .fail e
  | .ok page => match page.timerange.string with
    | none => .fail .panic
    | some text => .ret (.ok (projectSegmentURLs s page (segmentPageToAPI page) params.presigned)
        (segmentsHeaders params page (segmentPageToAPI page).length text))

def getFlowSegments (s : S3Store) (R : JsonReader) (flowId : Option Uuid) (p : GetFlowSegmentsParams) :
    Tx GetSegmentsResponse :=
  match flowId with
  | none => .ret (getSegments400 (problemTypeOf "invalid-uuid") "Bad Request" [.text "flow_id is not a valid UUID"])
  | some flowId => match listParamsFromAPI p with
    | .error e => .ret (getSegments400 (listParamsErrorType e) "Bad Request" e.text)
    | .ok params => do
      let page ← (SegmentService.list R { params with flowId }).attempt
      segmentsListed s params page

/-- What HEAD makes of it: an unknown flow and a bad cursor are errors like any other. -/
def segmentsCounted (params : ListParams) : Except Err SegmentPage → Tx HeadSegmentsResponse
  | .error e => match invalidTimerangeDetail e with
    | some _ => .ret .badRequest
    | none => .fail e
  | .ok page => match page.timerange.string with
    | none => .fail .panic
    | some text => .ret (.ok (segmentsHeaders params page page.items.length text))

def headFlowSegments (R : JsonReader) (flowId : Option Uuid) (p : GetFlowSegmentsParams) : Tx HeadSegmentsResponse :=
  match flowId with
  | none => .ret .badRequest
  | some flowId => match listParamsFromAPI p with
    | .error _ => .ret .badRequest
    | .ok params => do
      let page ← (SegmentService.list R { params with flowId }).attempt
      segmentsCounted params page

end Handler

end OpenTams
