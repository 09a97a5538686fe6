import OpenTams.Cursor
import OpenTams.Gateway
import OpenTams.HexEscape

/-!
# Playlists and their links

`renderManifest` writes one link for each segment with a URL that players can
fetch, and `segmentRedirectHandler` reads the URL back from the link. It unescapes
once more than the link was escaped.
-/

namespace OpenTams.Gateway

/-! ## The manifest -/

def segPrefix : Str := lit "/seg/"

/-- The first URL that is not one of the object store itself. -/
def pickGetURL (s : ApiSegment) : Str :=
  (((s.getUrls.getD []).find? fun g => g.url ≠ [] && !(lit "s3://").isPrefixOf g.url).map (·.url)).getD []

def segmentDuration (s : ApiSegment) : Int64 :=
  match parseRange s.timerange with
  | .error _ => 6 * nsPerSec
  | .ok (startNs, endNs) => if endNs ≤ startNs then 6 * nsPerSec else endNs - startNs

/-- `Duration.Round` to a second: half away from zero, and the limit of `int64` on overflow. -/
def roundToSecond (d : Int64) : Int64 :=
  let r := d % nsPerSec
  if d < 0 then
    if -r + -r < nsPerSec then d + -r
    else if d - nsPerSec + -r < d then d - nsPerSec + -r else Int64.minValue
  else
    if r + r < nsPerSec then d - r
    else if d < d + nsPerSec - r then d + nsPerSec - r else Int64.maxValue

def targetDuration (durs : List Int64) : Int64 :=
  let target := durs.foldl (fun target d =>
    if target < roundToSecond d / nsPerSec then roundToSecond d / nsPerSec else target) 0
  if target = 0 then 6 else target

def link (i : Nat) (u : Str) : Str := segPrefix ++ lit "seg-" ++ decStr i ++ lit ".ts?u=" ++ NetUrl.queryEscape u

/-- The durations and links of the segments that have a URL; the number of a link is that of its segment. -/
def entries (segments : List ApiSegment) : List (Int64 × Str) :=
  segments.zipIdx.filterMap fun x =>
    if pickGetURL x.1 = [] then none else some (segmentDuration x.1, link x.2 (pickGetURL x.1))

/-- `strconv.FormatFloat` of the seconds of a duration. -/
structure SecondsFormat where
  text : Int64 → Str
  oneLine : ∀ d, ch '\n' ∉ text d

def manifestLines (T : SecondsFormat) (segments : List ApiSegment) (live : Bool) : List Str :=
  [lit "#EXTM3U", lit "#EXT-X-VERSION:3",
    lit "#EXT-X-TARGETDURATION:" ++ intStr (targetDuration ((entries segments).map (·.1))).toInt,
    lit "#EXT-X-MEDIA-SEQUENCE:0"] ++
  (if live then [] else [lit "#EXT-X-PLAYLIST-TYPE:VOD"]) ++
  (entries segments).flatMap (fun e => [lit "#EXTINF:" ++ T.text e.1 ++ lit ",", e.2]) ++
  (if live then [] else [lit "#EXT-X-ENDLIST"])

def renderManifest (T : SecondsFormat) (segments : List ApiSegment) (live : Bool) : Str :=
  (manifestLines T segments live).flatMap (· ++ [ch '\n'])

/-- What a player reads from a playlist: the lines that are neither empty nor a tag or comment. -/
def playlistEntries (manifest : Str) : List Str :=
  (manifest.splitOn (ch '\n')).filter fun line => line ≠ [] && line.head? ≠ some (ch '#')

/-! ## The redirect -/

inductive Reply where
  | error (status : Nat) (message : Msg)
  | redirect (location : Str)
  deriving DecidableEq

def envOr (value default : Str) : Str := if value ≠ [] then value else default

def allowedBase (objectBase : Str) : Str := envOr objectBase (lit "http://localhost:9000")

section
variable (F : CaseFolding) (L : NetUrl.HostLiterals) (objectBase : Str)

def segmentRedirectHandler (rawQuery : Str) : Reply :=
  let target := NetUrl.get (NetUrl.parseQuery rawQuery) (lit "u")
  if target = [] then .error 400 [.text "missing u= parameter"]
  else match NetUrl.queryUnescape target with
    | none => .error 400 [.text "u= is not URL-encoded: "]
    | some decoded => match targetWithinBase F L decoded (allowedBase objectBase) with
      | .error e =>
        .error 403 ([.text "redirect target outside allowed base ", .str (allowedBase objectBase), .text ": "] ++ e.text)
      | .ok () => .redirect (NetUrl.hexEscapeNonASCII decoded)

/-- The reply to a request; `none` is one that is not for this handler. -/
def serveSegment (uri : Str) : Option Reply :=
  (NetUrl.parseRequestURI L uri).bind fun url =>
    if segPrefix.isPrefixOf url.path then some (segmentRedirectHandler F L objectBase url.rawQuery) else none

end

/-! ## What a player reads -/

section
variable {T : SecondsFormat} {segs : List ApiSegment} {live : Bool} {s : ApiSegment} {i : ℕ} {u : Str} {c : UInt8}

theorem mem_link (h : c ∈ link i u) : NetUrl.isUnreserved c = true ∨ c ∈ lit "/?=+%" := by
  have hdigit : ∀ c : UInt8, isDigit c = true → NetUrl.isUnreserved c = true := by
    intro c hc
    simp [NetUrl.isUnreserved, hc]
  have hplain : ∀ c ∈ segPrefix ++ lit "seg-" ++ lit ".ts?u=", NetUrl.isUnreserved c = true ∨ c ∈ lit "/?=+%" :=
    NetUrl.forall_mem_of_all (by decide +kernel)
  simp only [link, List.mem_append] at h hplain
  rcases h with (((h | h) | h) | h) | h
  · exact hplain c (Or.inl (Or.inl h))
  · exact hplain c (Or.inl (Or.inr h))
  · exact Or.inl (hdigit c (List.all_eq_true.mp (decStr_digits i) c h))
  · exact hplain c (Or.inr h)
  · rcases NetUrl.mem_queryEscape h with h | rfl | rfl
    · exact Or.inl h
    · exact Or.inr (by decide)
    · exact Or.inr (by decide)

theorem link_clean (h : c ∈ link i u) : NetUrl.isCTL c = false := by
  have hall : ∀ c : UInt8, NetUrl.isUnreserved c = true ∨ c ∈ lit "/?=+%" → NetUrl.isCTL c = false :=
    NetUrl.forall_byte (by decide +kernel)
  exact hall c (mem_link h)

theorem mem_entries {e : Int64 × Str} (h : e ∈ entries segs) :
    ∃ i s, segs[i]? = some s ∧ pickGetURL s ≠ [] ∧ e = (segmentDuration s, link i (pickGetURL s)) := by
  obtain ⟨⟨s, i⟩, hmem, he⟩ := List.mem_filterMap.mp h
  rw [List.mem_zipIdx_iff_getElem?] at hmem
  dsimp only at he hmem
  split at he
  · cases he
  · cases he
    exact ⟨i, s, hmem, by assumption, rfl⟩

theorem link_oneLine : ch '\n' ∉ link i u := fun h => absurd (link_clean h) (by decide)

theorem oneLine_manifestLines : ∀ line ∈ manifestLines T segs live, ch '\n' ∉ line := by
  have hfixed : ∀ line ∈ [lit "#EXTM3U", lit "#EXT-X-VERSION:3", lit "#EXT-X-MEDIA-SEQUENCE:0",
      lit "#EXT-X-PLAYLIST-TYPE:VOD", lit "#EXT-X-ENDLIST"], ch '\n' ∉ line := by decide +kernel
  intro line h
  simp only [manifestLines, List.mem_append, List.mem_cons, List.mem_flatMap, List.not_mem_nil, or_false] at h
  rcases h with (((rfl | rfl | rfl | rfl) | h) | ⟨e, he, rfl | rfl⟩) | h
  · exact hfixed _ (by simp)
  · exact hfixed _ (by simp)
  · rw [List.mem_append, not_or]
    exact ⟨by decide +kernel, not_mem_intStr (by decide) (by decide) _⟩
  · exact hfixed _ (by simp)
  · split at h
    · cases h
    · rw [List.mem_singleton.mp h]
      exact hfixed _ (by simp)
  · rw [List.mem_append, List.mem_append, not_or, not_or]
    exact ⟨⟨by decide +kernel, T.oneLine _⟩, by decide +kernel⟩
  · obtain ⟨i, s, -, -, rfl⟩ := mem_entries he
    exact link_oneLine
  · split at h
    · cases h
    · rw [List.mem_singleton.mp h]
      exact hfixed _ (by simp)

theorem splitOn_lines {lines : List Str} (h : ∀ line ∈ lines, ch '\n' ∉ line) :
    (lines.flatMap (· ++ [ch '\n'])).splitOn (ch '\n') = lines ++ [[]] := by
  induction lines with
  | nil => rfl
  | cons line lines ih =>
    rw [List.forall_mem_cons] at h
    rw [List.flatMap_cons, List.append_assoc, List.singleton_append, List.splitOn_append_cons_self,
      List.splitOn_eq_singleton h.1, ih h.2, List.singleton_append, List.cons_append]

/-- A player reads the links, in the order of their segments. -/
theorem playlistEntries_renderManifest :
    playlistEntries (renderManifest T segs live) = (entries segs).map (·.2) := by
  have hentries : ((entries segs).flatMap fun e => [lit "#EXTINF:" ++ T.text e.1 ++ lit ",", e.2]).filter
      (fun line => line ≠ [] && line.head? ≠ some (ch '#')) = (entries segs).map (·.2) := by
    rw [List.filter_flatMap, List.map_eq_flatMap]
    refine List.flatMap_congr fun e he => ?_
    obtain ⟨i, s, -, -, rfl⟩ := mem_entries he
    rfl
  rw [playlistEntries, renderManifest, splitOn_lines oneLine_manifestLines, manifestLines]
  rw [List.filter_append, List.filter_append, List.filter_append, List.filter_append, hentries]
  -- the other lines are tags
  cases live <;> exact List.append_nil _ |>.trans (List.append_nil _)

theorem link_mem_playlistEntries (hs : segs[i]? = some s) (hu : pickGetURL s ≠ []) :
    link i (pickGetURL s) ∈ playlistEntries (renderManifest T segs live) := by
  rw [playlistEntries_renderManifest]
  refine List.mem_map.mpr ⟨(segmentDuration s, link i (pickGetURL s)), ?_, rfl⟩
  exact List.mem_filterMap.mpr ⟨(s, i), List.mem_zipIdx_iff_getElem?.mpr hs, if_neg hu⟩

end

/-! ## Where a link leads -/

section
variable {F : CaseFolding} {L : NetUrl.HostLiterals} {objectBase u location : Str} {i : ℕ}

theorem serveSegment_link : serveSegment F L objectBase (link i u) =
    some (segmentRedirectHandler F L objectBase (lit "u" ++ ch '=' :: NetUrl.queryEscape u)) := by
  have hlink : link i u = segPrefix ++ lit "seg-" ++ decStr i ++ lit ".ts" ++ ch '?' ::
      (lit "u" ++ ch '=' :: NetUrl.queryEscape u) := by
    rw [link, show lit ".ts?u=" = lit ".ts" ++ ch '?' :: lit "u=" from rfl]
    simp only [List.append_assoc]
    rfl
  have hnot : ∀ c : UInt8, c ∉ segPrefix ++ lit "seg-" ++ lit ".ts" → isDigit c = false →
      c ∉ segPrefix ++ lit "seg-" ++ decStr i ++ lit ".ts" := by
    intro c hc hdigit hmem
    simp only [List.mem_append, not_or] at hc hmem
    rcases hmem with ((hmem | hmem) | hmem) | hmem
    · exact hc.1.1 hmem
    · exact hc.1.2 hmem
    · exact not_mem_decStr hdigit i hmem
    · exact hc.2 hmem
  rw [serveSegment, hlink, NetUrl.parseRequestURI_path (fun c hc => link_clean (by rw [hlink]; exact hc)) rfl
    (hnot _ (by decide) (by decide)) (hnot _ (by decide) (by decide)), Option.bind_some, if_pos]
  refine List.isPrefixOf_iff_prefix.mpr ?_
  rw [List.append_assoc, List.append_assoc]
  exact List.prefix_append _ _

/-- The handler unescapes what the query was already unescaped to. -/
theorem segmentRedirectHandler_redirect_iff (hu : u ≠ []) :
    segmentRedirectHandler F L objectBase (lit "u" ++ ch '=' :: NetUrl.queryEscape u) = .redirect location ↔
      ∃ decoded, NetUrl.queryUnescape u = some decoded ∧
        targetWithinBase F L decoded (allowedBase objectBase) = .ok () ∧
        NetUrl.hexEscapeNonASCII decoded = location := by
  have hget : NetUrl.get (NetUrl.parseQuery (lit "u" ++ ch '=' :: NetUrl.queryEscape u)) (lit "u") = u := by
    rw [NetUrl.parseQuery_component (NetUrl.forall_mem_of_all (by decide))]
    rfl
  unfold segmentRedirectHandler
  dsimp only
  rw [hget, if_neg hu]
  cases NetUrl.queryUnescape u with
  | none => simp
  | some decoded => cases h : targetWithinBase F L decoded (allowedBase objectBase) <;> simp [h]

theorem targetWithinBase_hexEscape {v base : Str} (hv : ch '%' ∉ v)
    (h : targetWithinBase F L (NetUrl.hexEscapeNonASCII v) base = .ok ()) : targetWithinBase F L v base = .ok () := by
  obtain ⟨t, b, ht, hb, hwithin⟩ := targetWithinBase_ok_iff.mp h
  obtain ⟨r, q, hv⟩ := NetUrl.parse_hexEscape hv ht hwithin.isAbs hwithin.user
  exact targetWithinBase_ok_iff.mpr
    ⟨_, b, hv, hb, hwithin.isAbs, hwithin.user, hwithin.scheme, hwithin.host, hwithin.path⟩

/-- The link of a segment is in the playlist, and leads to the URL of the segment exactly if that has no plus sign and
no escapes but of bytes beyond ASCII in lower case. -/
theorem playlistLink_redirects_iff {T : SecondsFormat} {segs : List ApiSegment} {live : Bool} {s : ApiSegment}
    (hs : segs[i]? = some s) (hascii : ∀ c ∈ pickGetURL s, c < 128)
    (hok : targetWithinBase F L (pickGetURL s) (allowedBase objectBase) = .ok ()) :
    link i (pickGetURL s) ∈ playlistEntries (renderManifest T segs live) ∧
      (serveSegment F L objectBase (link i (pickGetURL s)) = some (.redirect (pickGetURL s)) ↔
        NetUrl.Stable (pickGetURL s)) := by
  have hne : pickGetURL s ≠ [] := by
    intro hnil
    rw [hnil] at hok
    obtain ⟨t, b, ht, -, hwithin⟩ := targetWithinBase_ok_iff.mp hok
    cases ht
    exact hwithin.isAbs rfl
  refine ⟨link_mem_playlistEntries hs hne, ?_⟩
  rw [serveSegment_link, Option.some_inj, segmentRedirectHandler_redirect_iff hne]
  constructor
  · rintro ⟨decoded, hdecoded, -, heq⟩
    rw [← heq]
    exact (NetUrl.signFree_of_hexEscape_eq hascii hdecoded heq).stable
  · intro h
    obtain ⟨v, hfree, hv⟩ := h.exists_eq hascii
    refine ⟨v, ?_, ?_, hv⟩
    · rw [← hv, NetUrl.queryUnescape, NetUrl.unescape_hexEscape hfree.1]
      exact hfree.queryUnescape
    · rw [← hv] at hok
      exact targetWithinBase_hexEscape hfree.1 hok

end

def presignedSegment (url : Str) : ApiSegment where
  objectId := lit "o"
  timerange := lit "[0:0_6:0)"
  tsOffset := none
  objectTimerange := none
  lastDuration := none
  keyFrameCount := none
  sampleOffset := none
  sampleCount := none
  getUrls := some [{ url := lit "s3://b/o" }, { url, presigned := some true }]

def signedURL (signature : String) : Str := lit "http://localhost:9000/o?sig=" ++ lit signature

def wholeSeconds : SecondsFormat where
  text d := intStr (d / nsPerSec).toInt ++ lit ".000"
  oneLine d h := by
    rcases List.mem_append.mp h with h | h
    · exact not_mem_intStr (by decide) (by decide) _ h
    · exact absurd h (by decide)

def threePresigned : List ApiSegment :=
  [presignedSegment (signedURL "ab"), presignedSegment (signedURL "%c3%a9"), presignedSegment (signedURL "cd")]

/-- The escapes of the second URL are the ones that `http.Redirect` writes. -/
theorem threePresigned_redirects :
    link 1 (signedURL "%c3%a9") ∈ playlistEntries (renderManifest wholeSeconds threePresigned true) ∧
      serveSegment asciiFolding noLiterals [] (link 1 (signedURL "%c3%a9")) =
        some (.redirect (signedURL "%c3%a9")) := by
  obtain ⟨hpick, hascii, hfree, hescape, hok⟩ :
      pickGetURL (presignedSegment (signedURL "%c3%a9")) = signedURL "%c3%a9" ∧
      (signedURL "%c3%a9").all (· < 128) = true ∧
      (ch '%' ∉ signedURL "" ++ [0xc3, 0xa9] ∧ ch '+' ∉ signedURL "" ++ [0xc3, 0xa9]) ∧
      NetUrl.hexEscapeNonASCII (signedURL "" ++ [0xc3, 0xa9]) = signedURL "%c3%a9" ∧
      targetWithinBase asciiFolding noLiterals (signedURL "%c3%a9") (allowedBase []) = .ok () := by decide +kernel
  have hstable := NetUrl.SignFree.stable hfree
  rw [hescape] at hstable
  have h := @playlistLink_redirects_iff asciiFolding noLiterals [] 1 wholeSeconds threePresigned true
    _ rfl (by rw [hpick]; exact NetUrl.forall_mem_of_all hascii) (by rw [hpick]; exact hok)
  rw [hpick] at h
  exact ⟨h.1, h.2.mpr hstable⟩

def LinkLeadsTo (u location : Str) : Prop :=
  pickGetURL (presignedSegment u) = u ∧ targetWithinBase asciiFolding noLiterals u (allowedBase []) = .ok () ∧
    playlistEntries (renderManifest wholeSeconds [presignedSegment u] true) = [link 0 u] ∧
    serveSegment asciiFolding noLiterals [] (link 0 u) = some (.redirect location)

/-- The escapes and the plus signs of a presigned query are lost. -/
theorem escapedLink_altered :
    LinkLeadsTo (signedURL "a%2Fb") (signedURL "a/b") ∧ LinkLeadsTo (signedURL "a+b") (signedURL "a b") := by
  unfold LinkLeadsTo
  decide +kernel

end OpenTams.Gateway
