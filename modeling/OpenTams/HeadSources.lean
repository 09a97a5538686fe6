import OpenTams.Finalise
import OpenTams.Sources

/-!
# GET and HEAD of the sources

`GetSources` and `HeadSources` of `internal/httpx/handlers`: both list a page and
write its paging headers. HEAD passes neither the label nor the format to the
store, and does not cut the limit at 1000. The two agree in every state exactly
for the requests that have nothing HEAD leaves out, and for those that the store
refuses before it looks at a row.
-/

namespace OpenTams

open Sql Sql.Prog

/-! ## Headers -/

structure PagingHeaders where
  xPagingLimit : Option Int := none
  xPagingCount : Option Nat := none
  xPagingReverseOrder : Option Bool := none
  xPagingTimerange : Option Str := none
  xPagingNextKey : Option Str := none
  link : Option Str := none
  deriving DecidableEq

def PagingHeaders.withNext (h : PagingHeaders) : Option Str → PagingHeaders
  | none => h
  | some key => { h with xPagingNextKey := some key, link := some (lit "<>; rel=\"next\"; key=\"" ++ key ++ lit "\"") }

/-- What a client sees of an answer beside the body: the status, that of the error middleware for an
error, and the paging headers. -/
def answerHead {α : Type} (status : α → Nat) (headers : α → PagingHeaders) : Except Err α → Nat × PagingHeaders
  | .ok a => (status a, headers a)
  | .error e => ((errorHandler e).status, {})

theorem answerHead_map {α β : Type} (status : β → Nat) (headers : β → PagingHeaders) (f : α → β) (x : Except Err α) :
    answerHead status headers (x.map f) = answerHead (fun a => status (f a)) (fun a => headers (f a)) x := by
  cases x <;> rfl

/-! ## The handlers -/

structure SourcesRequest where
  page : Option Str := none
  limit : Option Int64 := none
  label : Option Str := none
  format : Option Str := none
  deriving DecidableEq

structure ApiSource where
  id : Str
  format : Str
  label : Option Str
  description : Option Str
  tags : Option (List (Str × Json))
  created : Time
  updated : Time
  deriving DecidableEq

def mapSource (s : Source) : ApiSource where
  id := uuidText s.id
  format := s.format
  label := s.label
  description := s.description
  tags := if s.tags = [] then none else some s.tags
  created := s.created
  updated := s.updated

structure GetSourcesResponse where
  body : List ApiSource
  headers : PagingHeaders
  deriving DecidableEq

def sourcesHeaders (p : ListSourcesParams) (page : SourcePage) : PagingHeaders :=
  ({ xPagingLimit := some p.limit.toInt } : PagingHeaders).withNext page.nextCursor

namespace Handler

def getSourcesParams (req : SourcesRequest) : ListSourcesParams where
  limit := match req.limit with
    | none => 100
    | some limit => if 1000 < limit then 1000 else limit
  pageFrom := req.page
  label := req.label
  format := req.format

def getSources (R : JsonReader) (J : JsonFns) (req : SourcesRequest) : Tx GetSourcesResponse := do
  let page ← listSources R J (getSourcesParams req)
  .ret ⟨page.items.map mapSource, sourcesHeaders (getSourcesParams req) page⟩

def headSourcesParams (req : SourcesRequest) : ListSourcesParams where
  limit := req.limit.getD 100
  pageFrom := req.page

def headSources (R : JsonReader) (J : JsonFns) (req : SourcesRequest) : Tx PagingHeaders := do
  let page ← listSources R J (headSourcesParams req)
  .ret (sourcesHeaders (headSourcesParams req) page)

end Handler

def MirrorsSources (R : JsonReader) (J : JsonFns) (req : SourcesRequest) (t : Time) (d : DB) : Prop :=
  answerHead (fun _ => 200) id ((Handler.headSources R J req).run t d).1 =
    answerHead (fun _ => 200) (·.headers) ((Handler.getSources R J req).run t d).1

/-! ## One listing -/

def pageCursor (R : JsonReader) : Option Str → Option (Option (Time × Uuid))
  | none => some none
  | some s => (decodeCursor R s).map some

def shownPage (R : JsonReader) (J : JsonFns) (p : ListSourcesParams) (t : Time) (d : DB) : Nat × PagingHeaders :=
  answerHead (fun _ => 200) (sourcesHeaders p) ((listSources R J p).run t d).1

section
variable {R : JsonReader} {J : JsonFns} {p : ListSourcesParams} {t : Time} {d : DB} {c : Option (Time × Uuid)}

theorem listSources_eq (R : JsonReader) (J : JsonFns) (p : ListSourcesParams) :
    listSources R J p = match pageCursor R p.pageFrom with
      | none => .fail (.app (.new .invalidJSON [.text "invalid page_from cursor"]))
      | some c => fetchSources J p c := by
  rw [listSources]
  cases p.pageFrom with
  | none => rfl
  | some s =>
    rw [pageCursor]
    dsimp only
    cases decodeCursor R s <;> rfl

theorem shownPage_refused (h : pageCursor R p.pageFrom = none) : shownPage R J p t d = (400, {}) := by
  rw [shownPage, listSources_eq, h]
  rfl

theorem shownPage_limit (R : JsonReader) (J : JsonFns) (p : ListSourcesParams) (t : Time) (d : DB) :
    (shownPage R J p t d).2.xPagingLimit = none ∨ (shownPage R J p t d).2.xPagingLimit = some p.limit.toInt := by
  rw [shownPage]
  cases ((listSources R J p).run t d).1 with
  | error e => exact Or.inl rfl
  | ok page =>
    right
    rw [answerHead, sourcesHeaders]
    cases page.nextCursor <;> rfl

theorem sourceLimit_spec {l : Int64} (hl : l ≤ 1000) :
    0 < (sourceLimit l).toInt.toNat ∧ (sourceLimit l).toInt.toNat ≤ 1000 ∧ ¬ sourceLimit l + 1 < 0 ∧
      (sourceLimit l + 1).toInt.toNat = (sourceLimit l).toInt.toNat + 1 := by
  have hpos : 0 < (sourceLimit l).toInt ∧ (sourceLimit l).toInt ≤ 1000 := by
    unfold sourceLimit
    split
    · decide
    · rename_i h
      rw [Int64.le_iff_toInt_le] at h hl
      exact ⟨Int.not_le.mp h, hl⟩
  have hadd := toInt_succ64 (x := sourceLimit l) (by omega)
  refine ⟨by omega, by omega, fun h => ?_, by omega⟩
  rw [Int64.lt_iff_toInt_lt, hadd] at h
  have h : (sourceLimit l).toInt + 1 < 0 := h
  omega

theorem shownPage_page (h : pageCursor R p.pageFrom = some c) (htags : p.tagValues = []) (hl : p.limit ≤ 1000) :
    shownPage R J p t d = (200, ({ xPagingLimit := some p.limit.toInt } : PagingHeaders).withNext
      ((pageAfter SourceRow.key false (sourceCond J p d) (sourceLimit p.limit).toInt.toNat
        (c.map fun c => toLex (c.1, c.2.toNat)) d.sources.rows).2.map fun last => encodeCursor last.created last.id)) := by
  obtain ⟨-, -, hge, hsucc⟩ := sourceLimit_spec hl
  rw [shownPage, listSources_eq, h]
  dsimp only
  rw [fetchSources, run_read, sourceRows, htags, if_neg (by simp), if_neg hge, hsucc]
  rfl

theorem nextKey_withNext (l : Option Int) (key : Option Str) :
    (({ xPagingLimit := l } : PagingHeaders).withNext key).xPagingNextKey = key := by
  cases key <;> rfl

theorem shownPage_next_iff (h : pageCursor R p.pageFrom = some c) (htags : p.tagValues = []) (hl : p.limit ≤ 1000) :
    (shownPage R J p t d).2.xPagingNextKey.isSome ↔ (sourceLimit p.limit).toInt.toNat <
      (rowsAfter SourceRow.key false (sourceCond J p d) (c.map fun c => toLex (c.1, c.2.toNat)) d.sources.rows).length := by
  rw [shownPage_page h htags hl, nextKey_withNext, Option.isSome_map, pageAfter_next_iff]

end

/-! ## What HEAD leaves out -/

def crowdRows (n : Nat) (format : Str) (created : Time) : List SourceRow :=
  (List.range n).map fun i => { id := BitVec.ofNat 128 i, format, created, updated := created }

theorem crowdRows_nodup {n : Nat} (hn : n ≤ 2 ^ 128) (format : Str) (created : Time) :
    ((crowdRows n format created).map SourceRow.id).Nodup := by
  rw [crowdRows, List.map_map]
  refine List.nodup_range.map_on fun i hi j hj he => ?_
  have hi := List.mem_range.mp hi
  have hj := List.mem_range.mp hj
  have he : BitVec.ofNat 128 i = BitVec.ofNat 128 j := he
  have := congrArg BitVec.toNat he
  rwa [BitVec.toNat_ofNat, BitVec.toNat_ofNat, Nat.mod_eq_of_lt (by omega), Nat.mod_eq_of_lt (by omega)] at this

def crowd {n : Nat} (hn : n ≤ 2 ^ 128) (format : Str) (created : Time) : DB :=
  { DB.empty with sources := ⟨crowdRows n format created, crowdRows_nodup hn format created⟩ }

section
variable {R : JsonReader} {J : JsonFns} {req : SourcesRequest} {t : Time} {d : DB}

theorem mirrorsSources_iff :
    MirrorsSources R J req t d ↔
      shownPage R J (Handler.headSourcesParams req) t d = shownPage R J (Handler.getSourcesParams req) t d := by
  have hhead : Handler.headSources R J req =
      (listSources R J (Handler.headSourcesParams req)).map (sourcesHeaders (Handler.headSourcesParams req)) := rfl
  have hget : Handler.getSources R J req = (listSources R J (Handler.getSourcesParams req)).map fun page =>
      ⟨page.items.map mapSource, sourcesHeaders (Handler.getSourcesParams req) page⟩ := rfl
  rw [MirrorsSources, hhead, hget, run_map, run_map, answerHead_map, answerHead_map]
  rfl

/-- A limit above 1000 is shown as it was sent by HEAD and as 1000 by GET. -/
theorem limit_le_of_mirrors {c : Option (Time × Uuid)} (hc : pageCursor R req.page = some c)
    (h : MirrorsSources R J req t d) {l : Int64} (hl : req.limit = some l) : l ≤ 1000 := by
  by_contra hgt
  have hlt : 1000 < l := Int64.not_le.mp hgt
  have hget : (Handler.getSourcesParams req).limit = 1000 := by
    simp only [Handler.getSourcesParams, hl, if_pos hlt]
  have hhead : (Handler.headSourcesParams req).limit = l := by
    simp only [Handler.headSourcesParams, hl, Option.getD_some]
  have hshown : (shownPage R J (Handler.getSourcesParams req) t d).2.xPagingLimit = some 1000 := by
    rw [shownPage_page (c := c) hc rfl (by rw [hget]; exact Int64.le_refl _), hget]
    generalize Option.map _ _ = key
    cases key <;> rfl
  rw [mirrorsSources_iff] at h
  have hlimit := shownPage_limit R J (Handler.headSourcesParams req) t d
  rw [h, hshown, hhead] at hlimit
  rcases hlimit with hlimit | hlimit
  · cases hlimit
  · have : (1000 : Int64).toInt = l.toInt := Option.some.inj hlimit
    rw [Int64.lt_iff_toInt_lt, this] at hlt
    exact lt_irrefl _ hlt

theorem getSourcesParams_limit (hl : ∀ l, req.limit = some l → l ≤ 1000) :
    (Handler.getSourcesParams req).limit = (Handler.headSourcesParams req).limit ∧
      (Handler.headSourcesParams req).limit ≤ 1000 := by
  simp only [Handler.getSourcesParams, Handler.headSourcesParams]
  cases hr : req.limit with
  | none => decide
  | some l => exact ⟨if_neg (Int64.not_lt.mpr (hl l hr)), hl l hr⟩

def afterCursor : Option (Time × Uuid) → Time
  | none => 0
  | some c => c.1 + 1

theorem isAfter_crowd (c : Option (Time × Uuid)) {r : SourceRow} (hr : r.created = afterCursor c) :
    isAfter false (c.map fun c => toLex (c.1, c.2.toNat)) r.key = true := by
  cases c with
  | none => rfl
  | some c =>
    rw [Option.map_some, isAfter_some]
    refine Prod.Lex.toLex_lt_toLex.mpr (Or.inl ?_)
    show c.1 < r.created
    rw [hr]
    exact Int.lt_succ c.1

/-- Among one source more than a page holds, GET finds none of the label or format it asks for. -/
theorem no_filters_of_mirrors {c : Option (Time × Uuid)} (hc : pageCursor R req.page = some c)
    (hl : ∀ l, req.limit = some l → l ≤ 1000) (h : ∀ d, MirrorsSources R J req t d) :
    req.label = none ∧ req.format = none := by
  by_contra hne
  obtain ⟨hlimit, hle⟩ := getSourcesParams_limit hl
  obtain ⟨hpos, hn, -⟩ := sourceLimit_spec hle
  generalize hnn : (sourceLimit (Handler.headSourcesParams req).limit).toInt.toNat = n at hpos hn
  have hfew : n + 1 ≤ 2 ^ 128 := by omega
  let d := crowd hfew (0 :: req.format.getD []) (afterCursor c)
  have hrow : ∀ r ∈ d.sources.rows, r.label = none ∧ r.format = 0 :: req.format.getD [] ∧ r.created = afterCursor c := by
    intro r hr
    obtain ⟨i, -, rfl⟩ := List.mem_map.mp hr
    exact ⟨rfl, rfl, rfl⟩
  have hmirror := mirrorsSources_iff.mp (h d)
  have hhead : (shownPage R J (Handler.headSourcesParams req) t d).2.xPagingNextKey.isSome := by
    rw [shownPage_next_iff (c := c) hc rfl hle, hnn,
      rowsAfter_all (m := sourceCond J (Handler.headSourcesParams req) d) fun r hr => ⟨rfl, isAfter_crowd c (hrow r hr).2.2⟩]
    show n < (crowdRows (n + 1) _ _).length
    simp [crowdRows]
  rw [hmirror, shownPage_next_iff (c := c) hc rfl (hlimit ▸ hle), rowsAfter_none] at hhead
  · exact Nat.not_lt_zero _ hhead
  intro r hr
  obtain ⟨hlabel, hformat, -⟩ := hrow r hr
  simp only [sourceCond, Handler.getSourcesParams, hlabel, hformat]
  cases hq : req.label with
  | some label => simp
  | none =>
    cases hf : req.format with
    | none => exact absurd ⟨hq, hf⟩ hne
    | some format => simp

end

/-- **HEAD of the sources mirrors GET in every state exactly for the requests with a cursor that does
not decode, or with a limit of at most 1000 and neither a label nor a format.** -/
theorem headSources_mirrors_iff (R : JsonReader) (J : JsonFns) (req : SourcesRequest) (t : Time) :
    (∀ d, MirrorsSources R J req t d) ↔
      pageCursor R req.page = none ∨ (∀ l, req.limit = some l → l ≤ 1000) ∧ req.label = none ∧ req.format = none := by
  constructor
  · intro h
    cases hc : pageCursor R req.page with
    | none => exact Or.inl rfl
    | some c =>
      have hl : ∀ l, req.limit = some l → l ≤ 1000 := fun l hl => limit_le_of_mirrors hc (h DB.empty) hl
      exact Or.inr ⟨hl, no_filters_of_mirrors hc hl h⟩
  · rintro (hc | ⟨hl, hlabel, hformat⟩) d
    · rw [mirrorsSources_iff, shownPage_refused (p := Handler.headSourcesParams req) hc,
        shownPage_refused (p := Handler.getSourcesParams req) hc]
    · have hsame : Handler.getSourcesParams req = Handler.headSourcesParams req := by
        rw [Handler.getSourcesParams, Handler.headSourcesParams, hlabel, hformat]
        exact congrArg (fun l => ({ limit := l, pageFrom := req.page } : ListSourcesParams))
          (getSourcesParams_limit hl).1
      rw [mirrorsSources_iff, hsame]

/-- Two sources without a label, a page of one, and a label that neither has: HEAD shows a next page. -/
theorem headSources_ignores_label :
    let req : SourcesRequest := { limit := some 1, label := some (lit "news") }
    let J : JsonFns := ⟨fun _ _ => none, fun _ => .error .invalidText, fun _ => none⟩
    let d := crowd (n := 2) (by decide) (lit "urn:x-nmos:format:video") 0
    answerHead (fun _ => 200) (·.headers) ((Handler.getSources canonicalReader J req).run 0 d).1 =
        (200, { xPagingLimit := some 1 }) ∧
      (answerHead (fun _ => 200) id ((Handler.headSources canonicalReader J req).run 0 d).1).2.xPagingNextKey =
        some (encodeCursor 0 0) ∧
      ¬ MirrorsSources canonicalReader J req 0 d := by
  unfold MirrorsSources
  decide +kernel

end OpenTams
