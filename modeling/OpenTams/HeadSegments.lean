import OpenTams.RefCount
import OpenTams.SegmentPages
import OpenTams.SegmentRead

/-!
# HEAD and GET of the segments

The two handlers convert the parameters alike and call the same service. GET
turns an unknown flow into 404 and a cursor that does not decode into 400; HEAD
knows neither error and passes it on, and the middleware answers 500. In all else
they agree.
-/

namespace OpenTams

open Sql Sql.Prog Fallible

def MirrorsSegments (s : S3Store) (R : JsonReader) (flowId : Option Uuid) (p : GetFlowSegmentsParams) (t : Time)
    (d : DB) : Prop :=
  answerHead HeadSegmentsResponse.status HeadSegmentsResponse.headers
      ((Handler.headFlowSegments R flowId p).run t d).1 =
    answerHead GetSegmentsResponse.status GetSegmentsResponse.headers
      ((Handler.getFlowSegments s R flowId p).run t d).1

/-- The request is well formed up to its cursor, and asks for a flow that is not there or with a
cursor that does not decode. An empty range ends the listing before the cursor is read. -/
def AsksInVain (R : JsonReader) (flowId : Option Uuid) (p : GetFlowSegmentsParams) (d : DB) : Prop :=
  ∃ id params, flowId = some id ∧ listParamsFromAPI p = .ok params ∧
    SegmentService.checkTimerange params.timerange = .ok () ∧
    (d.flows.get id = none ∨ params.page ≠ [] ∧ decodeSegCursor R params.page = none ∧
      ∀ tr, params.timerange = some tr → tr.isEmpty = false)

/-! ## Errors -/

theorem Err.asApp_of_is {e : Err} {s : Sentinel} (h : e.is s = true) : e.asApp = none := by
  induction e with
  | sentinel => rfl
  | wrap m e ih => exact ih h
  | _ => cases h

def KnownToGet (x : Except Err SegmentPage) : Prop :=
  ∃ e, x = .error e ∧ (e.is .serviceFlowNotFound = true ∨ e.is .invalidCursor = true)

section
variable {s : S3Store} {params : ListParams} {t : Time} {d : DB}

/-- The middleware answers 500 to an error HEAD does not know. -/
theorem head_of_noApp {e : Err} (h : e.asApp = none) :
    answerHead HeadSegmentsResponse.status HeadSegmentsResponse.headers
      ((Handler.segmentsCounted params (.error e)).run t d).1 = (500, {}) := by
  simp only [Handler.segmentsCounted, invalidTimerangeDetail, h]
  show ((errorHandler e).status, _) = _
  rw [errorHandler, h]
  rfl

/-- Whatever the service answers, HEAD differs from GET exactly at these errors. -/
theorem answers_agree_iff (x : Except Err SegmentPage) :
    answerHead HeadSegmentsResponse.status HeadSegmentsResponse.headers
        ((Handler.segmentsCounted params x).run t d).1 =
      answerHead GetSegmentsResponse.status GetSegmentsResponse.headers
        ((Handler.segmentsListed s params x).run t d).1 ↔ ¬ KnownToGet x := by
  cases x with
  | ok page =>
    have hno : ¬ KnownToGet (.ok page) := by
      rintro ⟨e, he, -⟩
      cases he
    simp only [Handler.segmentsCounted, Handler.segmentsListed, hno, not_false_eq_true, iff_true]
    cases page.timerange.string with
    | none => rfl
    | some text => simp only [segmentPageToAPI, List.length_map]; rfl
  | error e =>
    by_cases hf : e.is .serviceFlowNotFound = true
    · rw [head_of_noApp (Err.asApp_of_is hf)]
      simp only [Handler.segmentsListed, hf, if_true]
      exact ⟨fun h => (by cases h), fun h => absurd ⟨e, rfl, Or.inl hf⟩ h⟩
    by_cases hc : e.is .invalidCursor = true
    · rw [head_of_noApp (Err.asApp_of_is hc)]
      simp only [Handler.segmentsListed, hf, hc, if_true]
      exact ⟨fun h => (by cases h), fun h => absurd ⟨e, rfl, Or.inr hc⟩ h⟩
    have hno : ¬ KnownToGet (.error e) := by
      rintro ⟨e', he, h⟩
      cases he
      exact h.elim hf hc
    simp only [Handler.segmentsCounted, Handler.segmentsListed, hf, hc, hno, not_false_eq_true, iff_true]
    cases invalidTimerangeDetail e <;> rfl

end

/-! ## The service -/

section
variable {R : JsonReader} {req : ListParams} {t : Time} {d : DB}

theorem settles_listSegments (R : JsonReader) (q : ListQuery) : (listSegments R q).Settles := by
  have hfetch : ∀ b k, (fetchSegments q b k).Settles := fun b k => settles_stmtE _ _ _ _
  have hfiltered : ∀ b, (listFiltered R q b).Settles := by
    intro b
    unfold listFiltered
    split
    · exact hfetch b none
    split
    · exact settles_fail _
    · exact hfetch b _
  refine Settles.bind (settles_query _ _ _) fun guard => ?_
  split
  · exact settles_fail _
  split
  · exact hfiltered none
  split
  · exact settles_fail _
  · exact settles_ret _
  · exact hfiltered _

theorem settles_list (R : JsonReader) (req : ListParams) : (SegmentService.list R req).Settles := by
  unfold SegmentService.list
  split
  · exact settles_fail _
  · refine (settles_listSegments R _).attempt.bind fun x => ?_
    unfold SegmentService.listed
    repeat' split
    all_goals first | exact settles_ret _ | exact settles_fail _

theorem run_list (h : SegmentService.checkTimerange req.timerange = .ok ()) :
    ((SegmentService.list R req).run t d).1 =
      ((SegmentService.listed ((listSegments R (SegmentService.listQuery req)).run t d).1).run t
        ((listSegments R (SegmentService.listQuery req)).run t d).2).1 := by
  rw [SegmentService.list, h]
  dsimp only
  rw [run_bind (settles_listSegments R _).attempt, run_attempt]

theorem scanText_error {α : Type} {what : String} {f : Str → Except ParseError α} {text : Str} {e : Err}
    (h : scanText what f text = .error e) (s : Sentinel) : e.is s = false := by
  unfold scanText at h
  cases hf : f text with
  | ok a =>
    rw [hf] at h
    cases h
  | error pe =>
    rw [hf] at h
    cases h
    rfl

theorem scanOptional_error {α : Type} {what : String} {f : Str → Except ParseError α} {text : Option Str} {e : Err}
    (h : scanOptional what f text = .error e) (s : Sentinel) : e.is s = false := by
  cases text with
  | none => cases h
  | some text =>
    rw [scanOptional] at h
    cases hs : scanText what f text with
    | ok a =>
      rw [hs] at h
      cases h
    | error e' =>
      rw [hs] at h
      cases h
      exact scanText_error hs s

theorem scanSegment_error {r : SegmentRow} {e : Err} (h : scanSegment r = .error e) (s : Sentinel) : e.is s = false := by
  unfold scanSegment at h
  rcases bind_error.mp h with h | ⟨tr, -, h⟩
  · exact scanText_error h s
  rcases bind_error.mp h with h | ⟨ts, -, h⟩
  · exact scanOptional_error h s
  rcases bind_error.mp h with h | ⟨otr, -, h⟩
  · exact scanOptional_error h s
  rcases bind_error.mp h with h | ⟨dur, -, h⟩
  · exact scanOptional_error h s
  · cases h

theorem checkTimerange_error {o : Option TimeRange} {e : Err} (h : SegmentService.checkTimerange o = .error e)
    (s : Sentinel) : e.is s = false := by
  cases o with
  | none => cases h
  | some tr =>
    rw [SegmentService.checkTimerange, SegmentService.checkQueryTimerange] at h
    split at h <;> cases h <;> rfl

theorem queryBounds_of_check {tr : TimeRange} (h : SegmentService.checkQueryTimerange tr = .ok ()) :
    tr.isEmpty = true ∧ queryBounds tr = .ok none ∨ tr.isEmpty = false ∧ ∃ b, queryBounds tr = .ok (some b) := by
  cases hem : tr.isEmpty with
  | true => exact Or.inl ⟨rfl, by rw [queryBounds, if_pos hem]⟩
  | false =>
    refine Or.inr ⟨rfl, ?_⟩
    rw [queryBounds, if_neg (by simp [hem])]
    cases hb : tr.nsBounds with
    | ok b => exact ⟨_, rfl⟩
    | error e =>
      rw [SegmentService.checkQueryTimerange, hb] at h
      cases e with
      | emptyRange =>
        rw [TimeRange.nsBounds, if_neg (by simp [hem])] at hb
        dsimp only at hb
        split at hb <;> cases hb
      | startOutOfRange => cases h
      | endOutOfRange => cases h

/-- Rows are read, and if one of them cannot be, the error is not known to GET. -/
theorem listed_fetch (q : ListQuery) (b : Option (Option Int64 × Option Int64)) (k : Option (Int64 × Int64)) {d' : DB} :
    ¬ KnownToGet ((SegmentService.listed ((fetchSegments q b k).run t d).1).run t d').1 := by
  rw [run_fetchSegments]
  cases hm : (listRows q b k d).mapM scanSegment with
  | ok items =>
    rintro ⟨e, he, -⟩
    cases he
  | error e =>
    obtain ⟨r, -, hr⟩ := mapM_error hm
    have hwithin : ∀ m s, (e.within m).is s = false := by
      intro m s
      cases e with
      | panic => rfl
      | _ => exact scanSegment_error hr s
    have hlisted : SegmentService.listed (.error e) = .fail (e.within [.text "segment: list: "]) := by
      rw [SegmentService.listed, scanSegment_error hr, scanSegment_error hr]
      rfl
    rintro ⟨e', he, hk⟩
    rw [Except.map, hlisted] at he
    cases he
    rw [hwithin, hwithin] at hk
    cases hk <;> contradiction

theorem known_filtered {f : FlowRow} {q : ListQuery} {b : Option (Option Int64 × Option Int64)}
    (hf : d.flows.get q.flowId = some f) (hb : Filters q b) {d' : DB} :
    KnownToGet ((SegmentService.listed ((listSegments R q).run t d).1).run t d').1 ↔
      q.page ≠ [] ∧ decodeSegCursor R q.page = none := by
  rw [run_listSegments_filters hf hb, listFiltered]
  by_cases hp : q.page = []
  · rw [if_pos hp]
    exact ⟨fun h => absurd h (listed_fetch _ _ _), fun h => absurd hp h.1⟩
  · rw [if_neg hp]
    cases hc : decodeSegCursor R q.page with
    | none => exact ⟨fun _ => ⟨hp, rfl⟩, fun _ => ⟨_, rfl, Or.inr rfl⟩⟩
    | some c => exact ⟨fun h => absurd h (listed_fetch _ _ _), fun h => by cases h.2⟩

/-- The errors that only GET knows are those of an unknown flow and of a cursor that is read. -/
theorem list_known_iff :
    KnownToGet ((SegmentService.list R req).run t d).1 ↔
      SegmentService.checkTimerange req.timerange = .ok () ∧
      (d.flows.get req.flowId = none ∨ req.page ≠ [] ∧ decodeSegCursor R req.page = none ∧
        ∀ tr, req.timerange = some tr → tr.isEmpty = false) := by
  cases hcheck : SegmentService.checkTimerange req.timerange with
  | error e =>
    refine ⟨fun h => ?_, fun h => by cases h.1⟩
    rw [SegmentService.list, hcheck] at h
    obtain ⟨e', he, hk⟩ := h
    cases he
    rw [checkTimerange_error hcheck, checkTimerange_error hcheck] at hk
    cases hk <;> contradiction
  | ok u =>
    rw [run_list hcheck]
    cases hf : d.flows.get req.flowId with
    | none =>
      rw [run_listSegments_absent (q := SegmentService.listQuery req) hf]
      exact ⟨fun _ => ⟨rfl, Or.inl rfl⟩, fun _ => ⟨_, rfl, Or.inl rfl⟩⟩
    | some f =>
      simp only [true_and, reduceCtorEq, false_or]
      cases htr : req.timerange with
      | none =>
        rw [known_filtered (q := SegmentService.listQuery req) hf (.all htr)]
        exact ⟨fun h => ⟨h.1, h.2, fun tr h => by cases h⟩, fun h => ⟨h.1, h.2.1⟩⟩
      | some tr =>
        rw [htr] at hcheck
        rcases queryBounds_of_check hcheck with ⟨hem, hb⟩ | ⟨hem, b, hb⟩
        · rw [run_listSegments_empty (q := SegmentService.listQuery req) hf htr hb]
          constructor
          · rintro ⟨e, he, -⟩
            cases he
          · rintro ⟨-, -, hne⟩
            rw [hne tr rfl] at hem
            cases hem
        · rw [known_filtered (q := SegmentService.listQuery req) hf (.range htr hb)]
          refine ⟨fun h => ⟨h.1, h.2, fun tr' h => ?_⟩, fun h => ⟨h.1, h.2.1⟩⟩
          cases h
          exact hem

end

/-- **HEAD of the segments mirrors GET exactly for the requests that do not ask in vain.** -/
theorem headSegments_mirrors_iff (s : S3Store) (R : JsonReader) (flowId : Option Uuid) (p : GetFlowSegmentsParams)
    (t : Time) (d : DB) : MirrorsSegments s R flowId p t d ↔ ¬ AsksInVain R flowId p d := by
  cases flowId with
  | none =>
    refine ⟨?_, fun _ => rfl⟩
    rintro - ⟨id, params, hid, -⟩
    cases hid
  | some id =>
    cases hp : listParamsFromAPI p with
    | error e =>
      refine ⟨?_, fun _ => ?_⟩
      · rintro - ⟨id, params, -, hparams, -⟩
        cases hp.symm.trans hparams
      · rw [MirrorsSegments, Handler.headFlowSegments, Handler.getFlowSegments, hp]
        rfl
    | ok params =>
      have hvain : AsksInVain R (some id) p d ↔
          KnownToGet ((SegmentService.list R { params with flowId := id }).run t d).1 := by
        rw [list_known_iff]
        constructor
        · rintro ⟨id', params', hid, hparams, h⟩
          cases hid
          cases hp.symm.trans hparams
          exact h
        · exact fun h => ⟨id, params, rfl, hp, h⟩
      rw [hvain, MirrorsSegments, Handler.headFlowSegments, Handler.getFlowSegments, hp]
      dsimp only
      rw [run_bind (settles_list R _).attempt, run_bind (settles_list R _).attempt, run_attempt]
      exact answers_agree_iff _

def plainStore : S3Store where
  bucket := lit "media"
  backend := ⟨lit "0", lit "aws", lit "eu-west-1", lit "s3"⟩
  presign := none

/-- An unknown flow is 404 for GET and 500 for HEAD, and a cursor that is not base64 is 400 and 500. -/
theorem headSegments_differs :
    answerHead GetSegmentsResponse.status GetSegmentsResponse.headers
        ((Handler.getFlowSegments plainStore canonicalReader (some 1) {}).run 0 DB.empty).1 = (404, {}) ∧
      answerHead HeadSegmentsResponse.status HeadSegmentsResponse.headers
        ((Handler.headFlowSegments canonicalReader (some 1) {}).run 0 DB.empty).1 = (500, {}) ∧
      answerHead GetSegmentsResponse.status GetSegmentsResponse.headers
        ((Handler.getFlowSegments plainStore canonicalReader (some 1) { page := some (lit "!") }).run 0 oneFlow).1 =
          (400, {}) ∧
      answerHead HeadSegmentsResponse.status HeadSegmentsResponse.headers
        ((Handler.headFlowSegments canonicalReader (some 1) { page := some (lit "!") }).run 0 oneFlow).1 =
          (500, {}) := by
  decide +kernel

end OpenTams
