import OpenTams.SegmentClient
import OpenTams.Renaming

/-!
# Allocation of storage

`internal/service/storage` with `PostFlowStorage` of the handlers and
`GenerateUploadURL` of the object store: URLs for new objects, or for objects that
the caller names. Nothing is written for them. The identifiers that the server
draws are an argument.
-/

namespace OpenTams

open Sql Prog Fallible

/-! ## The service -/

inductive StorageStmt where
  | store (x : Stmt)
  | isObjectRegistered
  deriving DecidableEq

abbrev StorageTx := Prog DB Write Lock StorageStmt Err

def isObjectRegistered (objectId : Str) : StorageTx Bool :=
  .query .isObjectRegistered (failed "metastore: IsObjectRegistered: ") fun v =>
    v.segments.rows.any (·.objectId = objectId)

structure UploadStore extends S3Store where
  presignPut : Str → Str → Option Str

inductive UploadURLError where
  | notConfigured
  | presign
  deriving DecidableEq

def UploadStore.generateUploadURL (s : UploadStore) (objectId contentType : Str) : Except UploadURLError Str :=
  match s.presign with
  | none => .error .notConfigured
  | some _ => match s.presignPut objectId contentType with
    | none => .error .presign
    | some url => .ok url

/-- One of the two is set; a limit of objects that the server names, or the names. -/
structure AllocateRequest where
  limit : Option ℤ
  objectIds : List Str
  deriving DecidableEq

structure MediaObject where
  objectId : Str
  putURL : Str
  contentType : Str
  deriving DecidableEq

def maxAllocate : ℕ := 100

def validateLimit (n : ℤ) : Except Err Unit :=
  if n < 1 then .error (.app (.new .schemaValidation [.text "limit must be at least 1, got ", .int n]))
  else if maxAllocate < n then
    .error (.app (.new .schemaValidation
      [.text "limit must not exceed ", .int maxAllocate, .text ", got ", .int n]))
  else .ok ()

def validateAllocateSize (req : AllocateRequest) : Except Err Unit :=
  match req.limit.elim (.ok ()) validateLimit with
  | .error e => .error e
  | .ok () =>
    if maxAllocate < req.objectIds.length then
      .error (.app (.new .schemaValidation [.text "object_ids must not exceed ", .int maxAllocate,
        .text " entries, got ", .int req.objectIds.length]))
    else .ok ()

section
variable (s : UploadStore) (newId : ℕ → Uuid)

def mediaObject (contentType objectId : Str) : Except UploadURLError MediaObject :=
  (s.generateUploadURL objectId contentType).map fun putURL => { objectId, putURL, contentType }

def namedObjects (contentType : Str) : List Str → StorageTx (Except UploadURLError (List MediaObject))
  | [] => .ret (.ok [])
  | objectId :: rest => do
    let registered ← isObjectRegistered objectId
    if registered then
      .fail (.app (.new .objectIDExists [.text "object_id already registered as a segment: ", .str objectId]))
    else match mediaObject s contentType objectId with
      | .error e => .ret (.error e)
      | .ok o => (namedObjects contentType rest).map fun os => os.map (o :: ·)

def contentType (flow : StoredFlow) : Str := flow.row.codec.getD (lit "application/octet-stream")

def allocateStorage (flowId : Uuid) (req : AllocateRequest) :
    StorageTx (Except UploadURLError (List MediaObject)) := do
  let flow ← (getFlow flowId).rename .store
  if flow.row.readOnly then .fail (.app (.new .readOnly [.text "flow is read-only"]))
  else match validateAllocateSize req with
    | .error e => .fail e
    | .ok () => match req.limit with
      | some n =>
        .ret (((List.range n.toNat).map fun i => uuidText (newId i)).mapM (mediaObject s (contentType flow)))
      | none => namedObjects s (contentType flow) req.objectIds

/-! ## The handler -/

structure FlowStoragePost where
  limit : Option ℤ := none
  objectIds : Option (List Str) := none
  deriving DecidableEq

structure StorageMedia where
  objectId : Str
  url : Str
  contentType : Option Str
  deriving DecidableEq

inductive PostStorageResponse where
  | notFound
  | badRequest
  /-- the error goes to the middleware, which has no code for it -/
  | failed (e : UploadURLError)
  | created (mediaObjects : List StorageMedia)
  deriving DecidableEq

def storageMedia (o : MediaObject) : StorageMedia where
  objectId := o.objectId
  url := o.putURL
  contentType := optStr o.contentType

namespace Handler

def storageAllocated : Except Err (Except UploadURLError (List MediaObject)) → StorageTx PostStorageResponse
  | .error e => if e.isNotFound then .ret .notFound else .fail e
  | .ok (.error e) => .ret (.failed e)
  | .ok (.ok objs) => .ret (.created (objs.map storageMedia))

def postFlowStorage (flowId : Option Uuid) (body : Option FlowStoragePost) : StorageTx PostStorageResponse :=
  match flowId, body with
  | none, _ => .ret .notFound
  | some _, none => .ret .badRequest
  | some flowId, some body =>
    let ids := body.objectIds.getD []
    if body.limit.isSome = !ids.isEmpty then .ret .badRequest
    else do
      let objs ← (allocateStorage s newId flowId ⟨body.limit, ids⟩).attempt
      storageAllocated objs

end Handler

end

/-! ## What is allocated -/

def FlowStoragePost.Asks (newId : ℕ → Uuid) (body : FlowStoragePost) (d : DB) (ids : List Str) : Prop :=
  (∃ n : ℕ, body.limit = some (n : ℤ) ∧ body.objectIds.getD [] = [] ∧
      ids = (List.range n).map fun i => uuidText (newId i)) ∨
    body.limit = none ∧ body.objectIds = some ids ∧ ∀ r ∈ d.segments.rows, r.objectId ∉ ids

/-- The URL was signed for the object and the content type of its flow, which is sent along with it. -/
structure Signed (s : UploadStore) (r : FlowRow) (objectId : Str) (m : StorageMedia) : Prop where
  object : m.objectId = objectId
  client : s.presign.isSome
  url : s.presignPut objectId (r.codec.getD (lit "application/octet-stream")) = some m.url
  content : m.contentType = optStr (r.codec.getD (lit "application/octet-stream"))

section
variable {s : UploadStore} {newId : ℕ → Uuid} {f : Uuid} {t : Time} {d : DB} {r : FlowRow}

theorem service_getFlow_eq (f : Uuid) : FlowService.getFlow f false none = getFlow f := bind_ret _

theorem run_getFlow_store (hr : d.flows.get f = some r) :
    ((getFlow f).rename StorageStmt.store).run t d = (.ok (storedFlow d r), d) := by
  rw [run_rename, ← service_getFlow_eq, run_service_getFlow hr]

theorem run_getFlow_absent (hr : d.flows.get f = none) :
    ((getFlow f).rename StorageStmt.store).run t d = (.error (notFound "flow not found"), d) := by
  rw [run_rename, getFlow, run_query_bind, hr]
  rfl

theorem settles_getFlow (f : Uuid) : ((getFlow f).rename StorageStmt.store).Settles :=
  ((service_getFlow_eq f).symm ▸ settles_service_getFlow f).rename _

section
variable {ct : Str} {ids : List Str} {os : List MediaObject}

theorem run_namedObjects_cons (ct o : Str) (ids : List Str) :
    (namedObjects s ct (o :: ids)).run t d =
      if d.segments.rows.any (·.objectId = o) then
        (.error (.app (.new .objectIDExists [.text "object_id already registered as a segment: ", .str o])), d)
      else match mediaObject s ct o with
        | .error e => (.ok (.error e), d)
        | .ok m =>
          (((namedObjects s ct ids).run t d).1.map fun os => os.map (m :: ·), ((namedObjects s ct ids).run t d).2) := by
  rw [namedObjects, isObjectRegistered, run_query_bind]
  split
  · rfl
  · cases mediaObject s ct o with
    | error e => rfl
    | ok m => exact run_map _ _ _ _

theorem run_namedObjects_db (ct : Str) (ids : List Str) : ((namedObjects s ct ids).run t d).2 = d := by
  induction ids with
  | nil => rfl
  | cons o ids ih =>
    rw [run_namedObjects_cons]
    split
    · rfl
    · cases mediaObject s ct o with
      | error e => rfl
      | ok m => exact ih

/-- Every object gets a URL exactly if none of them is registered and each can be signed. -/
theorem namedObjects_ok :
    ((namedObjects s ct ids).run t d).1 = .ok (.ok os) ↔
      (∀ r ∈ d.segments.rows, r.objectId ∉ ids) ∧ List.Forall₂ (fun o m => mediaObject s ct o = .ok m) ids os := by
  induction ids generalizing os with
  | nil =>
    rw [List.forall₂_nil_left_iff]
    exact ⟨fun h => ⟨fun _ _ => List.not_mem_nil, by cases h; rfl⟩, fun h => by rw [h.2]; rfl⟩
  | cons o ids ih =>
    rw [run_namedObjects_cons, List.forall₂_cons_left_iff]
    split
    · rename_i hreg
      obtain ⟨r, hr, ho⟩ := List.any_eq_true.mp hreg
      refine iff_of_false nofun fun h => h.1 r hr ?_
      rw [of_decide_eq_true ho]
      exact List.mem_cons_self
    · rename_i hreg
      have hfree : (∀ r ∈ d.segments.rows, r.objectId ∉ o :: ids) ↔ ∀ r ∈ d.segments.rows, r.objectId ∉ ids := by
        refine forall₂_congr fun r hr => ?_
        rw [List.mem_cons, not_or]
        refine and_iff_right fun he => hreg ?_
        exact List.any_eq_true.mpr ⟨r, hr, decide_eq_true he⟩
      rw [hfree]
      cases hm : mediaObject s ct o with
      | error e => exact iff_of_false nofun fun ⟨_, m, _, h, _⟩ => by cases h
      | ok m =>
        dsimp only
        constructor
        · intro h
          rcases hres : ((namedObjects s ct ids).run t d).1 with e | (e | rest)
          · rw [hres] at h
            cases h
          · rw [hres] at h
            cases h
          · rw [hres] at h
            cases h
            obtain ⟨hno, hall⟩ := ih.mp hres
            exact ⟨hno, m, rest, rfl, hall, rfl⟩
        · rintro ⟨hno, m', rest, hm', hall, rfl⟩
          cases hm'
          rw [ih.mpr ⟨hno, hall⟩]
          rfl

end

theorem mediaObject_ok {ct o : Str} {m : MediaObject} :
    mediaObject s ct o = .ok m ↔ s.presign.isSome ∧ s.presignPut o ct = some m.putURL ∧ m.objectId = o ∧
      m.contentType = ct := by
  obtain ⟨mo, mu, mc⟩ := m
  unfold mediaObject UploadStore.generateUploadURL
  cases hp : s.presign with
  | none => exact iff_of_false nofun fun h => by cases h.1
  | some sign =>
    cases hu : s.presignPut o ct with
    | none => exact iff_of_false nofun fun h => by cases h.2.1
    | some url =>
      constructor
      · intro h
        cases h
        exact ⟨rfl, rfl, rfl, rfl⟩
      · rintro ⟨-, h, rfl, rfl⟩
        cases h
        rfl

theorem signed_iff {o : Str} {x : StorageMedia} :
    (∃ m, mediaObject s (contentType (storedFlow d r)) o = .ok m ∧ storageMedia m = x) ↔ Signed s r o x := by
  constructor
  · rintro ⟨m, hm, rfl⟩
    obtain ⟨hclient, hurl, hobj, hct⟩ := mediaObject_ok.mp hm
    exact ⟨hobj, hclient, hurl, congrArg optStr hct⟩
  · rintro ⟨rfl, hclient, hurl, hcontent⟩
    refine ⟨⟨x.objectId, x.url, contentType (storedFlow d r)⟩, mediaObject_ok.mpr ⟨hclient, hurl, rfl, rfl⟩, ?_⟩
    obtain ⟨xo, xu, xc⟩ := x
    cases hcontent
    rfl

/-! ## The service and the handler -/

def AllocateRequest.ids (newId : ℕ → Uuid) (req : AllocateRequest) : List Str :=
  req.limit.elim req.objectIds fun n => (List.range n.toNat).map fun i => uuidText (newId i)

section
variable {req : AllocateRequest} {os : List MediaObject}

theorem run_allocateStorage (hr : d.flows.get f = some r) (hro : r.readOnly = false)
    (hsize : validateAllocateSize req = .ok ()) :
    (allocateStorage s newId f req).run t d =
      req.limit.elim ((namedObjects s (contentType (storedFlow d r)) req.objectIds).run t d)
        fun _ => (.ok ((req.ids newId).mapM (mediaObject s (contentType (storedFlow d r)))), d) := by
  rw [allocateStorage, run_bind (settles_getFlow f), run_getFlow_store hr]
  dsimp only
  rw [show (storedFlow d r).row.readOnly = false from hro, if_neg Bool.false_ne_true, hsize, AllocateRequest.ids]
  cases req.limit with
  | none => rfl
  | some n => rfl

/-- A request that is not served fails before anything is signed. -/
theorem run_allocateStorage_error
    (h : ¬ ∃ r, d.flows.get f = some r ∧ r.readOnly = false ∧ validateAllocateSize req = .ok ()) (s : UploadStore)
    (newId : ℕ → Uuid) (t : Time) : ∃ e, (allocateStorage s newId f req).run t d = (.error e, d) := by
  rw [allocateStorage, run_bind (settles_getFlow f)]
  cases hr : d.flows.get f with
  | none =>
    rw [run_getFlow_absent hr]
    exact ⟨_, rfl⟩
  | some r =>
    rw [run_getFlow_store hr]
    dsimp only
    cases hro : r.readOnly with
    | true =>
      rw [if_pos (show (storedFlow d r).row.readOnly = true from hro)]
      exact ⟨_, rfl⟩
    | false =>
      rw [show (storedFlow d r).row.readOnly = false from hro, if_neg Bool.false_ne_true]
      cases hsize : validateAllocateSize req with
      | error e => exact ⟨e, rfl⟩
      | ok u => exact absurd ⟨r, hr, hro, hsize⟩ h

theorem run_allocateStorage_db (s : UploadStore) (newId : ℕ → Uuid) (f : Uuid) (req : AllocateRequest) (t : Time)
    (d : DB) : ((allocateStorage s newId f req).run t d).2 = d := by
  by_cases h : ∃ r, d.flows.get f = some r ∧ r.readOnly = false ∧ validateAllocateSize req = .ok ()
  · obtain ⟨r, hr, hro, hsize⟩ := h
    rw [run_allocateStorage hr hro hsize]
    cases req.limit with
    | none => exact run_namedObjects_db _ _
    | some n => rfl
  · obtain ⟨e, he⟩ := run_allocateStorage_error h s newId t
    rw [he]

theorem allocateStorage_ok :
    ((allocateStorage s newId f req).run t d).1 = .ok (.ok os) ↔
      ∃ r, d.flows.get f = some r ∧ r.readOnly = false ∧ validateAllocateSize req = .ok () ∧
        (req.limit = none → ∀ r ∈ d.segments.rows, r.objectId ∉ req.objectIds) ∧
        List.Forall₂ (fun o m => mediaObject s (contentType (storedFlow d r)) o = .ok m) (req.ids newId) os := by
  by_cases h : ∃ r, d.flows.get f = some r ∧ r.readOnly = false ∧ validateAllocateSize req = .ok ()
  · obtain ⟨r, hr, hro, hsize⟩ := h
    rw [run_allocateStorage hr hro hsize]
    have hr' : ∀ r', d.flows.get f = some r' ↔ r' = r := fun r' =>
      ⟨fun h => Option.some.inj (h.symm.trans hr), fun h => h ▸ hr⟩
    simp only [hr', exists_eq_left, hro, hsize, true_and]
    unfold AllocateRequest.ids
    cases req.limit with
    | none => exact namedObjects_ok.trans (and_congr_left' ⟨fun h _ => h, fun h => h rfl⟩)
    | some n =>
      dsimp only [Option.elim]
      rw [Except.ok.injEq, mapM_ok]
      exact (and_iff_right fun hnone => by cases hnone).symm
  · obtain ⟨e, he⟩ := run_allocateStorage_error h s newId t
    rw [he]
    refine iff_of_false (fun hok => by cases hok) ?_
    rintro ⟨r, hr, hro, hsize, -⟩
    exact h ⟨r, hr, hro, hsize⟩

theorem validateAllocateSize_ok :
    validateAllocateSize req = .ok () ↔
      (∀ n, req.limit = some n → 1 ≤ n ∧ n ≤ maxAllocate) ∧ req.objectIds.length ≤ maxAllocate := by
  have hlimit (n : ℤ) : validateLimit n = .ok () ↔ 1 ≤ n ∧ n ≤ maxAllocate := by
    unfold validateLimit
    split
    · exact iff_of_false nofun (by omega)
    · split
      · exact iff_of_false nofun (by omega)
      · exact iff_of_true rfl (by omega)
  have hids : (if maxAllocate < req.objectIds.length then
        Except.error (Err.app (.new .schemaValidation [.text "object_ids must not exceed ", .int maxAllocate,
          .text " entries, got ", .int req.objectIds.length]))
      else .ok ()) = .ok () ↔ req.objectIds.length ≤ maxAllocate := by
    split
    · exact iff_of_false nofun (by omega)
    · exact iff_of_true rfl (by omega)
  unfold validateAllocateSize
  cases req.limit with
  | none => exact hids.trans (iff_and_self.mpr fun _ _ h => by cases h)
  | some n =>
    cases hn : validateLimit n with
    | error e =>
      refine iff_of_false (by simp [hn]) fun h => ?_
      cases hn.symm.trans ((hlimit n).mpr (h.1 n rfl))
    | ok u =>
      simp only [Option.elim_some, hn]
      refine hids.trans (iff_and_self.mpr fun _ m hm => ?_)
      cases hm
      exact (hlimit n).mp hn

end

theorem settles_namedObjects (ct : Str) (ids : List Str) : (namedObjects s ct ids).Settles := by
  induction ids with
  | nil => exact settles_ret _
  | cons o ids ih =>
    rw [namedObjects]
    refine (settles_query _ _ _).bind fun b => ?_
    split
    · exact settles_fail _
    · cases mediaObject s ct o with
      | error e => exact settles_ret _
      | ok m => exact Settles.bind ih fun _ => settles_ret _

theorem settles_allocateStorage (s : UploadStore) (newId : ℕ → Uuid) (f : Uuid) (req : AllocateRequest) :
    (allocateStorage s newId f req).Settles := by
  refine (settles_getFlow f).bind fun flow => ?_
  split
  · exact settles_fail _
  · cases validateAllocateSize req with
    | error e => exact settles_fail _
    | ok u =>
      cases req.limit with
      | none => exact settles_namedObjects _ _
      | some n => exact settles_ret _

theorem run_postFlowStorage (s : UploadStore) (newId : ℕ → Uuid) (f : Uuid) {body : FlowStoragePost}
    (hmode : ¬ body.limit.isSome = !(body.objectIds.getD []).isEmpty) (t : Time) (d : DB) :
    (Handler.postFlowStorage s newId (some f) (some body)).run t d =
      (Handler.storageAllocated
        ((allocateStorage s newId f ⟨body.limit, body.objectIds.getD []⟩).run t d).1).run t d := by
  rw [Handler.postFlowStorage, if_neg hmode, run_bind (settles_allocateStorage s newId f _).attempt, run_attempt,
    run_allocateStorage_db]

theorem run_storageAllocated_db (x : Except Err (Except UploadURLError (List MediaObject))) :
    ((Handler.storageAllocated x).run t d).2 = d := by
  rcases x with e | (e | os)
  · rw [Handler.storageAllocated]
    split <;> rfl
  · rfl
  · rfl

theorem storageAllocated_created {x : Except Err (Except UploadURLError (List MediaObject))}
    {media : List StorageMedia} : ((Handler.storageAllocated x).run t d).1 = .ok (.created media) ↔
      ∃ os, x = .ok (.ok os) ∧ os.map storageMedia = media := by
  rcases x with e | (e | os)
  · refine iff_of_false ?_ fun ⟨_, h, _⟩ => by cases h
    rw [Handler.storageAllocated]
    split <;> nofun
  · exact iff_of_false nofun fun ⟨_, h, _⟩ => by cases h
  · constructor
    · intro h
      cases h
      exact ⟨os, rfl, rfl⟩
    · rintro ⟨_, h, rfl⟩
      cases h
      rfl

theorem forall₂_exists_map {α β γ : Type} {R : α → β → Prop} {g : β → γ} {xs : List α} {zs : List γ} :
    (∃ ys, List.Forall₂ R xs ys ∧ ys.map g = zs) ↔ List.Forall₂ (fun x z => ∃ y, R x y ∧ g y = z) xs zs := by
  induction xs generalizing zs with
  | nil =>
    rw [List.forall₂_nil_left_iff]
    exact ⟨fun ⟨ys, h, hz⟩ => by cases h; exact hz.symm, fun h => ⟨[], .nil, h.symm⟩⟩
  | cons x xs ih =>
    rw [List.forall₂_cons_left_iff]
    constructor
    · rintro ⟨_, _ | ⟨hy, hrest⟩, rfl⟩
      exact ⟨_, _, ⟨_, hy, rfl⟩, ih.mp ⟨_, hrest, rfl⟩, rfl⟩
    · rintro ⟨_, _, ⟨y, hy, rfl⟩, hrest, rfl⟩
      obtain ⟨ys, hys, rfl⟩ := ih.mpr hrest
      exact ⟨y :: ys, .cons hy hys, rfl⟩

/-- A request asks for objects in one of the two ways. -/
theorem asks_mode {body : FlowStoragePost} {ids : List Str} (h : body.Asks newId d ids) (hpos : 0 < ids.length) :
    ¬ body.limit.isSome = !(body.objectIds.getD []).isEmpty := by
  rcases h with ⟨n, hn, hnil, -⟩ | ⟨hn, hids, -⟩
  · rw [hn, hnil]
    exact fun h => by cases h
  · rw [hn, hids]
    cases ids with
    | nil => cases hpos
    | cons o ids => exact fun h => by cases h

theorem asks_iff {body : FlowStoragePost} {ids : List Str}
    (hmode : ¬ body.limit.isSome = !(body.objectIds.getD []).isEmpty) :
    (body.Asks newId d ids ∧ 0 < ids.length ∧ ids.length ≤ maxAllocate) ↔
      validateAllocateSize ⟨body.limit, body.objectIds.getD []⟩ = .ok () ∧
        (body.limit = none → ∀ r ∈ d.segments.rows, r.objectId ∉ body.objectIds.getD []) ∧
        AllocateRequest.ids newId ⟨body.limit, body.objectIds.getD []⟩ = ids := by
  obtain ⟨limit, objectIds⟩ := body
  rw [validateAllocateSize_ok]
  unfold FlowStoragePost.Asks AllocateRequest.ids
  dsimp only at hmode ⊢
  cases limit with
  | none =>
    cases objectIds with
    | none => exact absurd rfl hmode
    | some l =>
      have hpos : 0 < l.length := List.length_pos_iff.mpr fun h => hmode (by rw [h]; rfl)
      constructor
      · rintro ⟨⟨n, h, -⟩ | ⟨-, h, hfree⟩, -, hlen⟩
        · cases h
        · cases h
          exact ⟨⟨nofun, hlen⟩, fun _ => hfree, rfl⟩
      · rintro ⟨⟨-, hlen⟩, hfree, rfl⟩
        exact ⟨Or.inr ⟨rfl, rfl, hfree rfl⟩, hpos, hlen⟩
  | some n =>
    have hnil : objectIds.getD [] = [] := by
      by_contra hne
      refine hmode ?_
      rw [List.isEmpty_eq_false_iff.mpr hne]
      rfl
    rw [hnil]
    constructor
    · rintro ⟨⟨k, hk, -, rfl⟩ | ⟨h, -⟩, hpos, hlen⟩
      · cases hk
        rw [List.length_map, List.length_range] at hpos hlen
        refine ⟨⟨fun m hm => ?_, Nat.zero_le _⟩, nofun, rfl⟩
        cases hm
        omega
      · cases h
    · rintro ⟨⟨hn, -⟩, -, rfl⟩
      obtain ⟨hlo, hhi⟩ := hn n rfl
      refine ⟨Or.inl ⟨n.toNat, ?_, rfl, rfl⟩, ?_, ?_⟩
      · rw [Int.toNat_of_nonneg (by omega)]
      · rw [Option.elim_some, List.length_map, List.length_range]
        omega
      · rw [Option.elim_some, List.length_map, List.length_range]
        omega

theorem run_postFlowStorage_db (s : UploadStore) (newId : ℕ → Uuid) (flowId : Option Uuid)
    (body : Option FlowStoragePost) (t : Time) (d : DB) :
    ((Handler.postFlowStorage s newId flowId body).run t d).2 = d := by
  cases flowId with
  | none => rfl
  | some f =>
    cases body with
    | none => rfl
    | some body =>
      by_cases hmode : body.limit.isSome = !(body.objectIds.getD []).isEmpty
      · rw [Handler.postFlowStorage, if_pos hmode]
        rfl
      · rw [run_postFlowStorage s newId f hmode]
        exact run_storageAllocated_db _

theorem postFlowStorage_created {body : FlowStoragePost} {media : List StorageMedia} :
    ((Handler.postFlowStorage s newId (some f) (some body)).run t d).1 = .ok (.created media) ↔
      ∃ r ids, d.flows.get f = some r ∧ r.readOnly = false ∧ body.Asks newId d ids ∧
        0 < ids.length ∧ ids.length ≤ maxAllocate ∧ List.Forall₂ (Signed s r) ids media := by
  by_cases hmode : body.limit.isSome = !(body.objectIds.getD []).isEmpty
  · have hbad : ((Handler.postFlowStorage s newId (some f) (some body)).run t d).1 = .ok .badRequest := by
      rw [Handler.postFlowStorage, if_pos hmode]
      rfl
    rw [hbad]
    refine iff_of_false nofun ?_
    rintro ⟨r, ids, -, -, hasks, hpos, -⟩
    exact asks_mode hasks hpos hmode
  rw [run_postFlowStorage s newId f hmode, storageAllocated_created]
  constructor
  · rintro ⟨os, hos, rfl⟩
    obtain ⟨r, hr, hro, hsize, hfree, hall⟩ := allocateStorage_ok.mp hos
    obtain ⟨hasks, hpos, hlen⟩ := (asks_iff hmode).mpr ⟨hsize, hfree, rfl⟩
    refine ⟨r, _, hr, hro, hasks, hpos, hlen, ?_⟩
    exact (forall₂_exists_map.mp ⟨os, hall, rfl⟩).imp fun _ _ => signed_iff.mp
  · rintro ⟨r, ids, hr, hro, hasks, hpos, hlen, hall⟩
    obtain ⟨hsize, hfree, rfl⟩ := (asks_iff hmode).mp ⟨hasks, hpos, hlen⟩
    obtain ⟨os, hos, hmap⟩ := forall₂_exists_map.mpr (hall.imp fun _ _ => (signed_iff (d := d)).mpr)
    exact ⟨os, allocateStorage_ok.mpr ⟨r, hr, hro, hsize, hfree, hos⟩, hmap⟩

/-- **What a request for storage is answered with.** Objects are allocated exactly if the flow is there and can be
written, and the request asks in one of the two ways for between one and a hundred objects of which none is registered
under any flow; each comes with a URL that was signed for it and for the content type of the flow. In no case does the
store change. -/
theorem storage_allocated (s : UploadStore) (newId : ℕ → Uuid) (f : Uuid) (body : FlowStoragePost) (t : Time) (d : DB) :
    ((Handler.postFlowStorage s newId (some f) (some body)).run t d).2 = d ∧
    ∀ media, ((Handler.postFlowStorage s newId (some f) (some body)).run t d).1 = .ok (.created media) ↔
      ∃ r ids, d.flows.get f = some r ∧ r.readOnly = false ∧ body.Asks newId d ids ∧
        0 < ids.length ∧ ids.length ≤ maxAllocate ∧ List.Forall₂ (Signed s r) ids media :=
  ⟨run_postFlowStorage_db s newId (some f) (some body) t d, fun _ => postFlowStorage_created⟩

end

end OpenTams
