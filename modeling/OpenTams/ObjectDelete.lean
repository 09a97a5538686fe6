import OpenTams.SegmentRead

/-!
# Batch deletion of objects

`DeleteObjects` takes duplicates out of the ids, sends them in chunks, and reads
the outcome of every id back from a map whose missing entries are nil, that is,
success. The client of the backend answers every call as it likes; the calls and
the answers are part of what the model returns.
-/

namespace OpenTams

/-! ## Errors -/

/-- An error of the S3 client: the code of an API error, whether it wraps a context error, and its text. -/
structure BackendError where
  code : Option Str
  canceled : Bool := false
  deadlineExceeded : Bool := false
  text : Str
  deriving DecidableEq

inductive ContextError where
  | canceled
  | deadlineExceeded
  deriving DecidableEq

inductive ObjectSentinel where
  | transient
  | auth
  deriving DecidableEq

def ObjectSentinel.text : ObjectSentinel → Str
  | .transient => lit "objectstore: transient error (retry eligible)"
  | .auth => lit "objectstore: authentication failure"

structure ObjectError where
  sentinel : Option ObjectSentinel
  cause : Option BackendError := none
  text : Str
  deriving DecidableEq

inductive DeleteError where
  | context (e : ContextError)
  | auth (e : BackendError)
  deriving DecidableEq

def DeleteError.text : DeleteError → Str
  | .context .canceled => lit "objectstore: DeleteObjects: context canceled"
  | .context .deadlineExceeded => lit "objectstore: DeleteObjects: context deadline exceeded"
  | .auth e => ObjectSentinel.auth.text ++ lit ": " ++ e.text

def classifyAuth (e : BackendError) : Bool :=
  e.code = some (lit "AccessDenied") || e.code = some (lit "InvalidAccessKeyId") ||
    e.code = some (lit "SignatureDoesNotMatch") || e.code = some (lit "Unauthorized")

def classifyChunkErr (e : BackendError) : ObjectError where
  sentinel := some .transient
  cause := some e
  text := ObjectSentinel.transient.text ++ lit ": " ++ e.text

def classifyAPIError (code msg : Str) : ObjectError :=
  if code = lit "InternalError" || code = lit "ServiceUnavailable" || code = lit "SlowDown" ||
      code = lit "RequestTimeout" then
    { sentinel := some .transient, text := ObjectSentinel.transient.text ++ lit ": " ++ code ++ lit ": " ++ msg }
  else if code = lit "AccessDenied" || code = lit "InvalidAccessKeyId" || code = lit "SignatureDoesNotMatch" then
    { sentinel := some .auth, text := ObjectSentinel.auth.text ++ lit ": " ++ code ++ lit ": " ++ msg }
  else { sentinel := none, text := lit "objectstore: " ++ code ++ lit ": " ++ msg }

/-! ## Calls of the backend -/

structure KeyError where
  key : Option Str
  code : Option Str
  message : Option Str
  deriving DecidableEq

namespace KeyError

def id (e : KeyError) : Str := e.key.getD []

def classify (e : KeyError) : ObjectError := classifyAPIError (e.code.getD []) (e.message.getD [])

end KeyError

structure DeleteInput where
  bucket : Str
  objects : List Str
  quiet : Bool
  deriving DecidableEq

/-- What the client answers to the call with a number, counted from 0. -/
abbrev DeleteClient := Nat → DeleteInput → Except BackendError (List KeyError)

structure DeleteCall where
  input : DeleteInput
  answer : Except BackendError (List KeyError)

structure ObjectResult where
  id : Str
  error : Option ObjectError
  deriving DecidableEq

/-! ## DeleteObjects -/

def deleteBatchSize : Nat := 1000

def uniqueOrder (ids : List Str) : List Str :=
  ids.foldl (fun order id => if id ∈ order then order else order ++ [id]) []

def chunks {α : Type} (n : Nat) (xs : List α) : List (List α) :=
  (List.range ((xs.length + n - 1) / n)).map fun k => (xs.drop (k * n)).take n

/-- The outcome map; a missing entry reads as nil. -/
abbrev OutcomeMap := Str → Option ObjectError

def OutcomeMap.put (outcome : OutcomeMap) (ids : List Str) (e : Option ObjectError) : OutcomeMap :=
  fun id => if id ∈ ids then e else outcome id

/-- A chunk that was deleted: success, unless an error of a key overrides it. -/
def OutcomeMap.record (outcome : OutcomeMap) (chunk : List Str) (errors : List KeyError) : OutcomeMap :=
  errors.foldl (fun o e => o.put [e.id] (some e.classify)) (outcome.put chunk none)

def BackendError.cancels (e : BackendError) : Bool := e.canceled || e.deadlineExceeded

namespace S3Store

def deleteInput (s : S3Store) (chunk : List Str) : DeleteInput where
  bucket := s.bucket
  objects := chunk
  quiet := true

def sweep (s : S3Store) (client : DeleteClient) (i : Nat) :
    List (List Str) → OutcomeMap → List DeleteCall × Except DeleteError OutcomeMap
  | [], outcome => ([], .ok outcome)
  | chunk :: rest, outcome =>
    match client i (s.deleteInput chunk) with
    | .error e =>
      let call : DeleteCall := ⟨s.deleteInput chunk, .error e⟩
      if classifyAuth e then ([call], .error (.auth e))
      else
        let failed := outcome.put chunk (some (classifyChunkErr e))
        -- the ids that are still to come get the same error
        if e.cancels then ([call], .ok (failed.put rest.flatten (some (classifyChunkErr e))))
        else
          let r := s.sweep client (i + 1) rest failed
          (call :: r.1, r.2)
    | .ok errors =>
      let r := s.sweep client (i + 1) rest (outcome.record chunk errors)
      (⟨s.deleteInput chunk, .ok errors⟩ :: r.1, r.2)

/-- The calls that are made, and what is returned; `ctx` is the error of a context that is done. -/
def deleteObjects (s : S3Store) (client : DeleteClient) (ctx : Option ContextError) (ids : List Str) :
    List DeleteCall × Except DeleteError (List ObjectResult) :=
  if ids = [] then ([], .ok [])
  else match ctx with
    | some e => ([], .error (.context e))
    | none =>
      let r := s.sweep client 0 (chunks deleteBatchSize (uniqueOrder ids)) fun _ => none
      (r.1, r.2.map fun outcome => ids.map fun id => ⟨id, outcome id⟩)

end S3Store

/-! ## Ids and chunks -/

theorem uniqueOrder_spec (ids : List Str) : (uniqueOrder ids).Nodup ∧ ∀ id, id ∈ uniqueOrder ids ↔ id ∈ ids := by
  have hfold : ∀ (ids order : List Str), order.Nodup →
      (ids.foldl (fun order id => if id ∈ order then order else order ++ [id]) order).Nodup ∧
        ∀ id, id ∈ ids.foldl (fun order id => if id ∈ order then order else order ++ [id]) order ↔
          id ∈ order ∨ id ∈ ids := by
    intro ids
    induction ids with
    | nil => exact fun order h => ⟨h, fun id => by simp⟩
    | cons x xs ih =>
      intro order h
      rw [List.foldl_cons]
      by_cases hx : x ∈ order
      · rw [if_pos hx]
        refine ⟨(ih order h).1, fun id => ?_⟩
        rw [(ih order h).2, List.mem_cons]
        constructor
        · rintro (hid | hid)
          · exact Or.inl hid
          · exact Or.inr (Or.inr hid)
        · rintro (hid | rfl | hid)
          · exact Or.inl hid
          · exact Or.inl hx
          · exact Or.inr hid
      · rw [if_neg hx]
        have hnodup : (order ++ [x]).Nodup := by
          rw [List.nodup_append]
          refine ⟨h, List.nodup_singleton x, fun a ha b hb => ?_⟩
          rw [List.mem_singleton] at hb
          rintro rfl
          exact hx (hb ▸ ha)
        refine ⟨(ih _ hnodup).1, fun id => ?_⟩
        rw [(ih _ hnodup).2, List.mem_append, List.mem_singleton, List.mem_cons, or_assoc]
  obtain ⟨hnodup, hmem⟩ := hfold ids [] List.nodup_nil
  exact ⟨hnodup, fun id => (hmem id).trans (by simp)⟩

section
variable {α : Type} {n : Nat} (xs : List α)

theorem flatten_slices (n k : Nat) :
    ((List.range k).map fun i => (xs.drop (i * n)).take n).flatten = xs.take (k * n) := by
  induction k with
  | zero => simp
  | succ k ih =>
    rw [List.range_succ, List.map_append, List.flatten_append, ih, Nat.succ_mul, List.take_add]
    simp

theorem flatten_chunks (hn : 0 < n) : (chunks n xs).flatten = xs := by
  rw [chunks, flatten_slices]
  apply List.take_of_length_le
  have hdiv := Nat.div_add_mod (xs.length + n - 1) n
  have hmod := Nat.mod_lt (xs.length + n - 1) hn
  rw [Nat.mul_comm] at hdiv
  omega

theorem length_of_mem_chunks {c : List α} (h : c ∈ chunks n xs) : c.length ≤ n := by
  obtain ⟨k, -, rfl⟩ := List.mem_map.mp h
  exact List.length_take_le n _

end

/-! ## What a chunk records -/

def keyError (errors : List KeyError) (id : Str) : Option ObjectError :=
  ((errors.filter (·.id = id)).getLast?).map (·.classify)

theorem keyError_eq_none {errors : List KeyError} {id : Str} : keyError errors id = none ↔ ∀ e ∈ errors, e.id ≠ id := by
  simp [keyError]

theorem keyError_cons (e : KeyError) (errors : List KeyError) (id : Str) :
    keyError (e :: errors) id = (keyError errors id).or (if e.id = id then some e.classify else none) := by
  unfold keyError
  by_cases h : e.id = id
  · rw [List.filter_cons_of_pos (by simpa using h), if_pos h, List.getLast?_cons]
    cases (errors.filter (·.id = id)).getLast? <;> rfl
  · rw [List.filter_cons_of_neg (by simpa using h), if_neg h, Option.or_none]

theorem record_eq (outcome : OutcomeMap) (chunk : List Str) (errors : List KeyError) (id : Str) :
    outcome.record chunk errors id = (keyError errors id).or (if id ∈ chunk then none else outcome id) := by
  have hfold : ∀ (errors : List KeyError) (o : OutcomeMap),
      errors.foldl (fun o e => o.put [e.id] (some e.classify)) o id = (keyError errors id).or (o id) := by
    intro errors
    induction errors with
    | nil => exact fun o => rfl
    | cons e errors ih =>
      intro o
      rw [List.foldl_cons, ih, keyError_cons]
      by_cases h : e.id = id
      · have hput : o.put [e.id] (some e.classify) id = some e.classify := if_pos (by simp [h])
        rw [hput, if_pos h]
        cases keyError errors id <;> rfl
      · have hput : o.put [e.id] (some e.classify) id = o id := if_neg (by simpa using fun he => h he.symm)
        rw [hput, if_neg h, Option.or_none]
  exact hfold errors _

def DeleteCall.Honest (c : DeleteCall) : Prop := ∀ errors, c.answer = .ok errors → ∀ e ∈ errors, e.id ∈ c.input.objects

/-! ## The loop -/

inductive Swept (s : S3Store) (client : DeleteClient) :
    Nat → List (List Str) → OutcomeMap → List DeleteCall → Except DeleteError OutcomeMap → Prop
  | done {i outcome} : Swept s client i [] outcome [] (.ok outcome)
  | denied {i chunk rest outcome e} : client i (s.deleteInput chunk) = .error e → classifyAuth e = true →
      Swept s client i (chunk :: rest) outcome [⟨s.deleteInput chunk, .error e⟩] (.error (.auth e))
  | cancelled {i chunk rest outcome e} : client i (s.deleteInput chunk) = .error e → classifyAuth e = false →
      e.cancels = true → Swept s client i (chunk :: rest) outcome [⟨s.deleteInput chunk, .error e⟩]
        (.ok ((outcome.put chunk (some (classifyChunkErr e))).put rest.flatten (some (classifyChunkErr e))))
  | failed {i chunk rest outcome e calls r} : client i (s.deleteInput chunk) = .error e → classifyAuth e = false →
      e.cancels = false → Swept s client (i + 1) rest (outcome.put chunk (some (classifyChunkErr e))) calls r →
      Swept s client i (chunk :: rest) outcome (⟨s.deleteInput chunk, .error e⟩ :: calls) r
  | deleted {i chunk rest outcome errors calls r} : client i (s.deleteInput chunk) = .ok errors →
      Swept s client (i + 1) rest (outcome.record chunk errors) calls r →
      Swept s client i (chunk :: rest) outcome (⟨s.deleteInput chunk, .ok errors⟩ :: calls) r

theorem swept (s : S3Store) (client : DeleteClient) (i : Nat) (cs : List (List Str)) (outcome : OutcomeMap) :
    Swept s client i cs outcome (s.sweep client i cs outcome).1 (s.sweep client i cs outcome).2 := by
  induction cs generalizing i outcome with
  | nil => exact .done
  | cons chunk rest ih =>
    rw [S3Store.sweep]
    cases hans : client i (s.deleteInput chunk) with
    | ok errors => exact .deleted hans (ih _ _)
    | error e =>
      dsimp only
      cases hauth : classifyAuth e with
      | true => exact .denied hans hauth
      | false =>
        cases hcancel : e.cancels with
        | true => exact .cancelled hans hauth hcancel
        | false => exact .failed hans hauth hcancel (ih _ _)

section
variable {s : S3Store} {client : DeleteClient} {i : Nat} {cs : List (List Str)} {outcome outcome' : OutcomeMap}
  {calls : List DeleteCall} {r : Except DeleteError OutcomeMap}

/-- The calls carry the chunks, in order, up to the one that ends the loop. -/
theorem Swept.sent (h : Swept s client i cs outcome calls r) : calls.map (·.input.objects) <+: cs := by
  induction h with
  | done => exact List.nil_prefix
  | denied => exact List.prefix_cons_inj _ |>.mpr List.nil_prefix
  | cancelled => exact List.prefix_cons_inj _ |>.mpr List.nil_prefix
  | failed _ _ _ _ ih => exact List.prefix_cons_inj _ |>.mpr ih
  | deleted _ _ ih => exact List.prefix_cons_inj _ |>.mpr ih

/-- A call that was cancelled is the last. -/
theorem Swept.last (h : Swept s client i cs outcome calls r) {before after : List DeleteCall} {c : DeleteCall}
    (hcalls : calls = before ++ c :: after) {e : BackendError} (hc : c.answer = .error e) (he : e.cancels = true) :
    after = [] := by
  induction h generalizing before with
  | done => simp at hcalls
  | denied | cancelled =>
    cases before with
    | nil => exact (List.cons.inj hcalls).2.symm
    | cons b before => simp at hcalls
  | failed _ _ hno _ ih =>
    cases before with
    | nil =>
      obtain ⟨rfl, -⟩ := List.cons.inj hcalls
      cases hc
      cases he.symm.trans hno
    | cons b before => exact ih (List.cons.inj hcalls).2
  | deleted _ _ ih =>
    cases before with
    | nil =>
      obtain ⟨rfl, -⟩ := List.cons.inj hcalls
      cases hc
    | cons b before => exact ih (List.cons.inj hcalls).2

/-- The map after the loop: ids outside the chunks are as before, an id of a call that succeeded has what the
answer says of it, and no other id of a chunk reads as success. -/
structure Reads (cs : List (List Str)) (outcome : OutcomeMap) (calls : List DeleteCall) (outcome' : OutcomeMap) :
    Prop where
  outside : ∀ id ∉ cs.flatten, outcome' id = outcome id
  answered : ∀ c ∈ calls, ∀ errors, c.answer = .ok errors → ∀ id ∈ c.input.objects, outcome' id = keyError errors id
  success : ∀ id ∈ cs.flatten, outcome' id = none →
    ∃ c ∈ calls, ∃ errors, c.answer = .ok errors ∧ id ∈ c.input.objects

/-- What a call records for its chunk is not touched by the later ones. -/
theorem Reads.cons {chunk : List Str} {rest : List (List Str)} {mid : OutcomeMap} {c : DeleteCall}
    (h : Reads rest mid calls outcome') (hc : c.input.objects = chunk) (hnodup : (chunk :: rest).flatten.Nodup)
    (houtside : ∀ id ∉ chunk, mid id = outcome id)
    (hanswered : ∀ errors, c.answer = .ok errors → ∀ id ∈ chunk, mid id = keyError errors id)
    (hsuccess : ∀ id ∈ chunk, mid id = none → ∃ errors, c.answer = .ok errors) :
    Reads (chunk :: rest) outcome (c :: calls) outcome' := by
  subst hc
  rw [List.flatten_cons, List.nodup_append] at hnodup
  have hkept : ∀ id ∈ c.input.objects, outcome' id = mid id :=
    fun id hid => h.outside id fun hid' => hnodup.2.2 id hid id hid' rfl
  constructor
  · intro id hid
    rw [List.flatten_cons, List.mem_append, not_or] at hid
    rw [h.outside id hid.2, houtside id hid.1]
  · intro c' hc errors hans id hid
    rcases List.mem_cons.mp hc with rfl | hc
    · rw [hkept id hid, hanswered errors hans id hid]
    · exact h.answered c' hc errors hans id hid
  · intro id hid hnone
    rw [List.flatten_cons, List.mem_append] at hid
    rcases hid with hid | hid
    · obtain ⟨errors, hans⟩ := hsuccess id hid ((hkept id hid).symm.trans hnone)
      exact ⟨c, List.mem_cons_self, errors, hans, hid⟩
    · obtain ⟨c', hc, hc'⟩ := h.success id hid hnone
      exact ⟨c', List.mem_cons_of_mem c hc, hc'⟩

theorem Swept.reads (h : Swept s client i cs outcome calls r) (hr : r = .ok outcome') (hnodup : cs.flatten.Nodup)
    (hhonest : ∀ c ∈ calls, c.Honest) : Reads cs outcome calls outcome' := by
  induction h with
  | done =>
    cases hr
    exact ⟨fun _ _ => rfl, fun _ hc => (by cases hc), fun _ hid => (by cases hid)⟩
  | denied => cases hr
  | @cancelled i chunk rest outcome e hans _ _ =>
    cases hr
    have hput : ∀ id, ((outcome.put chunk (some (classifyChunkErr e))).put rest.flatten (some (classifyChunkErr e))) id =
        if id ∈ (chunk :: rest).flatten then some (classifyChunkErr e) else outcome id := by
      intro id
      simp only [OutcomeMap.put, List.flatten_cons, List.mem_append]
      by_cases hrest : id ∈ rest.flatten <;> by_cases hchunk : id ∈ chunk <;> simp [hrest, hchunk]
    refine ⟨fun id hid => by rw [hput, if_neg hid], fun c hc errors ha => ?_, fun id hid hnone => ?_⟩
    · rw [List.mem_singleton.mp hc] at ha
      cases ha
    · rw [hput, if_pos hid] at hnone
      cases hnone
  | @failed i chunk rest outcome e calls r _ _ _ _ ih =>
    have hrest : rest.flatten.Nodup := (List.nodup_append.mp (List.flatten_cons ▸ hnodup)).2.1
    refine (ih hr hrest fun c hc => hhonest c (List.mem_cons_of_mem _ hc)).cons rfl hnodup (fun id hid => if_neg hid)
      (fun errors ha => by cases ha) fun id hid hnone => ?_
    rw [OutcomeMap.put, if_pos hid] at hnone
    cases hnone
  | @deleted i chunk rest outcome errors calls r _ _ ih =>
    have hrest : rest.flatten.Nodup := (List.nodup_append.mp (List.flatten_cons ▸ hnodup)).2.1
    have hkeys : ∀ e ∈ errors, e.id ∈ chunk := hhonest _ List.mem_cons_self errors rfl
    refine (ih hr hrest fun c hc => hhonest c (List.mem_cons_of_mem _ hc)).cons rfl hnodup (fun id hid => ?_)
      (fun errors' ha id hid => ?_) fun _ _ _ => ⟨errors, rfl⟩
    · have hno : keyError errors id = none := keyError_eq_none.mpr fun e he heq => hid (heq ▸ hkeys e he)
      rw [record_eq, hno, if_neg hid, Option.none_or]
    · cases ha
      rw [record_eq, if_pos hid, Option.or_none]

end

/-! ## What is reported -/

section
variable {s : S3Store} {client : DeleteClient} {ctx : Option ContextError} {ids : List Str} {calls : List DeleteCall}
  {results : List ObjectResult}

/-- Results are returned for no ids without a call, or by the loop. -/
theorem deleteObjects_ok (h : s.deleteObjects client ctx ids = (calls, .ok results)) :
    ids = [] ∧ calls = [] ∧ results = [] ∨
      ∃ outcome, Swept s client 0 (chunks deleteBatchSize (uniqueOrder ids)) (fun _ => none) calls (.ok outcome) ∧
        results = ids.map fun id => ⟨id, outcome id⟩ := by
  unfold S3Store.deleteObjects at h
  split at h
  · rename_i hnil
    cases h
    exact Or.inl ⟨hnil, rfl, rfl⟩
  split at h
  · cases h
  have hswept := swept s client 0 (chunks deleteBatchSize (uniqueOrder ids)) fun _ => none
  obtain ⟨hcalls, hresult⟩ := Prod.mk.inj h
  rw [hcalls] at hswept
  cases hr : (s.sweep client 0 (chunks deleteBatchSize (uniqueOrder ids)) fun _ => none).2 with
  | error e =>
    rw [hr] at hresult
    cases hresult
  | ok outcome =>
    rw [hr] at hresult hswept
    cases hresult
    exact Or.inr ⟨outcome, hswept, rfl⟩

theorem nodup_chunks (ids : List Str) : (chunks deleteBatchSize (uniqueOrder ids)).flatten.Nodup := by
  rw [flatten_chunks _ (by decide)]
  exact (uniqueOrder_spec ids).1

theorem mem_chunks {id : Str} : id ∈ (chunks deleteBatchSize (uniqueOrder ids)).flatten ↔ id ∈ ids := by
  rw [flatten_chunks _ (by decide)]
  exact (uniqueOrder_spec ids).2 id

/-- **A batch deletion reports truthfully.** There is one entry for each position, and it is nil exactly where the id
was sent in a call that succeeded without an error for it; no id is sent twice, no call carries more than 1000 keys,
and a cancelled call is the last. -/
theorem deleteObjects_truthful (h : s.deleteObjects client ctx ids = (calls, .ok results))
    (hhonest : ∀ c ∈ calls, c.Honest) :
    results.map (·.id) = ids ∧
      (∀ x ∈ results, x.error = none ↔ ∃ c ∈ calls, ∃ errors, c.answer = .ok errors ∧ x.id ∈ c.input.objects ∧
        ∀ e ∈ errors, e.id ≠ x.id) ∧
      (calls.flatMap (·.input.objects)).Nodup ∧ (∀ c ∈ calls, c.input.objects.length ≤ 1000) ∧
      ∀ before c after e, calls = before ++ c :: after → c.answer = .error e → e.cancels = true → after = [] := by
  rcases deleteObjects_ok h with ⟨rfl, rfl, rfl⟩ | ⟨outcome, hswept, rfl⟩
  · refine ⟨rfl, fun x hx => (by cases hx), List.nodup_nil, fun c hc => (by cases hc), ?_⟩
    intro before c after e hcalls
    simp at hcalls
  have hreads := hswept.reads rfl (nodup_chunks ids) hhonest
  refine ⟨?_, ?_, ?_, ?_, fun before c after e hcalls => hswept.last hcalls⟩
  · rw [List.map_map]
    exact List.map_id ids
  · intro x hx
    obtain ⟨id, hid, rfl⟩ := List.mem_map.mp hx
    constructor
    · intro hx
      obtain ⟨c, hc, errors, hans, hmem⟩ := hreads.success id (mem_chunks.mpr hid) hx
      have hno := (hreads.answered c hc errors hans id hmem).symm.trans hx
      exact ⟨c, hc, errors, hans, hmem, keyError_eq_none.mp hno⟩
    · rintro ⟨c, hc, errors, hans, hmem, hno⟩
      exact (hreads.answered c hc errors hans id hmem).trans (keyError_eq_none.mpr hno)
  · obtain ⟨unsent, hsent⟩ := hswept.sent
    have hnodup := nodup_chunks ids
    rw [← hsent, List.flatten_append] at hnodup
    rw [List.flatMap_def]
    exact (List.nodup_append.mp hnodup).1
  · intro c hc
    exact length_of_mem_chunks _ (hswept.sent.subset (List.mem_map_of_mem hc))

end

def mediaStore : S3Store := { bucket := lit "media", backend := ⟨[], [], [], []⟩, presign := none }

def slowClient : DeleteClient := fun _ _ => .ok [⟨some (lit "b"), some (lit "SlowDown"), none⟩]

theorem duplicate_reported :
    ∃ calls results, mediaStore.deleteObjects slowClient none [lit "a", lit "b", lit "a"] = (calls, .ok results) ∧
      results.map (·.id) = [lit "a", lit "b", lit "a"] ∧
      ∀ x ∈ results, x.error = none ↔ ∃ c ∈ calls, ∃ errors, c.answer = .ok errors ∧ x.id ∈ c.input.objects ∧
        ∀ e ∈ errors, e.id ≠ x.id := by
  have hrun : mediaStore.deleteObjects slowClient none [lit "a", lit "b", lit "a"] =
      ([⟨mediaStore.deleteInput [lit "a", lit "b"], .ok [⟨some (lit "b"), some (lit "SlowDown"), none⟩]⟩],
        .ok [⟨lit "a", none⟩, ⟨lit "b", some (classifyAPIError (lit "SlowDown") [])⟩, ⟨lit "a", none⟩]) := rfl
  obtain ⟨hids, hnil, -⟩ := deleteObjects_truthful hrun fun c hc errors hans e he => by
    cases List.mem_singleton.mp hc
    cases hans
    cases List.mem_singleton.mp he
    decide
  exact ⟨_, _, hrun, hids, hnil⟩

/-! ## Errors of the whole call -/

/-- An error of the whole call means that no call had succeeded, and what a call that succeeded says of its keys is in
the results. -/
structure NothingLost (calls : List DeleteCall) (result : Except DeleteError (List ObjectResult)) : Prop where
  error : ∀ e, result = .error e → ∀ c ∈ calls, ∀ errors, c.answer ≠ .ok errors
  reported : (∀ c ∈ calls, c.Honest) → ∀ c ∈ calls, ∀ errors, c.answer = .ok errors →
    ∃ results, result = .ok results ∧ ∀ id ∈ c.input.objects, ⟨id, keyError errors id⟩ ∈ results

def S3Store.answers (s : S3Store) (client : DeleteClient) (i : Nat) :
    List (List Str) → List (Except BackendError (List KeyError))
  | [] => []
  | chunk :: rest => client i (s.deleteInput chunk) :: s.answers client (i + 1) rest

/-- The credentials are refused at a call that is reached after another has succeeded. -/
def CredentialsLost (answers : List (Except BackendError (List KeyError))) : Prop :=
  ∃ before e after, answers = before ++ .error e :: after ∧ classifyAuth e = true ∧ (∃ errors, .ok errors ∈ before) ∧
    ∀ e', .error e' ∈ before → classifyAuth e' = false ∧ e'.cancels = false

section
variable {s : S3Store} {client : DeleteClient} {i : Nat} {cs : List (List Str)} {outcome : OutcomeMap}
  {calls : List DeleteCall} {r : Except DeleteError OutcomeMap} {err : DeleteError}
  {before after : List (Except BackendError (List KeyError))} {e : BackendError}

theorem Swept.refused (h : Swept s client i cs outcome calls r) (hr : r = .error err) :
    ∃ before e after, s.answers client i cs = before ++ .error e :: after ∧ classifyAuth e = true ∧
      (∀ e', .error e' ∈ before → classifyAuth e' = false ∧ e'.cancels = false) ∧
      calls.map (·.answer) = before ++ [.error e] := by
  induction h with
  | done => cases hr
  | cancelled => cases hr
  | @denied i chunk rest outcome e hans hauth =>
    exact ⟨[], e, s.answers client (i + 1) rest, by rw [S3Store.answers, hans]; rfl, hauth,
      fun _ h => (by cases h), rfl⟩
  | @failed i chunk rest outcome e calls r hans hauth hcancel _ ih =>
    obtain ⟨before, e', after, hanswers, hauth', hbefore, hcalls⟩ := ih hr
    refine ⟨.error e :: before, e', after, by rw [S3Store.answers, hans, hanswers]; rfl, hauth', ?_,
      by rw [List.map_cons, hcalls]; rfl⟩
    intro e'' he''
    rcases List.mem_cons.mp he'' with heq | he''
    · cases heq
      exact ⟨hauth, hcancel⟩
    · exact hbefore e'' he''
  | @deleted i chunk rest outcome errors calls r hans _ ih =>
    obtain ⟨before, e', after, hanswers, hauth', hbefore, hcalls⟩ := ih hr
    refine ⟨.ok errors :: before, e', after, by rw [S3Store.answers, hans, hanswers]; rfl, hauth', ?_,
      by rw [List.map_cons, hcalls]; rfl⟩
    intro e'' he''
    rcases List.mem_cons.mp he'' with heq | he''
    · cases heq
    · exact hbefore e'' he''

theorem Swept.refuses (h : Swept s client i cs outcome calls r)
    (hanswers : s.answers client i cs = before ++ .error e :: after) (hauth : classifyAuth e = true)
    (hbefore : ∀ e', .error e' ∈ before → classifyAuth e' = false ∧ e'.cancels = false) :
    r = .error (.auth e) ∧ calls.map (·.answer) = before ++ [.error e] := by
  induction h generalizing before with
  | done => simp [S3Store.answers] at hanswers
  | @denied i chunk rest outcome e' hans hauth' =>
    rw [S3Store.answers, hans] at hanswers
    cases before with
    | nil =>
      cases (List.cons.inj hanswers).1
      exact ⟨rfl, rfl⟩
    | cons b before =>
      obtain ⟨rfl, -⟩ := List.cons.inj hanswers
      cases hauth'.symm.trans (hbefore e' List.mem_cons_self).1
  | @cancelled i chunk rest outcome e' hans hauth' hcancel =>
    rw [S3Store.answers, hans] at hanswers
    cases before with
    | nil =>
      cases (List.cons.inj hanswers).1
      cases hauth.symm.trans hauth'
    | cons b before =>
      obtain ⟨rfl, -⟩ := List.cons.inj hanswers
      cases hcancel.symm.trans (hbefore e' List.mem_cons_self).2
  | @failed i chunk rest outcome e' calls r hans hauth' _ _ ih =>
    rw [S3Store.answers, hans] at hanswers
    cases before with
    | nil =>
      cases (List.cons.inj hanswers).1
      cases hauth.symm.trans hauth'
    | cons b before =>
      obtain ⟨rfl, hrest⟩ := List.cons.inj hanswers
      obtain ⟨hr, hcalls⟩ := ih hrest fun e'' he'' => hbefore e'' (List.mem_cons_of_mem _ he'')
      exact ⟨hr, by rw [List.map_cons, hcalls]; rfl⟩
  | @deleted i chunk rest outcome errors calls r hans _ ih =>
    rw [S3Store.answers, hans] at hanswers
    cases before with
    | nil => cases (List.cons.inj hanswers).1
    | cons b before =>
      obtain ⟨rfl, hrest⟩ := List.cons.inj hanswers
      obtain ⟨hr, hcalls⟩ := ih hrest fun e'' he'' => hbefore e'' (List.mem_cons_of_mem _ he'')
      exact ⟨hr, by rw [List.map_cons, hcalls]; rfl⟩

theorem deleteObjects_swept (s : S3Store) (client : DeleteClient) {ids : List Str} (hne : ids ≠ []) :
    Swept s client 0 (chunks deleteBatchSize (uniqueOrder ids)) (fun _ => none) (s.deleteObjects client none ids).1
        (s.sweep client 0 (chunks deleteBatchSize (uniqueOrder ids)) fun _ => none).2 ∧
      (s.deleteObjects client none ids).2 = (s.sweep client 0 (chunks deleteBatchSize (uniqueOrder ids))
        fun _ => none).2.map fun outcome => ids.map fun id => ⟨id, outcome id⟩ := by
  rw [S3Store.deleteObjects, if_neg hne]
  exact ⟨swept s client 0 _ _, rfl⟩

theorem Swept.clean {ids : List Str}
    (h : Swept s client 0 (chunks deleteBatchSize (uniqueOrder ids)) (fun _ => none) calls r)
    (hlost : ¬ CredentialsLost (s.answers client 0 (chunks deleteBatchSize (uniqueOrder ids)))) :
    NothingLost calls (r.map fun outcome => ids.map fun id => ⟨id, outcome id⟩) := by
  have herror : ∀ err, r = .error err → ∀ c ∈ calls, ∀ errors, c.answer ≠ .ok errors := by
    intro err hr c hc errors hans
    obtain ⟨before, e, after, hanswers, hauth, hbefore, hcalls⟩ := h.refused hr
    have hmem : .ok errors ∈ before ++ [.error e] := hcalls ▸ hans ▸ List.mem_map_of_mem hc
    rcases List.mem_append.mp hmem with hmem | hmem
    · exact hlost ⟨before, e, after, hanswers, hauth, ⟨errors, hmem⟩, hbefore⟩
    · cases List.mem_singleton.mp hmem
  cases r with
  | error err => exact ⟨fun _ _ => herror err rfl, fun _ c hc errors hans => absurd hans (herror err rfl c hc errors)⟩
  | ok outcome =>
    refine ⟨fun _ he => (by cases he), fun hhonest c hc errors hans => ⟨_, rfl, fun id hid => ?_⟩⟩
    have hread := (h.reads rfl (nodup_chunks ids) hhonest).answered c hc errors hans id hid
    have hids : id ∈ ids :=
      mem_chunks.mp (List.mem_flatten.mpr ⟨_, h.sent.subset (List.mem_map_of_mem hc), hid⟩)
    exact List.mem_map.mpr ⟨id, hids, by rw [hread]⟩

end

/-- **An error of the whole call means that nothing was deleted**, exactly where the credentials are not refused at a
call that is reached after another has succeeded. -/
theorem sliceError_clean_iff (s : S3Store) (client : DeleteClient) (ctx : Option ContextError) (ids : List Str) :
    NothingLost (s.deleteObjects client ctx ids).1 (s.deleteObjects client ctx ids).2 ↔
      (ctx = none → ¬ CredentialsLost (s.answers client 0 (chunks deleteBatchSize (uniqueOrder ids)))) := by
  constructor
  · rintro hclean rfl ⟨before, e, after, hanswers, hauth, ⟨errors, hmem⟩, hbefore⟩
    have hne : ids ≠ [] := by
      rintro rfl
      have hnil : chunks deleteBatchSize (uniqueOrder []) = [] := by decide
      simp [hnil, S3Store.answers] at hanswers
    obtain ⟨hswept, hresult⟩ := deleteObjects_swept s client hne
    obtain ⟨hr, hcalls⟩ := hswept.refuses hanswers hauth hbefore
    rw [hr] at hresult
    have hok : .ok errors ∈ (s.deleteObjects client none ids).1.map (·.answer) := by
      rw [hcalls]
      exact List.mem_append_left _ hmem
    obtain ⟨c, hc, hans⟩ := List.mem_map.mp hok
    exact hclean.error _ hresult c hc errors hans
  · intro hlost
    by_cases hne : ids = []
    · subst hne
      exact ⟨fun _ he => (by cases he), fun _ c hc => (by cases hc)⟩
    cases ctx with
    | some e =>
      rw [S3Store.deleteObjects, if_neg hne]
      exact ⟨fun _ _ c hc => (by cases hc), fun _ c hc => (by cases hc)⟩
    | none =>
      obtain ⟨hswept, hresult⟩ := deleteObjects_swept s client hne
      rw [hresult]
      exact hswept.clean (hlost rfl)

/-! ## Credentials that expire -/

def expired : BackendError := { code := some (lit "AccessDenied"), text := lit "api error AccessDenied: Access Denied" }

def expiringClient : DeleteClient := fun i _ => if i = 0 then .ok [] else .error expired

def manyIds : List Str := (List.range 1001).map decStr

theorem nodup_manyIds : manyIds.Nodup :=
  List.Nodup.map (Function.LeftInverse.injective decVal_decStr) List.nodup_range

theorem length_uniqueOrder {ids : List Str} (h : ids.Nodup) : (uniqueOrder ids).length = ids.length :=
  ((List.perm_ext_iff_of_nodup (uniqueOrder_spec ids).1 h).mpr (uniqueOrder_spec ids).2).length_eq

theorem answers_expiringClient :
    mediaStore.answers expiringClient 0 (chunks deleteBatchSize (uniqueOrder manyIds)) = [.ok [], .error expired] := by
  have hlength : (uniqueOrder manyIds).length = 1001 := by
    rw [length_uniqueOrder nodup_manyIds, manyIds, List.length_map, List.length_range]
  rw [chunks, hlength]
  rfl

/-- The first thousand objects are deleted, and nothing is reported but the error. -/
theorem expired_after_chunk :
    (mediaStore.deleteObjects expiringClient none manyIds).2 = .error (.auth expired) ∧
      ∃ c ∈ (mediaStore.deleteObjects expiringClient none manyIds).1, c.answer = .ok [] := by
  have hne : manyIds ≠ [] := List.ne_nil_of_length_pos (by rw [manyIds, List.length_map, List.length_range]; omega)
  obtain ⟨hswept, hresult⟩ := deleteObjects_swept mediaStore expiringClient hne
  have hanswers : mediaStore.answers expiringClient 0 (chunks deleteBatchSize (uniqueOrder manyIds)) =
      [.ok []] ++ .error expired :: [] := answers_expiringClient
  obtain ⟨hr, hcalls⟩ := hswept.refuses hanswers (by decide) fun e he => by cases List.mem_singleton.mp he
  refine ⟨by rw [hresult, hr]; rfl, ?_⟩
  have hok : .ok [] ∈ (mediaStore.deleteObjects expiringClient none manyIds).1.map (·.answer) := by
    rw [hcalls]
    exact List.mem_cons_self
  exact List.mem_map.mp hok

end OpenTams
