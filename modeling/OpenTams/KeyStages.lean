import OpenTams.Interleave
import OpenTams.PostSegments
import OpenTams.StoreSound

/-!
# The stages of an execution

Where an execution of `PostFlowSegments` stands with its idempotency key: the
five points of `Acquire`, the time from the commit of `Acquire` to the
statement that finalises the row, and the end. Each move goes from one stage
to the next, and this module says what it does to the key table.
-/

namespace OpenTams

open Sql

/-! ## Registration leaves the key table alone -/

def Stmt.OnKeys (x : Stmt) : Prop :=
  x ∈ [.acquireDeleteExpired, .acquireSelect, .acquireInsert, .acquireCommit, .complete, .release, .prune, .reapStale]

instance (x : Stmt) : Decidable x.OnKeys := by
  unfold Stmt.OnKeys
  infer_instance

def Lock.IsKey (ℓ : Lock) : Prop := ∃ k, ℓ = .key k

theorem spares_checkGuard (op : String) (g : FlowGuard) :
    (checkGuard op g).Spares DB.idempotencyKeys Lock.IsKey Stmt.OnKeys := by
  unfold checkGuard
  split
  · trivial
  · split <;> trivial

theorem spares_registerObject (batch : InsertBatch) (i : Nat) (seg : Segment) :
    (registerObject batch i seg).Spares DB.idempotencyKeys Lock.IsKey Stmt.OnKeys := by
  unfold registerObject
  split
  · trivial
  · refine Prog.spares_stmtE (by decide) fun t v => ⟨fun d => ?_, ?_⟩
    · dsimp only
      split <;> rfl
    · simp [Lock.IsKey]

theorem spares_checkObjectTimerange (i : Nat) (seg : Segment) :
    (checkObjectTimerange i seg).Spares DB.idempotencyKeys Lock.IsKey Stmt.OnKeys := by
  unfold checkObjectTimerange
  split
  · trivial
  · exact Prog.spares_stmtE (by decide) fun _ _ => ⟨fun _ => rfl, by simp [Lock.IsKey]⟩

theorem spares_insertSegment (c : Constraints) (nextval : Nat → Nat) (f : Uuid) (i : Nat) (x : Segment × NsBounds) :
    (insertSegment c nextval f i x).Spares DB.idempotencyKeys Lock.IsKey Stmt.OnKeys := by
  refine Prog.spares_stmtE (by decide) fun t v => ⟨fun d => ?_, ?_⟩
  · dsimp only
    split <;> rfl
  · simp [Lock.IsKey]

theorem spares_refreshFlowTimerange (m : Msg) (f : Uuid) :
    (refreshFlowTimerange m f).Spares DB.idempotencyKeys Lock.IsKey Stmt.OnKeys := by
  refine (Prog.spares_stmtE (by decide) fun _ _ => ⟨fun _ => rfl, by simp [Lock.IsKey]⟩).bind fun span =>
    Prog.spares_stmt (by decide) fun t v => ⟨fun d => ?_, ?_⟩
  · split <;> rfl
  · split <;> simp [Lock.IsKey]

theorem spares_insertSegments (c : Constraints) (nextval : Nat → Nat) (batch : InsertBatch) :
    (insertSegments c nextval batch).Spares DB.idempotencyKeys Lock.IsKey Stmt.OnKeys := by
  unfold insertSegments
  split
  · trivial
  · refine ⟨trivial, Prog.Spares.deferRollback ?_⟩
    refine (Prog.spares_stmt (by decide) fun t v => ⟨fun _ => rfl, ?_⟩).bind fun g =>
      (spares_checkGuard _ g).bind fun _ =>
      (Prog.spares_forEach (fun _ _ => Prog.spares_stmtE (by decide) fun _ _ => ⟨fun _ => rfl, ?_⟩) _ _).bind fun _ =>
      (Prog.spares_forEach (spares_registerObject batch) _ _).bind fun _ =>
      (Prog.spares_forEach spares_checkObjectTimerange _ _).bind fun _ =>
      (Prog.spares_forEach (spares_insertSegment c nextval _) _ _).bind fun _ =>
      (spares_refreshFlowTimerange _ _).bind fun _ => ⟨by decide, trivial, trivial⟩
    · simp only [lockIf]
      split <;> simp [Lock.IsKey]
    · exact fun ℓ hℓ => by cases hℓ

theorem exits_insertSegments (c : Constraints) (nextval : Nat → Nat) (batch : InsertBatch) :
    (insertSegments c nextval batch).Exits false := by
  unfold insertSegments
  split
  · rfl
  · exact Prog.exits_inTx _ _

theorem finishRegister_cases (x : Screened) (r : Except Err InsertResult) :
    (∃ res, finishRegister x r = .ret res) ∨ ∃ e, finishRegister x r = .fail e := by
  cases r with
  | error e => exact Or.inr ⟨_, rfl⟩
  | ok r =>
    unfold finishRegister
    dsimp only
    split
    · exact Or.inr ⟨_, rfl⟩
    · exact Or.inl ⟨_, rfl⟩

theorem registerBatch_spares (c : Constraints) (storageId : Str) (nextval : Nat → Nat) (req : RegisterParams) :
    (registerBatch c storageId nextval req).Spares DB.idempotencyKeys Lock.IsKey Stmt.OnKeys ∧
      (registerBatch c storageId nextval req).Exits false := by
  unfold registerBatch
  split
  · exact ⟨trivial, rfl⟩
  unfold registerScreened
  split
  · exact ⟨trivial, rfl⟩
  · refine ⟨(spares_insertSegments ..).attempt.bind fun r => ?_, (exits_insertSegments ..).attempt.bind fun r => ?_⟩
    · rcases finishRegister_cases (screen 0 req.segments) r with ⟨_, h⟩ | ⟨_, h⟩ <;> rw [h] <;> trivial
    · rcases finishRegister_cases (screen 0 req.segments) r with ⟨_, h⟩ | ⟨_, h⟩ <;> rw [h] <;> rfl

/-! ## The last statement of an execution -/

/-- The statement that finalises the row of `key`: a completion, after which the
call returns what it has stored, or a release. -/
inductive Finalises (key : Str) : Stmt → (Time → DB → Eff Write Lock) → (Time → DB → Tx Reply) → Prop
  | complete {resp : Response} {act : Time → DB → Eff Write Lock} {next : Time → DB → Tx Reply} :
      (∀ t v, (act t v).writes = ((v.idempotencyKeys.get key).map fun r =>
        Write.putKey (completedRow resp.status resp.body r)).toList) →
      (∀ t v, next t v = .ret (.response resp)) → Finalises key .complete act next
  | release {act : Time → DB → Eff Write Lock} {next : Time → DB → Tx Reply} :
      (∀ t v, (act t v).writes = (v.idempotencyKeys.rows.filter fun r => r.key = key).map (.delKey ·.key)) →
      Finalises key .release act next

abbrev Finalising (key : Str) : Bool → Tx Reply → Prop :=
  Prog.Until DB.idempotencyKeys Lock.IsKey Stmt.OnKeys (Finalises key)

section
variable {key : Str} (hk : validateKey key = .ok ())
include hk

theorem finalising_release {q : Bool → Tx Reply} (hq : ∀ b, Finalising key false (q b)) (hquiet : (q true).Quiet) :
    Finalising key false ((released key).bind q) := by
  simp only [released, release, hk]
  exact ⟨hq false, Or.inr ⟨rfl, .release fun _ _ => rfl, fun _ _ => hquiet⟩⟩

theorem finalising_complete {r : Response} {q : Bool → Tx Reply} (hq : Finalising key false (q false))
    (hret : q true = .ret (.response r)) :
    Finalising key false ((completed key r.status r.body).bind q) := by
  simp only [completed, complete, hk]
  refine ⟨hq, Or.inr ⟨rfl, .complete (fun t v => ?_) fun _ _ => hret, fun _ _ => ?_⟩⟩
  · cases v.idempotencyKeys.get key <;> rfl
  · show (q true).Quiet
    rw [hret]
    trivial

theorem finalising_deferRelease {q : Tx Reply} (hq : q.Quiet) (b : Bool) :
    Finalising key false ((deferRelease key b).bind fun _ => q) := by
  cases b with
  | true => exact hq.until
  | false =>
    rw [deferRelease, if_neg Bool.false_ne_true, Prog.bind_eq, Prog.bind_assoc]
    exact finalising_release hk (fun _ => hq.until) hq

theorem finalising_postRegistered (r : Except Err RegisterResult) :
    Finalising key false ((postRegistered key r).map .response) := by
  have hdefer (resp : Response) (b : Bool) :
      Finalising key false ((do deferRelease key b; .ret resp : Tx Response).map .response) := by
    rw [Prog.map_bind]
    exact finalising_deferRelease hk (q := .ret (.response resp)) trivial b
  have hdefer' (e : Err) (b : Bool) :
      Finalising key false ((do deferRelease key b; .fail e : Tx Response).map .response) := by
    rw [Prog.map_bind]
    exact finalising_deferRelease hk (q := .fail e) trivial b
  unfold postRegistered
  split
  · unfold postFailed
    split
    · exact hdefer' _ _
    · split
      · rw [completeWithBody, Prog.map_bind]
        exact finalising_complete hk (hdefer _ _) rfl
      · rw [Prog.map_bind]
        exact finalising_release hk (hdefer' _) trivial
  · split
    · rw [completeNoBody, Prog.map_bind]
      exact finalising_complete hk (r := .created) (hdefer _ _) rfl
    · rw [Prog.map_bind]
      exact finalising_complete hk (r := .bulkFailure _) (hdefer _ _) rfl
    · rw [Prog.map_bind]
      exact finalising_complete hk (r := .bulkFailure _) (hdefer _ _) rfl

end

/-! ## The handler ends its transactions -/

theorem exits_completed (key : Str) (status : Int) (body : Option ResponseBody) :
    (completed key status body).Exits false := by
  unfold completed complete
  cases validateKey key with
  | error e => rfl
  | ok u => exact ⟨rfl, fun _ _ => rfl⟩

theorem exits_released (key : Str) : (released key).Exits false := by
  unfold released release
  cases validateKey key with
  | error e => rfl
  | ok u => exact ⟨rfl, fun _ _ => rfl⟩

theorem exits_deferRelease (key : Str) (b : Bool) : (deferRelease key b).Exits false := by
  unfold deferRelease
  split
  · rfl
  · exact (exits_released key).bind fun _ => rfl

theorem exits_postRegistered (key : Str) (r : Except Err RegisterResult) : (postRegistered key r).Exits false := by
  have hrest (b : Bool) (q : Tx Response) (hq : q.Exits false) : (do deferRelease key b; q : Tx Response).Exits false :=
    (exits_deferRelease key b).bind fun _ => hq
  unfold postRegistered
  split
  · unfold postFailed
    split
    · exact hrest _ _ rfl
    · split
      · exact (exits_completed ..).bind fun _ => hrest _ _ rfl
      · exact (exits_released key).bind fun _ => hrest _ _ rfl
  · split
    · exact (exits_completed ..).bind fun _ => hrest _ _ rfl
    · exact (exits_completed ..).bind fun _ => hrest _ _ rfl
    · exact (exits_completed ..).bind fun _ => hrest _ _ rfl

theorem exits_acquire (key bodyHash : Str) (expiresAt : Time) : (acquire key bodyHash expiresAt).Exits false := by
  unfold acquire
  split
  · rfl
  · exact Prog.exits_inTx _ _

theorem exits_postChecked (c : Constraints) (storageId : Str) (env : PostEnv) (x : Post) :
    (postChecked c storageId env x).Exits false := by
  refine (exits_acquire ..).bind fun acq => ?_
  unfold postAcquired
  split
  · rfl
  · rfl
  · rfl
  · exact (registerBatch_spares ..).2.attempt.bind fun r => exits_postRegistered x.key r

theorem exits_call (c : Constraints) (storageId : Str) (call : ServerCall) : (call.prog c storageId).Exits false := by
  cases call with
  | prune => exact ⟨rfl, fun _ _ => rfl⟩
  | reapStale configured => exact ⟨rfl, fun _ _ => rfl⟩
  | post env req =>
    have hpost : (postFlowSegments c storageId env req).Exits false := by
      unfold postFlowSegments
      split
      · rfl
      · rfl
      · exact exits_postChecked ..
    exact hpost.bind fun _ => rfl

/-! ## Deleting rows -/

section
variable {d : DB} {ρ : KeyRow → Bool} {k : Str} {r : KeyRow}

theorem keys_delKeys (rows : List KeyRow) (d : DB) :
    (writeAll (rows.map (Write.delKey ·.key)) d).idempotencyKeys = d.idempotencyKeys.delAll (rows.map (·.key)) := by
  induction rows generalizing d with
  | nil => rfl
  | cons r rows ih => exact ih (d.write (.delKey r.key))

theorem mem_deleted :
    r ∈ (writeAll ((d.idempotencyKeys.rows.filter ρ).map (Write.delKey ·.key)) d).idempotencyKeys.rows ↔
    r ∈ d.idempotencyKeys.rows ∧ ρ r = false := by
  rw [keys_delKeys, Table.rows_delAll_filter, List.mem_filter, Bool.not_eq_true']

theorem get_deleted : (writeAll ((d.idempotencyKeys.rows.filter ρ).map (Write.delKey ·.key)) d).idempotencyKeys.get k =
    some r ↔ d.idempotencyKeys.get k = some r ∧ ρ r = false := by
  constructor
  · intro h
    obtain ⟨hr, hρ⟩ := mem_deleted.mp (Table.mem_of_get h)
    exact ⟨Table.key_of_get h ▸ Table.get_of_mem hr, hρ⟩
  · rintro ⟨h, hρ⟩
    exact Table.key_of_get h ▸ Table.get_of_mem (mem_deleted.mpr ⟨Table.mem_of_get h, hρ⟩)

theorem get_deleted_none (h : d.idempotencyKeys.get k = none) :
    (writeAll ((d.idempotencyKeys.rows.filter ρ).map (Write.delKey ·.key)) d).idempotencyKeys.get k = none := by
  rw [Option.eq_none_iff_forall_ne_some]
  intro r hr
  rw [(get_deleted.mp hr).1] at h
  cases h

theorem get_deleted_other (h : ∀ r, d.idempotencyKeys.get k = some r → ρ r = false) :
    (writeAll ((d.idempotencyKeys.rows.filter ρ).map (Write.delKey ·.key)) d).idempotencyKeys.get k =
      d.idempotencyKeys.get k := by
  cases hk : d.idempotencyKeys.get k with
  | none => exact get_deleted_none hk
  | some r => exact get_deleted.mpr ⟨hk, h r hk⟩

end

/-! ## The points of Acquire -/

theorem acquireAnswer_status (h : Str) (r : KeyRow) : (acquireAnswer h r).status ≠ .statusAcquired := by
  unfold acquireAnswer
  split
  · exact fun h => by cases h
  · split <;> exact fun h => by cases h

structure AcqCall (α : Type) where
  key : Str
  bodyHash : Str
  expiresAt : Time
  next : AcquireResult → Tx α

namespace AcqCall

section
variable {α : Type} (x : AcqCall α)

def prog : Tx α := (Prog.inTx (.sql .failed) (acquireBody x.key x.bodyHash x.expiresAt)).bind x.next

def opened : Tx α := (acquireBody x.key x.bodyHash x.expiresAt).deferRollback.bind x.next

def cleared : Tx α :=
  (acquireSelect x.key >>= acquireFound x.key x.bodyHash x.expiresAt).deferRollback.bind x.next

def unclaimed : Tx α := (acquireFound x.key x.bodyHash x.expiresAt none).deferRollback.bind x.next

def inserted : Tx α :=
  .commit .acquireCommit (.rollback (.fail (.sql .failed))) (.rollback (x.next { status := .statusAcquired }))

def expired (now : Time) (v : DB) : List KeyRow := v.idempotencyKeys.rows.filter (expiredKey x.key now)

def clear (y : Sess Write Lock) (v : DB) : Sess Write Lock :=
  y.run ⟨(x.expired y.now v).map (.key ·.key), (x.expired y.now v).map (.delKey ·.key)⟩

def insert (y : Sess Write Lock) : Sess Write Lock :=
  y.run ⟨[.key x.key], [.putKey (acquiredRow x.key x.bodyHash x.expiresAt y.now)]⟩

variable {x} {t : Time} {d : DB} {y : Sess Write Lock}

theorem small_prog : x.prog.small t ⟨d, none⟩ = some ([], x.opened, ⟨d, some { now := t }⟩) := rfl

theorem small_opened : x.opened.small t ⟨d, some y⟩ =
    some ((x.expired y.now (writeAll y.pending d)).map (.key ·.key), x.cleared,
      ⟨d, some (x.clear y (writeAll y.pending d))⟩) := rfl

theorem small_cleared_none (h : (writeAll y.pending d).idempotencyKeys.get x.key = none) :
    x.cleared.small t ⟨d, some y⟩ = some ([], x.unclaimed, ⟨d, some y⟩) := by
  show some _ = _
  simp only [Conn.view_some, Conn.run_some, h, Option.isSome_none, lockIf, Bool.false_eq_true, if_false]
  simp [Sess.run, unclaimed, Prog.bind]

theorem small_cleared_some {r : KeyRow} (h : (writeAll y.pending d).idempotencyKeys.get x.key = some r) :
    x.cleared.small t ⟨d, some y⟩ = some ([.key x.key], .rollback (x.next (acquireAnswer x.bodyHash r)),
      ⟨d, some (y.run ⟨[.key x.key], []⟩)⟩) := by
  show some _ = _
  simp only [Conn.view_some, Conn.run_some, h, Option.isSome_some, lockIf, if_true]
  rfl

theorem small_unclaimed_none (h : (writeAll y.pending d).idempotencyKeys.get x.key = none) :
    x.unclaimed.small t ⟨d, some y⟩ = some ([.key x.key], x.inserted, ⟨d, some (x.insert y)⟩) := by
  show some _ = _
  simp only [Conn.view_some, Conn.run_some, Conn.now_some, h, Option.isSome_none, Bool.false_eq_true, if_false]
  rfl

theorem small_unclaimed_some (h : ((writeAll y.pending d).idempotencyKeys.get x.key).isSome = true) :
    x.unclaimed.small t ⟨d, some y⟩ = some ([.key x.key], .rollback (.fail (.sql .uniqueViolation)),
      ⟨d, some (y.run ⟨[.key x.key], []⟩)⟩) := by
  show some _ = _
  simp only [Conn.view_some, Conn.run_some, Conn.now_some, h, if_true]
  rfl

theorem small_inserted : x.inserted.small t ⟨d, some y⟩ =
    some ([], .rollback (x.next { status := .statusAcquired }), ⟨writeAll y.pending d, none⟩) := rfl

/-! ## What the transaction has written -/

variable (x) in
structure Cleared (y : Sess Write Lock) : Prop where
  writes : ∀ w ∈ y.pending, w = .delKey x.key
  locked : y.pending ≠ [] → .key x.key ∈ y.held
  unlocked : y.pending = [] → y.held = []

theorem key_of_expired {now : Time} {v : DB} {r : KeyRow} (hr : r ∈ x.expired now v) : r.key = x.key := by
  have := (List.mem_filter.mp hr).2
  simp only [expiredKey, Bool.and_eq_true, decide_eq_true_eq] at this
  exact this.1

theorem cleared_clear (hy : y.pending = []) (hheld : y.held = []) (v : DB) : x.Cleared (x.clear y v) where
  writes w hw := by
    simp only [clear, Sess.run, hy, List.nil_append, List.mem_map] at hw
    obtain ⟨r, hr, rfl⟩ := hw
    rw [key_of_expired hr]
  locked h := by
    simp only [clear, Sess.run, hy, List.nil_append, List.mem_append, List.mem_map] at h ⊢
    obtain ⟨r, hr⟩ := List.exists_mem_of_ne_nil _ fun he : x.expired y.now v = [] => h (by rw [he]; rfl)
    exact Or.inr ⟨r, hr, by rw [key_of_expired hr]⟩
  unlocked h := by
    simp only [clear, Sess.run, hy, hheld, List.nil_append, List.map_eq_nil_iff] at h ⊢
    exact h

theorem Cleared.get_other (h : x.Cleared y) {k : Str} (hk : x.key ≠ k) (d : DB) :
    (writeAll y.pending d).idempotencyKeys.get k = d.idempotencyKeys.get k := by
  refine writeAll_rule (J := fun v : DB => v.idempotencyKeys.get k = d.idempotencyKeys.get k) (fun w hw v hv => ?_) rfl
  rw [h.writes w hw]
  exact (Table.get_del_ne _ hk).trans hv

theorem get_insert (y : Sess Write Lock) (d : DB) : (writeAll (x.insert y).pending d).idempotencyKeys.get x.key =
    some (acquiredRow x.key x.bodyHash x.expiresAt y.now) := by
  rw [insert, Sess.view_run]
  exact Table.get_put_self _ (acquiredRow x.key x.bodyHash x.expiresAt y.now)

theorem Cleared.get_insert_other (h : x.Cleared y) {k : Str} (hk : x.key ≠ k) (d : DB) :
    (writeAll (x.insert y).pending d).idempotencyKeys.get k = d.idempotencyKeys.get k := by
  rw [insert, Sess.view_run, ← h.get_other hk d]
  exact Table.get_put_ne _ hk

end

end AcqCall

end OpenTams
