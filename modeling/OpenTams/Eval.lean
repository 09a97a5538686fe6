import OpenTams.Wp

/-!
# Transactions as functions

A transaction that runs alone is a function of the state it finds. `eval`
follows the view of its statements; a body that ends with its commit leaves the
view it has then, and one that fails leaves nothing. Each shape of statement has
one equation, so that what a call does is read off statement by statement.
`execFailing` is the same call with some of its statements failing.
-/

namespace Sql

variable {D W L N ε α β γ : Type}

namespace Prog

def Commits : Prog D W L N ε α → Prop
  | .fail _ => True
  | .commit _ err (.ret _) => ∃ e, err = .fail e
  | .step _ err _ next => (∃ e, err = .fail e) ∧ ∀ t v, (next t v).Commits
  | _ => False

theorem Flat.bind_commits {p : Prog D W L N ε α} {f : α → Prog D W L N ε β} (hp : p.Flat)
    (hf : ∀ a, (f a).Commits) : (p.bind f).Commits := by
  induction p with
  | ret a => exact hf a
  | fail e => trivial
  | step name err act next _ ih =>
    obtain ⟨⟨e, rfl⟩, hn⟩ := hp
    exact ⟨⟨e, rfl⟩, fun t v => ih t v (hn t v)⟩
  | _ => cases hp

theorem commits_commitThen (name : N) (e : ε) (a : α) : (commitThen name e a : Prog D W L N ε α).Commits :=
  ⟨e, rfl⟩

variable [Writes W D]

def eval (t : Time) : Prog D W L N ε α → D → Except ε (α × D)
  | .ret a, v => .ok (a, v)
  | .fail e, _ => .error e
  | .begin _ next, v => eval t next v
  | .commit _ _ next, v => eval t next v
  | .rollback next, v => eval t next v
  | .step _ _ act next, v => eval t (next t v) (writeAll (act t v).writes v)

variable {t : Time} {v v' d d' : D}

/-! ## Statement by statement -/

theorem eval_bind (p : Prog D W L N ε α) (f : α → Prog D W L N ε β) :
    (p >>= f).eval t v = (p.eval t v).bind fun r => (f r.1).eval t r.2 := by
  rw [bind_eq]
  induction p generalizing v with
  | ret a => rfl
  | fail e => rfl
  | begin err next _ ih => exact ih
  | commit name err next _ ih => exact ih
  | rollback next ih => exact ih
  | step name err act next _ ih => exact ih t v

theorem eval_bind_ok {p : Prog D W L N ε α} {f : α → Prog D W L N ε β} {b : β} :
    (p >>= f).eval t v = .ok (b, v') ↔ ∃ a w, p.eval t v = .ok (a, w) ∧ (f a).eval t w = .ok (b, v') := by
  rw [eval_bind]
  cases hp : p.eval t v with
  | error e => exact ⟨fun h => (by cases h), fun ⟨_, _, h, _⟩ => by cases h⟩
  | ok r =>
    obtain ⟨a, w⟩ := r
    constructor
    · intro h
      exact ⟨a, w, rfl, h⟩
    · rintro ⟨_, _, h, hf⟩
      cases h
      exact hf

theorem eval_bind_error {p : Prog D W L N ε α} {f : α → Prog D W L N ε β} {e : ε} :
    (p >>= f).eval t v = .error e ↔
      p.eval t v = .error e ∨ ∃ a w, p.eval t v = .ok (a, w) ∧ (f a).eval t w = .error e := by
  rw [eval_bind]
  cases hp : p.eval t v with
  | error e' =>
    constructor
    · intro h
      cases h
      exact Or.inl rfl
    · rintro (h | ⟨_, _, h, -⟩)
      · cases h
        rfl
      · cases h
  | ok r =>
    obtain ⟨a, w⟩ := r
    constructor
    · intro h
      exact Or.inr ⟨a, w, rfl, h⟩
    · rintro (h | ⟨_, _, h, hf⟩)
      · cases h
      · cases h
        exact hf

theorem eval_stmt (name : N) (e : ε) (act : Time → D → Eff W L) (q : Time → D → α) :
    (stmt name e act q).eval t v = .ok (q t v, writeAll (act t v).writes v) := rfl

theorem eval_stmtE (name : N) (e : ε) (act : Time → D → Eff W L) (q : Time → D → Except ε α) :
    (stmtE name e act q).eval t v = (q t v).map (·, writeAll (act t v).writes v) := by
  simp only [stmtE, eval]
  cases q t v <;> rfl

theorem Keeps.eval {J : D → Prop} {p : Prog D W L N ε α} (hp : p.Keeps J) {a : α} (h : p.eval t v = .ok (a, v'))
    (hv : J v) : J v' := by
  induction p generalizing v with
  | ret b => cases h; exact hv
  | fail e => cases h
  | begin err next _ ih => exact ih hp.2 h hv
  | commit name err next _ ih => exact ih hp.2 h hv
  | rollback next ih => exact ih hp h hv
  | step name err act next _ ih => exact ih t v (hp.2.2 t v) h (hp.2.1 t v hv)

theorem eval_commitThen (name : N) (e : ε) (a : α) :
    (commitThen name e a : Prog D W L N ε α).eval t v = .ok (a, v) := rfl

/-! ## Loops -/

theorem eval_forEach_cons {f : Nat → γ → Prog D W L N ε Unit} {i : Nat} {a : γ} {as : List γ} :
    (forEach f i (a :: as)).eval t v = .ok ((), v') ↔
      ∃ w, (f i a).eval t v = .ok ((), w) ∧ (forEach f (i + 1) as).eval t w = .ok ((), v') := by
  rw [forEach, ← bind_eq, eval_bind_ok]
  exact ⟨fun ⟨_, w, h⟩ => ⟨w, h⟩, fun ⟨w, h⟩ => ⟨(), w, h⟩⟩

theorem eval_forEach_append {f : Nat → γ → Prog D W L N ε Unit} {i : Nat} {as bs : List γ} :
    (forEach f i (as ++ bs)).eval t v = .ok ((), v') ↔
      ∃ w, (forEach f i as).eval t v = .ok ((), w) ∧ (forEach f (i + as.length) bs).eval t w = .ok ((), v') := by
  induction as generalizing i v with
  | nil =>
    constructor
    · intro h
      exact ⟨v, rfl, h⟩
    · rintro ⟨w, hw, h⟩
      cases hw
      exact h
  | cons a as ih =>
    rw [List.cons_append, eval_forEach_cons]
    simp only [eval_forEach_cons, ih, List.length_cons, Nat.add_assoc, Nat.add_comm 1]
    constructor
    · rintro ⟨u, hu, w, hw, h⟩
      exact ⟨w, ⟨u, hu, hw⟩, h⟩
    · rintro ⟨w, ⟨u, hu, hw⟩, h⟩
      exact ⟨u, hu, w, hw, h⟩

/-- A loop of checks passes where every check passes. -/
theorem eval_forEach_check {f : Nat → γ → Prog D W L N ε Unit} {P : γ → D → Prop}
    (hf : ∀ i a v v', (f i a).eval t v = .ok ((), v') ↔ v' = v ∧ P a v) {i : Nat} {as : List γ} :
    (forEach f i as).eval t v = .ok ((), v') ↔ v' = v ∧ ∀ a ∈ as, P a v := by
  induction as generalizing i with
  | nil =>
    constructor
    · intro h
      cases h
      exact ⟨rfl, fun a ha => by cases ha⟩
    · rintro ⟨rfl, -⟩
      rfl
  | cons a as ih =>
    rw [eval_forEach_cons]
    constructor
    · rintro ⟨w, hw, h⟩
      obtain ⟨rfl, hP⟩ := (hf i a v w).mp hw
      obtain ⟨rfl, hPs⟩ := ih.mp h
      exact ⟨rfl, List.forall_mem_cons.mpr ⟨hP, hPs⟩⟩
    · rintro ⟨rfl, hP⟩
      obtain ⟨hPa, hPs⟩ := List.forall_mem_cons.mp hP
      exact ⟨v', (hf i a _ _).mpr ⟨rfl, hPa⟩, ih.mpr ⟨rfl, hPs⟩⟩

/-- A loop fails at the first of its elements that does. -/
theorem eval_forEach_error {f : Nat → γ → Prog D W L N ε Unit} {e : ε} {i : Nat} {as : List γ}
    (h : (forEach f i as).eval t v = .error e) :
    ∃ before a after w, as = before ++ a :: after ∧ (forEach f i before).eval t v = .ok ((), w) ∧
      (f (i + before.length) a).eval t w = .error e := by
  induction as generalizing i v with
  | nil => cases h
  | cons a as ih =>
    rw [forEach, ← bind_eq, eval_bind_error] at h
    rcases h with h | ⟨_, w, hw, h⟩
    · exact ⟨[], a, as, v, rfl, rfl, h⟩
    · obtain ⟨before, b, after, w', rfl, hbefore, hb⟩ := ih h
      refine ⟨a :: before, b, after, w', rfl, eval_forEach_cons.mpr ⟨w, hw, hbefore⟩, ?_⟩
      rwa [List.length_cons, Nat.add_left_comm, Nat.add_comm]

/-! ## The call -/

theorem Commits.exec {p : Prog D W L N ε α} (hp : p.Commits) (x : Sess W L) :
    (∀ a w, p.eval x.now (writeAll x.pending d) = .ok (a, w) → p.exec t ⟨d, some x⟩ = (.ok a, ⟨w, none⟩)) ∧
      ∀ e, p.eval x.now (writeAll x.pending d) = .error e →
        (p.exec t ⟨d, some x⟩).1 = .error e ∧ (p.exec t ⟨d, some x⟩).2.db = d := by
  induction p generalizing x with
  | fail e =>
    refine ⟨fun a w h => (by cases h), fun e' h => ?_⟩
    cases h
    exact ⟨rfl, rfl⟩
  | commit name err next _ _ =>
    cases next with
    | ret a =>
      refine ⟨fun b w h => ?_, fun e h => (by cases h)⟩
      cases h
      rfl
    | _ => cases hp
  | step name err act next _ ih =>
    have := ih x.now (writeAll x.pending d) (hp.2 _ _) (x.run (act x.now (writeAll x.pending d)))
    simp only [Sess.run_now, Sess.view_run] at this
    exact this
  | _ => cases hp

/-- A transaction that ends with its commit succeeds as its body does, and leaves its view. -/
theorem run_inTx_ok {e : ε} {body : Prog D W L N ε α} (h : body.Commits) {a : α} :
    (inTx e body).run t d = (.ok a, d') ↔ body.eval t d = .ok (a, d') := by
  have hx := h.exec (t := t) (d := d) { now := t }
  rw [run_inTx]
  cases he : body.eval t d with
  | ok r =>
    rw [hx.1 r.1 r.2 he]
    simp [Prod.ext_iff]
  | error e' =>
    rw [(hx.2 e' he).1]
    exact ⟨fun h => (by cases h), fun h => by cases h⟩

theorem run_inTx_of_error {e e' : ε} {body : Prog D W L N ε α} (h : body.Commits) (he : body.eval t d = .error e') :
    (inTx e body).run t d = (.error e', d) := by
  rw [run_inTx]
  exact Prod.ext ((h.exec { now := t }).2 e' he).1 ((h.exec { now := t }).2 e' he).2

theorem run_inTx_error {e e' : ε} {body : Prog D W L N ε α} (h : body.Commits)
    (hr : ((inTx e body).run t d).1 = .error e') : body.eval t d = .error e' ∧ ((inTx e body).run t d).2 = d := by
  cases he : body.eval t d with
  | ok r =>
    rw [(run_inTx_ok h).mpr he] at hr
    cases hr
  | error e'' =>
    rw [run_inTx_of_error h he] at hr ⊢
    cases hr
    exact ⟨rfl, rfl⟩

/-! ## Calls one after the other -/

/-- However the call ends, no transaction of it stays open. -/
def Settles (p : Prog D W L N ε α) : Prop := ∀ t d, (p.exec t ⟨d, none⟩).2.sess = none

theorem settles_ret (a : α) : (ret a : Prog D W L N ε α).Settles := fun _ _ => rfl

theorem settles_fail (e : ε) : (fail e : Prog D W L N ε α).Settles := fun _ _ => rfl

theorem settles_query (name : N) (e : ε) (q : D → α) : (query name e q : Prog D W L N ε α).Settles := fun _ _ => rfl

theorem settles_stmtE (name : N) (e : ε) (act : Time → D → Eff W L) (q : Time → D → Except ε α) :
    (stmtE name e act q).Settles := by
  intro t d
  simp only [stmtE, exec]
  split <;> rfl

theorem settles_inTx (e : ε) (body : Prog D W L N ε α) : (inTx e body).Settles := by
  intro t d
  simp only [inTx, Prog.exec, exec_deferRollback]

theorem run_bind {p : Prog D W L N ε α} (hp : p.Settles) (f : α → Prog D W L N ε β) :
    (p >>= f).run t d = match p.run t d with
      | (.ok a, d') => (f a).run t d'
      | (.error e, d') => (.error e, d') := by
  have hs := hp t d
  rw [bind_eq, Prog.run, exec_bind, Prog.run]
  generalize p.exec t ⟨d, none⟩ = x at hs ⊢
  obtain ⟨r, db, sess⟩ := x
  cases hs
  cases r <;> rfl

theorem Settles.bind {p : Prog D W L N ε α} (hp : p.Settles) {f : α → Prog D W L N ε β} (hf : ∀ a, (f a).Settles) :
    (p >>= f).Settles := by
  intro t d
  have hs := hp t d
  rw [bind_eq, exec_bind]
  generalize p.exec t ⟨d, none⟩ = x at hs ⊢
  obtain ⟨r, db, sess⟩ := x
  cases hs
  cases r with
  | error e => rfl
  | ok a => exact hf a t db

theorem Settles.attempt {p : Prog D W L N ε α} (hp : p.Settles) : p.attempt.Settles := by
  intro t d
  rw [exec_attempt]
  exact hp t d

theorem run_query_bind (name : N) (e : ε) (q : D → α) (f : α → Prog D W L N ε β) :
    (query name e q >>= f).run t d = (f (q d)).run t d := rfl

theorem run_read (name : N) (e : ε) (q : Time → D → Except ε α) :
    (stmtE name e (fun _ _ => {}) q : Prog D W L N ε α).run t d = (q t d, d) := by
  simp only [Prog.run, stmtE, Prog.exec, Conn.now_none, Conn.view_none, Conn.run_none, writeAll_nil]
  cases q t d <;> rfl

theorem run_read_bind (name : N) (e : ε) (q : Time → D → Except ε α) (f : α → Prog D W L N ε β) :
    (stmtE name e (fun _ _ => {}) q >>= f).run t d = match q t d with
      | .ok a => (f a).run t d
      | .error e => (.error e, d) := by
  rw [bind_eq]
  simp only [Prog.run, stmtE, Prog.bind, Prog.exec, Conn.now_none, Conn.view_none, Conn.run_none, writeAll_nil]
  cases q t d <;> rfl

/-! ## Statements that fail -/

/-- The call alone, with the statements `fails` names failing; `k` of them have been sent. -/
def execFailing (fails : Nat → Option N → Bool) (t : Time) :
    Prog D W L N ε α → Nat → Conn D W L → Except ε α × Conn D W L
  | .ret a, _, c => (.ok a, c)
  | .fail e, _, c => (.error e, c)
  | .begin err next, k, c =>
    if fails k none then execFailing fails t err (k + 1) ⟨c.db, none⟩
    else execFailing fails t next (k + 1) ⟨c.db, some { now := t }⟩
  | .commit name err next, k, c =>
    if fails k (some name) then execFailing fails t err (k + 1) ⟨c.db, none⟩
    else execFailing fails t next (k + 1) ⟨c.view, none⟩
  | .rollback next, k, c => execFailing fails t next k ⟨c.db, none⟩
  | .step name err act next, k, c =>
    if fails k (some name) then execFailing fails t err (k + 1) ⟨c.db, none⟩
    else execFailing fails t (next (c.now t) c.view) (k + 1) (c.run (act (c.now t) c.view))

def runFailing (fails : Nat → Option N → Bool) (t : Time) (p : Prog D W L N ε α) (d : D) : Except ε α × D :=
  ((p.execFailing fails t 0 ⟨d, none⟩).1, (p.execFailing fails t 0 ⟨d, none⟩).2.db)

theorem runFailing_none (p : Prog D W L N ε α) : p.runFailing (fun _ _ => false) t d = p.run t d := by
  have hexec : ∀ k c, p.execFailing (fun _ _ => false) t k c = p.exec t c := by
    induction p with
    | ret a => exact fun _ _ => rfl
    | fail e => exact fun _ _ => rfl
    | begin err next _ ih => exact fun k c => ih _ _
    | commit name err next _ ih => exact fun k c => ih _ _
    | rollback next ih => exact fun k c => ih _ _
    | step name err act next _ ih => exact fun k c => ih _ _ _ _
  rw [runFailing, hexec]
  rfl

variable (fails : Nat → Option N → Bool)

theorem Commits.execFailing {p : Prog D W L N ε α} (hp : p.Commits) (k : Nat) (x : Sess W L) :
    p.deferRollback.execFailing fails t k ⟨d, some x⟩ = p.deferRollback.exec t ⟨d, some x⟩ ∨
      ∃ e, p.deferRollback.execFailing fails t k ⟨d, some x⟩ = (.error e, ⟨d, none⟩) := by
  induction p generalizing k x with
  | fail e => exact Or.inl rfl
  | commit name err next _ _ =>
    cases next with
    | ret a =>
      obtain ⟨e, rfl⟩ := hp
      simp only [deferRollback, Prog.execFailing]
      split
      · exact Or.inr ⟨e, rfl⟩
      · exact Or.inl rfl
    | _ => cases hp
  | step name err act next _ ih =>
    obtain ⟨⟨e, rfl⟩, hn⟩ := hp
    simp only [deferRollback, Prog.execFailing]
    split
    · exact Or.inr ⟨e, rfl⟩
    · exact ih _ _ (hn _ _) (k + 1) _
  | _ => cases hp

theorem runFailing_inTx {e : ε} {body : Prog D W L N ε α} (h : body.Commits) :
    (inTx e body).runFailing fails t d = (inTx e body).run t d ∨
      ∃ e', (inTx e body).runFailing fails t d = (.error e', d) := by
  simp only [runFailing, inTx, Prog.execFailing]
  split
  · exact Or.inr ⟨e, rfl⟩
  · rcases h.execFailing fails (t := t) (d := d) 1 { now := t } with he | ⟨e', he⟩
    · exact Or.inl (by rw [he]; rfl)
    · exact Or.inr ⟨e', by rw [he]⟩

end Prog

end Sql
