import OpenTams.KeyOwner

/-!
# One execution per key

As long as no row is deleted as expired or stale, an execution that has
acquired its key and not released it is the only one of that key. Once it has
completed, every execution that comes to the key later is answered from the
row, and none of them registers anything.
-/

namespace OpenTams

open Sql

section
variable {n : Nat} {calls : Fin n → ServerCall} {c : Constraints} {storageId : Str} {s s' : Server n} {a : Act n}
  {p q : Fin n} {prog : Tx Reply} {cn : Conn DB Write Lock} {es : List (Event n Stmt)} {k h : Str}

def NoneSwept (s : Server n) (a : Act n) : Prop := ∀ q, a = .go q → sweptBy s q = []

instance (s : Server n) (a : Act n) : Decidable (NoneSwept s a) := by
  unfold NoneSwept
  infer_instance

theorem NoneSwept.spares (hC : NoneSwept s a) : SparesRunning calls s a := by
  intro p q ha _ k _
  rw [hC q ha]
  exact List.not_mem_nil

variable (calls c storageId) in
structure OnceInv (s : Server n) : Prop where
  inv : KeyInv calls c storageId s
  exits : s.Exits
  tidy : ∀ p k, ¬ Clearing s p k
  kept : ∀ p k h, (calls p).slot = some (k, h) → Keeps s p → ∃ r, RowOf calls s p k h r

theorem onceInv_start (t : Time) (d : DB) :
    OnceInv calls c storageId (.start t d fun p => (calls p).prog c storageId) where
  inv := keyInv_start t d
  exits p := exits_call c storageId (calls p)
  tidy p k h := by
    obtain ⟨-, y, hy, -⟩ := h
    cases hy
  kept p k h _ hk := by cases hk.1

theorem OnceInv.not_sweeps (hI : OnceInv calls c storageId s) (hC : NoneSwept s a) : ¬ Sweeps s a k := by
  rintro ⟨q, ha, hsw | ⟨-, hdel⟩⟩
  · rw [hC q ha] at hsw
    cases hsw
  · exact hI.tidy q k hdel

theorem RowOf.other {r : KeyRow} (hr : RowOf calls s q k h r) (hstep : KeyStep calls s a p s') (hsw : ¬ Sweeps s a k)
    (hqp : q ≠ p) (hproc : s'.procs q = s.procs q) (hran : ∀ y, s'.ran q y = s.ran q y) : RowOf calls s' q k h r where
  row := (hstep.row k q hr.owner hqp (by rw [hr.row]; rfl) hsw).trans hr.row
  hash := hr.hash
  owner := by
    refine ((hstep.owner k).resolve_right fun h => ?_).trans hr.owner
    rcases h.2 with h | h
    · exact hsw h
    · cases h.symm.trans hr.row
  flight := by rw [hran]; exact hr.flight
  response hc := by
    rw [hran] at hc
    rw [hproc]
    exact hr.response hc

theorem OnceInv.move (hI : OnceInv calls c storageId s) (hC : NoneSwept s a) (hm : s.Moves a p prog cn es) :
    OnceInv calls c storageId ((s.set p prog cn).log es) where
  inv := hI.inv.move hC.spares hm
  exits := hI.exits.move hm
  tidy q k hdel := by
    by_cases hqp : q = p
    · subst hqp
      rcases hI.inv.cases q with ⟨x, hx, -⟩ | ⟨hslot, -⟩
      · rcases (hI.inv.mover hC.spares hm hx).deletes k hdel with hdel | hsw
        · exact hI.tidy q k hdel
        · exact hI.not_sweeps hC hsw
      · exact not_clearing (hI.inv.idle_move hm hslot).2.2 hdel
    · obtain ⟨hran, y, hy, hk⟩ := hdel
      rw [ran_other hqp (event_proc hm)] at hran
      rw [procs_other s hqp] at hy
      exact hI.tidy q k ⟨hran, y, hy, hk⟩
  kept q k h hslot hkeep := by
    by_cases hqp : q = p
    · subst hqp
      rcases hI.inv.cases q with ⟨x, hx, -⟩ | ⟨hnone, -⟩
      · rw [hx.slot] at hslot
        cases hslot
        rcases (hI.inv.mover hC.spares hm hx).keeps hkeep with hr | ⟨hkeep', hr⟩
        · exact hr
        · obtain ⟨r, hr'⟩ := hI.kept q _ _ hx.slot hkeep'
          exact ⟨r, hr r hr'⟩
      · rw [hnone] at hslot
        cases hslot
    · have hran : ∀ y, ((s.set p prog cn).log es).ran q y = s.ran q y := fun y => ran_other hqp (event_proc hm)
      obtain ⟨r, hr⟩ := hI.kept q k h hslot ⟨(hran _).symm.trans hkeep.1, (hran _).symm.trans hkeep.2⟩
      exact ⟨r, hr.other (hI.inv.step hC.spares hm).1 (hI.not_sweeps hC) hqp (procs_other s hqp ..) hran⟩

theorem OnceInv.tick (hI : OnceInv calls c storageId s) (dt : Time) :
    OnceInv calls c storageId { s with clock := s.clock + dt } :=
  ⟨hI.inv.tick dt, hI.exits, hI.tidy, fun p k h hslot hkeep =>
    (hI.kept p k h hslot hkeep).imp fun _ hr => ⟨hr.1, hr.2, hr.3, hr.4, hr.5⟩⟩

theorem OnceInv.runs {as : List (Act n)} (hI : OnceInv calls c storageId s)
    (hC : s.Along (fun s a _ => NoneSwept s a) as) (hr : s.runs as = some s') : OnceInv calls c storageId s' :=
  Sys.runs_moves (P := OnceInv calls c storageId) (fun _ dt h => h.tick dt)
    (fun _ _ _ _ _ _ h hC hm => h.move hC hm) hI hC hr

theorem OnceInv.completed (hI : OnceInv calls c storageId s) (hslot : (calls p).slot = some (k, h))
    (hc : s.ran p .complete = true) : ∃ r, RowOf calls s p k h r :=
  hI.kept p k h hslot (hI.inv.keeps (by rw [ServerCall.key, hslot]; rfl) hc)

/-! ## After a Complete -/

def replayAnswer (h : Str) (resp : Response) (bodyHash : Str) : AcquireResult :=
  if bodyHash = h then { status := .statusCached, cached := some ⟨resp.status, resp.body⟩ }
  else { status := .statusConflict }

theorem replayAnswer_status (h : Str) (resp : Response) (bodyHash : Str) :
    (replayAnswer h resp bodyHash).status ≠ .statusAcquired := by
  unfold replayAnswer
  split <;> exact fun h => by cases h

/-- `p` has completed the row of `k` and returned `resp`. -/
structure Settled (calls : Fin n → ServerCall) (s : Server n) (p : Fin n) (k h : Str) (resp : Response)
    (r : KeyRow) : Prop where
  row : RowOf calls s p k h r
  done : s.ran p .complete = true
  ret : (s.procs p).prog = .ret (.response resp)
  status : r.responseStatus = resp.status
  body : r.responseBody = resp.body

theorem RowOf.settled {r : KeyRow} (hr : RowOf calls s p k h r) (hc : s.ran p .complete = true) :
    ∃ resp, Settled calls s p k h resp r := by
  obtain ⟨resp, hret, hs, hb⟩ := hr.response hc
  exact ⟨resp, hr, hc, hret, hs, hb⟩

section
variable {resp : Response} {r : KeyRow} {x : AcqCall Reply}

theorem Settled.answer (hs : Settled calls s p k h resp r) (bodyHash : Str) :
    acquireAnswer bodyHash r = replayAnswer h resp bodyHash := by
  have hflight : r.inFlight = false := by rw [hs.row.flight, hs.done]; rfl
  unfold acquireAnswer replayAnswer
  rw [hs.row.hash, hflight, hs.status, hs.body]
  by_cases hb : bodyHash = h
  · simp [hb]
  · simp [hb, Ne.symm hb]

theorem Settled.move (hs : Settled calls s q k h resp r) (hI : OnceInv calls c storageId s) (hC : NoneSwept s a)
    (hm : s.Moves a p prog cn es) : Settled calls ((s.set p prog cn).log es) q k h resp r := by
  have hqp : q ≠ p := by
    rintro rfl
    exact ret_stuck hs.ret hm
  have hran : ∀ y, ((s.set p prog cn).log es).ran q y = s.ran q y := fun y => ran_other hqp (event_proc hm)
  exact ⟨hs.row.other (hI.inv.step hC.spares hm).1 (hI.not_sweeps hC) hqp (procs_other s hqp ..) hran,
    (hran _).trans hs.done, by rw [procs_other s hqp]; exact hs.ret, hs.status, hs.body⟩

theorem OnceInv.pending_nil {y : Sess Write Lock} (hI : OnceInv calls c storageId s) (hsess : (s.procs q).sess = some y)
    {z : Sess Write Lock} (hz : ∀ w ∈ z.pending, w ∈ y.pending) (hran : Unsettled s q false) (hy : x.Cleared z) :
    z.pending = [] := by
  by_contra hne
  obtain ⟨w, hw⟩ := List.exists_mem_of_ne_nil _ hne
  exact hI.tidy q x.key ⟨hran.acquire, y, hsess, hy.writes w hw ▸ hz w hw⟩

theorem OnceInv.late (hI : OnceInv calls c storageId s) (hs : Settled calls s p k h resp r)
    (hx : Acquires c storageId (calls q) x) (hk : x.key = k) (hqp : q ≠ p) :
    (∀ y, (s.procs q).prog.name? = some y → y = .acquireDeleteExpired ∨ y = .acquireSelect ∨ y = .acquireInsert) ∧
    ((s.procs q).prog.name? = some .acquireSelect → ∃ y, s.procs q = ⟨x.cleared, some y⟩ ∧ y.pending = []) := by
  subst hk
  cases hI.inv.stage q x hx with
  | start hp _ =>
    rw [hp]
    exact ⟨fun y hy => (by cases hy), fun hn => by cases hn⟩
  | opened hp _ =>
    rw [hp]
    exact ⟨fun y hy => (by cases hy; exact Or.inl rfl), fun hn => by cases hn⟩
  | @cleared z hp hran hy _ =>
    refine ⟨fun y hy => ?_, fun _ => ⟨z, hp, hI.pending_nil (by rw [hp]) (fun _ hw => hw) hran hy⟩⟩
    rw [hp] at hy
    cases hy
    exact Or.inr (Or.inl rfl)
  | unclaimed hp _ _ _ =>
    rw [hp]
    exact ⟨fun y hy => (by cases hy; exact Or.inr (Or.inr rfl)), fun hn => by cases hn⟩
  | @inserted z hp hran hy _ habsent =>
    rcases habsent with hne | hnone
    · exact absurd (hI.pending_nil (by rw [hp]) (fun _ hw => List.mem_append_left _ hw) hran hy) hne
    · cases hnone.symm.trans hs.row.row
  | holding _ _ _ _ _ howner => exact absurd (Option.some.inj (howner.symm.trans hs.row.owner)) hqp
  | finished hq _ =>
    rw [hq.name?_eq_none]
    exact ⟨fun y hy => (by cases hy), fun hn => by cases hn⟩

/-! ## Later executions -/

/-- From `s₀` on, where `p` has completed the row: executions with the key run nothing but the
first statements of `Acquire`, and those that come to the row read their answer from it. -/
structure Later (calls : Fin n → ServerCall) (c : Constraints) (storageId : Str) (s₀ s : Server n) (p : Fin n)
    (k h : Str) (resp : Response) (r : KeyRow) : Prop where
  inv : OnceInv calls c storageId s
  settled : Settled calls s p k h resp r
  events : ∃ es, s.trace = s₀.trace ++ es ∧ ∀ e ∈ es, (calls e.proc).key = some k →
    e.name = .acquireDeleteExpired ∨ e.name = .acquireSelect ∨ e.name = .acquireInsert
  answers : ∀ q x, Acquires c storageId (calls q) x → x.key = k → s₀.ran q .acquireSelect = false →
    s.ran q .acquireSelect = true →
    (s.procs q).prog = .rollback (x.next (replayAnswer h resp x.bodyHash)) ∨
      (s.procs q).prog = x.next (replayAnswer h resp x.bodyHash)

theorem Later.ne {s₀ : Server n} (hL : Later calls c storageId s₀ s p k h resp r) (hm : s.Moves a q prog cn es) :
    q ≠ p := by
  rintro rfl
  exact ret_stuck hL.settled.ret hm

theorem select_answer {y : Sess Write Lock} {ls : List Lock} (hs : Settled calls s p k h resp r) (hk : x.key = k)
    (hp : s.procs q = ⟨x.cleared, some y⟩) (hy : y.pending = [])
    (hsm : (s.procs q).prog.small s.clock (s.conn q) = some (ls, prog, cn)) :
    prog = .rollback (x.next (replayAnswer h resp x.bodyHash)) := by
  have hrow : (writeAll y.pending s.db).idempotencyKeys.get x.key = some r := by
    rw [hy, hk]
    exact hs.row.row
  simp only [Sys.conn, hp] at hsm
  rw [AcqCall.small_cleared_some hrow, hs.answer] at hsm
  cases hsm
  rfl

theorem Later.move {s₀ : Server n} (hL : Later calls c storageId s₀ s p k h resp r) (hC : NoneSwept s a)
    (hm : s.Moves a q prog cn es) : Later calls c storageId s₀ ((s.set q prog cn).log es) p k h resp r where
  inv := hL.inv.move hC hm
  settled := hL.settled.move hL.inv hC hm
  events := by
    obtain ⟨es₀, htrace, hes₀⟩ := hL.events
    refine ⟨es₀ ++ es, ?_, fun e he hkey => ?_⟩
    · show s.trace ++ es = _
      rw [htrace, List.append_assoc]
    rcases List.mem_append.mp he with he | he
    · exact hes₀ e he hkey
    · cases hm with
      | err _ => cases he
      | go hsm hfree =>
        obtain ⟨hproc, hname, -⟩ := mem_event he
        rw [hproc] at hkey
        rcases hL.inv.inv.cases q with ⟨x, hx, -⟩ | ⟨hslot, -⟩
        · have hk : x.key = k := Option.some.inj (hx.key.symm.trans hkey)
          exact (hL.inv.late hL.settled hx hk (hL.ne (.go hsm hfree))).1 _ hname
        · rw [ServerCall.key, hslot] at hkey
          cases hkey
  answers q' x hx hk hran₀ hran := by
    by_cases hqq : q' = q
    · subst hqq
      rw [procs_moved]
      obtain ⟨a₀, ha₀⟩ := hx.other _ (replayAnswer_status h resp x.bodyHash)
      by_cases hbefore : s.ran q' .acquireSelect = true
      · -- it has its answer, and can only close its transaction
        rcases hL.answers q' x hx hk hran₀ hbefore with hp | hp
        · cases hm with
          | go hsm _ => rw [hp] at hsm; cases hsm; exact Or.inr rfl
          | err herr => rw [hp] at herr; cases herr
        · rw [ha₀] at hp
          exact (ret_stuck hp hm).elim
      · rcases ran_log_iff.mp hran with h' | ⟨e, he, -, hname⟩
        · exact absurd h' hbefore
        cases hm with
        | err _ => cases he
        | go hsm hfree =>
          have hq := (mem_event he).2.1
          rw [hname] at hq
          obtain ⟨y, hp, hy⟩ := (hL.inv.late hL.settled hx hk (hL.ne (.go hsm hfree))).2 hq
          exact Or.inl (select_answer hL.settled hk hp hy hsm)
    · rw [ran_other hqq (event_proc hm)] at hran
      rw [procs_other s hqq]
      exact hL.answers q' x hx hk hran₀ hran

theorem Later.runs {s₀ : Server n} {as : List (Act n)} (hL : Later calls c storageId s₀ s p k h resp r)
    (hC : s.Along (fun s a _ => NoneSwept s a) as) (hr : s.runs as = some s') :
    Later calls c storageId s₀ s' p k h resp r := by
  refine Sys.runs_moves (P := fun s => Later calls c storageId s₀ s p k h resp r) (fun s dt h => ?_)
    (fun _ _ _ _ _ _ h hC hm => h.move hC hm) hL hC hr
  exact ⟨h.inv.tick dt, ⟨⟨h.settled.row.1, h.settled.row.2, h.settled.row.3, h.settled.row.4, h.settled.row.5⟩,
    h.settled.done, h.settled.ret, h.settled.status, h.settled.body⟩, h.events, h.answers⟩

/-! ## No execution waits for ever -/

theorem exits_open {y : Sess Write Lock} (hI : OnceInv calls c storageId s) (hq : (s.procs q).prog.Quiet)
    (hsess : (s.procs q).sess = some y) : ∃ next, (s.procs q).prog = .rollback next := by
  have he := hI.exits q
  rw [hsess] at he
  exact hq.rollback_of_exits he

theorem OnceInv.holder (hI : OnceInv calls c storageId s) (hs : Settled calls s p k h resp r)
    (hheld : .key k ∈ (s.conn q).held) : ∃ next, (s.procs q).prog = .rollback next := by
  obtain ⟨y, hsess, hmem⟩ : ∃ y, (s.procs q).sess = some y ∧ .key k ∈ y.held := by
    cases hsess : (s.procs q).sess with
    | none => simp only [Sys.conn, Conn.held, hsess, List.not_mem_nil] at hheld
    | some y => exact ⟨y, rfl, by simpa only [Sys.conn, Conn.held, hsess] using hheld⟩
  rcases hI.inv.cases q with ⟨x, hx, hst⟩ | ⟨-, hq | ⟨-, hnone⟩⟩
  · cases hst with
    | start hp _ => rw [hp] at hsess; cases hsess
    | opened hp _ => rw [hp] at hsess; cases hsess; cases hmem
    | cleared hp hran hy _ | unclaimed hp hran hy _ =>
      rw [hp] at hsess
      cases hsess
      rw [hy.unlocked (hI.pending_nil (by rw [hp]) (fun _ hw => hw) hran hy)] at hmem
      cases hmem
    | @inserted z hp hran hy _ habsent =>
      have hz : z.pending = [] := hI.pending_nil (by rw [hp]) (fun _ hw => List.mem_append_left _ hw) hran hy
      rw [hp] at hsess
      cases hsess
      simp only [AcqCall.insert, Sess.run_held, hy.unlocked hz, List.nil_append, List.mem_singleton,
        Lock.key.injEq] at hmem
      rw [← hmem] at habsent
      exact absurd hs.row.row (by rw [habsent.resolve_left fun hne => hne hz]; exact fun h => by cases h)
    | holding hu _ _ _ _ _ => exact absurd ⟨k, rfl⟩ ((hu.2 y hsess).2 _ hmem)
    | finished hq _ => exact exits_open hI hq hsess
  · exact exits_open hI hq hsess
  · rw [hnone] at hsess
    cases hsess

theorem OnceInv.select {y : Sess Write Lock} (hI : OnceInv calls c storageId s) (hs : Settled calls s p k h resp r)
    (hk : x.key = k) (hp : s.procs q = ⟨x.cleared, some y⟩) (hy : y.pending = []) :
    s.Reaches NoneSwept fun s' => (s'.procs q).prog = x.next (replayAnswer h resp x.bodyHash) := by
  subst hk
  -- the select where the lock is free, and the rollback after it
  have hfinish : ∀ s : Server n, Settled calls s p x.key h resp r → s.procs q = ⟨x.cleared, some y⟩ →
      s.Free q [.key x.key] →
      s.Reaches NoneSwept fun s' => (s'.procs q).prog = x.next (replayAnswer h resp x.bodyHash) := by
    intro s hs hp hfree
    have hrow : (writeAll y.pending s.db).idempotencyKeys.get x.key = some r := by
      rw [hy]
      exact hs.row.row
    have hsm : (s.procs q).prog.small s.clock (s.conn q) = some ([.key x.key],
        .rollback (x.next (replayAnswer h resp x.bodyHash)), ⟨s.db, some (y.run ⟨[.key x.key], []⟩)⟩) := by
      simp only [Sys.conn, hp]
      rw [AcqCall.small_cleared_some hrow, hs.answer]
    refine Sys.reaches_go (fun q' ha => ?_) hsm hfree ?_
    · cases ha
      simp only [sweptBy, hp]
      rfl
    have hp' : ((s.set q (.rollback (x.next (replayAnswer h resp x.bodyHash)))
        ⟨s.db, some (y.run ⟨[.key x.key], []⟩)⟩).log
        (s.event q)).procs q = ⟨.rollback (x.next (replayAnswer h resp x.bodyHash)), some (y.run ⟨[.key x.key], []⟩)⟩ :=
      procs_moved ..
    generalize (s.set q (.rollback (x.next (replayAnswer h resp x.bodyHash)))
        ⟨s.db, some (y.run ⟨[.key x.key], []⟩)⟩).log
      (s.event q) = s₁ at hp' ⊢
    have hsm₁ : (s₁.procs q).prog.small s₁.clock (s₁.conn q) =
        some ([], x.next (replayAnswer h resp x.bodyHash), ⟨s₁.db, none⟩) := by
      rw [hp']
      rfl
    refine Sys.reaches_go (fun q' ha => ?_) hsm₁ (fun _ _ _ hℓ => by cases hℓ) (Sys.reaches_refl (by rw [procs_moved]))
    cases ha
    simp only [sweptBy, hp']
  by_cases hfree : s.Free q [.key x.key]
  · exact hfinish s hs hp hfree
  · obtain ⟨q', hqq, hheld⟩ : ∃ q', q' ≠ q ∧ .key x.key ∈ (s.conn q').held := by
      by_contra hno
      exact hfree fun q' hq ℓ hℓ hheld => hno ⟨q', hq, List.mem_singleton.mp hℓ ▸ hheld⟩
    obtain ⟨next, hnext⟩ := hI.holder hs hheld
    have hsm : (s.procs q').prog.small s.clock (s.conn q') = some ([], next, ⟨s.db, none⟩) := by
      rw [hnext]
      rfl
    have hnil : s.Free q' [] := fun _ _ _ hℓ => by cases hℓ
    have hC : NoneSwept s (.go q') := by
      intro q'' ha
      cases ha
      simp only [sweptBy, hnext]
    refine Sys.reaches_go hC hsm hnil (hfinish _ (hs.move hI hC (.go hsm hnil)) ?_ ?_)
    · rw [procs_other s (Ne.symm hqq), hp]
    · intro q'' hq ℓ hℓ hheld'
      rw [List.mem_singleton.mp hℓ] at hheld'
      by_cases hqq' : q'' = q'
      · subst hqq'
        simp only [Sys.conn, Conn.held, procs_moved] at hheld'
        cases hheld'
      · simp only [Sys.conn, Conn.held, procs_other s hqq'] at hheld'
        exact hI.inv.excl q'' q' hqq' _ hheld' hheld

/-- An execution that has not begun can run to its end, and is answered from the row, unless the row has expired. -/
theorem OnceInv.returns (hI : OnceInv calls c storageId s) (hs : Settled calls s p k h resp r) (hk : x.key = k)
    (hp : s.procs q = ⟨x.prog, none⟩)
    (hlive : s.clock < r.expiresAt) :
    s.Reaches NoneSwept fun s' => (s'.procs q).prog = x.next (replayAnswer h resp x.bodyHash) := by
  have hsm : (s.procs q).prog.small s.clock (s.conn q) = some ([], x.opened, ⟨s.db, some { now := s.clock }⟩) := by
    simp only [Sys.conn, hp]
    exact AcqCall.small_prog
  have hnil : s.Free q [] := fun _ _ _ hℓ => by cases hℓ
  have hC : NoneSwept s (.go q) := by
    intro q' ha
    cases ha
    simp only [sweptBy, hp]
    rfl
  refine Sys.reaches_go hC hsm hnil ?_
  have hI₁ := hI.move hC (.go hsm hnil)
  have hs₁ := hs.move hI hC (.go hsm hnil)
  generalize hs₁eq : (s.set q x.opened ⟨s.db, some { now := s.clock }⟩).log (s.event q) = s₁ at hI₁ hs₁
  have hp₁ : s₁.procs q = ⟨x.opened, some { now := s.clock }⟩ := by rw [← hs₁eq, procs_moved]
  -- the row has not expired, so the delete finds nothing
  have hexpired : x.expired s.clock s₁.db = [] := by
    simp only [AcqCall.expired, List.filter_eq_nil_iff]
    intro r' hr' hexp
    simp only [expiredKey, Bool.and_eq_true, decide_eq_true_eq] at hexp
    have hget := Table.get_of_mem hr'
    rw [show r'.key = k from hexp.1.trans hk, hs₁.row.row] at hget
    cases hget
    exact absurd hexp.2 (not_le.mpr hlive)
  have hclear : x.clear { now := s.clock } s₁.db = { now := s.clock } := by
    simp only [AcqCall.clear, hexpired, Sess.run, List.map_nil, List.append_nil]
  have hsm₁ : (s₁.procs q).prog.small s₁.clock (s₁.conn q) =
      some ([], x.cleared, ⟨s₁.db, some { now := s.clock }⟩) := by
    simp only [Sys.conn, hp₁]
    rw [AcqCall.small_opened, writeAll_nil, hclear]
    simp only [hexpired, List.map_nil]
  have hnil₁ : s₁.Free q [] := fun _ _ _ hℓ => by cases hℓ
  have hC₁ : NoneSwept s₁ (.go q) := by
    intro q' ha
    cases ha
    rw [sweptBy_opened hp₁, hclear]
  refine Sys.reaches_go hC₁ hsm₁ hnil₁ ?_
  exact (hI₁.move hC₁ (.go hsm₁ hnil₁)).select (hs₁.move hI₁ hC₁ (.go hsm₁ hnil₁)) hk (procs_moved ..) rfl

theorem OnceInv.not_begun (hI : OnceInv calls c storageId s) (hs : Settled calls s p k h resp r)
    (hx : Acquires c storageId (calls q) x) (hk : x.key = k) (hprog : (s.procs q).prog = x.prog) :
    s.procs q = ⟨x.prog, none⟩ := by
  subst hk
  have hqp : q ≠ p := by
    rintro rfl
    rw [hs.ret] at hprog
    cases hprog
  cases hI.inv.stage q x hx with
  | start hp _ => exact hp
  | opened hp _ => rw [hp] at hprog; cases hprog
  | cleared hp _ => rw [hp] at hprog; cases hprog
  | unclaimed hp _ => rw [hp] at hprog; cases hprog
  | inserted hp _ => rw [hp] at hprog; cases hprog
  | holding _ _ _ _ _ howner => exact absurd (Option.some.inj (howner.symm.trans hs.row.owner)) hqp
  | finished hq _ => rw [hprog] at hq; cases hq

end

/-- **Exactly once per key.** In every run whose steps delete no row as expired or
stale, at most one execution of a key has acquired it and not released it. Once
an execution has completed with `resp`, from then on the executions of its key
run no statement but the first ones of `Acquire`, each that comes to the row
goes on with the answer replayed from it, and each that has not begun can run to
its end as long as the row has not expired. -/
theorem once_per_key {t : Time} {d : DB} {as : List (Act n)}
    (hC : (Sys.start t d fun p => (calls p).prog c storageId).Along (fun s a _ => NoneSwept s a) as)
    (hr : (Sys.start t d fun p => (calls p).prog c storageId).runs as = some s) :
    (∀ p q k, (calls p).key = some k → (calls q).key = some k → Keeps s p → Keeps s q → p = q) ∧
    ∀ p k h, (calls p).slot = some (k, h) → s.ran p .complete = true → ∃ resp r,
      (s.procs p).prog = .ret (.response resp) ∧ s.db.idempotencyKeys.get k = some r ∧ r.inFlight = false ∧
      r.responseStatus = resp.status ∧ r.responseBody = resp.body ∧
      ∀ as₂ s₂, s.Along (fun s a _ => NoneSwept s a) as₂ → s.runs as₂ = some s₂ →
        (∃ es, s₂.trace = s.trace ++ es ∧ ∀ e ∈ es, (calls e.proc).key = some k →
          e.name = .acquireDeleteExpired ∨ e.name = .acquireSelect ∨ e.name = .acquireInsert) ∧
        ∀ q env req x, calls q = .post env req → checkPost req = .ok x → x.key = k →
          (s.ran q .acquireSelect = false → s₂.ran q .acquireSelect = true →
            (s₂.procs q).prog =
              .rollback ((postAcquired c storageId env x (replayAnswer h resp x.bodyHash)).map .response) ∨
            (s₂.procs q).prog = (postAcquired c storageId env x (replayAnswer h resp x.bodyHash)).map .response) ∧
          ((s₂.procs q).prog = (calls q).prog c storageId → s₂.clock < r.expiresAt →
            s₂.Reaches NoneSwept fun s₃ => (s₃.procs q).prog =
              (postAcquired c storageId env x (replayAnswer h resp x.bodyHash)).map .response) := by
  have hI : OnceInv calls c storageId s := (onceInv_start t d).runs hC hr
  refine ⟨fun p q k hp hq hkp hkq => ?_, fun p k h hslot hc => ?_⟩
  · have howner : ∀ p, (calls p).key = some k → Keeps s p → lastAcquire calls s k = some p := by
      intro p hp hkp
      obtain ⟨⟨k', h⟩, hslot, hk⟩ := Option.map_eq_some_iff.mp hp
      obtain ⟨r, hr⟩ := hI.kept p k' h hslot hkp
      exact hk ▸ hr.owner
    exact Option.some.inj ((howner p hp hkp).symm.trans (howner q hq hkq))
  · obtain ⟨r, hrow⟩ := hI.completed hslot hc
    obtain ⟨resp, hs⟩ := hrow.settled hc
    refine ⟨resp, r, hs.ret, hrow.row, by rw [hrow.flight, hc]; rfl, hs.status, hs.body, fun as₂ s₂ hC₂ hr₂ => ?_⟩
    have hL : Later calls c storageId s s₂ p k h resp r := by
      refine Later.runs ⟨hI, hs, ⟨[], (List.append_nil _).symm, fun e he => by cases he⟩,
        fun q x _ _ h0 h1 => ?_⟩ hC₂ hr₂
      rw [h0] at h1
      cases h1
    refine ⟨hL.events, fun q env req x hcall hx hk => ?_⟩
    have hacq : Acquires c storageId (calls q) ⟨x.key, x.bodyHash, env.expiresAt,
        fun acq => (postAcquired c storageId env x acq).map .response⟩ := by
      rw [hcall]
      obtain ⟨_, _, _, -, -, hkey, hk', -⟩ := slot_eq_some hslot
      rw [hk', ← hk] at hkey
      exact acquires_post hx hkey
    refine ⟨hL.answers q _ hacq hk, fun hprog hlive => ?_⟩
    exact hL.inv.returns hL.settled hk (hL.inv.not_begun hL.settled hacq hk (hprog.trans hacq.prog)) hlive

end

def retryingCalls : Fin 3 → ServerCall
  | 0 => samplePost "k" "a"
  | 1 => samplePost "k" "a"
  | 2 => samplePost "k" "b"

def firstSchedule : List (Act 3) := Act.turns 2 [0, 0, 0, 0, 0, 0, 0, 0, 0, 0, 1, 0, 0, 0, 0, 0, 0]

def retrySchedule : List (Act 3) := Act.turns 2 [2, 1, 2, 1]

theorem retry_answered : ∃ s s₂ resp,
    (Sys.start 0 oneFlow fun p => (retryingCalls p).prog {} (lit "default")).runs firstSchedule = some s ∧
    s.ran 0 .complete = true ∧ (∀ q, (retryingCalls q).key = some (lit "k") → Keeps s q → q = 0) ∧
    (s.procs 0).prog = .ret (.response resp) ∧ s.runs retrySchedule = some s₂ ∧
    ((s₂.procs 1).prog = .rollback ((postAcquired {} (lit "default") { expiresAt := 86400000000 }
        ⟨⟨1, [sampleSegment "o" "[0:0_1:0)" 0 1]⟩, lit "k", lit "a"⟩
        { status := .statusCached, cached := some ⟨resp.status, resp.body⟩ }).map .response) ∨
      (s₂.procs 1).prog = (postAcquired {} (lit "default") { expiresAt := 86400000000 }
        ⟨⟨1, [sampleSegment "o" "[0:0_1:0)" 0 1]⟩, lit "k", lit "a"⟩
        { status := .statusCached, cached := some ⟨resp.status, resp.body⟩ }).map .response) := by
  obtain ⟨s, hs⟩ := Option.isSome_iff_exists.mp (by decide +kernel :
    ((Sys.start 0 oneFlow fun p => (retryingCalls p).prog {} (lit "default")).runs firstSchedule).isSome = true)
  have hfacts : ((Sys.start 0 oneFlow fun p => (retryingCalls p).prog {} (lit "default")).runs firstSchedule).map
    (fun s =>
      (s.ran 0 .complete, decide (Keeps s 0), s.ran 1 .acquireSelect,
        (s.runs retrySchedule).map fun s₂ => s₂.ran 1 .acquireSelect,
        decide (s.Along (fun s a _ => NoneSwept s a) retrySchedule))) = some (true, true, false, some true, true) := by
    decide +kernel
  have hnone : (Sys.start 0 oneFlow fun p => (retryingCalls p).prog {} (lit "default")).Along
      (fun s a _ => NoneSwept s a) firstSchedule := by decide +kernel
  rw [hs, Option.map_some, Option.some.injEq, Prod.mk.injEq, Prod.mk.injEq, Prod.mk.injEq, Prod.mk.injEq,
    Option.map_eq_some_iff, decide_eq_true_iff, decide_eq_true_iff] at hfacts
  obtain ⟨hdone, hkeeps, hbefore, ⟨s₂, hs₂, hafter⟩, hnone₂⟩ := hfacts
  obtain ⟨hone, hcomplete⟩ := once_per_key hnone hs
  obtain ⟨resp, r, hret, -, -, -, -, hlater⟩ := hcomplete 0 (lit "k") (lit "a") rfl hdone
  refine ⟨s, s₂, resp, hs, hdone, fun q hq hkq => hone q 0 _ hq rfl hkq hkeeps, hret, hs₂, ?_⟩
  exact ((hlater retrySchedule s₂ hnone₂ hs₂).2 1 _ _ ⟨⟨1, [sampleSegment "o" "[0:0_1:0)" 0 1]⟩, lit "k", lit "a"⟩
    rfl rfl rfl).1 hbefore hafter

end OpenTams
