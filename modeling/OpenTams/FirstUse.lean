import OpenTams.KeyStages

/-!
# Concurrent first use of a key

`SELECT … FOR UPDATE` locks nothing where there is no row. Two callers of
`Acquire` may both find none; the insert of the second then waits for the first
and fails on the primary key. If no caller selects while another is between
its select and its commit, every caller gets an answer and one of them the key.
-/

namespace OpenTams

open Sql

abbrev Callers (n : Nat) := Sys DB Write Lock Stmt Err AcquireResult n

structure Caller where
  bodyHash : Str
  expiresAt : Time

def Caller.acq (key : Str) (x : Caller) : AcqCall AcquireResult := ⟨key, x.bodyHash, x.expiresAt, .ret⟩

theorem acquire_eq {key : Str} (hk : validateKey key = .ok ()) (x : Caller) :
    acquire key x.bodyHash x.expiresAt = (x.acq key).prog := by
  simp only [acquire, hk, AcqCall.prog, Caller.acq, Prog.bind_ret]

/-! ## Taking turns -/

section
variable {n : Nat}

/-- The caller has found no row and has not committed one. -/
def Undecided (s : Callers n) (p : Fin n) : Prop := s.ran p .acquireSelect = true ∧ ¬ (s.procs p).prog.Quiet

instance (s : Callers n) (p : Fin n) : Decidable (Undecided s p) := inferInstanceAs (Decidable (_ ∧ ¬ _))

def expiredBy (s : Callers n) (q : Fin n) : List Write :=
  match (s.procs q).prog with
  | .step name _ act _ =>
    if name = .acquireDeleteExpired then (act ((s.conn q).now s.clock) (s.conn q).view).writes else []
  | _ => []

/-- No statement fails, no row expires, and nobody selects while another is undecided. -/
def InTurn (s : Callers n) : Act n → Prop
  | .tick _ => True
  | .err _ => False
  | .go q => expiredBy s q = [] ∧ ((s.procs q).prog.name? = some .acquireSelect → ∀ p, p ≠ q → ¬ Undecided s p)

instance (s : Callers n) : (a : Act n) → Decidable (InTurn s a)
  | .tick _ => inferInstanceAs (Decidable True)
  | .err _ => inferInstanceAs (Decidable False)
  | .go q => inferInstanceAs (Decidable (_ ∧ (_ → ∀ p, p ≠ q → ¬ Undecided s p)))

/-! ## Stages -/

variable {s s' : Callers n} {a : Act n} {p q : Fin n} {prog : Tx AcquireResult} {cn : Conn DB Write Lock}
  {es : List (Event n Stmt)} {x : AcqCall AcquireResult} {ls : List Lock} {b : Bool}

def HasKey (s : Callers n) (p : Fin n) : Prop :=
  (s.procs p).prog = .rollback (.ret { status := .statusAcquired }) ∨
    (s.procs p).prog = .ret { status := .statusAcquired }

inductive FirstStage (x : AcqCall AcquireResult) (s : Callers n) (p : Fin n) : Bool → Prop
  | start : s.procs p = ⟨x.prog, none⟩ → FirstStage x s p false
  | opened {now : Time} : s.procs p = ⟨x.opened, some { now }⟩ → FirstStage x s p false
  | cleared {now : Time} : s.procs p = ⟨x.cleared, some { now }⟩ → FirstStage x s p false
  | unclaimed {now : Time} : s.procs p = ⟨x.unclaimed, some { now }⟩ → s.ran p .acquireSelect = true →
      s.db.idempotencyKeys.get x.key = none → FirstStage x s p true
  | inserted {now : Time} : s.procs p = ⟨x.inserted, some (x.insert { now })⟩ → s.ran p .acquireSelect = true →
      s.db.idempotencyKeys.get x.key = none → FirstStage x s p true
  | acquired : HasKey s p → (s.db.idempotencyKeys.get x.key).isSome → FirstStage x s p true
  | answered {ans : AcquireResult} : ans.status ≠ .statusAcquired →
      (s.procs p).prog = .rollback (.ret ans) ∨ (s.procs p).prog = .ret ans →
      (s.db.idempotencyKeys.get x.key).isSome → FirstStage x s p false

theorem FirstStage.other (h : FirstStage x s q b) (hproc : s'.procs q = s.procs q)
    (hran : s.ran q .acquireSelect = true → s'.ran q .acquireSelect = true)
    (hrow : s'.db.idempotencyKeys.get x.key = s.db.idempotencyKeys.get x.key ∨
      b = false ∧ (s'.db.idempotencyKeys.get x.key).isSome) : FirstStage x s' q b := by
  cases h with
  | start hp => exact .start (hproc.trans hp)
  | opened hp => exact .opened (hproc.trans hp)
  | cleared hp => exact .cleared (hproc.trans hp)
  | unclaimed hp hr hn =>
    exact .unclaimed (hproc.trans hp) (hran hr) ((hrow.resolve_right fun h => by cases h.1).trans hn)
  | inserted hp hr hn =>
    exact .inserted (hproc.trans hp) (hran hr) ((hrow.resolve_right fun h => by cases h.1).trans hn)
  | acquired hp hs =>
    rw [← hrow.resolve_right fun h => by cases h.1] at hs
    exact .acquired (by unfold HasKey; rw [hproc]; exact hp) hs
  | answered hans hp hs =>
    refine .answered hans (by rw [hproc]; exact hp) ?_
    rcases hrow with hrow | hrow
    · rw [hrow]
      exact hs
    · exact hrow.2

inductive FirstMove (x : AcqCall AcquireResult) (s : Callers n) (p : Fin n) (s' : Callers n) : Bool → Prop
  | plain {b : Bool} : FirstStage x s' p b → (HasKey s p → HasKey s' p) →
      s'.db.idempotencyKeys.get x.key = s.db.idempotencyKeys.get x.key → FirstMove x s p s' b
  | found {b : Bool} : (s.procs p).prog.name? = some .acquireSelect → FirstStage x s' p true →
      s.db.idempotencyKeys.get x.key = none → s'.db.idempotencyKeys.get x.key = none → FirstMove x s p s' b
  | commit : FirstStage x s' p true → HasKey s' p → (s'.db.idempotencyKeys.get x.key).isSome → FirstMove x s p s' true

theorem ret_moves {ans : AcquireResult} (hp : (s.procs p).prog = .rollback (.ret ans) ∨ (s.procs p).prog = .ret ans)
    (hsm : (s.procs p).prog.small s.clock (s.conn p) = some (ls, prog, cn)) : prog = .ret ans ∧ cn = ⟨s.db, none⟩ := by
  rcases hp with hp | hp <;> rw [hp] at hsm <;> cases hsm
  exact ⟨rfl, rfl⟩

/-- **Step rule for callers.** -/
theorem FirstStage.move (hx : x.next = .ret) (h : FirstStage x s p b) (hexp : expiredBy s p = [])
    (hsm : (s.procs p).prog.small s.clock (s.conn p) = some (ls, prog, cn)) :
    FirstMove x s p ((s.set p prog cn).log (s.event p)) b := by
  have hran : s.ran p .acquireSelect = true → ((s.set p prog cn).log (s.event p)).ran p .acquireSelect = true :=
    fun h => ran_log_iff.mpr (Or.inl h)
  have hno : ∀ {y : Prog DB Write Lock Stmt Err AcquireResult}, (s.procs p).prog = y →
      y.Quiet = False → HasKey s p → HasKey ((s.set p prog cn).log (s.event p)) p := by
    intro y hy hq hk
    rcases hk with hk | hk <;> rw [← hy, hk] at hq <;> exact (hq.mp trivial).elim
  cases h with
  | start hp =>
    simp only [Sys.conn, hp, AcqCall.small_prog, Option.some.injEq, Prod.mk.injEq] at hsm
    obtain ⟨-, rfl, rfl⟩ := hsm
    exact .plain (.opened (procs_moved ..)) (hno (congrArg Proc.prog hp) rfl) rfl
  | @opened now hp =>
    simp only [Sys.conn, hp, AcqCall.small_opened, Option.some.injEq, Prod.mk.injEq, writeAll_nil] at hsm
    obtain ⟨-, rfl, rfl⟩ := hsm
    have hclear : x.clear { now } s.db = { now } := by
      have hnil : (x.expired now s.db).map (Write.delKey ·.key) = [] := by
        simp only [expiredBy, Sys.conn, hp] at hexp
        exact hexp
      simp only [AcqCall.clear, List.map_eq_nil_iff.mp hnil, Sess.run, List.map_nil, List.append_nil]
    have hkey := hno (congrArg Proc.prog hp) rfl
    rw [hclear] at hkey ⊢
    exact .plain (.cleared (procs_moved ..)) hkey rfl
  | @cleared now hp =>
    simp only [Sys.conn, hp] at hsm
    cases hrow : s.db.idempotencyKeys.get x.key with
    | none =>
      rw [AcqCall.small_cleared_none (y := { now }) hrow] at hsm
      cases hsm
      refine .found (by rw [hp]; rfl) (.unclaimed (procs_moved ..) ?_ hrow) hrow hrow
      refine ran_log_iff.mpr (Or.inr ⟨⟨p, .acquireSelect, s.commitsNow p⟩, ?_, rfl, rfl⟩)
      simp only [Sys.event, hp]
      exact List.mem_singleton_self _
    | some r =>
      rw [AcqCall.small_cleared_some (y := { now }) hrow, hx] at hsm
      cases hsm
      refine .plain (.answered (acquireAnswer_status x.bodyHash r) (Or.inl (by rw [procs_moved])) ?_)
        (hno (congrArg Proc.prog hp) rfl) rfl
      show (s.db.idempotencyKeys.get x.key).isSome
      rw [hrow]
      rfl
  | @unclaimed now hp hr hrow =>
    simp only [Sys.conn, hp] at hsm
    rw [AcqCall.small_unclaimed_none (y := { now }) hrow] at hsm
    cases hsm
    exact .plain (.inserted (procs_moved ..) (hran hr) hrow) (hno (congrArg Proc.prog hp) rfl) rfl
  | @inserted now hp hr hrow =>
    simp only [Sys.conn, hp, AcqCall.small_inserted, hx, Option.some.injEq, Prod.mk.injEq] at hsm
    obtain ⟨-, rfl, rfl⟩ := hsm
    have hkey : HasKey ((s.set p (.rollback (.ret { status := .statusAcquired }))
        ⟨writeAll (x.insert { now }).pending s.db, none⟩).log (s.event p)) p := Or.inl (by rw [procs_moved])
    have hsome : ((writeAll (x.insert { now }).pending s.db).idempotencyKeys.get x.key).isSome := by
      rw [AcqCall.get_insert]
      rfl
    exact .commit (.acquired hkey hsome) hkey hsome
  | acquired hp hs =>
    obtain ⟨rfl, rfl⟩ := ret_moves hp hsm
    have hkey : HasKey ((s.set p (.ret { status := .statusAcquired }) ⟨s.db, none⟩).log (s.event p)) p :=
      Or.inr (by rw [procs_moved])
    exact .plain (.acquired hkey hs) (fun _ => hkey) rfl
  | answered hans hp hs =>
    obtain ⟨rfl, rfl⟩ := ret_moves hp hsm
    refine .plain (.answered hans (Or.inr (by rw [procs_moved])) hs) (fun hk => ?_) rfl
    rcases hp with hp | hp <;> rcases hk with hk | hk <;> rw [hp] at hk <;> cases hk <;> exact absurd rfl hans

/-! ## Runs -/

theorem FirstStage.leads (h : FirstStage x s p true) : Undecided s p ∨ (s.db.idempotencyKeys.get x.key).isSome := by
  cases h with
  | unclaimed hp hr _ => exact Or.inl ⟨hr, by rw [hp]; exact id⟩
  | inserted hp hr _ => exact Or.inl ⟨hr, by rw [hp]; exact id⟩
  | acquired _ hs => exact Or.inr hs

/-- Nobody but `leader` has found no row. -/
structure FirstInv (key : Str) (callers : Fin n → Caller) (s : Callers n) (leader : Option (Fin n)) : Prop where
  stage : ∀ p, FirstStage ((callers p).acq key) s p (leader = some p)
  source : (s.db.idempotencyKeys.get key).isSome → ∃ p, HasKey s p

variable {key : Str} {callers : Fin n → Caller} {leader : Option (Fin n)}

theorem hasKey_other (hqp : q ≠ p) (h : HasKey s q) : HasKey ((s.set p prog cn).log es) q := by
  unfold HasKey
  rw [procs_other s hqp]
  exact h

theorem FirstInv.move (h : FirstInv key callers s leader) (hC : InTurn s a) (hm : s.Moves a p prog cn es) :
    ∃ leader', FirstInv key callers ((s.set p prog cn).log es) leader' := by
  cases hm with
  | err herr => cases hC
  | go hsm hfree =>
    have hother : ∀ q b, q ≠ p → FirstStage ((callers q).acq key) s q b →
        (((s.set p prog cn).log (s.event p)).db.idempotencyKeys.get key = s.db.idempotencyKeys.get key ∨
          b = false ∧ (((s.set p prog cn).log (s.event p)).db.idempotencyKeys.get key).isSome) →
        FirstStage ((callers q).acq key) ((s.set p prog cn).log (s.event p)) q b :=
      fun q b hqp hst hrow => hst.other (procs_other s hqp ..) (fun h => ran_log_iff.mpr (Or.inl h)) hrow
    have hp := h.stage p
    generalize hb : decide (leader = some p) = b at hp
    cases hp.move rfl hC.1 hsm with
    | plain hst hkey hrow =>
      refine ⟨leader, fun q => ?_, fun hsome => ?_⟩
      · by_cases hqp : q = p
        · subst hqp
          rwa [hb]
        · exact hother q _ hqp (h.stage q) (Or.inl hrow)
      · obtain ⟨q, hq⟩ := h.source (hrow ▸ hsome)
        by_cases hqp : q = p
        · exact ⟨p, hkey (hqp ▸ hq)⟩
        · exact ⟨q, hasKey_other hqp hq⟩
    | found hname hst hnone hnone' =>
      refine ⟨some p, fun q => ?_, fun hsome => by cases (hnone' ▸ hsome : (none : Option KeyRow).isSome = true)⟩
      by_cases hqp : q = p
      · subst hqp
        rw [decide_eq_true rfl]
        exact hst
      · -- a leader before would be undecided, or have committed the row
        have hnot : leader ≠ some q := by
          intro hq
          have hlead := h.stage q
          rw [decide_eq_true hq] at hlead
          rcases hlead.leads with hu | hs
          · exact hC.2 hname q hqp hu
          · cases (hnone ▸ hs : (none : Option KeyRow).isSome = true)
        have hq := h.stage q
        rw [decide_eq_false hnot] at hq
        rw [decide_eq_false fun he => hqp (Option.some.inj he).symm]
        exact hother q _ hqp hq (Or.inl (hnone'.trans hnone.symm))
    | commit hst hkey hsome =>
      have hlead : leader = some p := of_decide_eq_true hb
      refine ⟨leader, fun q => ?_, fun _ => ⟨p, hkey⟩⟩
      by_cases hqp : q = p
      · subst hqp
        rwa [hb]
      · have hnot : leader ≠ some q := fun he => hqp (Option.some.inj (hlead ▸ he : some p = some q)).symm
        have hq := h.stage q
        rw [decide_eq_false hnot] at hq ⊢
        exact hother q _ hqp hq (Or.inr ⟨rfl, hsome⟩)

theorem firstInv_start (hk : validateKey key = .ok ()) {d : DB} (hd : d.idempotencyKeys.get key = none) (t : Time) :
    FirstInv key callers (.start t d fun p => acquire key (callers p).bodyHash (callers p).expiresAt) none where
  stage p := .start (by rw [← acquire_eq hk]; rfl)
  source hs := by
    rw [show (Sys.start t d _).db.idempotencyKeys.get key = none from hd] at hs
    cases hs

theorem FirstStage.returned {r : Except Err AcquireResult} (h : FirstStage x s p b)
    (hr : (s.procs p).prog.result? = some r) :
    ∃ ans, r = .ok ans ∧ (s.db.idempotencyKeys.get x.key).isSome ∧ (ans.status = .statusAcquired → b = true) := by
  cases h with
  | start hp => rw [hp] at hr; cases hr
  | opened hp => rw [hp] at hr; cases hr
  | cleared hp => rw [hp] at hr; cases hr
  | unclaimed hp _ _ => rw [hp] at hr; cases hr
  | inserted hp _ _ => rw [hp] at hr; cases hr
  | acquired hp hs => rcases hp with hp | hp <;> rw [hp] at hr <;> cases hr; exact ⟨_, rfl, hs, fun _ => rfl⟩
  | answered hans hp hs =>
    rcases hp with hp | hp <;> rw [hp] at hr <;> cases hr
    exact ⟨_, rfl, hs, fun h => absurd h hans⟩

/-- **First use, in turn.** In every run of callers of `Acquire` on a key without a
row in which no statement fails, no row expires and nobody selects while
another caller is between its select and its commit, no caller is given an
error, at most one is given the key, and once all have returned one has it. -/
theorem firstUse_in_turn (hk : validateKey key = .ok ()) {t : Time} {d : DB} (hd : d.idempotencyKeys.get key = none)
    {as : List (Act n)}
    (hC : (Sys.start t d fun p => acquire key (callers p).bodyHash (callers p).expiresAt).Along
      (fun s a _ => InTurn s a) as)
    (hr : (Sys.start t d fun p => acquire key (callers p).bodyHash (callers p).expiresAt).runs as = some s) :
    (∀ p r, (s.procs p).prog.result? = some r → ∃ ans, r = .ok ans) ∧
    (∀ p q a b, (s.procs p).prog.result? = some (.ok a) → (s.procs q).prog.result? = some (.ok b) →
      a.status = .statusAcquired → b.status = .statusAcquired → p = q) ∧
    (s.Ended → 0 < n → ∃ p a, (s.procs p).prog.result? = some (.ok a) ∧ a.status = .statusAcquired) := by
  obtain ⟨leader, hI⟩ : ∃ leader, FirstInv key callers s leader := by
    refine Sys.runs_moves (P := fun s => ∃ leader, FirstInv key callers s leader) (fun s dt h => ?_)
      (fun s a p prog cn es h hC hm => ?_) ⟨none, firstInv_start hk hd t⟩ hC hr
    · obtain ⟨leader, h⟩ := h
      exact ⟨leader, fun p => (h.stage p).other rfl id (Or.inl rfl), h.source⟩
    · obtain ⟨leader, h⟩ := h
      exact h.move hC hm
  refine ⟨fun p r hr => ?_, fun p q a b hp hq ha hb => ?_, fun hend hn => ?_⟩
  · obtain ⟨ans, h, -⟩ := (hI.stage p).returned hr
    exact ⟨ans, h⟩
  · obtain ⟨_, he, -, hlead⟩ := (hI.stage p).returned hp
    obtain ⟨_, he', -, hlead'⟩ := (hI.stage q).returned hq
    cases he
    cases he'
    exact Option.some.inj ((of_decide_eq_true (hlead ha)).symm.trans (of_decide_eq_true (hlead' hb)))
  · obtain ⟨r, hr⟩ := Option.isSome_iff_exists.mp (hend ⟨0, hn⟩)
    obtain ⟨-, -, hsome, -⟩ := (hI.stage ⟨0, hn⟩).returned hr
    obtain ⟨p, hp⟩ := hI.source hsome
    obtain ⟨r', hr'⟩ := Option.isSome_iff_exists.mp (hend p)
    refine ⟨p, { status := .statusAcquired }, ?_, rfl⟩
    rcases hp with hp | hp <;> rw [hp] at hr' ⊢
    · cases hr'
    · rfl

def sameCallers : Fin 2 → Caller := fun _ => ⟨lit "a", 86400000000⟩

def turnSchedule : List (Act 2) := Act.turns 1 [0, 1, 0, 1, 0, 0, 0, 1, 0, 1]

theorem firstUse_in_turn_twice : ∃ s,
    (Sys.start 0 DB.empty fun p =>
      acquire (lit "k") (sameCallers p).bodyHash (sameCallers p).expiresAt).runs turnSchedule =
      some s ∧ s.Ended ∧ (∀ p r, (s.procs p).prog.result? = some r → ∃ ans, r = .ok ans) ∧
    ∃ p a, (s.procs p).prog.result? = some (.ok a) ∧ a.status = .statusAcquired := by
  obtain ⟨s, hs⟩ := Option.isSome_iff_exists.mp (by decide +kernel :
    ((Sys.start 0 DB.empty fun p => acquire (lit "k") (sameCallers p).bodyHash (sameCallers p).expiresAt).runs
      turnSchedule).isSome = true)
  have hend : ((Sys.start 0 DB.empty fun p => acquire (lit "k") (sameCallers p).bodyHash (sameCallers p).expiresAt).runs
      turnSchedule).map (fun s => decide (∀ p, (s.procs p).prog.result?.isSome)) = some true := by decide +kernel
  have hturn : (Sys.start 0 DB.empty fun p =>
      acquire (lit "k") (sameCallers p).bodyHash (sameCallers p).expiresAt).Along
      (fun s a _ => InTurn s a) turnSchedule := by decide +kernel
  rw [hs, Option.map_some, Option.some.injEq, decide_eq_true_iff] at hend
  obtain ⟨hanswers, -, hone⟩ := firstUse_in_turn rfl rfl hturn hs
  exact ⟨s, hs, hend, hanswers, hone hend (by decide)⟩

/-- Both callers select before the first inserts: the insert of the second answers with a unique violation. -/
theorem firstUse_fails :
    ((Sys.start 0 DB.empty fun p => acquire (lit "k") (sameCallers p).bodyHash (sameCallers p).expiresAt).runs
      [.go 0, .go 1, .go 0, .go 1, .go 0, .go 1, .go 0, .go 0, .go 0, .go 1, .go 1]).map (fun s =>
        ((s.procs 0).prog.result?, (s.procs 1).prog.result?)) =
      some (some (.ok { status := .statusAcquired }), some (.error (.sql .uniqueViolation))) := by
  decide +kernel

end

end OpenTams
