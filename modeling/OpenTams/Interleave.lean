import OpenTams.History

/-!
# Invariants of interleaved calls

What one action does to the call that takes it, and the arguments that do not
need the whole call to be well locked: locks are exclusive, a statement that
leaves a property alone leaves it alone under any interleaving (`Steady`), and
a call that reads before it writes acts on what it read only while that lasts
(`CheckStage`), and a call that works on other things until its last statement
touches what it claimed only with that statement (`Until`).
-/

namespace Sql

variable {D W L N ε α β : Type} {n : Nat}

def Prog.onError : Prog D W L N ε α → Option (Prog D W L N ε α)
  | .begin err _ => some err
  | .commit _ err _ => some err
  | .step _ err _ _ => some err
  | _ => none

theorem Prog.Quiet.onError_eq_none {p : Prog D W L N ε α} (h : p.Quiet) : p.onError = none := by
  cases p with
  | ret a => rfl
  | fail e => rfl
  | rollback next => rfl
  | _ => cases h

section
variable {s : Sys D W L N ε α n} {p q : Fin n} {prog : Prog D W L N ε α} {c : Conn D W L} {es : List (Event n N)}

@[simp] theorem procs_moved (s : Sys D W L N ε α n) (p : Fin n) (prog : Prog D W L N ε α) (c : Conn D W L)
    (es : List (Event n N)) : ((s.set p prog c).log es).procs p = ⟨prog, c.sess⟩ :=
  Function.update_self ..

theorem procs_other (s : Sys D W L N ε α n) (hq : q ≠ p) (prog : Prog D W L N ε α) (c : Conn D W L)
    (es : List (Event n N)) : ((s.set p prog c).log es).procs q = s.procs q :=
  Function.update_of_ne hq ..

theorem ran_log_iff [DecidableEq N] {x : N} : ((s.set p prog c).log es).ran q x = true ↔
    s.ran q x = true ∨ ∃ e ∈ es, e.proc = q ∧ e.name = x := by
  simp [Sys.ran, Sys.log, Sys.set]

theorem mem_event {e : Event n N} (h : e ∈ s.event p) :
    e.proc = p ∧ (s.procs p).prog.name? = some e.name ∧ e.commits = s.commitsNow p := by
  simp only [Sys.event, Option.mem_toList, Option.map_eq_some_iff] at h
  obtain ⟨name, hname, rfl⟩ := h
  exact ⟨rfl, hname, rfl⟩

def Sys.Exclusive (s : Sys D W L N ε α n) : Prop :=
  ∀ p q, p ≠ q → ∀ ℓ ∈ (s.conn p).held, ℓ ∉ (s.conn q).held

theorem exclusive_start (t : Time) (d : D) (calls : Fin n → Prog D W L N ε α) : (Sys.start t d calls).Exclusive :=
  fun _ _ _ _ h => by cases h

end

section
variable [Writes W D] {s s' : Sys D W L N ε α n} {a : Act n} {p q : Fin n} {prog : Prog D W L N ε α}
  {c : Conn D W L} {es : List (Event n N)}

/-! ## One action -/

inductive Sys.Moves (s : Sys D W L N ε α n) :
    Act n → Fin n → Prog D W L N ε α → Conn D W L → List (Event n N) → Prop
  | go {p : Fin n} {ls : List L} {prog : Prog D W L N ε α} {c : Conn D W L} :
      (s.procs p).prog.small s.clock (s.conn p) = some (ls, prog, c) → s.Free p ls →
      Moves s (.go p) p prog c (s.event p)
  | err {p : Fin n} {prog : Prog D W L N ε α} : (s.procs p).prog.onError = some prog →
      Moves s (.err p) p prog ⟨s.db, none⟩ []

theorem act_cases [DecidableEq L] (h : s.act a = some s') :
    (∃ dt, a = .tick dt ∧ s' = { s with clock := s.clock + dt }) ∨
    ∃ p prog c es, s.Moves a p prog c es ∧ s' = (s.set p prog c).log es := by
  cases a with
  | tick dt => exact Or.inl ⟨dt, rfl, (Option.some.inj h).symm⟩
  | go p =>
    obtain ⟨ls, prog, c, hsm, hfree, rfl⟩ := go_eq_some h
    exact Or.inr ⟨p, prog, c, _, .go hsm hfree, rfl⟩
  | err p =>
    have hlog : ∀ prog c, (s.set p prog c).log [] = s.set p prog c := fun prog c => by simp [Sys.log]
    simp only [Sys.act, Sys.err] at h
    cases hp : (s.procs p).prog with
    | begin err next =>
      rw [hp] at h
      exact Or.inr ⟨p, err, _, [], .err (by rw [hp]; rfl), by rw [hlog]; exact (Option.some.inj h).symm⟩
    | commit name err next =>
      rw [hp] at h
      exact Or.inr ⟨p, err, _, [], .err (by rw [hp]; rfl), by rw [hlog]; exact (Option.some.inj h).symm⟩
    | step name err act next =>
      rw [hp] at h
      exact Or.inr ⟨p, err, _, [], .err (by rw [hp]; rfl), by rw [hlog]; exact (Option.some.inj h).symm⟩
    | _ => rw [hp] at h; cases h

/-- **Run rule by moves.** What every move that meets the condition keeps, the run keeps. -/
theorem Sys.runs_moves [DecidableEq L] {P : Sys D W L N ε α n → Prop} {C : Sys D W L N ε α n → Act n → Prop}
    (htick : ∀ s dt, P s → P { s with clock := s.clock + dt })
    (hmove : ∀ s a p prog c es, P s → C s a → s.Moves a p prog c es → P ((s.set p prog c).log es))
    {as : List (Act n)} (h : P s) (hC : s.Along (fun s a _ => C s a) as) (hr : s.runs as = some s') : P s' := by
  refine Sys.runs_rule (fun s a s' hs hc ha => ?_) h hC hr
  rcases act_cases ha with ⟨dt, -, rfl⟩ | ⟨p, prog, c, es, hm, rfl⟩
  · exact htick s dt hs
  · exact hmove s a p prog c es hs hc hm

/-! ## Locks -/

theorem held_small {t : Time} {prog' : Prog D W L N ε α} {c' : Conn D W L} {ls : List L}
    (h : prog.small t c = some (ls, prog', c')) : ∀ ℓ ∈ c'.held, ℓ ∈ c.held ∨ ℓ ∈ ls := by
  cases prog with
  | ret a => cases h
  | fail e => cases h
  | begin err next => cases h; exact fun ℓ hℓ => by cases hℓ
  | commit name err next => cases h; exact fun ℓ hℓ => by cases hℓ
  | rollback next => cases h; exact fun ℓ hℓ => by cases hℓ
  | step name err act next =>
    cases h
    obtain ⟨d, _ | x⟩ := c
    · exact fun ℓ hℓ => by cases hℓ
    · exact fun ℓ hℓ => List.mem_append.mp hℓ

theorem Sys.Exclusive.move (hs : s.Exclusive) (hm : s.Moves a p prog c es) : ((s.set p prog c).log es).Exclusive := by
  have hnew : ∀ q, q ≠ p → ∀ ℓ ∈ c.held, ℓ ∉ (s.conn q).held := by
    intro q hq ℓ hℓ
    cases hm with
    | go hsm hfree =>
      rcases held_small hsm ℓ hℓ with h | h
      · exact hs p q (Ne.symm hq) ℓ h
      · exact hfree q hq ℓ h
    | err h => cases hℓ
  intro x y hxy ℓ hx hy
  simp only [Sys.conn, Conn.held] at hx hy hnew
  by_cases hxp : x = p
  · subst hxp
    rw [procs_moved] at hx
    rw [procs_other s (Ne.symm hxy)] at hy
    exact hnew y (Ne.symm hxy) ℓ hx hy
  · rw [procs_other s hxp] at hx
    by_cases hyp : y = p
    · subst hyp
      rw [procs_moved] at hy
      exact hnew x hxp ℓ hy hx
    · rw [procs_other s hyp] at hy
      exact hs x y hxy ℓ hx hy

/-! ## Statements that leave a property alone -/

/-- No statement of the call destroys `J`. What a transaction writes is put over
whatever the others have committed by then, so inside one (`b`) the writes must
keep `J` on every state and not only on the one the statement saw. -/
def Prog.Steady (J : D → Prop) : Bool → Prog D W L N ε α → Prop
  | _, .ret _ => True
  | _, .fail _ => True
  | _, .begin err next => err.Steady J false ∧ next.Steady J true
  | _, .commit _ err next => err.Steady J false ∧ next.Steady J false
  | _, .rollback next => next.Steady J false
  | b, .step _ err act next => err.Steady J false ∧
      (∀ t v d, (b = false → d = v) → J d → J (writeAll (act t v).writes d)) ∧ ∀ t v, (next t v).Steady J b

def Proc.Steady (J : D → Prop) (pr : Proc D W L N ε α) : Prop :=
  pr.prog.Steady J pr.sess.isSome ∧ ∀ x, pr.sess = some x → ∀ d, J d → J (writeAll x.pending d)

variable {J : D → Prop}

theorem Proc.Steady.small {t : Time} {pr : Proc D W L N ε α} {d : D} {prog' : Prog D W L N ε α} {c' : Conn D W L}
    {ls : List L} (h : pr.Steady J) (hsm : pr.prog.small t ⟨d, pr.sess⟩ = some (ls, prog', c')) :
    (J d → J c'.db) ∧ Proc.Steady J ⟨prog', c'.sess⟩ := by
  obtain ⟨prog, sess⟩ := pr
  obtain ⟨hp, hx⟩ := h
  cases prog with
  | ret a => cases hsm
  | fail e => cases hsm
  | begin err next => cases hsm; exact ⟨id, hp.2, fun x hx d hd => by cases hx; exact hd⟩
  | commit name err next =>
    cases hsm
    refine ⟨fun hd => ?_, hp.2, fun x hx => by cases hx⟩
    cases sess with
    | none => exact hd
    | some x => exact hx x rfl d hd
  | rollback next => cases hsm; exact ⟨id, hp, fun x hx => by cases hx⟩
  | step name err act next =>
    cases hsm
    cases sess with
    | none => exact ⟨hp.2.1 _ _ _ fun _ => rfl, hp.2.2 _ _, fun x hx => by cases hx⟩
    | some x =>
      refine ⟨id, hp.2.2 _ _, fun y hy d' hd' => ?_⟩
      cases hy
      rw [Sess.view_run]
      exact hp.2.1 _ _ _ (fun hb => by cases hb) (hx x rfl d' hd')

theorem Proc.Steady.move (h : (s.procs p).Steady J) (hm : s.Moves a p prog c es) :
    (J s.db → J c.db) ∧ Proc.Steady J ⟨prog, c.sess⟩ := by
  cases hm with
  | go hsm _ => exact h.small hsm
  | err herr =>
    refine ⟨id, ?_, fun x hx => by cases hx⟩
    have hp := h.1
    cases hprog : (s.procs p).prog with
    | begin e next => rw [hprog] at herr hp; cases herr; exact hp.1
    | commit name e next => rw [hprog] at herr hp; cases herr; exact hp.1
    | step name e act next => rw [hprog] at herr hp; cases herr; exact hp.1
    | _ => rw [hprog] at herr; cases herr

namespace Prog

theorem Steady.map {p : Prog D W L N ε α} {b : Bool} (h : p.Steady J b) (f : α → β) : (p.map f).Steady J b := by
  induction p generalizing b with
  | ret a => trivial
  | fail e => trivial
  | begin err next ih ih' => exact ⟨ih h.1, ih' h.2⟩
  | commit name err next ih ih' => exact ⟨ih h.1, ih' h.2⟩
  | rollback next ih => exact ih h
  | step name err act next ih ih' => exact ⟨ih h.1, h.2.1, fun t v => ih' t v (h.2.2 t v)⟩

theorem Steady.deferRollback {p : Prog D W L N ε α} {b : Bool} (h : p.Steady J b) : p.deferRollback.Steady J b := by
  induction p generalizing b with
  | ret a => trivial
  | fail e => trivial
  | begin err next ih ih' => exact ⟨ih h.1, ih' h.2⟩
  | commit name err next ih ih' => exact ⟨ih h.1, ih' h.2⟩
  | rollback next ih => exact ih h
  | step name err act next ih ih' => exact ⟨ih h.1, h.2.1, fun t v => ih' t v (h.2.2 t v)⟩

theorem Flat.bind_steady {p : Prog D W L N ε α} {f : α → Prog D W L N ε β} {b : Bool} (hp : p.Flat)
    (h : p.Steady J b) (hf : ∀ a, (f a).Steady J b) : (p.bind f).Steady J b := by
  induction p with
  | ret a => exact hf a
  | fail e => trivial
  | step name err act next _ ih =>
    obtain ⟨⟨e, rfl⟩, hn⟩ := hp
    exact ⟨trivial, h.2.1, fun t v => ih t v (hn t v) (h.2.2 t v)⟩
  | _ => cases hp

theorem steady_stmt {name : N} {e : ε} {act : Time → D → Eff W L} {q : Time → D → α} {b : Bool}
    (h : ∀ t v d, (b = false → d = v) → J d → J (writeAll (act t v).writes d)) : (stmt name e act q).Steady J b :=
  ⟨trivial, h, fun _ _ => trivial⟩

theorem steady_query {name : N} {e : ε} {q : D → α} {b : Bool} : (query name e q : Prog D W L N ε α).Steady J b :=
  steady_stmt fun _ _ _ _ h => h

theorem steady_stmtE {name : N} {e : ε} {act : Time → D → Eff W L} {q : Time → D → Except ε α} {b : Bool}
    (h : ∀ t v d, (b = false → d = v) → J d → J (writeAll (act t v).writes d)) : (stmtE name e act q).Steady J b := by
  refine ⟨trivial, h, fun t v => ?_⟩
  dsimp only
  cases q t v <;> trivial

theorem steady_forEach {f : Nat → α → Prog D W L N ε Unit} {b : Bool} (hflat : ∀ i a, (f i a).Flat)
    (hf : ∀ i a, (f i a).Steady J b) (i : Nat) (as : List α) : (forEach f i as).Steady J b := by
  induction as generalizing i with
  | nil => trivial
  | cons a as ih => exact (hflat i a).bind_steady (hf i a) fun _ => ih (i + 1)

theorem steady_commitThen {name : N} {e : ε} {a : α} {b : Bool} :
    (commitThen name e a : Prog D W L N ε α).Steady J b :=
  ⟨trivial, trivial⟩

theorem steady_inTx {e : ε} {body : Prog D W L N ε α} (h : body.Steady J true) : (inTx e body).Steady J false :=
  ⟨trivial, h.deferRollback⟩

/-! ## Check, then act -/

/-- The call first reads, with statement `g`, and goes on only if it finds `ok`. -/
def Guarded (g : N) (ok : D → Prop) : Prog D W L N ε α → Prop
  | .begin err next => err.Quiet ∧ next.Guarded g ok
  | .step name err act next => name = g ∧ err.Quiet ∧ ∀ t v, (act t v).writes = [] ∧ (ok v ∨ (next t v).Quiet)
  | p => p.Quiet

omit [Writes W D] in
theorem Guarded.map {g : N} {ok : D → Prop} {p : Prog D W L N ε α} (h : p.Guarded g ok) (f : α → β) :
    (p.map f).Guarded g ok := by
  induction p with
  | ret a => trivial
  | fail e => trivial
  | begin err next _ ih => exact ⟨h.1.map f, ih h.2⟩
  | commit name err next _ _ => cases h
  | rollback next _ => exact Quiet.map h f
  | step name err act next _ _ =>
    exact ⟨h.1, h.2.1.map f, fun t v => ⟨(h.2.2 t v).1, (h.2.2 t v).2.imp_right fun hq => hq.map f⟩⟩

omit [Writes W D] in
theorem Guarded.deferRollback {g : N} {ok : D → Prop} {p : Prog D W L N ε α} (h : p.Guarded g ok) :
    p.deferRollback.Guarded g ok := by
  induction p with
  | ret a => trivial
  | fail e => trivial
  | begin err next _ ih => exact ⟨h.1.deferRollback, ih h.2⟩
  | commit name err next _ _ => cases h
  | rollback next _ => exact Quiet.deferRollback h
  | step name err act next _ _ =>
    exact ⟨h.1, h.2.1.deferRollback, fun t v => ⟨(h.2.2 t v).1, (h.2.2 t v).2.imp_right fun hq => hq.deferRollback⟩⟩

end Prog

omit [Writes W D] in
theorem Prog.Quiet.name?_eq_none {p : Prog D W L N ε α} (h : p.Quiet) : p.name? = none := by
  cases p with
  | ret a => rfl
  | fail e => rfl
  | rollback next => rfl
  | _ => cases h

theorem Prog.Quiet.move (h : (s.procs p).prog.Quiet) (hm : s.Moves a p prog c es) : prog.Quiet ∧ c.db = s.db := by
  cases hm with
  | go hsm _ =>
    refine ⟨(h.small hsm).1, ?_⟩
    cases hp : (s.procs p).prog with
    | ret a => rw [hp] at hsm; cases hsm
    | fail e => rw [hp] at hsm; cases hsm
    | rollback next => rw [hp] at hsm; cases hsm; rfl
    | _ => rw [hp] at h; cases h
  | err herr =>
    rw [h.onError_eq_none] at herr
    cases herr

theorem quiet_runs [DecidableEq L] {as : List (Act n)} (h : (s.procs p).prog.Quiet) (hr : s.runs as = some s') :
    (s'.procs p).prog.Quiet := by
  refine Sys.runs_inv (P := fun s => (s.procs p).prog.Quiet) (fun s a s' hs ha => ?_) h hr
  rcases act_cases ha with ⟨dt, -, rfl⟩ | ⟨q, prog, c, es, hm, rfl⟩
  · exact hs
  · by_cases hqp : p = q
    · subst hqp
      rw [procs_moved]
      exact (hs.move hm).1
    · rwa [procs_other s hqp]

theorem Prog.Guarded.check {g name : N} {ok : D → Prop} {e prog' : Prog D W L N ε α} {act : Time → D → Eff W L}
    {next : Time → D → Prog D W L N ε α} {ls : List L} (h : (s.procs p).prog.Guarded g ok)
    (hx : ∀ x, (s.procs p).sess = some x → x.pending = []) (hp : (s.procs p).prog = .step name e act next)
    (hsm : (s.procs p).prog.small s.clock (s.conn p) = some (ls, prog', c)) :
    name = g ∧ c.db = s.db ∧ (ok s.db ∨ prog'.Quiet) := by
  rw [hp] at hsm h
  obtain ⟨hname, -, hact⟩ := h
  -- nothing is pending, so the check reads the committed state
  have hview : (s.conn p).view = s.db := by
    simp only [Sys.conn, Conn.view]
    cases hsess : (s.procs p).sess with
    | none => rfl
    | some x => simp [hx x hsess]
  cases hsm
  obtain ⟨hw, hok⟩ := hact ((s.conn p).now s.clock) (s.conn p).view
  rw [hview] at hok
  refine ⟨hname, ?_, by rw [hview]; exact hok⟩
  simp only [Conn.run, hw]
  simp only [Sys.conn]
  cases (s.procs p).sess <;> rfl

theorem fresh_refused {G : Guard D W L} {I : D → Prop} {R : Rely D W} {calls : Fin n → Prog D W L N ε α} {g : N}
    {ok : D → Prop} {ls : List L} (hg : (calls p).Guarded g ok) (hc : Call G I R (calls p)) (hfresh : Fresh calls s p)
    (hno : ¬ ok s.db) (hsm : (s.procs p).prog.small s.clock (s.conn p) = some (ls, prog, c)) :
    prog.Quiet ∧ c.db = s.db := by
  obtain ⟨err, t, hcall, hsess⟩ := hfresh
  rw [hcall] at hg hc
  have hguard : (s.procs p).prog.Guarded g ok := hg.2
  have hone : (s.procs p).prog.OneTx := by
    cases hc with
    | quiet hq => cases hq
    | tx _ hk _ => exact hk
  have hx : ∀ x, (s.procs p).sess = some x → x.pending = [] := fun x hx => by rw [hsess] at hx; cases hx; rfl
  cases hp : (s.procs p).prog with
  | ret a => rw [hp] at hsm; cases hsm
  | fail e => rw [hp] at hsm; cases hsm
  | begin e next => rw [hp] at hone; cases hone
  | commit name e next => rw [hp] at hguard; cases hguard
  | rollback next =>
    rw [hp] at hsm hguard
    cases hsm
    exact ⟨hguard, rfl⟩
  | step name e act next =>
    obtain ⟨-, hdb, hok⟩ := hguard.check hx hp hsm
    exact ⟨hok.resolve_left hno, hdb⟩

variable [DecidableEq N] {g : N} {ok : D → Prop}

/-- Where a guarded call stands: before its check, past it with `ok` still true, or done. -/
def CheckStage (g : N) (ok : D → Prop) (s : Sys D W L N ε α n) (p : Fin n) : Prop :=
  ((s.procs p).prog.Guarded g ok ∧ ∀ x, (s.procs p).sess = some x → x.pending = []) ∨
  (s.ran p g = true ∧ ok s.db) ∨ (s.procs p).prog.Quiet

theorem guarded_move (h : (s.procs p).prog.Guarded g ok) (hx : ∀ x, (s.procs p).sess = some x → x.pending = [])
    (hm : s.Moves a p prog c es) : CheckStage g ok ((s.set p prog c).log es) p := by
  unfold CheckStage
  rw [procs_moved]
  cases hm with
  | err herr =>
    right; right
    cases hp : (s.procs p).prog with
    | begin e next => rw [hp] at herr h; cases herr; exact h.1
    | commit name e next => rw [hp] at h; cases h
    | step name e act next => rw [hp] at herr h; cases herr; exact h.2.1
    | _ => rw [hp] at herr; cases herr
  | go hsm hfree =>
    cases hp : (s.procs p).prog with
    | ret a => rw [hp] at hsm; cases hsm
    | fail e => rw [hp] at hsm; cases hsm
    | commit name e next => rw [hp] at h; cases h
    | begin e next =>
      rw [hp] at hsm h
      cases hsm
      exact Or.inl ⟨h.2, fun x hx => by cases hx; rfl⟩
    | rollback next =>
      rw [hp] at hsm h
      cases hsm
      exact Or.inr (Or.inr h)
    | step name e act next =>
      have hev : s.event p = [⟨p, name, s.commitsNow p⟩] := by simp [Sys.event, hp, Prog.name?]
      obtain ⟨rfl, hdb, hok | hq⟩ := h.check hx hp hsm
      · refine Or.inr (Or.inl ⟨ran_log_iff.mpr (Or.inr ⟨_, hev ▸ List.mem_singleton_self _, rfl, rfl⟩), ?_⟩)
        show ok c.db
        rwa [hdb]
      · exact Or.inr (Or.inr hq)

theorem CheckStage.move (h : CheckStage g ok s q) (hm : s.Moves a p prog c es)
    (hok : s.ran q g = true → ¬ (s.procs q).prog.Quiet → ok s.db → ok c.db) :
    CheckStage g ok ((s.set p prog c).log es) q := by
  by_cases hquiet : (s.procs q).prog.Quiet
  · right; right
    by_cases hqp : q = p
    · subst hqp
      rw [procs_moved]
      exact (hquiet.move hm).1
    · rwa [procs_other s hqp]
  rcases h with ⟨hg, hx⟩ | ⟨hran, hdb⟩ | hq
  · by_cases hqp : q = p
    · subst hqp
      exact guarded_move hg hx hm
    · left
      rw [procs_other s hqp]
      exact ⟨hg, hx⟩
  · exact Or.inr (Or.inl ⟨ran_log_iff.mpr (Or.inl hran), hok hran hquiet hdb⟩)
  · exact absurd hq hquiet

omit [Writes W D] in
theorem CheckStage.commits (h : CheckStage g ok s p) (hc : s.commitsNow p = true)
    (hname : (s.procs p).prog.name? ≠ some g) : ok s.db := by
  rcases h with ⟨hg, -⟩ | ⟨-, hok⟩ | hq
  · unfold Sys.commitsNow at hc
    cases hp : (s.procs p).prog with
    | commit name e next => rw [hp] at hg; cases hg
    | step name e act next =>
      rw [hp] at hg hname
      exact absurd (congrArg some hg.1) hname
    | _ => rw [hp] at hc; cases hc
  · exact hok
  · rw [commitsNow_of_quiet hq] at hc
    cases hc

end

/-! ## Until the last statement -/

section
variable [Writes W D] {γ : Type}

def Eff.Avoids (φ : D → γ) (G : L → Prop) (e : Eff W L) : Prop :=
  (∀ d, φ (writeAll e.writes d) = φ d) ∧ ∀ ℓ ∈ e.locks, ¬ G ℓ

namespace Prog

/-- No statement of the call writes to `φ`, takes a reserved lock or has a reserved name. -/
def Spares (φ : D → γ) (G : L → Prop) (F : N → Prop) : Prog D W L N ε α → Prop
  | .ret _ => True
  | .fail _ => True
  | .begin err next => err.Spares φ G F ∧ next.Spares φ G F
  | .commit name err next => ¬ F name ∧ err.Spares φ G F ∧ next.Spares φ G F
  | .rollback next => next.Spares φ G F
  | .step name err act next => ¬ F name ∧ err.Spares φ G F ∧ (∀ t v, (act t v).Avoids φ G) ∧
      ∀ t v, (next t v).Spares φ G F

def Exits : Bool → Prog D W L N ε α → Prop
  | b, .ret _ => b = false
  | b, .fail _ => b = false
  | _, .begin err next => err.Exits false ∧ next.Exits true
  | _, .commit _ err next => err.Exits false ∧ next.Exits false
  | _, .rollback next => next.Exits false
  | b, .step _ err _ next => err.Exits false ∧ ∀ t v, (next t v).Exits b

/-- The call leaves `φ`, the reserved locks and the reserved names alone until a
last statement, of kind `Last`, which it runs outside of a transaction. -/
def Until (φ : D → γ) (G : L → Prop) (F : N → Prop)
    (Last : N → (Time → D → Eff W L) → (Time → D → Prog D W L N ε α) → Prop) : Bool → Prog D W L N ε α → Prop
  | _, .ret _ => True
  | _, .fail _ => True
  | _, .begin err next => err.Until φ G F Last false ∧ next.Until φ G F Last true
  | _, .commit name err next => ¬ F name ∧ err.Until φ G F Last false ∧ next.Until φ G F Last false
  | _, .rollback next => next.Until φ G F Last false
  | b, .step name err act next => err.Until φ G F Last false ∧
      ((¬ F name ∧ (∀ t v, (act t v).Avoids φ G) ∧ ∀ t v, (next t v).Until φ G F Last b) ∨
        (b = false ∧ Last name act next ∧ ∀ t v, (next t v).Quiet))

variable {φ : D → γ} {G : L → Prop} {F : N → Prop}
  {Last : N → (Time → D → Eff W L) → (Time → D → Prog D W L N ε β) → Prop}

omit [Writes W D] in
theorem exits_deferRollback (p : Prog D W L N ε α) (b : Bool) : p.deferRollback.Exits b := by
  induction p generalizing b with
  | ret a => rfl
  | fail e => rfl
  | begin err next ih ih' => exact ⟨ih false, ih' true⟩
  | commit name err next ih ih' => exact ⟨ih false, ih' false⟩
  | rollback next ih => exact ih false
  | step name err act next ih ih' => exact ⟨ih false, fun t v => ih' t v b⟩

omit [Writes W D] in
theorem exits_inTx (e : ε) (body : Prog D W L N ε α) : (inTx e body).Exits false :=
  ⟨rfl, exits_deferRollback body true⟩

omit [Writes W D] in
theorem Exits.attempt {p : Prog D W L N ε α} {b : Bool} (h : p.Exits b) : p.attempt.Exits b := by
  induction p generalizing b with
  | ret a => exact h
  | fail e => exact h
  | begin err next ih ih' => exact ⟨ih h.1, ih' h.2⟩
  | commit name err next ih ih' => exact ⟨ih h.1, ih' h.2⟩
  | rollback next ih => exact ih h
  | step name err act next ih ih' => exact ⟨ih h.1, fun t v => ih' t v (h.2 t v)⟩

omit [Writes W D] in
theorem Exits.bind {p : Prog D W L N ε α} {f : α → Prog D W L N ε β} {b : Bool} (h : p.Exits b)
    (hf : ∀ a, (f a).Exits false) : (p.bind f).Exits b := by
  induction p generalizing b with
  | ret a => cases h; exact hf a
  | fail e => exact h
  | begin err next ih ih' => exact ⟨ih h.1, ih' h.2⟩
  | commit name err next ih ih' => exact ⟨ih h.1, ih' h.2⟩
  | rollback next ih => exact ih h
  | step name err act next ih ih' => exact ⟨ih h.1, fun t v => ih' t v (h.2 t v)⟩

theorem Exits.exec {p : Prog D W L N ε α} {t : Time} {c : Conn D W L} (h : p.Exits c.sess.isSome) :
    (p.exec t c).2.sess = none := by
  induction p generalizing c with
  | ret a => simpa [Exits] using h
  | fail e => simpa [Exits] using h
  | begin err next _ ih => exact ih h.2
  | commit name err next _ ih => exact ih h.2
  | rollback next ih => exact ih h
  | step name err act next _ ih =>
    refine ih _ _ (c := c.run (act (c.now t) c.view)) ?_
    obtain ⟨d, _ | x⟩ := c
    · exact h.2 _ _
    · exact h.2 _ _

theorem Exits.run_bind {p : Prog D W L N ε α} (h : p.Exits false) (f : α → Prog D W L N ε β) (t : Time) (d : D) :
    (p >>= f).run t d = match p.run t d with
      | (.ok a, d') => (f a).run t d'
      | (.error e, d') => (.error e, d') := by
  have hsess : (p.exec t ⟨d, none⟩).2.sess = none := Exits.exec h
  simp only [run, bind_eq, exec_bind]
  rcases he : p.exec t ⟨d, none⟩ with ⟨r, ⟨d', x⟩⟩
  rw [he] at hsess
  cases hsess
  cases r <;> rfl

theorem Spares.attempt {p : Prog D W L N ε α} (h : p.Spares φ G F) : p.attempt.Spares φ G F := by
  induction p with
  | ret a => trivial
  | fail e => trivial
  | begin err next ih ih' => exact ⟨ih h.1, ih' h.2⟩
  | commit name err next ih ih' => exact ⟨h.1, ih h.2.1, ih' h.2.2⟩
  | rollback next ih => exact ih h
  | step name err act next ih ih' => exact ⟨h.1, ih h.2.1, h.2.2.1, fun t v => ih' t v (h.2.2.2 t v)⟩

theorem Spares.deferRollback {p : Prog D W L N ε α} (h : p.Spares φ G F) : p.deferRollback.Spares φ G F := by
  induction p with
  | ret a => trivial
  | fail e => trivial
  | begin err next ih ih' => exact ⟨ih h.1, ih' h.2⟩
  | commit name err next ih ih' => exact ⟨h.1, ih h.2.1, ih' h.2.2⟩
  | rollback next ih => exact ih h
  | step name err act next ih ih' => exact ⟨h.1, ih h.2.1, h.2.2.1, fun t v => ih' t v (h.2.2.2 t v)⟩

theorem Spares.bind {p : Prog D W L N ε α} {f : α → Prog D W L N ε β} (h : p.Spares φ G F)
    (hf : ∀ a, (f a).Spares φ G F) : (p.bind f).Spares φ G F := by
  induction p with
  | ret a => exact hf a
  | fail e => trivial
  | begin err next ih ih' => exact ⟨ih h.1, ih' h.2⟩
  | commit name err next ih ih' => exact ⟨h.1, ih h.2.1, ih' h.2.2⟩
  | rollback next ih => exact ih h
  | step name err act next ih ih' => exact ⟨h.1, ih h.2.1, h.2.2.1, fun t v => ih' t v (h.2.2.2 t v)⟩

theorem spares_stmt {name : N} {e : ε} {act : Time → D → Eff W L} {q : Time → D → α} (hn : ¬ F name)
    (h : ∀ t v, (act t v).Avoids φ G) : (stmt name e act q).Spares φ G F :=
  ⟨hn, trivial, h, fun _ _ => trivial⟩

theorem spares_stmtE {name : N} {e : ε} {act : Time → D → Eff W L} {q : Time → D → Except ε α} (hn : ¬ F name)
    (h : ∀ t v, (act t v).Avoids φ G) : (stmtE name e act q).Spares φ G F := by
  refine ⟨hn, trivial, h, fun t v => ?_⟩
  dsimp only
  cases q t v <;> trivial

theorem spares_forEach {f : Nat → α → Prog D W L N ε Unit} (hf : ∀ i a, (f i a).Spares φ G F) (i : Nat) (as : List α) :
    (forEach f i as).Spares φ G F := by
  induction as generalizing i with
  | nil => trivial
  | cons a as ih => exact (hf i a).bind fun _ => ih (i + 1)

theorem Quiet.until {p : Prog D W L N ε β} (h : p.Quiet) {b : Bool} : p.Until φ G F Last b := by
  induction p generalizing b with
  | ret a => trivial
  | fail e => trivial
  | rollback next ih => exact ih h
  | _ => cases h

theorem Spares.until {p : Prog D W L N ε α} {f : α → Prog D W L N ε β} {b : Bool} (h : p.Spares φ G F) (he : p.Exits b)
    (hf : ∀ a, (f a).Until φ G F Last false) : (p.bind f).Until φ G F Last b := by
  induction p generalizing b with
  | ret a => cases he; exact hf a
  | fail e => trivial
  | begin err next ih ih' => exact ⟨ih h.1 he.1, ih' h.2 he.2⟩
  | commit name err next ih ih' => exact ⟨h.1, ih h.2.1 he.1, ih' h.2.2 he.2⟩
  | rollback next ih => exact ih h he
  | step name err act next ih ih' =>
    exact ⟨ih h.2.1 he.1, Or.inl ⟨h.1, h.2.2.1, fun t v => ih' t v (h.2.2.2 t v) (he.2 t v)⟩⟩

end Prog

variable {φ : D → γ} {G : L → Prop} {F : N → Prop}
  {Last : N → (Time → D → Eff W L) → (Time → D → Prog D W L N ε α) → Prop}
  {s : Sys D W L N ε α n} {a : Act n} {p : Fin n} {prog : Prog D W L N ε α} {c : Conn D W L} {es : List (Event n N)}

def Proc.Until (φ : D → γ) (G : L → Prop) (F : N → Prop)
    (Last : N → (Time → D → Eff W L) → (Time → D → Prog D W L N ε α) → Prop) (pr : Proc D W L N ε α) : Prop :=
  pr.prog.Until φ G F Last pr.sess.isSome ∧ ∀ x, pr.sess = some x → Eff.Avoids φ G ⟨x.held, x.pending⟩

theorem Eff.Avoids.run {x : Sess W L} {e : Eff W L} (hx : Eff.Avoids φ G ⟨x.held, x.pending⟩) (he : e.Avoids φ G) :
    Eff.Avoids φ G ⟨(x.run e).held, (x.run e).pending⟩ := by
  refine ⟨fun d => ?_, fun ℓ hℓ => ?_⟩
  · show φ (writeAll (x.run e).pending d) = φ d
    rw [Sess.view_run, he.1]
    exact hx.1 d
  · rcases List.mem_append.mp hℓ with hℓ | hℓ
    · exact hx.2 ℓ hℓ
    · exact he.2 ℓ hℓ

/-- **Step rule.** The caller goes on sparing `φ`, or it takes the last statement, which runs alone. -/
theorem Proc.Until.move (h : (s.procs p).Until φ G F Last) (hm : s.Moves a p prog c es) :
    (φ c.db = φ s.db ∧ Proc.Until φ G F Last ⟨prog, c.sess⟩ ∧ ∀ e ∈ es, ¬ F e.name) ∨
    ∃ name err act next, (s.procs p).prog = .step name err act next ∧ Last name act next ∧
      prog = next s.clock s.db ∧ prog.Quiet ∧ c = ⟨writeAll (act s.clock s.db).writes s.db, none⟩ ∧
      es = [⟨p, name, true⟩] := by
  obtain ⟨hp, hx⟩ := h
  cases hm with
  | err herr =>
    refine Or.inl ⟨rfl, ⟨?_, fun x hx => by cases hx⟩, fun e he => by cases he⟩
    cases hprog : (s.procs p).prog with
    | begin e next => rw [hprog] at herr hp; cases herr; exact hp.1
    | commit name e next => rw [hprog] at herr hp; cases herr; exact hp.2.1
    | step name e act next => rw [hprog] at herr hp; cases herr; exact hp.1
    | _ => rw [hprog] at herr; cases herr
  | go hsm _ =>
    simp only [Sys.event, Sys.commitsNow]
    simp only [Sys.conn] at hsm
    generalize s.procs p = pr at hp hx hsm
    obtain ⟨prog₀, sess⟩ := pr
    cases prog₀ with
    | ret a => cases hsm
    | fail e => cases hsm
    | begin e next =>
      cases hsm
      exact Or.inl ⟨rfl, ⟨hp.2, fun x hx => by cases hx; exact ⟨fun _ => rfl, fun ℓ hℓ => by cases hℓ⟩⟩,
        fun e he => by cases he⟩
    | commit name e next =>
      cases hsm
      refine Or.inl ⟨?_, ⟨hp.2.2, fun x hx => by cases hx⟩, fun e he => ?_⟩
      · cases sess with
        | none => rfl
        | some x => exact (hx x rfl).1 s.db
      · simp only [Prog.name?, Option.map_some, Option.toList_some, List.mem_singleton] at he
        subst he
        exact hp.1
    | rollback next =>
      cases hsm
      exact Or.inl ⟨rfl, ⟨hp, fun x hx => by cases hx⟩, fun e he => by cases he⟩
    | step name e act next =>
      rcases hp.2 with ⟨hname, hw, hn⟩ | ⟨hsess, hlast, hquiet⟩
      · -- a statement before the last: its writes go to the pending ones, or at once to the state
        left
        cases hsm
        refine ⟨?_, ?_, fun e he => ?_⟩
        · cases sess with
          | none => exact (hw _ _).1 _
          | some x => rfl
        · cases sess with
          | none => exact ⟨hn _ _, fun x hx => by cases hx⟩
          | some x =>
            refine ⟨hn _ _, fun y hy => ?_⟩
            cases hy
            exact (hx x rfl).run (hw _ _)
        · simp only [Prog.name?, Option.map_some, Option.toList_some, List.mem_singleton] at he
          subst he
          exact hname
      · right
        cases sess with
        | some x => cases hsess
        | none =>
          cases hsm
          exact ⟨name, e, act, next, rfl, hlast, rfl, hquiet _ _, rfl, rfl⟩

/-! ## Open transactions are closed -/

omit [Writes W D] in
theorem Prog.Quiet.rollback_of_exits {pr : Prog D W L N ε α} (hq : pr.Quiet) (he : pr.Exits true) :
    ∃ next, pr = .rollback next := by
  cases pr with
  | rollback next => exact ⟨next, rfl⟩
  | ret a => cases he
  | fail e => cases he
  | _ => cases hq

def Sys.Exits (s : Sys D W L N ε α n) : Prop := ∀ p, (s.procs p).prog.Exits (s.procs p).sess.isSome

theorem Prog.Exits.small {pr pr' : Prog D W L N ε α} {t : Time} {c c' : Conn D W L} {ls : List L}
    (h : pr.Exits c.sess.isSome) (hsm : pr.small t c = some (ls, pr', c')) : pr'.Exits c'.sess.isSome := by
  cases pr with
  | ret a => cases hsm
  | fail e => cases hsm
  | begin err next => cases hsm; exact h.2
  | commit name err next => cases hsm; exact h.2
  | rollback next => cases hsm; exact h
  | step name err act next =>
    cases hsm
    obtain ⟨d, sess⟩ := c
    cases sess <;> exact h.2 _ _

theorem Sys.Exits.move (h : s.Exits) (hm : s.Moves a p prog c es) : ((s.set p prog c).log es).Exits := by
  intro q
  by_cases hqp : q = p
  · subst hqp
    rw [procs_moved]
    have hq := h q
    cases hm with
    | go hsm _ => exact Prog.Exits.small (c := s.conn q) hq hsm
    | err herr =>
      cases hprog : (s.procs q).prog with
      | begin e next => rw [hprog] at herr hq; cases herr; exact hq.1
      | commit name e next => rw [hprog] at herr hq; cases herr; exact hq.1
      | step name e act next => rw [hprog] at herr hq; cases herr; exact hq.1
      | _ => rw [hprog] at herr; cases herr
  · rw [procs_other s hqp]
    exact h q

/-! ## Schedules that exist -/

variable [DecidableEq L]

def Sys.Reaches (C : Sys D W L N ε α n → Act n → Prop) (s : Sys D W L N ε α n) (P : Sys D W L N ε α n → Prop) : Prop :=
  ∃ as s', s.Along (fun s a _ => C s a) as ∧ s.runs as = some s' ∧ P s'

variable {C : Sys D W L N ε α n → Act n → Prop} {P : Sys D W L N ε α n → Prop}

theorem Sys.reaches_refl (h : P s) : s.Reaches C P := ⟨[], s, trivial, rfl, h⟩

theorem Sys.reaches_go {ls : List L} (hC : C s (.go p))
    (hsm : (s.procs p).prog.small s.clock (s.conn p) = some (ls, prog, c))
    (hfree : s.Free p ls) (h : ((s.set p prog c).log (s.event p)).Reaches C P) : s.Reaches C P := by
  obtain ⟨as, s', hA, hr, hP⟩ := h
  have hgo : s.act (.go p) = some ((s.set p prog c).log (s.event p)) := by
    simp only [Sys.act, Sys.go, hsm]
    rw [if_pos hfree]
  refine ⟨.go p :: as, s', fun s₁ h₁ => ?_, ?_, hP⟩
  · rw [hgo] at h₁
    cases h₁
    exact ⟨hC, hA⟩
  · simp only [Sys.runs, hgo, Option.bind_some]
    exact hr

end

end Sql
