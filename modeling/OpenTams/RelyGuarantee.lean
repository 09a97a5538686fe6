import OpenTams.Interleave

/-!
# Rely and guarantee

Transactions that are not serializable. A body is followed statement by
statement while others commit in between: they leave alone what its locks
protect, keep the invariant `I`, and do what it relies on (`R`). In return its
commit keeps `I`, changes only what is locked, and does what it guarantees (`T`).
A well-locked call is such a body, and guarantees to do what it does alone.
-/

namespace Sql

variable {D W L N ε α β : Type} {n : Nat}

section
variable [Writes W D] (G : Guard D W L) (I : D → Prop) (R : Rely D W) (T : D → D → Prop)

/-- What the others make of the state while `held` is held. -/
structure Env (held : List L) (d d' : D) : Prop where
  inv : I d'
  stable : G.Stable R held d d'

structure Delivers (x : Sess W L) (d : D) : Prop where
  inv : I (writeAll x.pending d)
  within : G.Within x.held d (writeAll x.pending d)
  guarantee : T d (writeAll x.pending d)

/-- However the others commit between the statements, the body returns uncommitted with `Q`, or
commits what it guarantees, or fails. -/
def Rg (Q : α → Sess W L → D → Prop) : Prog D W L N ε α → Sess W L → D → Prop
  | .ret a, x, d => Q a x d
  | .fail _, _, _ => True
  | .begin _ _, _, _ => False
  | .commit _ err next, x, d => err.Quiet ∧ next.Quiet ∧ ∀ d', Env G I R x.held d d' → Delivers G I T x d'
  | .rollback next, _, _ => next.Quiet
  | .step _ err act next, x, d => err.Quiet ∧ ∀ d', Env G I R x.held d d' →
      Rg Q (next x.now (writeAll x.pending d')) (x.run (act x.now (writeAll x.pending d'))) d'

variable {G I R T} {Q Q' : α → Sess W L → D → Prop} {x : Sess W L} {d d' d'' : D} {held : List L}

theorem Env.refl (hd : I d) : Env G I R held d d := ⟨hd, .refl G R held d⟩

theorem Env.trans (h : Env G I R held d d') (h' : Env G I R held d' d'') : Env G I R held d d'' :=
  ⟨h'.inv, fun ℓ hℓ => G.trans (h.stable.1 ℓ hℓ) (h'.stable.1 ℓ hℓ), R.trans h.stable.2 h'.stable.2⟩

theorem Env.mono {held' : List L} (h : Env G I R held' d d') (hs : ∀ ℓ ∈ held, ℓ ∈ held') : Env G I R held d d' :=
  ⟨h.inv, fun ℓ hℓ => h.stable.1 ℓ (hs ℓ hℓ), h.stable.2⟩

/-! ## Rules -/

theorem Rg.post {p : Prog D W L N ε α} (h : Rg G I R T Q p x d) (hQ : ∀ a x d, Q a x d → Q' a x d) :
    Rg G I R T Q' p x d := by
  induction p generalizing x d with
  | ret a => exact hQ a x d h
  | step name err act next _ ih => exact ⟨h.1, fun d' hd' => ih _ _ (h.2 d' hd')⟩
  | _ => exact h

theorem Rg.bind {p : Prog D W L N ε α} {k : α → Prog D W L N ε β} {Q : β → Sess W L → D → Prop} (hp : p.Flat)
    (h : Rg G I R T (fun a x d => Rg G I R T Q (k a) x d) p x d) : Rg G I R T Q (p >>= k) x d := by
  rw [Prog.bind_eq]
  induction p generalizing x d with
  | ret a => exact h
  | fail e => trivial
  | step name err act next _ ih =>
    obtain ⟨⟨e, rfl⟩, hn⟩ := hp
    exact ⟨trivial, fun d' hd' => ih _ _ (hn _ _) (h.2 d' hd')⟩
  | _ => cases hp

theorem Rg.deferRollback {p : Prog D W L N ε α} (h : Rg G I R T Q p x d) :
    Rg G I R T (fun _ _ _ => True) p.deferRollback x d := by
  induction p generalizing x d with
  | ret a => exact (trivial : (Prog.ret a : Prog D W L N ε α).Quiet)
  | fail e => exact (trivial : (Prog.fail e : Prog D W L N ε α).Quiet)
  | begin err next _ _ => cases h
  | commit name err next _ _ => exact ⟨h.1.deferRollback, h.2.1.deferRollback, h.2.2⟩
  | rollback next _ =>
    have hq : next.Quiet := h
    exact hq.deferRollback
  | step name err act next _ ih => exact ⟨h.1.deferRollback, fun d' hd' => ih _ _ (h.2 d' hd')⟩

theorem rg_stmt {name : N} {e : ε} {act : Time → D → Eff W L} {q : Time → D → α}
    (h : ∀ d', Env G I R x.held d d' →
      Q (q x.now (writeAll x.pending d')) (x.run (act x.now (writeAll x.pending d'))) d') :
    Rg G I R T Q (Prog.stmt name e act q) x d :=
  ⟨trivial, h⟩

theorem rg_query {name : N} {e : ε} {q : D → α}
    (h : ∀ d', Env G I R x.held d d' → Q (q (writeAll x.pending d')) x d') :
    Rg G I R T Q (Prog.query name e q : Prog D W L N ε α) x d := by
  refine rg_stmt fun d' hd' => ?_
  have hx : x.run ({} : Eff W L) = x := by simp [Sess.run]
  rw [hx]
  exact h d' hd'

theorem rg_stmtE {name : N} {e : ε} {act : Time → D → Eff W L} {q : Time → D → Except ε α}
    (h : ∀ d' a, Env G I R x.held d d' → q x.now (writeAll x.pending d') = .ok a →
      Q a (x.run (act x.now (writeAll x.pending d'))) d') :
    Rg G I R T Q (Prog.stmtE name e act q) x d := by
  refine ⟨trivial, fun d' hd' => ?_⟩
  dsimp only
  cases hq : q x.now (writeAll x.pending d') with
  | error e => trivial
  | ok a => exact h d' a hd' hq

theorem rg_commitThen {name : N} {e : ε} {a : α} (h : ∀ d', Env G I R x.held d d' → Delivers G I T x d') :
    Rg G I R T Q (Prog.commitThen name e a : Prog D W L N ε α) x d :=
  ⟨trivial, trivial, h⟩

theorem rg_forEach {γ : Type} {f : Nat → γ → Prog D W L N ε Unit} {J : Sess W L → D → Prop}
    (hflat : ∀ i a, (f i a).Flat) (hf : ∀ i a x d, J x d → Rg G I R T (fun _ x d => J x d) (f i a) x d) {i : Nat}
    {as : List γ} (h : J x d) : Rg G I R T (fun _ x d => J x d) (Prog.forEach f i as) x d := by
  induction as generalizing i x d with
  | nil => exact h
  | cons a as ih => exact Rg.bind (hflat i a) ((hf i a x d h).post fun _ _ _ hJ => ih hJ)

theorem Rg.other {p : Prog D W L N ε α} (h : Rg G I R T (fun _ _ _ => True) p x d) (he : Env G I R x.held d d') :
    Rg G I R T (fun _ _ _ => True) p x d' := by
  cases p with
  | ret a => trivial
  | fail e => trivial
  | begin err next => exact h
  | commit name err next => exact ⟨h.1, h.2.1, fun d'' h'' => h.2.2 d'' (he.trans h'')⟩
  | rollback next => exact h
  | step name err act next => exact ⟨h.1, fun d'' h'' => h.2 d'' (he.trans h'')⟩

theorem rg_quiet {p : Prog D W L N ε α} (h : p.Quiet) : Rg G I R T (fun _ _ _ => True) p x d := by
  cases p with
  | ret a => trivial
  | fail e => trivial
  | rollback next => exact h
  | _ => cases h

/-! ## Calls -/

variable (G I R T) in
/-- A call whose effect, if any, is one transaction that guarantees `T` where it may rely on `R`. -/
inductive Obeys : Prog D W L N ε α → Prop
  | quiet {p} : p.Quiet → Obeys p
  | tx {err k} : err.Quiet → (∀ t d, I d → Rg G I R T (fun _ _ _ => True) k { now := t } d) → Obeys (.begin err k)
  | auto {name err act next} : err.Quiet → (∀ t v, (next t v).Quiet) →
      (∀ t d, I d → Delivers G I T ⟨t, (act t d).writes, (act t d).locks⟩ d) → Obeys (.step name err act next)

theorem Obeys.inTx {e : ε} {body : Prog D W L N ε α} (h : ∀ t d, I d → Rg G I R T Q body { now := t } d) :
    Obeys G I R T (Prog.inTx e body) :=
  .tx trivial fun t d hd => (h t d hd).deferRollback

theorem Track.rg {call err k prog : Prog D W L N ε α} (hcall : call = .begin err k)
    (hI : ∀ t d, I d → I (call.run t d).2) (h : Track G I R d k prog x) :
    Rg G I R (fun d d' => ∃ t, d' = (call.run t d).2) (fun _ _ _ => True) prog x d := by
  induction prog generalizing x d with
  | ret a => trivial
  | fail e => trivial
  | begin err next _ _ => exact h.1
  | rollback next _ => exact h.1
  | commit name err next _ _ =>
    refine ⟨h.1.1, h.1.2, fun d' hd' => ?_⟩
    obtain ⟨hex, hw⟩ := (h.other hd'.stable.1 hd'.stable.2).commit hd'.inv
    have hrun : (call.run x.now d').2 = writeAll x.pending d' := by
      rw [hcall]
      simp only [Prog.run, Prog.exec, hex]
      exact h.1.2.exec_db _ _
    exact ⟨hrun ▸ hI x.now d' hd'.inv, hw, x.now, hrun.symm⟩
  | step name err act next _ ih =>
    exact ⟨h.1.1, fun d' hd' => ih _ _ ((h.other hd'.stable.1 hd'.stable.2).step hd'.inv)⟩

theorem Call.obeys {p : Prog D W L N ε α} (h : Call G I R p) (hI : ∀ t d, I d → I (p.run t d).2) :
    Obeys G I R (fun d d' => ∃ t, d' = (p.run t d).2) p := by
  cases h with
  | quiet hq => exact .quiet hq
  | tx herr hk hs => exact .tx herr fun t d hd => (track_fresh hk hs t d).rg rfl hI
  | @auto name err act next herr hn hw =>
    refine .auto herr hn fun t d hd => ?_
    have hrun : ((Prog.step name err act next).run t d).2 = writeAll (act t d).writes d := (hn t d).exec_db t _
    exact ⟨hrun ▸ hI t d hd, hw t d hd, t, hrun.symm⟩

theorem Rg.map {p : Prog D W L N ε α} (h : Rg G I R T (fun _ _ _ => True) p x d) (f : α → β) :
    Rg G I R T (fun _ _ _ => True) (p.map f) x d := by
  induction p generalizing x d with
  | ret a => trivial
  | fail e => trivial
  | begin err next _ _ => exact h
  | commit name err next _ _ => exact ⟨h.1.map f, h.2.1.map f, h.2.2⟩
  | rollback next _ =>
    have hq : next.Quiet := h
    exact hq.map f
  | step name err act next _ ih => exact ⟨h.1.map f, fun d' hd' => ih _ _ (h.2 d' hd')⟩

theorem Obeys.map {p : Prog D W L N ε α} (h : Obeys G I R T p) (f : α → β) : Obeys G I R T (p.map f) := by
  cases h with
  | quiet hq => exact .quiet (hq.map f)
  | tx herr hk => exact .tx (herr.map f) fun t d hd => (hk t d hd).map f
  | auto herr hn hw => exact .auto (herr.map f) (fun t v => (hn t v).map f) hw

theorem Obeys.mono {T' : D → D → Prop} {p : Prog D W L N ε α} (h : Obeys G I R T p)
    (hT : ∀ d d', I d → T d d' → T' d d') : Obeys G I R T' p := by
  have hrg : ∀ (k : Prog D W L N ε α) (x : Sess W L) (d : D), Rg G I R T (fun _ _ _ => True) k x d →
      Rg G I R T' (fun _ _ _ => True) k x d := by
    intro k
    induction k with
    | commit name err next _ _ =>
      intro x d hk
      refine ⟨hk.1, hk.2.1, fun d' hd' => ?_⟩
      have := hk.2.2 d' hd'
      exact ⟨this.inv, this.within, hT _ _ hd'.inv this.guarantee⟩
    | step name err act next _ ih => exact fun x d hk => ⟨hk.1, fun d' hd' => ih _ _ _ _ (hk.2 d' hd')⟩
    | _ => exact fun x d hk => hk
  cases h with
  | quiet hq => exact .quiet hq
  | tx herr hk => exact .tx herr fun t d hd => hrg _ _ _ (hk t d hd)
  | auto herr hn hw =>
    refine .auto herr hn fun t d hd => ?_
    have := hw t d hd
    exact ⟨this.inv, this.within, hT d _ hd this.guarantee⟩

end

/-! ## Interleaved calls -/

section
variable [Writes W D] (G : Guard D W L) (I : D → Prop) (R : Fin n → Rely D W) (T : Fin n → D → D → Prop)
  (calls : Fin n → Prog D W L N ε α)

inductive RgStage (R : Rely D W) (T : D → D → Prop) (call : Prog D W L N ε α) (d : D) : Proc D W L N ε α → Prop
  | idle : RgStage R T call d ⟨call, none⟩
  | opened {prog x} : Rg G I R T (fun _ _ _ => True) prog x d → RgStage R T call d ⟨prog, some x⟩
  | done {prog} : prog.Quiet → RgStage R T call d ⟨prog, none⟩

/-- The change is what every other transaction relies on that has read something and may still commit. -/
def Bears (s : Sys D W L N ε α n) (p : Fin n) (d' : D) : Prop :=
  ∀ q, q ≠ p → (s.procs q).sess.isSome → Fresh calls s q ∨ (s.procs q).prog.Quiet ∨ (R q).rel s.db d'

structure RgInv (s : Sys D W L N ε α n) : Prop where
  db : I s.db
  stage : ∀ p, RgStage G I (R p) (T p) (calls p) s.db (s.procs p)
  locks : s.Exclusive

variable {G I R T calls} {s s' : Sys D W L N ε α n} {a : Act n} {p q : Fin n} {prog : Prog D W L N ε α}
  {c : Conn D W L} {es : List (Event n N)}

theorem rgInv_start (t : Time) {d : D} (hd : I d) : RgInv G I R T calls (Sys.start t d calls) where
  db := hd
  stage _ := .idle
  locks := exclusive_start t d calls

theorem Prog.Quiet.small_none {k : Prog D W L N ε α} (h : k.Quiet) {t : Time} {d : D} {ls : List L}
    (hsm : k.small t ⟨d, none⟩ = some (ls, prog, c)) : prog.Quiet ∧ c = ⟨d, none⟩ := by
  cases k with
  | rollback next => cases hsm; exact ⟨h, rfl⟩
  | ret a => cases hsm
  | fail e => cases hsm
  | _ => cases h

theorem RgStage.onError_quiet {R : Rely D W} {T : D → D → Prop} {call : Prog D W L N ε α} {d : D}
    {pr : Proc D W L N ε α} (hst : RgStage G I R T call d pr) (hc : Obeys G I R T call)
    (he : pr.prog.onError = some prog) : prog.Quiet := by
  cases hst with
  | done hq =>
    rw [hq.onError_eq_none] at he
    cases he
  | idle =>
    cases hc with
    | quiet hq =>
      rw [hq.onError_eq_none] at he
      cases he
    | tx herr _ => cases he; exact herr
    | auto herr _ _ => cases he; exact herr
  | @opened prog₀ x hrg =>
    cases prog₀ with
    | begin err next => cases hrg
    | commit name err next => cases he; exact hrg.1
    | step name err act next => cases he; exact hrg.1
    | _ => cases he

/-- What a move of `p` does: it goes on in its transaction, or commits what it guarantees and is done. -/
theorem RgInv.mover (hc : Obeys G I (R p) (T p) (calls p)) (hs : RgInv G I R T calls s) (hm : s.Moves a p prog c es) :
    (c.db = s.db ∧ RgStage G I (R p) (T p) (calls p) s.db ⟨prog, c.sess⟩) ∨
    (a = .go p ∧ s.commitsNow p = true ∧ prog.Quiet ∧ c.sess = none ∧ I c.db ∧ T p s.db c.db ∧
      ∀ q, q ≠ p → G.Agree (s.conn q).held s.db c.db) := by
  have hst := hs.stage p
  have hlocks := hs.locks p
  simp only [Sys.conn, Conn.held] at hlocks
  cases hm with
  | err he => exact Or.inl ⟨rfl, .done (hst.onError_quiet hc he)⟩
  | @go _ ls _ _ hsm hfree =>
    unfold Sys.commitsNow
    simp only [Sys.conn] at hsm
    generalize s.procs p = pr at hst hsm hlocks
    cases hst with
    | done hq =>
      obtain ⟨hq', rfl⟩ := hq.small_none hsm
      exact Or.inl ⟨rfl, .done hq'⟩
    | idle =>
      generalize calls p = k at hc hsm
      cases hc with
      | quiet hq =>
        obtain ⟨hq', rfl⟩ := hq.small_none hsm
        exact Or.inl ⟨rfl, .done hq'⟩
      | tx _ hk =>
        cases hsm
        exact Or.inl ⟨rfl, .opened (hk _ _ hs.db)⟩
      | auto _ hn hw =>
        simp only [Prog.small, Option.some.injEq, Prod.mk.injEq, Conn.now_none, Conn.view_none, Conn.run_none] at hsm
        obtain ⟨rfl, rfl, rfl⟩ := hsm
        have hd := hw s.clock s.db hs.db
        refine Or.inr ⟨rfl, rfl, hn _ _, rfl, hd.inv, hd.guarantee, fun q hq ℓ hℓ => hd.within ℓ fun h => ?_⟩
        exact hfree q hq ℓ h hℓ
    | @opened prog₀ x hrg =>
      cases prog₀ with
      | ret a => cases hsm
      | fail e => cases hsm
      | begin err next => cases hrg
      | rollback next => cases hsm; exact Or.inl ⟨rfl, .done hrg⟩
      | commit name err next =>
        simp only [Prog.small, Option.some.injEq, Prod.mk.injEq, Conn.view_some] at hsm
        obtain ⟨-, rfl, rfl⟩ := hsm
        have hd := hrg.2.2 s.db (.refl hs.db)
        refine Or.inr ⟨rfl, rfl, hrg.2.1, rfl, hd.inv, hd.guarantee, fun q hq ℓ hℓ => hd.within ℓ fun h => ?_⟩
        exact hlocks q (Ne.symm hq) ℓ h hℓ
      | step name err act next =>
        simp only [Prog.small, Option.some.injEq, Prod.mk.injEq, Conn.now_some, Conn.view_some, Conn.run_some] at hsm
        obtain ⟨-, rfl, rfl⟩ := hsm
        exact Or.inl ⟨rfl, .opened (hrg.2 s.db (.refl hs.db))⟩

/-- The others go on where they stood: those that have read something rely on the change. -/
theorem RgInv.other (hc : Obeys G I (R q) (T q) (calls q)) (hs : RgInv G I R T calls s) {d' : D} (hd : I d')
    (hag : G.Agree (s.conn q).held s.db d')
    (hr : (s.procs q).sess.isSome → Fresh calls s q ∨ (s.procs q).prog.Quiet ∨ (R q).rel s.db d') :
    RgStage G I (R q) (T q) (calls q) d' (s.procs q) := by
  have hst := hs.stage q
  unfold Fresh at hr
  simp only [Sys.conn] at hag
  generalize s.procs q = pr at hst hr hag
  cases hst with
  | idle => exact .idle
  | done h => exact .done h
  | opened hrg =>
    rcases hr rfl with ⟨err', t, hcall, hx⟩ | hquiet | hrel
    · -- nothing has been read yet, so any state will do
      rw [hcall] at hc
      simp only [Option.some.injEq] at hx
      subst hx
      cases hc with
      | quiet h => cases h
      | tx _ hk => exact .opened (hk t d' hd)
    · exact .opened (rg_quiet hquiet)
    · exact .opened (hrg.other ⟨hd, hag, hrel⟩)

theorem RgInv.move (hc : ∀ p, Obeys G I (R p) (T p) (calls p)) (hs : RgInv G I R T calls s)
    (hm : s.Moves a p prog c es)
    (hr : a = .go p → s.commitsNow p = true → T p s.db c.db → Bears R calls s p c.db) :
    RgInv G I R T calls ((s.set p prog c).log es) ∧
      (c.db = s.db ∨ a = .go p ∧ s.commitsNow p = true ∧ T p s.db c.db) := by
  have hlocks := hs.locks.move hm
  rcases hs.mover (hc p) hm with ⟨hdb, hst⟩ | ⟨hgo, hnow, hq, hsess, hI, hT, hag⟩
  · have hI : I c.db := hdb.symm ▸ hs.db
    refine ⟨⟨hI, fun q => ?_, hlocks⟩, Or.inl hdb⟩
    show RgStage G I (R q) (T q) (calls q) c.db _
    by_cases hq : q = p
    · subst hq
      rw [procs_moved, hdb]
      exact hst
    · rw [procs_other s hq, hdb]
      exact hs.stage q
  · refine ⟨⟨hI, fun q => ?_, hlocks⟩, Or.inr ⟨hgo, hnow, hT⟩⟩
    show RgStage G I (R q) (T q) (calls q) c.db _
    by_cases hqp : q = p
    · subst hqp
      rw [procs_moved, hsess]
      exact .done hq
    · rw [procs_other s hqp]
      exact hs.other (hc q) hI (hag q hqp) fun hopen => hr hgo hnow hT q hqp hopen

/-- **One action.** The committed state stays, or the call that acts commits what it guarantees. -/
theorem RgInv.act [DecidableEq L] (hc : ∀ p, Obeys G I (R p) (T p) (calls p)) (hs : RgInv G I R T calls s)
    (ha : s.act a = some s')
    (hr : ∀ p, a = .go p → s.commitsNow p = true → T p s.db s'.db → Bears R calls s p s'.db) :
    RgInv G I R T calls s' ∧ (s'.db = s.db ∨ ∃ p, a = .go p ∧ s.commitsNow p = true ∧ T p s.db s'.db) := by
  rcases act_cases ha with ⟨dt, -, rfl⟩ | ⟨p, prog, c, es, hm, rfl⟩
  · exact ⟨⟨hs.db, hs.stage, hs.locks⟩, Or.inl rfl⟩
  · obtain ⟨hinv, h⟩ := hs.move hc hm (hr p)
    exact ⟨hinv, h.imp_right fun h => ⟨p, h⟩⟩

/-- Where every commit does what the others rely on, the invariant holds in every state of every run. -/
theorem rgInv_runs [DecidableEq L] (hc : ∀ p, Obeys G I (R p) (T p) (calls p))
    (hTR : ∀ p q d d', T p d d' → (R q).rel d d') {t : Time} {d : D} (hd : I d) {as : List (Act n)}
    (h : (Sys.start t d calls).runs as = some s) : RgInv G I R T calls s :=
  Sys.runs_inv (fun _ _ _ hs ha => (hs.act hc ha fun p _ _ hT q _ _ => Or.inr (Or.inr (hTR p q _ _ hT))).1)
    (rgInv_start t hd) h

/-! ## Transactions that have begun to read -/

def Prog.OpensWith (g : N) : Prog D W L N ε α → Prop
  | .begin err (.step name e _ _) => name = g ∧ err.Quiet ∧ e.Quiet
  | _ => False

def ReadsFirst [DecidableEq N] (calls : Fin n → Prog D W L N ε α) (g : N) (s : Sys D W L N ε α n) (q : Fin n) : Prop :=
  s.procs q = ⟨calls q, none⟩ ∨ Fresh calls s q ∨ s.ran q g = true ∨ (s.procs q).prog.Quiet

theorem ReadsFirst.move [DecidableEq N] {g : N} (hq : (calls q).OpensWith g) (h : ReadsFirst calls g s q)
    (hm : s.Moves a p prog c es) : ReadsFirst calls g ((s.set p prog c).log es) q := by
  by_cases hran : s.ran q g = true
  · exact Or.inr (Or.inr (Or.inl (ran_log_iff.mpr (Or.inl hran))))
  by_cases hqp : q = p
  swap
  · unfold ReadsFirst Fresh at h ⊢
    rw [procs_other s hqp]
    refine h.imp_right (Or.imp_right (Or.imp_left fun h => absurd h hran))
  subst hqp
  rcases h with hidle | ⟨err, t, hcall, hx⟩ | h | hquiet
  · cases hcq : calls q with
    | begin err k =>
      rw [hcq] at hq
      cases k with
      | step name e act next =>
        have hprog : (s.procs q).prog = .begin err (.step name e act next) := by rw [hidle, hcq]
        cases hm with
        | go hsm _ =>
          rw [hprog] at hsm
          cases hsm
          exact Or.inr (Or.inl ⟨err, s.clock, by rw [procs_moved, hcq], by rw [procs_moved]⟩)
        | err he =>
          rw [hprog] at he
          cases he
          exact Or.inr (Or.inr (Or.inr (by rw [procs_moved]; exact hq.2.1)))
      | _ => cases hq
    | _ => rw [hcq] at hq; cases hq
  · rw [hcall] at hq
    cases hprog : (s.procs q).prog with
    | step name e act next =>
      rw [hprog] at hq
      obtain ⟨rfl, -, hquiet⟩ := hq
      cases hm with
      | go _ _ =>
        have hev : s.event q = [⟨q, name, s.commitsNow q⟩] := by simp [Sys.event, hprog, Prog.name?]
        exact Or.inr (Or.inr (Or.inl (ran_log_iff.mpr (Or.inr ⟨_, hev ▸ List.mem_singleton_self _, rfl, rfl⟩))))
      | err he =>
        rw [hprog] at he
        cases he
        exact Or.inr (Or.inr (Or.inr (by rw [procs_moved]; exact hquiet)))
    | _ => rw [hprog] at hq; cases hq
  · exact absurd h hran
  · exact Or.inr (Or.inr (Or.inr (by rw [procs_moved]; exact (hquiet.move hm).1)))

omit [Writes W D] in
theorem ReadsFirst.opened [DecidableEq N] {g : N} (h : ReadsFirst calls g s q) (hx : (s.procs q).sess.isSome) :
    Fresh calls s q ∨ s.ran q g = true ∨ (s.procs q).prog.Quiet := by
  refine h.resolve_left fun hidle => ?_
  rw [hidle] at hx
  cases hx

end

end Sql
