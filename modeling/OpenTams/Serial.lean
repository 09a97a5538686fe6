import OpenTams.Wp

/-!
# Serializability of well-locked calls

A call that opens one transaction is well locked when every statement reads
only what its locks protect, and the rows it has written at its commit are
protected by locks it holds. Interleaved calls that are all well locked commit
as if each ran alone on the state at its commit (`go_inv`), so a run is a serial
history of its committed calls (`serializable`).

The proof keeps, for every open transaction, that the call run alone on any
state that agrees with the current one on the transaction's locks arrives
where the transaction is now (`Track`).
-/

namespace Sql

variable {D W L N ε α β : Type}

/-! ## What locks protect -/

section
variable [Writes W D]

/-- `same ℓ d d'`: the two states agree on everything lock `ℓ` protects. Writing
the same row version to both keeps the agreement. -/
structure Guard (D W L : Type) [Writes W D] where
  same : L → D → D → Prop
  refl : ∀ ℓ d, same ℓ d d
  trans : ∀ {ℓ d₁ d₂ d₃}, same ℓ d₁ d₂ → same ℓ d₂ d₃ → same ℓ d₁ d₃
  congr : ∀ {ℓ d d'} (w : W), same ℓ d d' → same ℓ (Writes.write w d) (Writes.write w d')

def Guard.Agree (G : Guard D W L) (held : List L) (d d' : D) : Prop :=
  ∀ ℓ ∈ held, G.same ℓ d d'

def Guard.Within (G : Guard D W L) (held : List L) (d d' : D) : Prop :=
  ∀ ℓ, ℓ ∉ held → G.same ℓ d d'

structure Rely (D W : Type) [Writes W D] where
  rel : D → D → Prop
  refl : ∀ d, rel d d
  trans : ∀ {d₁ d₂ d₃}, rel d₁ d₂ → rel d₂ d₃ → rel d₁ d₃
  congr : ∀ {d d'} (w : W), rel d d' → rel (Writes.write w d) (Writes.write w d')

def Rely.none : Rely D W := ⟨fun _ _ => True, fun _ => trivial, fun _ _ => trivial, fun _ _ => trivial⟩

def Guard.Stable (G : Guard D W L) (R : Rely D W) (held : List L) (d d' : D) : Prop :=
  G.Agree held d d' ∧ R.rel d d'

theorem Guard.Agree.refl (G : Guard D W L) (held : List L) (d : D) : G.Agree held d d := fun ℓ _ => G.refl ℓ d

theorem Guard.Within.refl (G : Guard D W L) (held : List L) (d : D) : G.Within held d d := fun ℓ _ => G.refl ℓ d

theorem Guard.Within.trans {G : Guard D W L} {held : List L} {d₁ d₂ d₃ : D} (h : G.Within held d₁ d₂)
    (h' : G.Within held d₂ d₃) : G.Within held d₁ d₃ :=
  fun ℓ hℓ => G.trans (h ℓ hℓ) (h' ℓ hℓ)

theorem Guard.Within.mono {G : Guard D W L} {held held' : List L} {d d' : D} (h : G.Within held d d')
    (hs : ∀ ℓ ∈ held, ℓ ∈ held') : G.Within held' d d' :=
  fun ℓ hℓ => h ℓ fun hm => hℓ (hs ℓ hm)

theorem Guard.Stable.writeAll {G : Guard D W L} {R : Rely D W} {held : List L} {d d' : D}
    (h : G.Stable R held d d') (ws : List W) : G.Stable R held (writeAll ws d) (writeAll ws d') := by
  induction ws generalizing d d' with
  | nil => exact h
  | cons w ws ih => exact ih ⟨fun ℓ hℓ => G.congr w (h.1 ℓ hℓ), R.congr w h.2⟩

/-! ## Well-locked transactions -/

variable (G : Guard D W L) (I : D → Prop) (R : Rely D W)

/-- The rest of a transaction, run on the committed state `d`, is well locked: a
statement does the same on every state that agrees on its locks, unless the
transaction cannot commit any more, and the commit changes only what is locked. -/
def Safe (d : D) : Prog D W L N ε α → Sess W L → Prop
  | .begin _ _, _ => False
  | .commit _ _ _, x => G.Within x.held d (writeAll x.pending d)
  | .step _ _ act next, x =>
    (next x.now (writeAll x.pending d)).NoCommit ∨
    ((∀ d', G.Stable R (x.held ++ (act x.now (writeAll x.pending d)).locks) d d' →
        act x.now (writeAll x.pending d') = act x.now (writeAll x.pending d) ∧
        next x.now (writeAll x.pending d') = next x.now (writeAll x.pending d)) ∧
      Safe d (next x.now (writeAll x.pending d)) (x.run (act x.now (writeAll x.pending d))))
  | _, _ => True

theorem Safe.deferRollback {d : D} {p : Prog D W L N ε α} {x : Sess W L} (h : Safe G R d p x) :
    Safe G R d p.deferRollback x := by
  induction p generalizing x with
  | begin err next _ _ => exact h
  | commit name err next _ _ => exact h
  | step name err act next _ ih =>
    rcases h with h | ⟨hst, hn⟩
    · exact Or.inl h.deferRollback
    · refine Or.inr ⟨fun d' ha => ?_, ih _ _ hn⟩
      obtain ⟨h1, h2⟩ := hst d' ha
      exact ⟨h1, congrArg Prog.deferRollback h2⟩
  | _ => trivial

theorem Safe.map {d : D} {p : Prog D W L N ε α} {x : Sess W L} (h : Safe G R d p x) (f : α → β) :
    Safe G R d (p.map f) x := by
  induction p generalizing x with
  | begin err next _ _ => exact h
  | commit name err next _ _ => exact h
  | step name err act next _ ih =>
    rcases h with h | ⟨hst, hn⟩
    · exact Or.inl (h.map f)
    · refine Or.inr ⟨fun d' ha => ?_, ih _ _ hn⟩
      obtain ⟨h1, h2⟩ := hst d' ha
      exact ⟨h1, congrArg (Prog.map f) h2⟩
  | _ => trivial

variable {G R} in
/-- A body whose weakest precondition holds with agreement on locked rows is well locked. -/
theorem Wp.safe {d : D} {Q : α → List L → D → Prop} {p : Prog D W L N ε α} {x : Sess W L}
    (h : Wp (G.Stable R) x.now Q (fun _ ls v => G.Within ls d v) p x.held (writeAll x.pending d)) :
    Safe G R d p x := by
  induction p generalizing x with
  | ret a => trivial
  | fail e => trivial
  | begin err next _ _ => exact h
  | rollback next _ => trivial
  | commit name err next _ _ =>
    cases next with
    | ret a => exact h
    | _ => cases h
  | step name err act next _ ih =>
    rcases h with h | ⟨hst, hn⟩
    · exact Or.inl h.noCommit
    · refine Or.inr ⟨fun d' ha => hst _ (ha.writeAll _), ih _ _ ?_⟩
      simp only [Sess.run_now, Sess.run_held, Sess.view_run]
      exact hn

/-- Where a transaction of call `begin k` stands: the call run alone on any state
that agrees on the locks held arrives at the same point. -/
def Track (d : D) (k prog : Prog D W L N ε α) (x : Sess W L) : Prop :=
  prog.OneTx ∧ (prog.NoCommit ∨ ∀ d', I d' → G.Stable R x.held d d' →
    k.exec x.now ⟨d', some { now := x.now }⟩ = prog.exec x.now ⟨d', some x⟩ ∧ Safe G R d' prog x)

variable {G I R} {d d₁ : D} {k : Prog D W L N ε α} {x : Sess W L}

theorem Guard.Stable.refl (G : Guard D W L) (R : Rely D W) (held : List L) (d : D) : G.Stable R held d d :=
  ⟨fun ℓ _ => G.refl ℓ d, R.refl d⟩

theorem track_fresh (hk : k.OneTx) (hs : ∀ t d, I d → Safe G R d k { now := t }) (t : Time) (d : D) :
    Track G I R d k k { now := t } :=
  ⟨hk, Or.inr fun d' hI _ => ⟨rfl, hs t d' hI⟩⟩

theorem Track.step {name : N} {err : Prog D W L N ε α} {act : Time → D → Eff W L}
    {next : Time → D → Prog D W L N ε α} (h : Track G I R d k (.step name err act next) x) (hd : I d) :
    Track G I R d k (next x.now (writeAll x.pending d)) (x.run (act x.now (writeAll x.pending d))) := by
  refine ⟨h.1.2 _ _, ?_⟩
  rcases h.2 with hn | htr
  · exact Or.inl (hn.2 _ _)
  by_cases hdoom : (next x.now (writeAll x.pending d)).NoCommit
  · exact Or.inl hdoom
  have hown := (htr d hd (.refl G R _ d)).2
  obtain ⟨hst, -⟩ := hown.resolve_left hdoom
  refine Or.inr fun d' hI' ha => ?_
  have ha' : G.Stable R x.held d d' := ⟨fun ℓ hℓ => ha.1 ℓ (List.mem_append_left _ hℓ), ha.2⟩
  obtain ⟨hact, hnext⟩ := hst d' ha
  obtain ⟨hex, hsafe⟩ := htr d' hI' ha'
  refine ⟨?_, ?_⟩
  · simp only [Sess.run_now]
    rw [hex]
    simp only [Prog.exec, Conn.now_some, Conn.view_some, Conn.run_some, hact, hnext]
  · simp only [Safe, hact, hnext] at hsafe
    exact (hsafe.resolve_left hdoom).2

theorem Track.other {prog : Prog D W L N ε α} (h : Track G I R d k prog x) (ha : G.Agree x.held d d₁)
    (hr : R.rel d d₁) : Track G I R d₁ k prog x := by
  refine ⟨h.1, h.2.imp_right fun htr d' hI' ha' => ?_⟩
  exact htr d' hI' ⟨fun ℓ hℓ => G.trans (ha ℓ hℓ) (ha'.1 ℓ hℓ), R.trans hr ha'.2⟩

theorem Track.commit {name : N} {err next : Prog D W L N ε α} (h : Track G I R d k (.commit name err next) x)
    (hd : I d) :
    k.exec x.now ⟨d, some { now := x.now }⟩ = next.exec x.now ⟨writeAll x.pending d, none⟩ ∧
      G.Within x.held d (writeAll x.pending d) := by
  rcases h.2 with hn | htr
  · cases hn
  obtain ⟨hex, hsafe⟩ := htr d hd (.refl G R _ d)
  exact ⟨hex, hsafe⟩

end

/-! ## Interleaved calls -/

section
variable [Writes W D] {n : Nat} (G : Guard D W L) (I : D → Prop) (R : Fin n → Rely D W)
  (calls : Fin n → Prog D W L N ε α)

/-- A call whose effect, if any, is one well-locked transaction. -/
inductive Call (R : Rely D W) : Prog D W L N ε α → Prop
  | quiet {p} : p.Quiet → Call R p
  | tx {err k} : err.Quiet → k.OneTx → (∀ t d, I d → Safe G R d k { now := t }) → Call R (.begin err k)
  | auto {name err act next} : err.Quiet → (∀ t v, (next t v).Quiet) →
      (∀ t d, I d → G.Within (act t d).locks d (writeAll (act t d).writes d)) →
      Call R (.step name err act next)

variable {G I} in
theorem Call.inTx {R : Rely D W} {e : ε} {body : Prog D W L N ε α} {Q : Time → D → α → List L → D → Prop}
    (h1 : body.OneTx)
    (h : ∀ t d, I d → Wp (G.Stable R) t (Q t d) (fun _ ls v => G.Within ls d v) body [] d) :
    Call G I R (Prog.inTx e body) :=
  .tx trivial h1.deferRollback fun t d hd => Safe.deferRollback _ _ (Wp.safe (x := { now := t }) (h t d hd))

variable {G I} in
theorem Call.map {R : Rely D W} {p : Prog D W L N ε α} (h : Call G I R p) (f : α → β) : Call G I R (p.map f) := by
  cases h with
  | quiet h => exact .quiet (h.map f)
  | tx herr hk hs => exact .tx (herr.map f) (hk.map f) fun t d hd => (hs t d hd).map _ _ f
  | auto herr hn hw => exact .auto (herr.map f) (fun t v => (hn t v).map f) hw

inductive Stage (R : Rely D W) (call : Prog D W L N ε α) (d : D) : Proc D W L N ε α → Prop
  | idle : Stage R call d ⟨call, none⟩
  | opened {err k prog x} : call = .begin err k → Track G I R d k prog x → Stage R call d ⟨prog, some x⟩
  | done {prog} : prog.Quiet → Stage R call d ⟨prog, none⟩

structure Inv (s : Sys D W L N ε α n) : Prop where
  db : I s.db
  stage : ∀ p, Stage G I (R p) (calls p) s.db (s.procs p)
  locks : ∀ p q, p ≠ q → ∀ ℓ ∈ (s.conn p).held, ℓ ∉ (s.conn q).held

def Fresh (s : Sys D W L N ε α n) (p : Fin n) : Prop :=
  ∃ err t, calls p = .begin err (s.procs p).prog ∧ (s.procs p).sess = some { now := t }

/-- The committed change respects what every other open transaction relies on beside its locks. -/
def Respects (s : Sys D W L N ε α n) (p : Fin n) (d' : D) : Prop :=
  ∀ q, q ≠ p → (s.procs q).sess.isSome → Fresh calls s q ∨ (R q).rel s.db d'

def CommitsAt (s s' : Sys D W L N ε α n) (p : Fin n) (t : Time) : Prop :=
  s'.db = ((calls p).run t s.db).2 ∧ (s'.procs p).prog.Quiet ∧
    ∀ t' c, ((s'.procs p).prog.exec t' c).1 = ((calls p).run t s.db).1

variable {G I R calls}

theorem inv_start (t : Time) (d : D) (hd : I d) : Inv G I R calls (Sys.start t d calls) where
  db := hd
  stage _ := .idle
  locks _ _ _ ℓ h := by cases h

theorem stage_other (hc : ∀ p, Call G I (R p) (calls p)) {s : Sys D W L N ε α n} (hs : Inv G I R calls s)
    {p q : Fin n} (hq : q ≠ p) {d' : D} (hag : G.Agree (s.conn q).held s.db d')
    (hr : Respects R calls s p d') : Stage G I (R q) (calls q) d' (s.procs q) := by
  have hst := hs.stage q
  have hrq := hr q hq
  have hcq := hc q
  unfold Fresh at hrq
  simp only [Sys.conn] at hag
  generalize s.procs q = pr at hst hrq hag
  cases hst with
  | idle => exact .idle
  | done h => exact .done h
  | opened hcall htr =>
    rcases hrq rfl with ⟨err', t, hcall', hx⟩ | hrel
    · -- nothing has been read yet, so any state will do
      rw [hcall'] at hcq
      simp only [Option.some.injEq] at hx
      subst hx
      cases hcq with
      | quiet h => cases h
      | tx _ hk hsafe => exact .opened hcall' (track_fresh hk hsafe t d')
    · exact .opened hcall (htr.other hag hrel)

theorem inv_set (hc : ∀ p, Call G I (R p) (calls p)) {s : Sys D W L N ε α n} (hs : Inv G I R calls s)
    {p : Fin n} {prog : Prog D W L N ε α} {c : Conn D W L} (hd : I c.db)
    (hst : Stage G I (R p) (calls p) c.db ⟨prog, c.sess⟩)
    (hag : ∀ q, q ≠ p → G.Agree (s.conn q).held s.db c.db) (hr : Respects R calls s p c.db)
    (hl : ∀ q, q ≠ p → ∀ ℓ ∈ c.held, ℓ ∉ (s.conn q).held) (es : List (Event n N)) :
    Inv G I R calls ((s.set p prog c).log es) := by
  have hself : ((s.set p prog c).log es).procs p = ⟨prog, c.sess⟩ := Function.update_self ..
  have hne : ∀ q, q ≠ p → ((s.set p prog c).log es).procs q = s.procs q :=
    fun q hq => Function.update_of_ne hq ..
  have hself' : (((s.set p prog c).log es).conn p).held = c.held := by
    simp only [Sys.conn, Conn.held, hself]
  have hne' : ∀ q, q ≠ p → (((s.set p prog c).log es).conn q).held = (s.conn q).held := by
    intro q hq
    simp only [Sys.conn, Conn.held, hne q hq]
  refine ⟨hd, fun q => ?_, fun a b hab ℓ ha hb => ?_⟩
  · by_cases hq : q = p
    · subst hq; rw [hself]; exact hst
    · rw [hne q hq]; exact stage_other hc hs hq (hag q hq) hr
  · by_cases hap : a = p
    · subst hap
      rw [hself'] at ha
      rw [hne' b (Ne.symm hab)] at hb
      exact hl b (Ne.symm hab) ℓ ha hb
    · rw [hne' a hap] at ha
      by_cases hbp : b = p
      · subst hbp; rw [hself'] at hb; exact hl a hap ℓ hb ha
      · rw [hne' b hbp] at hb; exact hs.locks a b hab ℓ ha hb

theorem inv_move (hc : ∀ p, Call G I (R p) (calls p)) {s : Sys D W L N ε α n} (hs : Inv G I R calls s)
    {p : Fin n} {prog : Prog D W L N ε α} {sess : Option (Sess W L)}
    (hst : Stage G I (R p) (calls p) s.db ⟨prog, sess⟩)
    (hl : ∀ q, q ≠ p → ∀ ℓ ∈ (⟨s.db, sess⟩ : Conn D W L).held, ℓ ∉ (s.conn q).held) (es : List (Event n N)) :
    Inv G I R calls ((s.set p prog ⟨s.db, sess⟩).log es) :=
  inv_set hc hs hs.db hst (fun _ _ ℓ _ => G.refl ℓ _) (fun q _ _ => Or.inr ((R q).refl _)) hl es

/-- The effect of a whole call is committed at once. -/
theorem inv_commits (hc : ∀ p, Call G I (R p) (calls p)) {s : Sys D W L N ε α n} (hs : Inv G I R calls s)
    {p : Fin n} (hI : ∀ t, I ((calls p).run t s.db).2) {prog : Prog D W L N ε α} {d' : D}
    {held : List L} {t : Time} (hq : prog.Quiet)
    (hrun : (calls p).run t s.db = (prog.exec t ⟨d', none⟩).map id Conn.db) (hw : G.Within held s.db d')
    (hfree : ∀ q, q ≠ p → ∀ ℓ ∈ held, ℓ ∉ (s.conn q).held)
    (hr : d' = ((calls p).run t s.db).2 → Respects R calls s p d') (es : List (Event n N)) :
    Inv G I R calls ((s.set p prog ⟨d', none⟩).log es) ∧
      CommitsAt calls s ((s.set p prog ⟨d', none⟩).log es) p t := by
  have hdb : ((calls p).run t s.db).2 = d' := by rw [hrun]; exact hq.exec_db t _
  refine ⟨inv_set hc hs (hdb ▸ hI t) (.done hq) (fun q hqp ℓ hℓ => ?_) (hr hdb.symm)
    (fun _ _ ℓ h => by cases h) es, hdb.symm, ?_, ?_⟩
  · exact hw ℓ fun hmem => hfree q hqp ℓ hmem hℓ
  · simpa [Sys.log, Sys.set] using hq
  · intro t' c
    simp only [Sys.log, Sys.set, Function.update_self, hrun]
    exact hq.exec_fst t' t c _

theorem err_inv (hc : ∀ p, Call G I (R p) (calls p)) {s s' : Sys D W L N ε α n} (hs : Inv G I R calls s)
    {p : Fin n} (h : s.err p = some s') :
    Inv G I R calls s' ∧ ∃ prog, prog.Quiet ∧ s' = s.set p prog ⟨s.db, none⟩ := by
  have hq : ∃ prog : Prog D W L N ε α, prog.Quiet ∧ s' = s.set p prog ⟨s.db, none⟩ := by
    have hst := hs.stage p
    have hcall := hc p
    unfold Sys.err at h
    generalize s.procs p = pr at hst h
    cases hst with
    | @done prog hq =>
      cases prog with
      | ret a => cases h
      | fail e => cases h
      | rollback next => cases h
      | _ => cases hq
    | idle =>
      generalize calls p = q at hcall h
      cases hcall with
      | quiet hq =>
        cases q with
        | ret a => cases h
        | fail e => cases h
        | rollback next => cases h
        | _ => cases hq
      | tx herr _ _ => exact ⟨_, herr, (Option.some.inj h).symm⟩
      | auto herr _ _ => exact ⟨_, herr, (Option.some.inj h).symm⟩
    | @opened err k prog x _ htr =>
      cases prog with
      | begin err next => cases htr.1
      | commit nm err next => exact ⟨_, htr.1.1, (Option.some.inj h).symm⟩
      | step nm err act next => exact ⟨_, htr.1.1, (Option.some.inj h).symm⟩
      | _ => cases h
  obtain ⟨prog, hq, rfl⟩ := hq
  refine ⟨?_, prog, hq, rfl⟩
  simpa [Sys.log] using inv_move hc hs (.done hq) (fun _ _ ℓ h => by cases h) []

variable [DecidableEq L]

theorem go_eq_some {s s' : Sys D W L N ε α n} {p : Fin n} (h : s.go p = some s') :
    ∃ ls prog c, (s.procs p).prog.small s.clock (s.conn p) = some (ls, prog, c) ∧ s.Free p ls ∧
      s' = (s.set p prog c).log (s.event p) := by
  unfold Sys.go at h
  split at h
  · cases h
  · rename_i ls prog c hsm
    split at h
    · rename_i hf; exact ⟨ls, prog, c, hsm, hf, (Option.some.inj h).symm⟩
    · cases h

section
variable (hc : ∀ p, Call G I (R p) (calls p)) {s s' : Sys D W L N ε α n} (hs : Inv G I R calls s) {p : Fin n}
  (hI : ∀ t, I ((calls p).run t s.db).2)
include hc hI hs

/-- **One statement of one call.** Either the committed state stays, or the
call commits what it would have done alone on that state. -/
theorem go_inv (h : s.go p = some s') (hr : ∀ t, s'.db = ((calls p).run t s.db).2 → Respects R calls s p s'.db) :
    Inv G I R calls s' ∧
      ((s.commitsNow p = true ∧ ∃ t, CommitsAt calls s s' p t) ∨ (s.commitsNow p = false ∧ s'.db = s.db)) := by
  obtain ⟨ls, prog, c, hsm, hfree, rfl⟩ := go_eq_some h
  have hst := hs.stage p
  have hcall := hc p
  have hheld := hs.locks p
  have hr' : ∀ t, c.db = ((calls p).run t s.db).2 → Respects R calls s p c.db := hr
  generalize s.event p = es
  unfold Sys.commitsNow
  simp only [Sys.conn] at hsm
  simp only [Sys.conn, Conn.held] at hheld
  generalize s.procs p = pr at hst hsm hheld
  have hquiet : ∀ q : Prog D W L N ε α, q.Quiet → q.small s.clock ⟨s.db, none⟩ = some (ls, prog, c) →
      Inv G I R calls ((s.set p prog c).log es) ∧ c.db = s.db ∧ ∃ next, q = .rollback next := by
    intro q hq hsm
    cases q with
    | rollback next =>
      simp only [Prog.small, Option.some.injEq, Prod.mk.injEq] at hsm
      obtain ⟨-, rfl, rfl⟩ := hsm
      have hn : next.Quiet := hq
      exact ⟨inv_move hc hs (.done hn) (fun _ _ ℓ h => by cases h) es, rfl, next, rfl⟩
    | ret a => cases hsm
    | fail e => cases hsm
    | _ => cases hq
  cases hst with
  | done hq =>
    obtain ⟨hi, hdb, next, rfl⟩ := hquiet _ hq hsm
    exact ⟨hi, Or.inr ⟨rfl, hdb⟩⟩
  | idle =>
    generalize hp : calls p = q at hcall hsm
    cases hcall with
    | quiet hq =>
      obtain ⟨hi, hdb, next, rfl⟩ := hquiet _ hq hsm
      exact ⟨hi, Or.inr ⟨rfl, hdb⟩⟩
    | @tx err k herr hk hsafe =>
      simp only [Prog.small, Option.some.injEq, Prod.mk.injEq] at hsm
      obtain ⟨-, rfl, rfl⟩ := hsm
      exact ⟨inv_move hc hs (.opened hp (track_fresh hk hsafe _ _)) (fun _ _ ℓ h => by cases h) es,
        Or.inr ⟨rfl, rfl⟩⟩
    | @auto nm err act next herr hn hw =>
      simp only [Prog.small, Option.some.injEq, Prod.mk.injEq, Conn.now_none, Conn.view_none, Conn.run_none] at hsm
      obtain ⟨rfl, rfl, rfl⟩ := hsm
      have := inv_commits hc hs hI (t := s.clock) (hn s.clock s.db) (by rw [hp]; rfl)
        (hw s.clock s.db hs.db) (fun q hq ℓ hℓ => hfree q hq ℓ hℓ) (hr' _) es
      exact ⟨this.1, Or.inl ⟨rfl, _, this.2⟩⟩
  | @opened err k prog₀ x hp htr =>
    cases prog₀ with
    | ret a => cases hsm
    | fail e => cases hsm
    | begin err next => cases htr.1
    | rollback next =>
      simp only [Prog.small, Option.some.injEq, Prod.mk.injEq] at hsm
      obtain ⟨-, rfl, rfl⟩ := hsm
      have hn : next.Quiet := htr.1
      exact ⟨inv_move hc hs (.done hn) (fun _ _ ℓ h => by cases h) es, Or.inr ⟨rfl, rfl⟩⟩
    | commit nm err next =>
      simp only [Prog.small, Option.some.injEq, Prod.mk.injEq, Conn.view_some] at hsm
      obtain ⟨-, rfl, rfl⟩ := hsm
      obtain ⟨hex, hw⟩ := htr.commit hs.db
      have := inv_commits hc hs hI (t := x.now) htr.1.2
        (by rw [hp]; simp only [Prog.run, Prog.exec, hex]; rfl) hw
        (fun q hq ℓ hℓ => hheld q (Ne.symm hq) ℓ hℓ) (hr' _) es
      exact ⟨this.1, Or.inl ⟨rfl, _, this.2⟩⟩
    | step nm err act next =>
      simp only [Prog.small, Option.some.injEq, Prod.mk.injEq, Conn.now_some, Conn.view_some, Conn.run_some] at hsm
      obtain ⟨rfl, rfl, rfl⟩ := hsm
      refine ⟨inv_move hc hs (.opened hp (htr.step hs.db)) (fun q hq ℓ hℓ => ?_) es, Or.inr ⟨rfl, rfl⟩⟩
      rcases List.mem_append.mp hℓ with hℓ | hℓ
      · exact hheld q (Ne.symm hq) ℓ hℓ
      · exact hfree q hq ℓ hℓ

end

end

end Sql
