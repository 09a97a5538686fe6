import OpenTams.Serial

/-!
# Runs as serial histories

A rule for invariants of runs, and what interleaved well-locked calls amount
to: the calls that committed, each run alone, in the order of their commits.
-/

namespace Sql

variable {D W L N ε α β : Type} {n : Nat}

namespace Prog

/-- The call cannot return a value without having committed. -/
def MustCommit : Prog D W L N ε α → Prop
  | .ret _ => False
  | .fail _ => True
  | .begin err next => err.MustCommit ∧ next.MustCommit
  | .commit _ err _ => err.MustCommit
  | .rollback next => next.MustCommit
  | .step _ err _ next => err.MustCommit ∧ ∀ t v, (next t v).MustCommit

theorem MustCommit.deferRollback {p : Prog D W L N ε α} (hp : p.MustCommit) : p.deferRollback.MustCommit := by
  induction p with
  | ret a => cases hp
  | fail e => trivial
  | begin err next ih ih' => exact ⟨ih hp.1, ih' hp.2⟩
  | commit name err next ih _ => exact ih hp
  | rollback next ih => exact ih hp
  | step name err act next ih ih' => exact ⟨ih hp.1, fun t v => ih' t v (hp.2 t v)⟩

theorem MustCommit.map {p : Prog D W L N ε α} (hp : p.MustCommit) (f : α → β) : (p.map f).MustCommit := by
  induction p with
  | ret a => cases hp
  | fail e => trivial
  | begin err next ih ih' => exact ⟨ih hp.1, ih' hp.2⟩
  | commit name err next ih _ => exact ih hp
  | rollback next ih => exact ih hp
  | step name err act next ih ih' => exact ⟨ih hp.1, fun t v => ih' t v (hp.2 t v)⟩

theorem Flat.bind_mustCommit {p : Prog D W L N ε α} {f : α → Prog D W L N ε β} (hp : p.Flat)
    (hf : ∀ a, (f a).MustCommit) : (p.bind f).MustCommit := by
  induction p with
  | ret a => exact hf a
  | fail e => trivial
  | step name err act next _ ih =>
    obtain ⟨⟨e, rfl⟩, hn⟩ := hp
    exact ⟨trivial, fun t v => ih t v (hn t v)⟩
  | _ => cases hp

theorem mustCommit_inTx (e : ε) {body : Prog D W L N ε α} (h : body.MustCommit) : (inTx e body).MustCommit :=
  ⟨trivial, h.deferRollback⟩

end Prog

theorem committed_event (s : Sys D W L N ε α n) (p : Fin n) :
    ((s.event p).filter (·.commits)).map (·.proc) = if s.commitsNow p then [p] else [] := by
  unfold Sys.event Sys.commitsNow
  cases (s.procs p).prog with
  | commit name err next => rfl
  | step name err act next => cases (s.procs p).sess.isNone <;> rfl
  | _ => rfl

theorem committed_log (s : Sys D W L N ε α n) (p q : Fin n) (prog : Prog D W L N ε α) (c : Conn D W L) :
    ((s.set p prog c).log (s.event q)).committed = s.committed ++ if s.commitsNow q then [q] else [] := by
  rw [← committed_event]
  simp [Sys.committed, Sys.log, Sys.set]

theorem commitsNow_of_quiet {s : Sys D W L N ε α n} {p : Fin n} (h : (s.procs p).prog.Quiet) :
    s.commitsNow p = false := by
  unfold Sys.commitsNow
  cases hp : (s.procs p).prog with
  | commit name err next => rw [hp] at h; cases h
  | step name err act next => rw [hp] at h; cases h
  | _ => rfl

section
variable [Writes W D]

theorem Prog.MustCommit.small {t : Time} {p p' : Prog D W L N ε α} {c c' : Conn D W L} {ls : List L}
    (h : p.MustCommit) (hs : p.small t c = some (ls, p', c')) (hc : ∀ name err next, p ≠ .commit name err next) :
    p'.MustCommit := by
  cases p with
  | commit name err next => exact absurd rfl (hc name err next)
  | ret a => cases hs
  | fail e => cases hs
  | begin err next => cases hs; exact h.2
  | rollback next => cases hs; exact h
  | step name err act next => cases hs; exact h.2 _ _

theorem Prog.Quiet.small {t : Time} {p p' : Prog D W L N ε α} {c c' : Conn D W L} {ls : List L}
    (h : p.Quiet) (hs : p.small t c = some (ls, p', c')) :
    p'.Quiet ∧ ∀ t' c', (p'.exec t' c').1 = (p.exec t' c').1 := by
  cases p with
  | ret a => cases hs
  | fail e => cases hs
  | rollback next =>
    cases hs
    have hq : p'.Quiet := h
    exact ⟨hq, fun t' c' => hq.exec_fst t' t' c' _⟩
  | _ => cases h

/-! ## Histories -/

/-- `s` is where the calls of `h` lead, in the order in which they committed;
each has the answer it gets there, and a call that has not committed has none to give. -/
structure History (calls : Fin n → Prog D W L N ε α) (d : D) (s : Sys D W L N ε α n) (h : List (Fin n × Time)) :
    Prop where
  db : s.db = replay calls d h
  order : h.map Prod.fst = s.committed
  answer : ∀ pre p t post, h = pre ++ (p, t) :: post → (s.procs p).prog.Quiet ∧
    ∀ t' c, ((s.procs p).prog.exec t' c).1 = ((calls p).run t (replay calls d pre)).1
  silent : ∀ p, p ∉ s.committed → (calls p).MustCommit → (s.procs p).prog.MustCommit

theorem history_start (calls : Fin n → Prog D W L N ε α) (t : Time) (d : D) :
    History calls d (Sys.start t d calls) [] where
  db := rfl
  order := rfl
  answer pre p t post h := by cases pre <;> cases h
  silent _ _ h := h

theorem History.mem {calls : Fin n → Prog D W L N ε α} {d : D} {s : Sys D W L N ε α n} {h : List (Fin n × Time)}
    (hh : History calls d s h) {p : Fin n} (hp : p ∈ s.committed) :
    ∃ pre t post, h = pre ++ (p, t) :: post := by
  rw [← hh.order, List.mem_map] at hp
  obtain ⟨⟨q, t⟩, hm, rfl⟩ := hp
  obtain ⟨pre, post, he⟩ := List.append_of_mem hm
  exact ⟨pre, t, post, he⟩

theorem History.returned {calls : Fin n → Prog D W L N ε α} {d : D} {s : Sys D W L N ε α n}
    {h : List (Fin n × Time)} (hh : History calls d s h) {p : Fin n} {a : α} (hm : (calls p).MustCommit)
    (hr : (s.procs p).prog.result? = some (.ok a)) :
    ∃ pre t post, h = pre ++ (p, t) :: post ∧ ((calls p).run t (replay calls d pre)).1 = .ok a := by
  have hret : (s.procs p).prog = .ret a := by
    cases hp : (s.procs p).prog with
    | ret b => rw [hp] at hr; cases hr; rfl
    | fail e => rw [hp] at hr; cases hr
    | _ => rw [hp] at hr; cases hr
  have hmem : p ∈ s.committed := by
    by_contra hp
    have := hh.silent p hp hm
    rw [hret] at this
    exact this
  obtain ⟨pre, t, post, he⟩ := hh.mem hmem
  refine ⟨pre, t, post, he, ?_⟩
  have := (hh.answer pre p t post he).2 0 ⟨d, none⟩
  rw [hret] at this
  exact this.symm

section
variable {calls : Fin n → Prog D W L N ε α} {d : D} {s s' : Sys D W L N ε α n} {h : List (Fin n × Time)} {p : Fin n}

theorem History.err (hh : History calls d s h) (he : s.err p = some s') : History calls d s' h := by
  have hq : ∃ prog, s' = s.set p prog ⟨s.db, none⟩ ∧ ¬ (s.procs p).prog.Quiet ∧
      ((s.procs p).prog.MustCommit → prog.MustCommit) := by
    unfold Sys.err at he
    cases hp : (s.procs p).prog with
    | begin err next => rw [hp] at he; exact ⟨err, (Option.some.inj he).symm, id, fun h => h.1⟩
    | commit name err next => rw [hp] at he; exact ⟨err, (Option.some.inj he).symm, id, fun h => h⟩
    | step name err act next => rw [hp] at he; exact ⟨err, (Option.some.inj he).symm, id, fun h => h.1⟩
    | _ => rw [hp] at he; cases he
  obtain ⟨prog, rfl, hnq, hmust⟩ := hq
  refine ⟨hh.db, hh.order, fun pre q t post hpre => ?_, fun q hqc hm => ?_⟩
  · have hqp : q ≠ p := fun e => hnq (e ▸ (hh.answer pre q t post hpre).1)
    simpa only [Sys.set, Function.update_of_ne hqp] using hh.answer pre q t post hpre
  · by_cases hqp : q = p
    · subst hqp
      simpa only [Sys.set, Function.update_self] using hmust (hh.silent q hqc hm)
    · simpa only [Sys.set, Function.update_of_ne hqp] using hh.silent q hqc hm

theorem History.move (hh : History calls d s h) {ls : List L} {prog : Prog D W L N ε α} {c : Conn D W L}
    (hsm : (s.procs p).prog.small s.clock (s.conn p) = some (ls, prog, c)) (hn : s.commitsNow p = false)
    (hdb : c.db = s.db) : History calls d ((s.set p prog c).log (s.event p)) h := by
  have hcomm : ((s.set p prog c).log (s.event p)).committed = s.committed := by simp [committed_log, hn]
  refine ⟨hdb.trans hh.db, hh.order.trans hcomm.symm, fun pre q t post hpre => ?_, fun q hqc hm => ?_⟩
  · obtain ⟨hq, ha⟩ := hh.answer pre q t post hpre
    by_cases hqp : q = p
    · subst hqp
      obtain ⟨hq', ha'⟩ := hq.small hsm
      simp only [Sys.log, Sys.set, Function.update_self]
      exact ⟨hq', fun t' c' => (ha' t' c').trans (ha t' c')⟩
    · simp only [Sys.log, Sys.set, Function.update_of_ne hqp]
      exact ⟨hq, ha⟩
  · rw [hcomm] at hqc
    by_cases hqp : q = p
    · subst hqp
      simp only [Sys.log, Sys.set, Function.update_self]
      refine (hh.silent q hqc hm).small hsm fun name err next he => ?_
      simp [Sys.commitsNow, he] at hn
    · simpa only [Sys.log, Sys.set, Function.update_of_ne hqp] using hh.silent q hqc hm

theorem History.commit (hh : History calls d s h) {prog : Prog D W L N ε α} {c : Conn D W L}
    (hn : s.commitsNow p = true) {t : Time}
    (hat : CommitsAt calls s ((s.set p prog c).log (s.event p)) p t) :
    History calls d ((s.set p prog c).log (s.event p)) (h ++ [(p, t)]) := by
  have hnew : p ∉ s.committed := by
    intro hp
    obtain ⟨pre, t, post, he⟩ := hh.mem hp
    rw [commitsNow_of_quiet (hh.answer pre p t post he).1] at hn
    cases hn
  have hcomm : ((s.set p prog c).log (s.event p)).committed = s.committed ++ [p] := by simp [committed_log, hn]
  obtain ⟨hdb, hquiet, hans⟩ := hat
  refine ⟨?_, by rw [hcomm, List.map_append, hh.order]; rfl, fun pre q t' post he => ?_, fun q hqc hm => ?_⟩
  · rw [hdb, hh.db, replay_append]; rfl
  · rcases List.eq_nil_or_concat post with rfl | ⟨post', last, rfl⟩
    · -- the call that has just committed
      obtain ⟨rfl, hlast⟩ := List.append_inj' he rfl
      cases hlast
      rw [← hh.db]
      exact ⟨hquiet, hans⟩
    · have he' : h ++ [(p, t)] = (pre ++ (q, t') :: post') ++ [last] := by simpa using he
      have hpre := (List.append_inj' he' rfl).1
      have hqp : q ≠ p := by
        rintro rfl
        exact hnew (by rw [← hh.order, hpre]; simp)
      simpa only [Sys.log, Sys.set, Function.update_of_ne hqp] using hh.answer pre q t' post' hpre
  · rw [hcomm] at hqc
    simp only [List.mem_append, List.mem_singleton, not_or] at hqc
    simpa only [Sys.log, Sys.set, Function.update_of_ne hqc.2] using hh.silent q hqc.1 hm

end

variable [DecidableEq L]

/-! ## Invariants of runs -/

namespace Sys

def Along (C : Sys D W L N ε α n → Act n → Sys D W L N ε α n → Prop) : Sys D W L N ε α n → List (Act n) → Prop
  | _, [] => True
  | s, a :: as => ∀ s', s.act a = some s' → C s a s' ∧ Along C s' as

instance Along.dec (C : Sys D W L N ε α n → Act n → Sys D W L N ε α n → Prop) [∀ s a s', Decidable (C s a s')] :
    ∀ (s : Sys D W L N ε α n) (as : List (Act n)), Decidable (Along C s as)
  | _, [] => .isTrue trivial
  | s, a :: as =>
    match h : s.act a with
    | none => .isTrue fun s' h' => by rw [h] at h'; cases h'
    | some s' =>
      have := Along.dec C s' as
      decidable_of_iff (C s a s' ∧ Along C s' as)
        ⟨fun hc s'' h' => by rw [h] at h'; cases h'; exact hc, fun hc => hc s' h⟩

/-- **Run rule.** What every step that meets the condition keeps, the run keeps. -/
theorem runs_rule {P : Sys D W L N ε α n → Prop} {C : Sys D W L N ε α n → Act n → Sys D W L N ε α n → Prop}
    (hstep : ∀ s a s', P s → C s a s' → s.act a = some s' → P s') {s s' : Sys D W L N ε α n} {as : List (Act n)}
    (h : P s) (hC : s.Along C as) (hr : s.runs as = some s') : P s' := by
  induction as generalizing s with
  | nil => cases hr; exact h
  | cons a as ih =>
    simp only [runs, Option.bind_eq_some_iff] at hr
    obtain ⟨s₁, h₁, hr⟩ := hr
    obtain ⟨hc, hC⟩ := hC s₁ h₁
    exact ih (hstep s a s₁ h hc h₁) hC hr

theorem along_append {C : Sys D W L N ε α n → Act n → Sys D W L N ε α n → Prop} {s s' : Sys D W L N ε α n}
    {as bs : List (Act n)} (h : s.Along C (as ++ bs)) (hr : s.runs as = some s') : s.Along C as ∧ s'.Along C bs := by
  induction as generalizing s with
  | nil =>
    cases hr
    exact ⟨trivial, h⟩
  | cons a as ih =>
    obtain ⟨s₁, ha, hr⟩ := Option.bind_eq_some_iff.mp hr
    obtain ⟨hc, hrest⟩ := h s₁ ha
    obtain ⟨h1, h2⟩ := ih hrest hr
    refine ⟨fun s₂ ha' => ?_, h2⟩
    cases ha.symm.trans ha'
    exact ⟨hc, h1⟩

theorem along_true (s : Sys D W L N ε α n) (as : List (Act n)) : s.Along (fun _ _ _ => True) as := by
  induction as generalizing s with
  | nil => trivial
  | cons a as ih => exact fun s' _ => ⟨trivial, ih s'⟩

theorem runs_inv {P : Sys D W L N ε α n → Prop} (hstep : ∀ s a s', P s → s.act a = some s' → P s')
    {s s' : Sys D W L N ε α n} {as : List (Act n)} (h : P s) (hr : s.runs as = some s') : P s' :=
  runs_rule (fun s a s' hP _ ha => hstep s a s' hP ha) h (along_true s as) hr

end Sys

/-! ## Interleavings are serial -/

section
variable {G : Guard D W L} {I : D → Prop} {R : Fin n → Rely D W} {calls : Fin n → Prog D W L N ε α} {d : D}
  {s s' : Sys D W L N ε α n} {h : List (Fin n × Time)}

/-- One action adds at most one call to the history. -/
theorem history_step (hc : ∀ p, Call G I (R p) (calls p)) (hs : Inv G I R calls s)
    (hI : ∀ p t, I ((calls p).run t s.db).2) {a : Act n} (ha : s.act a = some s')
    (hr : ∀ p, a = .go p → Respects R calls s p s'.db) (hh : History calls d s h) :
    Inv G I R calls s' ∧ ∃ h', History calls d s' h' := by
  cases a with
  | tick dt =>
    cases ha
    exact ⟨⟨hs.db, hs.stage, hs.locks⟩, h, hh.db, hh.order, hh.answer, hh.silent⟩
  | err p => exact ⟨(err_inv hc hs ha).1, h, hh.err ha⟩
  | go p =>
    obtain ⟨hinv, hcm⟩ := go_inv hc hs (hI p) ha fun _ _ => hr p rfl
    refine ⟨hinv, ?_⟩
    obtain ⟨ls, prog, c, hsm, -, rfl⟩ := go_eq_some ha
    rcases hcm with ⟨hn, t, hat⟩ | ⟨hn, hdb⟩
    · exact ⟨_, hh.commit hn hat⟩
    · exact ⟨h, hh.move hsm hn hdb⟩

/-- **Serializability.** Calls that rely on their locks alone, interleaved in any
way, amount to a serial history of the calls that committed. -/
theorem serializable (hc : ∀ p, Call G I Rely.none (calls p)) (hI : ∀ p t d, I d → I ((calls p).run t d).2)
    (hd : I d) {t : Time} {as : List (Act n)} (hr : (Sys.start t d calls).runs as = some s) :
    Inv G I (fun _ => Rely.none) calls s ∧ ∃ h, History calls d s h := by
  refine Sys.runs_inv (P := fun s => Inv G I (fun _ => Rely.none) calls s ∧ ∃ h, History calls d s h)
    (fun s a s' hP ha => ?_) ⟨inv_start t d hd, [], history_start calls t d⟩ hr
  obtain ⟨hs, h, hh⟩ := hP
  exact history_step hc hs (fun p t => hI p t s.db hs.db) ha (fun p _ q _ _ => Or.inr trivial) hh

end

end

end Sql
