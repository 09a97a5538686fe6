import OpenTams.TxnSound

/-!
# Shapes of calls and weakest preconditions

`Wp` follows the statements of a transaction on the state it sees. Beside what
holds when the body returns or commits, it asks every statement to do the same
on all states related to the present one: with equality (`Alone`) this is plain
partial correctness, with agreement on locked rows it is what makes a
transaction serializable.
-/

namespace Sql

variable {D W L N ε α β : Type}

namespace Prog

/-! ## Shapes of calls -/

def Quiet : Prog D W L N ε α → Prop
  | .ret _ => True
  | .fail _ => True
  | .rollback next => next.Quiet
  | _ => False

instance Quiet.dec : ∀ p : Prog D W L N ε α, Decidable p.Quiet
  | .ret _ => .isTrue trivial
  | .fail _ => .isTrue trivial
  | .begin _ _ => .isFalse id
  | .commit _ _ _ => .isFalse id
  | .rollback next => Quiet.dec next
  | .step _ _ _ _ => .isFalse id

/-- Statements only: no transaction is opened or ended, and a failed statement fails the call. -/
def Flat : Prog D W L N ε α → Prop
  | .ret _ => True
  | .fail _ => True
  | .step _ err _ next => (∃ e, err = .fail e) ∧ ∀ t v, (next t v).Flat
  | _ => False

def Dead : Prog D W L N ε α → Prop
  | .fail _ => True
  | .step _ err _ next => (∃ e, err = .fail e) ∧ ∀ t v, (next t v).Dead
  | _ => False

/-- Inside a transaction: no second transaction, and nothing after the end of this one. -/
def OneTx : Prog D W L N ε α → Prop
  | .ret _ => True
  | .fail _ => True
  | .begin _ _ => False
  | .commit _ err next => err.Quiet ∧ next.Quiet
  | .rollback next => next.Quiet
  | .step _ err _ next => err.Quiet ∧ ∀ t v, (next t v).OneTx

def NoCommit : Prog D W L N ε α → Prop
  | .ret _ => True
  | .fail _ => True
  | .begin _ _ => False
  | .commit _ _ _ => False
  | .rollback next => next.Quiet
  | .step _ err _ next => err.Quiet ∧ ∀ t v, (next t v).NoCommit

theorem Quiet.deferRollback {p : Prog D W L N ε α} (hp : p.Quiet) : p.deferRollback.Quiet := by
  induction p with
  | ret a => trivial
  | fail e => trivial
  | rollback next ih => exact ih hp
  | _ => cases hp

theorem OneTx.deferRollback {p : Prog D W L N ε α} (hp : p.OneTx) : p.deferRollback.OneTx := by
  induction p with
  | ret a => trivial
  | fail e => trivial
  | begin err next _ _ => cases hp
  | commit name err next _ _ => exact ⟨hp.1.deferRollback, hp.2.deferRollback⟩
  | rollback next _ => exact Quiet.deferRollback hp
  | step name err act next _ ih => exact ⟨hp.1.deferRollback, fun t v => ih t v (hp.2 t v)⟩

theorem NoCommit.deferRollback {p : Prog D W L N ε α} (hp : p.NoCommit) : p.deferRollback.NoCommit := by
  induction p with
  | ret a => trivial
  | fail e => trivial
  | begin err next _ _ => cases hp
  | commit name err next _ _ => cases hp
  | rollback next _ => exact Quiet.deferRollback hp
  | step name err act next _ ih => exact ⟨hp.1.deferRollback, fun t v => ih t v (hp.2 t v)⟩

theorem Dead.noCommit {p : Prog D W L N ε α} (hp : p.Dead) : p.NoCommit := by
  induction p with
  | fail e => trivial
  | step name err act next _ ih =>
    obtain ⟨⟨e, rfl⟩, hn⟩ := hp
    exact ⟨trivial, fun t v => ih t v (hn t v)⟩
  | _ => cases hp

theorem Dead.bind {p : Prog D W L N ε α} (hp : p.Dead) (f : α → Prog D W L N ε β) : (p.bind f).Dead := by
  induction p with
  | fail e => trivial
  | step name err act next _ ih =>
    obtain ⟨⟨e, rfl⟩, hn⟩ := hp
    exact ⟨⟨e, rfl⟩, fun t v => ih t v (hn t v)⟩
  | _ => cases hp

theorem Flat.bind {p : Prog D W L N ε α} {f : α → Prog D W L N ε β} (hp : p.Flat) (hf : ∀ a, (f a).Flat) :
    (p.bind f).Flat := by
  induction p with
  | ret a => exact hf a
  | fail e => trivial
  | step name err act next _ ih =>
    obtain ⟨⟨e, rfl⟩, hn⟩ := hp
    exact ⟨⟨e, rfl⟩, fun t v => ih t v (hn t v)⟩
  | _ => cases hp

theorem Flat.bind_oneTx {p : Prog D W L N ε α} {f : α → Prog D W L N ε β} (hp : p.Flat)
    (hf : ∀ a, (f a).OneTx) : (p.bind f).OneTx := by
  induction p with
  | ret a => exact hf a
  | fail e => trivial
  | step name err act next _ ih =>
    obtain ⟨⟨e, rfl⟩, hn⟩ := hp
    exact ⟨trivial, fun t v => ih t v (hn t v)⟩
  | _ => cases hp

theorem flat_stmt (name : N) (e : ε) (act : Time → D → Eff W L) (q : Time → D → α) : (stmt name e act q).Flat :=
  ⟨⟨e, rfl⟩, fun _ _ => trivial⟩

theorem flat_query (name : N) (e : ε) (q : D → α) : (query name e q : Prog D W L N ε α).Flat :=
  flat_stmt name e _ _

theorem flat_stmtE (name : N) (e : ε) (act : Time → D → Eff W L) (q : Time → D → Except ε α) :
    (stmtE name e act q).Flat := by
  refine ⟨⟨e, rfl⟩, fun t v => ?_⟩
  dsimp only
  cases q t v <;> trivial

theorem flat_forEach {f : Nat → α → Prog D W L N ε Unit} (hf : ∀ i a, (f i a).Flat) (i : Nat) (as : List α) :
    (forEach f i as).Flat := by
  induction as generalizing i with
  | nil => trivial
  | cons a as ih => exact (hf i a).bind fun _ => ih (i + 1)

theorem oneTx_commitThen (name : N) (e : ε) (a : α) : (commitThen name e a : Prog D W L N ε α).OneTx :=
  ⟨trivial, trivial⟩

theorem Quiet.map {p : Prog D W L N ε α} (hp : p.Quiet) (f : α → β) : (p.map f).Quiet := by
  induction p with
  | ret a => trivial
  | fail e => trivial
  | rollback next ih => exact ih hp
  | _ => cases hp

theorem OneTx.map {p : Prog D W L N ε α} (hp : p.OneTx) (f : α → β) : (p.map f).OneTx := by
  induction p with
  | ret a => trivial
  | fail e => trivial
  | begin err next _ _ => cases hp
  | commit name err next _ _ => exact ⟨hp.1.map f, hp.2.map f⟩
  | rollback next _ => exact Quiet.map hp f
  | step name err act next _ ih => exact ⟨hp.1.map f, fun t v => ih t v (hp.2 t v)⟩

theorem NoCommit.map {p : Prog D W L N ε α} (hp : p.NoCommit) (f : α → β) : (p.map f).NoCommit := by
  induction p with
  | ret a => trivial
  | fail e => trivial
  | begin err next _ _ => cases hp
  | commit name err next _ _ => cases hp
  | rollback next _ => exact Quiet.map hp f
  | step name err act next _ ih => exact ⟨hp.1.map f, fun t v => ih t v (hp.2 t v)⟩

variable [Writes W D]

theorem Quiet.exec_db {p : Prog D W L N ε α} (hp : p.Quiet) (t : Time) (c : Conn D W L) :
    (p.exec t c).2.db = c.db := by
  induction p generalizing c with
  | ret a => rfl
  | fail e => rfl
  | rollback next ih => exact ih hp _
  | _ => cases hp

theorem Quiet.exec_fst {p : Prog D W L N ε α} (hp : p.Quiet) (t t' : Time) (c c' : Conn D W L) :
    (p.exec t c).1 = (p.exec t' c').1 := by
  induction p generalizing c c' with
  | ret a => rfl
  | fail e => rfl
  | rollback next ih => exact ih hp _ _
  | _ => cases hp

theorem NoCommit.exec_db {p : Prog D W L N ε α} (hp : p.NoCommit) (t : Time) (d : D) (x : Sess W L) :
    (p.exec t ⟨d, some x⟩).2.db = d := by
  induction p generalizing x with
  | ret a => rfl
  | fail e => rfl
  | rollback next _ => exact Quiet.exec_db hp t _
  | step name err act next _ ih => exact ih _ _ (hp.2 _ _) _
  | _ => cases hp

theorem Dead.exec_fst {p : Prog D W L N ε α} (hp : p.Dead) (t : Time) (c : Conn D W L) :
    ∃ e, (p.exec t c).1 = .error e := by
  induction p generalizing c with
  | fail e => exact ⟨e, rfl⟩
  | step name err act next _ ih => exact ih _ _ (hp.2 _ _) _
  | _ => cases hp

end Prog

/-! ## Invariants every statement keeps -/

section
variable [Writes W D]

def Prog.Keeps (J : D → Prop) : Prog D W L N ε α → Prop
  | .ret _ => True
  | .fail _ => True
  | .begin err next => err.Keeps J ∧ next.Keeps J
  | .commit _ err next => err.Keeps J ∧ next.Keeps J
  | .rollback next => next.Keeps J
  | .step _ err act next =>
    err.Keeps J ∧ (∀ t v, J v → J (writeAll (act t v).writes v)) ∧ ∀ t v, (next t v).Keeps J

namespace Prog

variable {J : D → Prop}

theorem Keeps.bind {p : Prog D W L N ε α} {f : α → Prog D W L N ε β} (hp : p.Keeps J) (hf : ∀ a, (f a).Keeps J) :
    (p.bind f).Keeps J := by
  induction p with
  | ret a => exact hf a
  | fail e => trivial
  | begin err next ih ih' => exact ⟨ih hp.1, ih' hp.2⟩
  | commit name err next ih ih' => exact ⟨ih hp.1, ih' hp.2⟩
  | rollback next ih => exact ih hp
  | step name err act next ih ih' => exact ⟨ih hp.1, hp.2.1, fun t v => ih' t v (hp.2.2 t v)⟩

theorem Keeps.deferRollback {p : Prog D W L N ε α} (hp : p.Keeps J) : p.deferRollback.Keeps J := by
  induction p with
  | ret a => trivial
  | fail e => trivial
  | begin err next ih ih' => exact ⟨ih hp.1, ih' hp.2⟩
  | commit name err next ih ih' => exact ⟨ih hp.1, ih' hp.2⟩
  | rollback next ih => exact ih hp
  | step name err act next ih ih' => exact ⟨ih hp.1, hp.2.1, fun t v => ih' t v (hp.2.2 t v)⟩

theorem keeps_stmt {name : N} {e : ε} {act : Time → D → Eff W L} {q : Time → D → α}
    (h : ∀ t v, J v → J (writeAll (act t v).writes v)) : (stmt name e act q).Keeps J :=
  ⟨trivial, h, fun _ _ => trivial⟩

theorem keeps_query {name : N} {e : ε} {q : D → α} : (query name e q : Prog D W L N ε α).Keeps J :=
  keeps_stmt fun _ _ h => h

theorem keeps_stmtE {name : N} {e : ε} {act : Time → D → Eff W L} {q : Time → D → Except ε α}
    (h : ∀ t v, J v → J (writeAll (act t v).writes v)) : (stmtE name e act q).Keeps J := by
  refine ⟨trivial, h, fun t v => ?_⟩
  dsimp only
  cases q t v <;> trivial

theorem keeps_forEach {f : Nat → α → Prog D W L N ε Unit} (hf : ∀ i a, (f i a).Keeps J) (i : Nat) (as : List α) :
    (forEach f i as).Keeps J := by
  induction as generalizing i with
  | nil => trivial
  | cons a as ih => exact (hf i a).bind fun _ => ih (i + 1)

theorem keeps_inTx {e : ε} {body : Prog D W L N ε α} (h : body.Keeps J) : (inTx e body).Keeps J :=
  ⟨trivial, h.deferRollback⟩

theorem keeps_commitThen {name : N} {e : ε} {a : α} : (commitThen name e a : Prog D W L N ε α).Keeps J :=
  ⟨trivial, trivial⟩

theorem Keeps.exec {p : Prog D W L N ε α} (hp : p.Keeps J) (t : Time) {c : Conn D W L} (hdb : J c.db)
    (hv : J c.view) : J (p.exec t c).2.db := by
  induction p generalizing c with
  | ret a => exact hdb
  | fail e => exact hdb
  | begin err next _ ih => exact ih hp.2 hdb hdb
  | commit name err next _ ih => exact ih hp.2 hv hv
  | rollback next ih => exact ih hp hdb hdb
  | step name err act next _ ih =>
    have hw := hp.2.1 (c.now t) c.view hv
    refine ih _ _ (hp.2.2 _ _) ?_ ?_ <;> obtain ⟨d, _ | x⟩ := c
    · exact hw
    · exact hdb
    · exact hw
    · rw [Conn.run_some, Conn.view_some, Sess.view_run]
      exact hw

theorem Keeps.run {p : Prog D W L N ε α} (hp : p.Keeps J) (t : Time) {d : D} (hd : J d) : J (p.run t d).2 :=
  hp.exec t hd hd

end Prog

end

/-! ## Weakest preconditions -/

section
variable [Writes W D] (A : List L → D → D → Prop) (t : Time)

/-- From a transaction that holds `ls` and sees `v`: the body returns uncommitted
with `Q`, or commits and returns with `C`, or fails. A statement must do the same
on every `v'` with `A` on the locks held after it, unless the body fails anyway. -/
def Wp (Q C : α → List L → D → Prop) : Prog D W L N ε α → List L → D → Prop
  | .ret a, ls, v => Q a ls v
  | .fail _, _, _ => True
  | .commit _ _ (.ret a), ls, v => C a ls v
  | .step _ _ act next, ls, v =>
    (next t v).Dead ∨
      ((∀ v', A (ls ++ (act t v).locks) v v' → act t v' = act t v ∧ next t v' = next t v) ∧
        Wp Q C (next t v) (ls ++ (act t v).locks) (writeAll (act t v).writes v))
  | _, _, _ => False

def Never (_ : α) (_ : List L) (_ : D) : Prop := False

def Alone (_ : List L) (v v' : D) : Prop := v = v'

variable {A t} {Q Q' C C' : α → List L → D → Prop} {ls : List L} {v : D}

theorem Alone.stable {γ δ : Type} {v : D} (f : D → γ) (g : D → δ) :
    ∀ v', Alone ls v v' → f v' = f v ∧ g v' = g v := by
  rintro _ rfl
  exact ⟨rfl, rfl⟩

theorem Wp.mono {p : Prog D W L N ε α} (h : Wp A t Q C p ls v) (hQ : ∀ a ls v, Q a ls v → Q' a ls v)
    (hC : ∀ a ls v, C a ls v → C' a ls v) : Wp A t Q' C' p ls v := by
  induction p generalizing ls v with
  | ret a => exact hQ _ _ _ h
  | fail e => trivial
  | commit name err next _ _ =>
    cases next with
    | ret a => exact hC _ _ _ h
    | _ => cases h
  | step name err act next _ ih =>
    rcases h with h | ⟨hst, hn⟩
    · exact Or.inl h
    · exact Or.inr ⟨hst, ih _ _ hn⟩
  | _ => cases h

theorem Wp.post {p : Prog D W L N ε α} (h : Wp A t Q C p ls v) (hQ : ∀ a ls v, Q a ls v → Q' a ls v) :
    Wp A t Q' C p ls v :=
  h.mono hQ fun _ _ _ => id

theorem Wp.bind {p : Prog D W L N ε α} {k : α → Prog D W L N ε β} {Q C : β → List L → D → Prop}
    (h : Wp A t (fun a ls v => Wp A t Q C (k a) ls v) Never p ls v) : Wp A t Q C (p.bind k) ls v := by
  induction p generalizing ls v with
  | ret a => exact h
  | fail e => trivial
  | commit name err next _ _ =>
    cases next with
    | ret a => exact h.elim
    | _ => cases h
  | step name err act next _ ih =>
    rcases h with h | ⟨hst, hn⟩
    · exact Or.inl (h.bind k)
    · refine Or.inr ⟨fun v' hA => ?_, ih _ _ hn⟩
      obtain ⟨h1, h2⟩ := hst v' hA
      exact ⟨h1, congrArg (fun q => Prog.bind q k) h2⟩
  | _ => cases h

theorem Wp.seq {p : Prog D W L N ε α} {k : α → Prog D W L N ε β} {R : α → List L → D → Prop}
    {Q C : β → List L → D → Prop} (h : Wp A t R Never p ls v)
    (hk : ∀ a ls v, R a ls v → Wp A t Q C (k a) ls v) : Wp A t Q C (p >>= k) ls v :=
  Wp.bind (h.post hk)

theorem wp_stmt {name : N} {e : ε} {act : Time → D → Eff W L} {q : Time → D → α}
    (hst : ∀ v', A (ls ++ (act t v).locks) v v' → act t v' = act t v ∧ q t v' = q t v)
    (h : Q (q t v) (ls ++ (act t v).locks) (writeAll (act t v).writes v)) :
    Wp A t Q C (Prog.stmt name e act q) ls v := by
  refine Or.inr ⟨fun v' hA => ?_, h⟩
  obtain ⟨h1, h2⟩ := hst v' hA
  exact ⟨h1, congrArg Prog.ret h2⟩

theorem wp_query {name : N} {e : ε} {q : D → α} (hst : ∀ v', A ls v v' → q v' = q v) (h : Q (q v) ls v) :
    Wp A t Q C (Prog.query name e q : Prog D W L N ε α) ls v := by
  refine wp_stmt (fun v' hA => ⟨rfl, hst v' (by simpa using hA)⟩) ?_
  simpa using h

theorem wp_stmtE {name : N} {e : ε} {act : Time → D → Eff W L} {q : Time → D → Except ε α}
    (h : ∀ a, q t v = .ok a →
      (∀ v', A (ls ++ (act t v).locks) v v' → act t v' = act t v ∧ q t v' = q t v) ∧
      Q a (ls ++ (act t v).locks) (writeAll (act t v).writes v)) :
    Wp A t Q C (Prog.stmtE name e act q) ls v := by
  cases hq : q t v with
  | error e =>
    refine Or.inl ?_
    simp only [hq]
    trivial
  | ok a =>
    obtain ⟨hst, hQ⟩ := h a hq
    refine Or.inr ⟨fun v' hA => ?_, ?_⟩
    · obtain ⟨h1, h2⟩ := hst v' hA
      exact ⟨h1, by simp only [h2]⟩
    · simp only [hq]
      exact hQ

theorem wp_dead {name : N} {e : ε} {act : Time → D → Eff W L} {q : Time → D → β}
    {k : β → Prog D W L N ε α} (h : (k (q t v)).Dead) : Wp A t Q C (Prog.stmt name e act q >>= k) ls v :=
  Or.inl h

theorem wp_commitThen {name : N} {e : ε} {a : α} (h : C a ls v) :
    Wp A t Q C (Prog.commitThen name e a : Prog D W L N ε α) ls v := h

/-- **Loop rule.** `J rest` holds whenever `rest` is still to be done. -/
theorem wp_forEach {γ : Type} {f : Nat → γ → Prog D W L N ε Unit} {J : Nat → List γ → List L → D → Prop}
    {C : Unit → List L → D → Prop}
    (hf : ∀ i a as ls v, J i (a :: as) ls v → Wp A t (fun _ ls v => J (i + 1) as ls v) Never (f i a) ls v)
    {i : Nat} {as : List γ} (h : J i as ls v) :
    Wp A t (fun _ ls v => J (i + as.length) [] ls v) C (Prog.forEach f i as) ls v := by
  induction as generalizing i ls v with
  | nil => exact h
  | cons a as ih =>
    refine Wp.bind ((hf i a as ls v h).post fun _ ls v hJ => ?_)
    have := ih hJ
    simpa [Nat.add_assoc, Nat.add_comm 1] using this

theorem wp_forEach_done {γ : Type} {f : Nat → γ → Prog D W L N ε Unit} {J : List γ → List L → D → Prop}
    {C : Unit → List L → D → Prop} {i : Nat} {as : List γ}
    (hf : ∀ a done rest ls v, as = done ++ a :: rest → J done ls v →
      Wp A t (fun _ ls v => J (done ++ [a]) ls v) Never (f (i + done.length) a) ls v) (h : J [] ls v) :
    Wp A t (fun _ ls v => J as ls v) C (Prog.forEach f i as) ls v := by
  refine (wp_forEach (J := fun k rest ls v => ∃ done, as = done ++ rest ∧ k = i + done.length ∧ J done ls v) ?_
    ⟨[], rfl, rfl, h⟩).post ?_
  · rintro k a rest ls v ⟨done, rfl, rfl, hJ⟩
    exact (hf a done rest ls v rfl hJ).post fun _ _ _ hJ => ⟨done ++ [a], by simp, by simp [Nat.add_assoc], hJ⟩
  · rintro _ ls v ⟨done, rfl, -, hJ⟩
    rwa [List.append_nil]

theorem wp_forEach_check {γ : Type} {f : Nat → γ → Prog D W L N ε Unit} {P : γ → Prop} {C : Unit → List L → D → Prop}
    (hf : ∀ i a ls, Wp A t (fun _ _ v' => v' = v ∧ P a) Never (f i a) ls v) {i : Nat} {as : List γ} :
    Wp A t (fun _ _ v' => v' = v ∧ ∀ a ∈ as, P a) C (Prog.forEach f i as) ls v := by
  refine wp_forEach_done (J := fun done _ v' => v' = v ∧ ∀ a ∈ done, P a) ?_ ⟨rfl, fun a ha => by cases ha⟩
  rintro a done rest ls v' - ⟨rfl, hJ⟩
  refine (hf _ a ls).post fun _ _ v' hv' => ⟨hv'.1, fun b hb => ?_⟩
  rcases List.mem_append.mp hb with hb | hb
  · exact hJ b hb
  · rw [List.mem_singleton.mp hb]; exact hv'.2

theorem Prog.Keeps.wp {J : D → Prop} {p : Prog D W L N ε α} (hp : p.Keeps J) (hf : p.Flat) (hv : J v) :
    Wp Alone t (fun _ _ v => J v) C p ls v := by
  induction p generalizing ls v with
  | ret a => exact hv
  | fail e => trivial
  | step name err act next _ ih =>
    exact Or.inr ⟨Alone.stable _ _, ih t v (hp.2.2 t v) (hf.2 t v) (hp.2.1 t v hv)⟩
  | _ => cases hf

/-! ## What a call run alone does -/

/-- The three ways a transaction can end. -/
theorem Wp.exec {p : Prog D W L N ε α} {d : D} {x : Sess W L}
    (h : Wp A x.now Q C p x.held (writeAll x.pending d)) :
    (∃ e, (p.exec x.now ⟨d, some x⟩).1 = .error e ∧ (p.exec x.now ⟨d, some x⟩).2.db = d) ∨
    (∃ a x', p.exec x.now ⟨d, some x⟩ = (.ok a, ⟨d, some x'⟩) ∧ Q a x'.held (writeAll x'.pending d)) ∨
    (∃ a ls v, p.exec x.now ⟨d, some x⟩ = (.ok a, ⟨v, none⟩) ∧ C a ls v) := by
  induction p generalizing x with
  | ret a => exact Or.inr (Or.inl ⟨a, x, rfl, h⟩)
  | fail e => exact Or.inl ⟨e, rfl, rfl⟩
  | commit name err next _ _ =>
    cases next with
    | ret a => exact Or.inr (Or.inr ⟨a, _, _, rfl, h⟩)
    | _ => cases h
  | step name err act next _ ih =>
    rcases h with h | ⟨_, hn⟩
    · obtain ⟨e, he⟩ := h.exec_fst x.now (Conn.run ⟨d, some x⟩ (act x.now (writeAll x.pending d)))
      exact Or.inl ⟨e, he, h.noCommit.exec_db _ _ _⟩
    · have := ih x.now (writeAll x.pending d) (x := x.run (act x.now (writeAll x.pending d)))
      simp only [Sess.run_now, Sess.run_held, Sess.view_run] at this
      exact this hn
  | _ => cases h

theorem Wp.run_inTx {e : ε} {p : Prog D W L N ε α} {d : D} (h : Wp A t Q C p [] d) :
    (∃ e', (Prog.inTx e p).run t d = (.error e', d)) ∨
    (∃ a ls v, (Prog.inTx e p).run t d = (.ok a, d) ∧ Q a ls v) ∨
    (∃ a ls v, (Prog.inTx e p).run t d = (.ok a, v) ∧ C a ls v) := by
  have hx := Wp.exec (x := { now := t }) (d := d) h
  rw [Prog.run_inTx]
  rcases hx with ⟨e', h1, h2⟩ | ⟨a, x', h1, hQ⟩ | ⟨a, ls, v, h1, hC⟩
  · exact Or.inl ⟨e', Prod.ext h1 h2⟩
  · simp only [h1]
    exact Or.inr (Or.inl ⟨a, _, _, rfl, hQ⟩)
  · simp only [h1]
    exact Or.inr (Or.inr ⟨a, ls, v, rfl, hC⟩)

theorem Wp.run_inTx_keeps {P : D → Prop} {e : ε} {p : Prog D W L N ε α} {d : D}
    (h : Wp A t Q (fun _ _ v => P v) p [] d) (hd : P d) : P ((Prog.inTx e p).run t d).2 := by
  rcases h.run_inTx (e := e) with ⟨_, he⟩ | ⟨_, _, _, he, -⟩ | ⟨_, _, _, he, hP⟩
  · rw [he]; exact hd
  · rw [he]; exact hd
  · rw [he]; exact hP

end

end Sql
