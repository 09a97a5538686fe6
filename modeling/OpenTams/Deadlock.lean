import Mathlib.Logic.Relation
import Mathlib.Order.Basic
import OpenTams.Interleave

/-!
# Waiting in a circle

A statement that asks for a lock which another transaction holds waits for that
transaction to end. Transactions that take their locks in the order of a rank
never wait for each other in a circle: along a chain of waits the rank of what is
held goes up. That a call takes its locks in order is shown by walking through
its statements (`Orders`); what the order of later locks depends on is said by a
condition on the states its statements see.
-/

namespace Sql

variable {D W L N ε α β R : Type} {n : Nat} [Writes W D] [Preorder R]

/-! ## Waits -/

namespace Sys

def asks (s : Sys D W L N ε α n) (p : Fin n) : List L :=
  match (s.procs p).prog.small s.clock (s.conn p) with
  | none => []
  | some (locks, _) => locks

/-- `p` asks for a lock of the kind `K` that `q` holds. -/
def Waits (K : L → Bool) (s : Sys D W L N ε α n) (p q : Fin n) : Prop :=
  p ≠ q ∧ ∃ ℓ ∈ s.asks p, K ℓ = true ∧ ℓ ∈ (s.conn q).held

instance [DecidableEq L] (K : L → Bool) (s : Sys D W L N ε α n) (p q : Fin n) : Decidable (s.Waits K p q) :=
  inferInstanceAs (Decidable (p ≠ q ∧ ∃ ℓ ∈ s.asks p, K ℓ = true ∧ ℓ ∈ (s.conn q).held))

/-- A circle of transactions, each waiting for the next. -/
def Deadlock (K : L → Bool) (s : Sys D W L N ε α n) : Prop := ∃ p, Relation.TransGen (s.Waits K) p p

end Sys

/-- Of its kind, the lock is held already or comes after all that are held. -/
def Follows (K : L → Bool) (rank : L → R) (held : List L) (ℓ : L) : Prop :=
  K ℓ = true → ℓ ∈ held ∨ ∀ ℓ' ∈ held, K ℓ' = true → rank ℓ' < rank ℓ

section
variable {K : L → Bool} {rank : L → R} {s : Sys D W L N ε α n} {p q : Fin n}

/-- Along a chain of waits the rank goes up. -/
theorem rank_lt_of_waits (hex : s.Exclusive) (hord : ∀ p, ∀ ℓ ∈ s.asks p, Follows K rank (s.conn p).held ℓ)
    (h : Relation.TransGen (s.Waits K) p q) :
    ∃ ℓ ∈ (s.conn q).held, K ℓ = true ∧ ∀ ℓ' ∈ (s.conn p).held, K ℓ' = true → rank ℓ' < rank ℓ := by
  have hwait : ∀ p q, s.Waits K p q →
      ∃ ℓ ∈ (s.conn q).held, K ℓ = true ∧ ∀ ℓ' ∈ (s.conn p).held, K ℓ' = true → rank ℓ' < rank ℓ := by
    rintro p q ⟨hne, ℓ, hask, hK, hheld⟩
    refine ⟨ℓ, hheld, hK, (hord p ℓ hask hK).resolve_left fun hp => ?_⟩
    exact hex p q hne ℓ hp hheld
  induction h with
  | single h => exact hwait p _ h
  | tail _ h ih =>
    obtain ⟨ℓ, hℓ, hK, hlt⟩ := ih
    obtain ⟨ℓ₁, hℓ₁, hK₁, hlt₁⟩ := hwait _ _ h
    exact ⟨ℓ₁, hℓ₁, hK₁, fun ℓ' hℓ' hK' => (hlt ℓ' hℓ' hK').trans (hlt₁ ℓ hℓ hK)⟩

/-- **Locks asked for in order are not waited for in a circle.** -/
theorem not_deadlock (hex : s.Exclusive) (hord : ∀ p, ∀ ℓ ∈ s.asks p, Follows K rank (s.conn p).held ℓ) :
    ¬ s.Deadlock K := by
  rintro ⟨p, h⟩
  obtain ⟨ℓ, hℓ, hK, hlt⟩ := rank_lt_of_waits hex hord h
  exact lt_irrefl _ (hlt ℓ hℓ hK)

end

/-! ## Calls that ask in order -/

def Holding (J : List L → Prop) : Option (List L) → Prop
  | none => False
  | some held => J held

namespace Prog

/-- Every statement of the call asks for locks that follow those it holds, if its statements see what
`V` says. `x` are the locks of the open transaction, and `Q` is what holds where the call ends. -/
def Orders (K : L → Bool) (rank : L → R) (V : N → D → Prop) (Q : α → Option (List L) → Prop) :
    Option (List L) → Prog D W L N ε α → Prop
  | x, .ret a => Q a x
  | _, .fail _ => True
  | _, .begin err next => err.Orders K rank V Q none ∧ next.Orders K rank V Q (some [])
  | _, .commit _ err next => err.Orders K rank V Q none ∧ next.Orders K rank V Q none
  | _, .rollback next => next.Orders K rank V Q none
  | x, .step name err act next => err.Orders K rank V Q none ∧ ∀ t v,
      (∀ ℓ ∈ (act t v).locks, Follows K rank (x.getD []) ℓ) ∧
        (V name v → (next t v).Orders K rank V Q (x.map (· ++ (act t v).locks)))

section
variable {K : L → Bool} {rank : L → R} {V : N → D → Prop} {x : Option (List L)} {held : List L}

omit [Writes W D] in
theorem Orders.mono {p : Prog D W L N ε α} {Q Q' : α → Option (List L) → Prop} (h : p.Orders K rank V Q x)
    (hQ : ∀ a x, Q a x → Q' a x) : p.Orders K rank V Q' x := by
  induction p generalizing x with
  | ret a => exact hQ a x h
  | fail e => trivial
  | begin err next ih ih' => exact ⟨ih h.1, ih' h.2⟩
  | commit name err next ih ih' => exact ⟨ih h.1, ih' h.2⟩
  | rollback next ih => exact ih h
  | step name err act next ih ih' =>
    exact ⟨ih h.1, fun t v => ⟨(h.2 t v).1, fun hv => ih' t v ((h.2 t v).2 hv)⟩⟩

omit [Writes W D] in
theorem Orders.bind {p : Prog D W L N ε α} {f : α → Prog D W L N ε β} {Q : β → Option (List L) → Prop}
    (h : p.Orders K rank V (fun a x => (f a).Orders K rank V Q x) x) : (p.bind f).Orders K rank V Q x := by
  induction p generalizing x with
  | ret a => exact h
  | fail e => trivial
  | begin err next ih ih' => exact ⟨ih h.1, ih' h.2⟩
  | commit name err next ih ih' => exact ⟨ih h.1, ih' h.2⟩
  | rollback next ih => exact ih h
  | step name err act next ih ih' =>
    exact ⟨ih h.1, fun t v => ⟨(h.2 t v).1, fun hv => ih' t v ((h.2 t v).2 hv)⟩⟩

omit [Writes W D] in
theorem Orders.seq {p : Prog D W L N ε α} {f : α → Prog D W L N ε β} {Q : β → Option (List L) → Prop}
    {J : List L → Prop} (h : p.Orders K rank V (fun _ => Holding J) x)
    (hf : ∀ a held, J held → (f a).Orders K rank V Q (some held)) : (p.bind f).Orders K rank V Q x := by
  refine Orders.bind (h.mono fun a x hx => ?_)
  cases x with
  | none => exact hx.elim
  | some held => exact hf a held hx

omit [Writes W D] in
theorem Orders.deferRollback {p : Prog D W L N ε α} (h : p.Orders K rank V (fun _ _ => True) x) :
    p.deferRollback.Orders K rank V (fun _ _ => True) x := by
  induction p generalizing x with
  | ret a => trivial
  | fail e => trivial
  | begin err next ih ih' => exact ⟨ih h.1, ih' h.2⟩
  | commit name err next ih ih' => exact ⟨ih h.1, ih' h.2⟩
  | rollback next ih => exact ih h
  | step name err act next ih ih' =>
    exact ⟨ih h.1, fun t v => ⟨(h.2 t v).1, fun hv => ih' t v ((h.2 t v).2 hv)⟩⟩

omit [Writes W D] in
theorem Orders.inTx {e : ε} {body : Prog D W L N ε α} (h : body.Orders K rank V (fun _ _ => True) (some [])) :
    (inTx e body).Orders K rank V (fun _ _ => True) x :=
  ⟨trivial, h.deferRollback⟩

omit [Writes W D] in
theorem orders_stmt {name : N} {e : ε} {act : Time → D → Eff W L} {q : Time → D → α}
    {Q : α → Option (List L) → Prop}
    (h : ∀ t v, (∀ ℓ ∈ (act t v).locks, Follows K rank held ℓ) ∧ (V name v → Q (q t v) (some (held ++ (act t v).locks)))) :
    (stmt name e act q).Orders K rank V Q (some held) :=
  ⟨trivial, h⟩

omit [Writes W D] in
theorem orders_stmtE {name : N} {e : ε} {act : Time → D → Eff W L} {q : Time → D → Except ε α}
    {Q : α → Option (List L) → Prop}
    (h : ∀ t v, (∀ ℓ ∈ (act t v).locks, Follows K rank held ℓ) ∧
      (V name v → ∀ a, q t v = .ok a → Q a (some (held ++ (act t v).locks)))) :
    (stmtE name e act q).Orders K rank V Q (some held) := by
  refine ⟨trivial, fun t v => ⟨(h t v).1, fun hv => ?_⟩⟩
  have ha := (h t v).2 hv
  dsimp only
  cases hq : q t v with
  | ok a => exact ha a hq
  | error e => trivial

omit [Writes W D] in
theorem orders_read {name : N} {e : ε} {q : Time → D → Except ε α} {Q : α → Option (List L) → Prop}
    (h : ∀ a, Q a (some held)) :
    (stmtE name e (fun _ _ => {}) q : Prog D W L N ε α).Orders K rank V Q (some held) := by
  refine orders_stmtE fun t v => ⟨fun ℓ hℓ => (by cases hℓ), fun _ a _ => ?_⟩
  rw [List.append_nil]
  exact h a

omit [Writes W D] in
/-- A loop, by what is held after the elements so far. -/
theorem orders_forEach {f : Nat → β → Prog D W L N ε Unit} {J : List β → List L → Prop} {as : List β}
    (hf : ∀ i pre a post held, as = pre ++ a :: post → J pre held →
      (f i a).Orders K rank V (fun _ => Holding (J (pre ++ [a]))) (some held))
    {i : Nat} (h : J [] held) : (forEach f i as).Orders K rank V (fun _ => Holding (J as)) (some held) := by
  suffices haux : ∀ pre post i held, as = pre ++ post → J pre held →
      (forEach f i post).Orders K rank V (fun _ => Holding (J as)) (some held) from haux [] as i held rfl h
  intro pre post
  induction post generalizing pre with
  | nil =>
    intro i held has hJ
    rw [List.append_nil] at has
    exact has ▸ hJ
  | cons a post ih =>
    intro i held has hJ
    refine Orders.seq (hf i pre a post held has hJ) fun _ held' hJ' => ?_
    exact ih (pre ++ [a]) (i + 1) held' (by rw [has, List.append_assoc]; rfl) hJ'

end

end Prog

/-! ## Runs -/

def Sys.Sees (V : Fin n → N → D → Prop) (s : Sys D W L N ε α n) : Act n → Prop
  | .go p => ∀ name ∈ (s.procs p).prog.name?, V p name (s.conn p).view
  | _ => True

instance (V : Fin n → N → D → Prop) [∀ p name d, Decidable (V p name d)] (s : Sys D W L N ε α n) :
    ∀ a, Decidable (s.Sees V a)
  | .go p => inferInstanceAs (Decidable (∀ name ∈ (s.procs p).prog.name?, V p name (s.conn p).view))
  | .err _ => .isTrue trivial
  | .tick _ => .isTrue trivial

section
variable {K : L → Bool} {rank : L → R} {V : Fin n → N → D → Prop} {s s' : Sys D W L N ε α n} {p : Fin n} {a : Act n}
  {prog : Prog D W L N ε α} {c : Conn D W L} {es : List (Event n N)} {calls : Fin n → Prog D W L N ε α}

def OrdersInv (K : L → Bool) (rank : L → R) (V : Fin n → N → D → Prop) (s : Sys D W L N ε α n) : Prop :=
  ∀ p, (s.procs p).prog.Orders K rank (V p) (fun _ _ => True) ((s.procs p).sess.map (·.held))

omit [Writes W D] in
theorem held_getD (s : Sys D W L N ε α n) (p : Fin n) : ((s.procs p).sess.map (·.held)).getD [] = (s.conn p).held := by
  rw [Sys.conn, Conn.held]
  cases (s.procs p).sess <;> rfl

theorem held_run (c : Conn D W L) (e : Eff W L) :
    (c.run e).sess.map (·.held) = (c.sess.map (·.held)).map (· ++ e.locks) := by
  rw [Conn.run]
  cases c.sess <;> rfl

theorem OrdersInv.follows (h : OrdersInv K rank V s) (p : Fin n) {ℓ : L} (hℓ : ℓ ∈ s.asks p) :
    Follows K rank (s.conn p).held ℓ := by
  have hp := h p
  have hheld := held_getD s p
  unfold Sys.asks at hℓ
  generalize (s.procs p).prog = k at hp hℓ
  cases k with
  | step name err act next => exact hheld ▸ (hp.2 _ _).1 ℓ hℓ
  | _ => cases hℓ

theorem OrdersInv.move (h : OrdersInv K rank V s) (hV : s.Sees V a) (hm : s.Moves a p prog c es) :
    OrdersInv K rank V ((s.set p prog c).log es) := by
  intro q
  by_cases hq : q = p
  swap
  · rw [procs_other s hq]
    exact h q
  subst hq
  rw [procs_moved]
  have hp := h q
  cases hm with
  | err he =>
    cases hprog : (s.procs q).prog with
    | begin err next => rw [hprog] at hp he; cases he; exact hp.1
    | commit name err next => rw [hprog] at hp he; cases he; exact hp.1
    | step name err act next => rw [hprog] at hp he; cases he; exact hp.1
    | _ => rw [hprog] at he; cases he
  | go hsm _ =>
    cases hprog : (s.procs q).prog with
    | ret a => rw [hprog] at hsm; cases hsm
    | fail e => rw [hprog] at hsm; cases hsm
    | begin err next => rw [hprog] at hp hsm; cases hsm; exact hp.2
    | commit name err next => rw [hprog] at hp hsm; cases hsm; exact hp.2
    | rollback next => rw [hprog] at hp hsm; cases hsm; exact hp
    | step name err act next =>
      have hv := hV name (by rw [hprog]; rfl)
      rw [hprog] at hp hsm
      cases hsm
      rw [held_run]
      exact (hp.2 ((s.conn q).now s.clock) (s.conn q).view).2 hv

/-- **Calls that ask in order never wait in a circle**, in any interleaving. -/
theorem not_deadlock_runs [DecidableEq L] (hcalls : ∀ p, (calls p).Orders K rank (V p) (fun _ _ => True) none) {t : Time}
    {d : D} {as : List (Act n)} (hr : (Sys.start t d calls).runs as = some s)
    (hV : (Sys.start t d calls).Along (fun s a _ => s.Sees V a) as) : ¬ s.Deadlock K := by
  have hinv : s.Exclusive ∧ OrdersInv K rank V s := by
    refine Sys.runs_moves (P := fun s => s.Exclusive ∧ OrdersInv K rank V s) (fun s dt h => h) ?_
      ⟨exclusive_start t d calls, hcalls⟩ hV hr
    intro s a p prog c es h hV hm
    exact ⟨h.1.move hm, h.2.move hV hm⟩
  exact not_deadlock hinv.1 fun p ℓ hℓ => hinv.2.follows p hℓ

end

end Sql
