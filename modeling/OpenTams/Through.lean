import OpenTams.Interleave

/-!
# Statements that stand before an answer

A call runs `Through` a statement if it returns certain answers only after it:
of a call that has returned one of those, the statement stands in the trace.
`Ends` says what a call can end with at all, whatever its statements find.
-/

namespace Sql

variable {D W L N ε α β : Type}

namespace Prog

/-- A value the call returns without having run `x` satisfies `R`. -/
def Through (x : N) (R : α → Prop) : Prog D W L N ε α → Prop
  | .ret a => R a
  | .fail _ => True
  | .begin err next => err.Through x R ∧ next.Through x R
  | .commit name err next => err.Through x R ∧ (name = x ∨ next.Through x R)
  | .rollback next => next.Through x R
  | .step name err _ next => err.Through x R ∧ (name = x ∨ ∀ t v, (next t v).Through x R)

variable {x : N} {R : α → Prop} {S : β → Prop}

theorem Through.bind {p : Prog D W L N ε α} {f : α → Prog D W L N ε β} (h : p.Through x R)
    (hf : ∀ a, R a → (f a).Through x S) : (p.bind f).Through x S := by
  induction p with
  | ret a => exact hf a h
  | fail e => trivial
  | begin err next ih ih' => exact ⟨ih h.1, ih' h.2⟩
  | commit name err next ih ih' => exact ⟨ih h.1, h.2.imp_right ih'⟩
  | rollback next ih => exact ih h
  | step name err act next ih ih' => exact ⟨ih h.1, h.2.imp_right fun h t v => ih' t v (h t v)⟩

theorem through_bind (p : Prog D W L N ε α) {f : α → Prog D W L N ε β} (hf : ∀ a, (f a).Through x S) :
    (p.bind f).Through x S := by
  induction p with
  | ret a => exact hf a
  | fail e => trivial
  | begin err next ih ih' => exact ⟨ih, ih'⟩
  | commit name err next ih ih' => exact ⟨ih, Or.inr ih'⟩
  | rollback next ih => exact ih
  | step name err act next ih ih' => exact ⟨ih, Or.inr ih'⟩

theorem Through.attempt {p : Prog D W L N ε α} (h : p.Through x R) :
    p.attempt.Through x fun r => ∀ a, r = .ok a → R a := by
  induction p with
  | ret a => rintro _ ⟨⟩; exact h
  | fail e => rintro _ ⟨⟩
  | begin err next ih ih' => exact ⟨ih h.1, ih' h.2⟩
  | commit name err next ih ih' => exact ⟨ih h.1, h.2.imp_right ih'⟩
  | rollback next ih => exact ih h
  | step name err act next ih ih' => exact ⟨ih h.1, h.2.imp_right fun h t v => ih' t v (h t v)⟩

theorem Through.deferRollback {p : Prog D W L N ε α} (h : p.Through x R) : p.deferRollback.Through x R := by
  induction p with
  | ret a => exact h
  | fail e => trivial
  | begin err next ih ih' => exact ⟨ih h.1, ih' h.2⟩
  | commit name err next ih ih' => exact ⟨ih h.1, h.2.imp_right ih'⟩
  | rollback next ih => exact ih h
  | step name err act next ih ih' => exact ⟨ih h.1, h.2.imp_right fun h t v => ih' t v (h t v)⟩

theorem Through.inTx {e : ε} {body : Prog D W L N ε α} (h : body.Through x R) : (inTx e body).Through x R :=
  ⟨trivial, h.deferRollback⟩

theorem through_commitThen {e : ε} {a : α} : (commitThen x e a : Prog D W L N ε α).Through x R :=
  ⟨trivial, Or.inl rfl⟩

/-! ## Ends -/

/-- Whatever its statements find, the call ends with an error in `E` or a value in `R`. -/
def Ends (E : ε → Prop) (R : α → Prop) : Prog D W L N ε α → Prop
  | .ret a => R a
  | .fail e => E e
  | .begin err next => err.Ends E R ∧ next.Ends E R
  | .commit _ err next => err.Ends E R ∧ next.Ends E R
  | .rollback next => next.Ends E R
  | .step _ err _ next => err.Ends E R ∧ ∀ t v, (next t v).Ends E R

section
variable {E : ε → Prop}

theorem Ends.bind {p : Prog D W L N ε α} {f : α → Prog D W L N ε β} (h : p.Ends E R) (hf : ∀ a, R a → (f a).Ends E S) :
    (p.bind f).Ends E S := by
  induction p with
  | ret a => exact hf a h
  | fail e => exact h
  | begin err next ih ih' => exact ⟨ih h.1, ih' h.2⟩
  | commit name err next ih ih' => exact ⟨ih h.1, ih' h.2⟩
  | rollback next ih => exact ih h
  | step name err act next ih ih' => exact ⟨ih h.1, fun t v => ih' t v (h.2 t v)⟩

theorem Ends.attempt {p : Prog D W L N ε α} (h : p.Ends E R) :
    p.attempt.Ends E fun r => (∀ e, r = .error e → E e) ∧ ∀ a, r = .ok a → R a := by
  induction p with
  | ret a => exact ⟨nofun, fun _ ha => by cases ha; exact h⟩
  | fail e => exact ⟨fun _ he => by cases he; exact h, nofun⟩
  | begin err next ih ih' => exact ⟨ih h.1, ih' h.2⟩
  | commit name err next ih ih' => exact ⟨ih h.1, ih' h.2⟩
  | rollback next ih => exact ih h
  | step name err act next ih ih' => exact ⟨ih h.1, fun t v => ih' t v (h.2 t v)⟩

theorem Ends.deferRollback {p : Prog D W L N ε α} (h : p.Ends E R) : p.deferRollback.Ends E R := by
  induction p with
  | ret a => exact h
  | fail e => exact h
  | begin err next ih ih' => exact ⟨ih h.1, ih' h.2⟩
  | commit name err next ih ih' => exact ⟨ih h.1, ih' h.2⟩
  | rollback next ih => exact ih h
  | step name err act next ih ih' => exact ⟨ih h.1, fun t v => ih' t v (h.2 t v)⟩

theorem ends_stmtE {name : N} {e : ε} {act : Time → D → Eff W L} {q : Time → D → Except ε α} (he : E e)
    (hq : ∀ t v e', q t v = .error e' → E e') : (stmtE name e act q).Ends E fun _ => True := by
  refine ⟨he, fun t v => ?_⟩
  dsimp only
  cases hr : q t v with
  | ok a => trivial
  | error e' => exact hq t v e' hr

theorem ends_forEach {f : Nat → α → Prog D W L N ε Unit} (h : ∀ i a, (f i a).Ends E fun _ => True) (i : Nat)
    (as : List α) :
    (forEach f i as).Ends E fun _ => True := by
  induction as generalizing i with
  | nil => trivial
  | cons a as ih => exact (h i a).bind fun _ _ => ih (i + 1)

theorem Ends.exec [Writes W D] {p : Prog D W L N ε α} (h : p.Ends E R) (t : Time) (c : Conn D W L) :
    (∃ e, (p.exec t c).1 = .error e ∧ E e) ∨ ∃ a, (p.exec t c).1 = .ok a ∧ R a := by
  induction p generalizing c with
  | ret a => exact Or.inr ⟨a, rfl, h⟩
  | fail e => exact Or.inl ⟨e, rfl, h⟩
  | begin err next _ ih => exact ih h.2 _
  | commit name err next _ ih => exact ih h.2 _
  | rollback next ih => exact ih h _
  | step name err act next _ ih => exact ih _ _ (h.2 _ _) _

theorem Ends.run [Writes W D] {p : Prog D W L N ε α} (h : p.Ends E R) (t : Time) (d : D) :
    (∃ e, (p.run t d).1 = .error e ∧ E e) ∨ ∃ a, (p.run t d).1 = .ok a ∧ R a :=
  h.exec t ⟨d, none⟩

end

end Prog

section
variable [Writes W D] {n : Nat} {s : Sys D W L N ε α n} {a : Act n} {p : Fin n} {prog : Prog D W L N ε α}
  {c : Conn D W L} {es : List (Event n N)} {x : N} {R : α → Prop}

theorem Prog.Through.move (h : (s.procs p).prog.Through x R) (hm : s.Moves a p prog c es) :
    (∃ e ∈ es, e.proc = p ∧ e.name = x) ∨ prog.Through x R := by
  cases hm with
  | err herr =>
    right
    cases hp : (s.procs p).prog with
    | begin e next => rw [hp] at herr h; cases herr; exact h.1
    | commit name e next => rw [hp] at herr h; cases herr; exact h.1
    | step name e act next => rw [hp] at herr h; cases herr; exact h.1
    | _ => rw [hp] at herr; cases herr
  | go hsm _ =>
    simp only [Sys.event]
    cases hp : (s.procs p).prog with
    | ret a => rw [hp] at hsm; cases hsm
    | fail e => rw [hp] at hsm; cases hsm
    | begin e next => rw [hp] at hsm h; cases hsm; exact Or.inr h.2
    | rollback next => rw [hp] at hsm h; cases hsm; exact Or.inr h
    | commit name e next =>
      rw [hp] at hsm h
      cases hsm
      exact h.2.imp_left fun hx => ⟨_, List.mem_singleton_self _, rfl, hx⟩
    | step name e act next =>
      rw [hp] at hsm h
      cases hsm
      exact h.2.imp (fun hx => ⟨_, List.mem_singleton_self _, rfl, hx⟩) fun hn => hn _ _

end

end Sql
