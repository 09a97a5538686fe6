import OpenTams.Eval

/-!
# Programs of two sets of statements

A program whose statements are renamed runs as it did, so that programs of two sets
of statements become programs of one.
-/

namespace Sql

variable {D W L N M ε α : Type}

def Prog.rename (f : N → M) : Prog D W L N ε α → Prog D W L M ε α
  | .ret a => .ret a
  | .fail e => .fail e
  | .begin err next => .begin (err.rename f) (next.rename f)
  | .commit name err next => .commit (f name) (err.rename f) (next.rename f)
  | .rollback next => .rollback (next.rename f)
  | .step name err act next => .step (f name) (err.rename f) act fun t v => (next t v).rename f

variable [Writes W D]

theorem Prog.exec_rename (f : N → M) (p : Prog D W L N ε α) (t : Time) (c : Conn D W L) :
    (p.rename f).exec t c = p.exec t c := by
  induction p generalizing c with
  | ret a => rfl
  | fail e => rfl
  | begin err next _ ih => exact ih _
  | commit name err next _ ih => exact ih _
  | rollback next ih => exact ih _
  | step name err act next _ ih => exact ih _ _ _

@[simp] theorem Prog.run_rename (f : N → M) (p : Prog D W L N ε α) (t : Time) (d : D) :
    (p.rename f).run t d = p.run t d := by
  simp only [Prog.run, Prog.exec_rename]

theorem Prog.Settles.rename {p : Prog D W L N ε α} (h : p.Settles) (f : N → M) : (p.rename f).Settles := by
  intro t d
  rw [Prog.exec_rename]
  exact h t d

end Sql
