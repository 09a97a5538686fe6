import Mathlib.Data.Fintype.Basic

/-!
# Calls against a database under READ COMMITTED

A call of the application is a program of database statements. A statement
sees the committed state overlaid with the row versions its own transaction
has written, waits for the row locks it needs, and takes them; locks and
written versions stay with the transaction until it ends. `exec` runs one call
alone. `Sys` interleaves any number of calls, one statement at a time, and any
statement may fail instead, which ends its transaction.
-/

namespace Sql

abbrev Time := Int

/-- How a row version of type `W` is put into a state of type `D`. -/
class Writes (W D : Type) where
  write : W → D → D

structure Eff (W L : Type) where
  locks : List L := []
  writes : List W := []

/-- A call: what it sends to the database and what it does with each answer.
`err` is what the call does when the statement fails; `now` and the state a
statement sees are the arguments of `act` and `next`. -/
inductive Prog (D W L N ε α : Type) where
  | ret (a : α)
  | fail (e : ε)
  | begin (err next : Prog D W L N ε α)
  | commit (name : N) (err next : Prog D W L N ε α)
  | rollback (next : Prog D W L N ε α)
  | step (name : N) (err : Prog D W L N ε α) (act : Time → D → Eff W L)
      (next : Time → D → Prog D W L N ε α)

variable {D W L N ε α β : Type}

namespace Prog

def bind : Prog D W L N ε α → (α → Prog D W L N ε β) → Prog D W L N ε β
  | .ret a, f => f a
  | .fail e, _ => .fail e
  | .begin err next, f => .begin (err.bind f) (next.bind f)
  | .commit name err next, f => .commit name (err.bind f) (next.bind f)
  | .rollback next, f => .rollback (next.bind f)
  | .step name err act next, f => .step name (err.bind f) act fun t v => (next t v).bind f

instance : Monad (Prog D W L N ε) where
  pure := .ret
  bind := bind

/-- Runs `p` and hands its error to the caller as a value. -/
def attempt : Prog D W L N ε α → Prog D W L N ε (Except ε α)
  | .ret a => .ret (.ok a)
  | .fail e => .ret (.error e)
  | .begin err next => .begin err.attempt next.attempt
  | .commit name err next => .commit name err.attempt next.attempt
  | .rollback next => .rollback next.attempt
  | .step name err act next => .step name err.attempt act fun t v => (next t v).attempt

/-- `defer tx.Rollback()`: however the rest of the call ends, it rolls back last. -/
def deferRollback : Prog D W L N ε α → Prog D W L N ε α
  | .ret a => .rollback (.ret a)
  | .fail e => .rollback (.fail e)
  | .begin err next => .begin err.deferRollback next.deferRollback
  | .commit name err next => .commit name err.deferRollback next.deferRollback
  | .rollback next => .rollback next.deferRollback
  | .step name err act next => .step name err.deferRollback act fun t v => (next t v).deferRollback

def stmt (name : N) (e : ε) (act : Time → D → Eff W L) (q : Time → D → α) : Prog D W L N ε α :=
  .step name (.fail e) act fun t v => .ret (q t v)

def query (name : N) (e : ε) (q : D → α) : Prog D W L N ε α :=
  stmt name e (fun _ _ => {}) fun _ => q

def stmtE (name : N) (e : ε) (act : Time → D → Eff W L) (q : Time → D → Except ε α) : Prog D W L N ε α :=
  .step name (.fail e) act fun t v => match q t v with
    | .ok a => .ret a
    | .error e => .fail e

def inTx (e : ε) (body : Prog D W L N ε α) : Prog D W L N ε α :=
  .begin (.fail e) body.deferRollback

def commitThen (name : N) (e : ε) (a : α) : Prog D W L N ε α :=
  .commit name (.fail e) (.ret a)

def forEach (f : Nat → α → Prog D W L N ε Unit) (i : Nat) : List α → Prog D W L N ε Unit
  | [] => .ret ()
  | a :: as => (f i a).bind fun _ => forEach f (i + 1) as

def map (f : α → β) (p : Prog D W L N ε α) : Prog D W L N ε β := p.bind fun a => .ret (f a)

def result? : Prog D W L N ε α → Option (Except ε α)
  | .ret a => some (.ok a)
  | .fail e => some (.error e)
  | _ => none

def name? : Prog D W L N ε α → Option N
  | .commit name _ _ => some name
  | .step name _ _ _ => some name
  | _ => none

end Prog

/-! ## One call alone -/

section
variable [Writes W D]

def writeAll (ws : List W) (d : D) : D :=
  ws.foldl (fun d w => Writes.write w d) d

structure Sess (W L : Type) where
  now : Time
  pending : List W := []
  held : List L := []

def Sess.run (x : Sess W L) (e : Eff W L) : Sess W L where
  now := x.now
  pending := x.pending ++ e.writes
  held := x.held ++ e.locks

structure Conn (D W L : Type) where
  db : D
  sess : Option (Sess W L) := none

namespace Conn

def view (c : Conn D W L) : D :=
  match c.sess with
  | none => c.db
  | some x => writeAll x.pending c.db

def now (t : Time) (c : Conn D W L) : Time :=
  match c.sess with
  | none => t
  | some x => x.now

/-- Outside a transaction a statement commits by itself. -/
def run (c : Conn D W L) (e : Eff W L) : Conn D W L :=
  match c.sess with
  | none => ⟨writeAll e.writes c.db, none⟩
  | some x => ⟨c.db, some (x.run e)⟩

def held (c : Conn D W L) : List L :=
  match c.sess with
  | none => []
  | some x => x.held

end Conn

namespace Prog

/-- One statement at time `t`: the locks it takes, the rest of the call, and the state after it. -/
def small (t : Time) : Prog D W L N ε α → Conn D W L → Option (List L × Prog D W L N ε α × Conn D W L)
  | .ret _, _ => none
  | .fail _, _ => none
  | .begin _ next, c => some ([], next, ⟨c.db, some { now := t }⟩)
  | .commit _ _ next, c => some ([], next, ⟨c.view, none⟩)
  | .rollback next, c => some ([], next, ⟨c.db, none⟩)
  | .step _ _ act next, c =>
    some ((act (c.now t) c.view).locks, next (c.now t) c.view, c.run (act (c.now t) c.view))

/-- The whole call at time `t` with nobody else running and no statement failing. -/
def exec (t : Time) : Prog D W L N ε α → Conn D W L → Except ε α × Conn D W L
  | .ret a, c => (.ok a, c)
  | .fail e, c => (.error e, c)
  | .begin _ next, c => exec t next ⟨c.db, some { now := t }⟩
  | .commit _ _ next, c => exec t next ⟨c.view, none⟩
  | .rollback next, c => exec t next ⟨c.db, none⟩
  | .step _ _ act next, c => exec t (next (c.now t) c.view) (c.run (act (c.now t) c.view))

def run (t : Time) (p : Prog D W L N ε α) (d : D) : Except ε α × D :=
  ((p.exec t ⟨d, none⟩).1, (p.exec t ⟨d, none⟩).2.db)

end Prog

/-! ## Calls one after the other -/

section
variable {χ : Type} (calls : χ → Prog D W L N ε α)

def replay (d : D) (h : List (χ × Time)) : D :=
  h.foldl (fun d c => ((calls c.1).run c.2 d).2) d

def answers (d : D) : List (χ × Time) → List (Except ε α)
  | [] => []
  | c :: h => ((calls c.1).run c.2 d).1 :: answers ((calls c.1).run c.2 d).2 h

def Meets (C : D → χ → Prop) (d : D) : List (χ × Time) → Prop
  | [] => True
  | c :: h => C d c.1 ∧ Meets C ((calls c.1).run c.2 d).2 h

instance Meets.dec (C : D → χ → Prop) [∀ d x, Decidable (C d x)] :
    ∀ (d : D) (h : List (χ × Time)), Decidable (Meets calls C d h)
  | _, [] => .isTrue trivial
  | d, c :: h =>
    have := Meets.dec C ((calls c.1).run c.2 d).2 h
    inferInstanceAs (Decidable (C d c.1 ∧ Meets calls C ((calls c.1).run c.2 d).2 h))

end

/-! ## Calls interleaved -/

structure Proc (D W L N ε α : Type) where
  prog : Prog D W L N ε α
  sess : Option (Sess W L) := none

/-- A statement that has run; `commits` if its effect became visible to others with it. -/
structure Event (n : Nat) (N : Type) where
  proc : Fin n
  name : N
  commits : Bool
  deriving DecidableEq

/-- `n` calls against one database; `trace` lists the statements they have run. -/
structure Sys (D W L N ε α : Type) (n : Nat) where
  clock : Time
  db : D
  procs : Fin n → Proc D W L N ε α
  trace : List (Event n N) := []

/-- One call runs its next statement, one call's next statement fails, or time passes. -/
inductive Act (n : Nat) where
  | go (p : Fin n)
  | err (p : Fin n)
  | tick (dt : Nat)
  deriving DecidableEq

def Act.turns (m : Nat) (ps : List Nat) : List (Act (m + 1)) := ps.map fun i => .go (Fin.ofNat (m + 1) i)

namespace Sys

variable {n : Nat}

def start (t : Time) (d : D) (calls : Fin n → Prog D W L N ε α) : Sys D W L N ε α n where
  clock := t
  db := d
  procs p := { prog := calls p }

def conn (s : Sys D W L N ε α n) (p : Fin n) : Conn D W L := ⟨s.db, (s.procs p).sess⟩

def Free (s : Sys D W L N ε α n) (p : Fin n) (locks : List L) : Prop :=
  ∀ q, q ≠ p → ∀ ℓ ∈ locks, ℓ ∉ (s.conn q).held

instance [DecidableEq L] (s : Sys D W L N ε α n) (p : Fin n) (locks : List L) : Decidable (s.Free p locks) :=
  inferInstanceAs (Decidable (∀ q, q ≠ p → ∀ ℓ ∈ locks, ℓ ∉ (s.conn q).held))

def set (s : Sys D W L N ε α n) (p : Fin n) (prog : Prog D W L N ε α) (c : Conn D W L) : Sys D W L N ε α n where
  clock := s.clock
  db := c.db
  procs := Function.update s.procs p ⟨prog, c.sess⟩
  trace := s.trace

/-- The next statement of `p` is a commit, or commits by itself. -/
def commitsNow (s : Sys D W L N ε α n) (p : Fin n) : Bool :=
  match (s.procs p).prog with
  | .commit _ _ _ => true
  | .step _ _ _ _ => (s.procs p).sess.isNone
  | _ => false

def event (s : Sys D W L N ε α n) (p : Fin n) : List (Event n N) :=
  ((s.procs p).prog.name?.map fun name => ⟨p, name, s.commitsNow p⟩).toList

def log (s : Sys D W L N ε α n) (es : List (Event n N)) : Sys D W L N ε α n :=
  { s with trace := s.trace ++ es }

variable [DecidableEq L]

def go (s : Sys D W L N ε α n) (p : Fin n) : Option (Sys D W L N ε α n) :=
  match (s.procs p).prog.small s.clock (s.conn p) with
  | none => none
  | some (locks, prog, c) =>
    if s.Free p locks then some ((s.set p prog c).log (s.event p)) else none

/-- The next statement of `p` fails: its transaction is gone and the call takes its error path. -/
def err (s : Sys D W L N ε α n) (p : Fin n) : Option (Sys D W L N ε α n) :=
  match (s.procs p).prog with
  | .begin err _ => some (s.set p err ⟨s.db, none⟩)
  | .commit _ err _ => some (s.set p err ⟨s.db, none⟩)
  | .step _ err _ _ => some (s.set p err ⟨s.db, none⟩)
  | _ => none

def act (s : Sys D W L N ε α n) : Act n → Option (Sys D W L N ε α n)
  | .go p => s.go p
  | .err p => s.err p
  | .tick dt => some { s with clock := s.clock + dt }

/-- A schedule, run from `s`; `none` if some action of it is not possible. -/
def runs (s : Sys D W L N ε α n) : List (Act n) → Option (Sys D W L N ε α n)
  | [] => some s
  | a :: as => (s.act a).bind fun s' => s'.runs as

def committed (s : Sys D W L N ε α n) : List (Fin n) :=
  (s.trace.filter (·.commits)).map (·.proc)

def ran [DecidableEq N] (s : Sys D W L N ε α n) (p : Fin n) (x : N) : Bool :=
  s.trace.any fun e => e.proc = p && e.name = x

def Ended (s : Sys D W L N ε α n) : Prop :=
  ∀ p, (s.procs p).prog.result?.isSome

end Sys

end

end Sql
