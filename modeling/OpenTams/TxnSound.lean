import OpenTams.Txn

/-!
# Running programs: composition and atomicity

`exec` follows the monad, so a call is reasoned about one statement at a time.
A call that opens a single transaction changes nothing unless it commits.
-/

namespace Sql

variable {D W L N ε α β : Type}

theorem Prog.bind_eq (p : Prog D W L N ε α) (f : α → Prog D W L N ε β) : p >>= f = p.bind f := rfl

@[simp] theorem Prog.pure_eq (a : α) : (pure a : Prog D W L N ε α) = .ret a := rfl

@[simp] theorem Prog.ret_bind (a : α) (f : α → Prog D W L N ε β) : (Prog.ret a >>= f) = f a := rfl

@[simp] theorem Prog.fail_bind (e : ε) (f : α → Prog D W L N ε β) : (Prog.fail e >>= f) = Prog.fail e := rfl

theorem Prog.bind_ret (p : Prog D W L N ε α) : p.bind .ret = p := by
  induction p with
  | ret a => rfl
  | fail e => rfl
  | begin err next ih ih' => simp only [Prog.bind, ih, ih']
  | commit name err next ih ih' => simp only [Prog.bind, ih, ih']
  | rollback next ih => simp only [Prog.bind, ih]
  | step name err act next ih ih' => simp only [Prog.bind, ih, ih']

theorem Prog.bind_assoc {γ : Type} (p : Prog D W L N ε α) (f : α → Prog D W L N ε β) (g : β → Prog D W L N ε γ) :
    (p.bind f).bind g = p.bind fun a => (f a).bind g := by
  induction p with
  | ret a => rfl
  | fail e => rfl
  | begin err next ih ih' => simp only [Prog.bind, ih, ih']
  | commit name err next ih ih' => simp only [Prog.bind, ih, ih']
  | rollback next ih => simp only [Prog.bind, ih]
  | step name err act next ih ih' => simp only [Prog.bind, ih, ih']

theorem Prog.map_bind {γ : Type} (p : Prog D W L N ε α) (f : α → Prog D W L N ε β) (g : β → γ) :
    (p >>= f).map g = p.bind fun a => (f a).map g :=
  p.bind_assoc f fun b => .ret (g b)

@[simp] theorem Conn.now_none (t : Time) (d : D) : (⟨d, none⟩ : Conn D W L).now t = t := rfl

@[simp] theorem Conn.now_some (t : Time) (d : D) (x : Sess W L) : (⟨d, some x⟩ : Conn D W L).now t = x.now := rfl

@[simp] theorem Sess.run_now (x : Sess W L) (e : Eff W L) : (x.run e).now = x.now := rfl

@[simp] theorem Sess.run_held (x : Sess W L) (e : Eff W L) : (x.run e).held = x.held ++ e.locks := rfl

variable [Writes W D]

@[simp] theorem writeAll_nil (d : D) : writeAll ([] : List W) d = d := rfl

@[simp] theorem writeAll_cons (w : W) (ws : List W) (d : D) :
    writeAll (w :: ws) d = writeAll ws (Writes.write w d) := rfl

theorem writeAll_append (ws ws' : List W) (d : D) : writeAll (ws ++ ws') d = writeAll ws' (writeAll ws d) := by
  simp [writeAll, List.foldl_append]

theorem writeAll_rule {J : D → Prop} {ws : List W} (h : ∀ w ∈ ws, ∀ d, J d → J (Writes.write w d)) {d : D} (hd : J d) :
    J (writeAll ws d) := by
  induction ws generalizing d with
  | nil => exact hd
  | cons w ws ih => exact ih (fun w' hw' => h w' (List.mem_cons_of_mem w hw')) (h w List.mem_cons_self d hd)

namespace Conn

@[simp] theorem view_none (d : D) : (⟨d, none⟩ : Conn D W L).view = d := rfl

@[simp] theorem view_some (d : D) (x : Sess W L) : (⟨d, some x⟩ : Conn D W L).view = writeAll x.pending d := rfl

@[simp] theorem run_some (d : D) (x : Sess W L) (e : Eff W L) :
    (⟨d, some x⟩ : Conn D W L).run e = ⟨d, some (x.run e)⟩ := rfl

@[simp] theorem run_none (d : D) (e : Eff W L) :
    (⟨d, none⟩ : Conn D W L).run e = ⟨writeAll e.writes d, none⟩ := rfl

end Conn

theorem Sess.view_run (x : Sess W L) (e : Eff W L) (d : D) :
    writeAll (x.run e).pending d = writeAll e.writes (writeAll x.pending d) :=
  writeAll_append _ _ _

namespace Prog

variable {t : Time} {c c' : Conn D W L}

theorem exec_bind (p : Prog D W L N ε α) (f : α → Prog D W L N ε β) (c : Conn D W L) :
    (p.bind f).exec t c = match p.exec t c with
      | (.ok a, c') => (f a).exec t c'
      | (.error e, c') => (.error e, c') := by
  induction p generalizing c with
  | ret a => rfl
  | fail e => rfl
  | begin err next _ ih => simp only [Prog.bind, exec, ih]
  | commit name err next _ ih => simp only [Prog.bind, exec, ih]
  | rollback next ih => simp only [Prog.bind, exec, ih]
  | step name err act next _ ih => simp only [Prog.bind, exec, ih]

theorem exec_attempt (p : Prog D W L N ε α) (c : Conn D W L) :
    p.attempt.exec t c = (.ok (p.exec t c).1, (p.exec t c).2) := by
  induction p generalizing c with
  | ret a => rfl
  | fail e => rfl
  | begin err next _ ih => simp only [attempt, exec, ih]
  | commit name err next _ ih => simp only [attempt, exec, ih]
  | rollback next ih => simp only [attempt, exec, ih]
  | step name err act next _ ih => simp only [attempt, exec, ih]

theorem exec_deferRollback (p : Prog D W L N ε α) (c : Conn D W L) :
    p.deferRollback.exec t c = ((p.exec t c).1, ⟨(p.exec t c).2.db, none⟩) := by
  induction p generalizing c with
  | ret a => rfl
  | fail e => rfl
  | begin err next _ ih => simp only [deferRollback, exec, ih]
  | commit name err next _ ih => simp only [deferRollback, exec, ih]
  | rollback next ih => simp only [deferRollback, exec, ih]
  | step name err act next _ ih => simp only [deferRollback, exec, ih]

@[simp] theorem exec_ret (a : α) (c : Conn D W L) : (ret a : Prog D W L N ε α).exec t c = (.ok a, c) := rfl

@[simp] theorem exec_fail (e : ε) (c : Conn D W L) : (fail e : Prog D W L N ε α).exec t c = (.error e, c) := rfl

theorem run_inTx (e : ε) (body : Prog D W L N ε α) (d : D) :
    (inTx e body).run t d =
      ((body.exec t ⟨d, some { now := t }⟩).1, (body.exec t ⟨d, some { now := t }⟩).2.db) := by
  simp only [run, inTx, exec, exec_deferRollback]

theorem run_map (p : Prog D W L N ε α) (f : α → β) (t : Time) (d : D) :
    (p.map f).run t d = ((p.run t d).1.map f, (p.run t d).2) := by
  simp only [run, Prog.map, exec_bind]
  rcases p.exec t ⟨d, none⟩ with ⟨r, c⟩
  cases r <;> rfl

theorem run_attempt (p : Prog D W L N ε α) (t : Time) (d : D) :
    p.attempt.run t d = (.ok (p.run t d).1, (p.run t d).2) := by
  simp only [run, exec_attempt]

theorem run_map_error {p : Prog D W L N ε α} {d d' : D} {e : ε} (h : p.run t d = (.error e, d')) (f : α → β) :
    (p.map f).run t d = (.error e, d') := by
  rw [run_map, h]
  rfl

end Prog

/-! ## Calls one after the other -/

section
variable {χ : Type} {calls : χ → Prog D W L N ε α}

theorem replay_append (d : D) (h h' : List (χ × Time)) :
    replay calls d (h ++ h') = replay calls (replay calls d h) h' := by
  simp [replay, List.foldl_append]

theorem replay_cons (d : D) (c : χ × Time) (h : List (χ × Time)) :
    replay calls d (c :: h) = replay calls ((calls c.1).run c.2 d).2 h := rfl

/-- What each call that meets the condition keeps, the run keeps. -/
theorem replay_rule {C : D → χ → Prop} {P : D → Prop} (hstep : ∀ x t d, P d → C d x → P ((calls x).run t d).2)
    {d : D} {h : List (χ × Time)} (hd : P d) (hC : Meets calls C d h) : P (replay calls d h) := by
  induction h generalizing d with
  | nil => exact hd
  | cons c h ih => exact ih (hstep c.1 c.2 d hd hC.1) hC.2

/-- Calls that meet the condition keep `P`, and one that does not ends outside `Q`: a run meets the
condition exactly if `Q` holds in every state on the way. `S` is what the answers are known to be. -/
theorem meets_iff_prefixes_of {C : D → χ → Prop} {P Q : D → Prop} {S : Except ε α → Prop} (hPQ : ∀ d, P d → Q d)
    (hstep : ∀ x t d, P d → S ((calls x).run t d).1 → C d x → P ((calls x).run t d).2)
    (hmust : ∀ x t d, P d → S ((calls x).run t d).1 → Q ((calls x).run t d).2 → C d x)
    {d : D} (hd : P d) {h : List (χ × Time)} (hS : ∀ a ∈ answers calls d h, S a) :
    Meets calls C d h ↔ ∀ h', h' <+: h → Q (replay calls d h') := by
  induction h generalizing d with
  | nil =>
    refine ⟨fun _ h' hp => ?_, fun _ => trivial⟩
    rw [List.prefix_nil.mp hp]
    exact hPQ d hd
  | cons c h ih =>
    obtain ⟨hc₀, hS⟩ := List.forall_mem_cons.mp hS
    constructor
    · rintro ⟨hc, hm⟩ h' hp
      rcases List.prefix_cons_iff.mp hp with rfl | ⟨h'', rfl, hp'⟩
      · exact hPQ d hd
      · exact (ih (hstep c.1 c.2 d hd hc₀ hc) hS).mp hm h'' hp'
    · intro hall
      have hc : C d c.1 :=
        hmust c.1 c.2 d hd hc₀ (hall [c] (List.prefix_cons_iff.mpr (Or.inr ⟨[], rfl, List.nil_prefix⟩)))
      refine ⟨hc, (ih (hstep c.1 c.2 d hd hc₀ hc) hS).mpr fun h' hp => ?_⟩
      exact hall (c :: h') (List.cons_prefix_cons.mpr ⟨rfl, hp⟩)

theorem meets_iff_prefixes {C : D → χ → Prop} {P Q : D → Prop} (hPQ : ∀ d, P d → Q d)
    (hstep : ∀ x t d, P d → C d x → P ((calls x).run t d).2) (hmust : ∀ x t d, P d → Q ((calls x).run t d).2 → C d x)
    {d : D} (hd : P d) {h : List (χ × Time)} : Meets calls C d h ↔ ∀ h', h' <+: h → Q (replay calls d h') :=
  meets_iff_prefixes_of (S := fun _ => True) hPQ (fun x t d hd _ => hstep x t d hd) (fun x t d hd _ => hmust x t d hd) hd
    fun _ _ => trivial

theorem meets_of_forall {P : χ → Prop} {h : List (χ × Time)} (hP : ∀ c ∈ h, P c.1) (d : D) :
    Meets calls (fun _ => P) d h := by
  induction h generalizing d with
  | nil => trivial
  | cons c h ih => exact ⟨hP c List.mem_cons_self, ih (fun c' hc' => hP c' (List.mem_cons_of_mem c hc')) _⟩

end

end Sql
