import OpenTams.UpsertConc

/-!
# Formats of flows and sources

Any number of `UpsertFlow` and `DeleteFlow` transactions at once. The checks that
precede an insert or an update are unlocked, and what they found may be gone by
then. The invariant holds all the same: a source is inserted by one transaction
only and keeps its format, and an update writes over the row it finds.
-/

namespace OpenTams

open Sql Sql.Prog

def FormatsAgree (d : DB) : Prop :=
  ∀ r ∈ d.flows.rows, ∃ src, d.sources.get r.sourceId = some src ∧ src.format = r.format

def OriginsKept (d d' : DB) : Prop :=
  ∀ g r r', d.flows.get g = some r → d'.flows.get g = some r' → r'.sourceId = r.sourceId ∧ r'.format = r.format

inductive FlowTx where
  | upsertFlow (f : Flow)
  | deleteFlow (id : Uuid)

def FlowTx.prog : FlowTx → Tx Answer
  | .upsertFlow f => (OpenTams.upsertFlow f).map .created
  | .deleteFlow id => (OpenTams.deleteFlow id).map fun _ => .done

/-! ## Locks on sources and flows -/

/-- What the locks of sources and flows protect; no other lock protects anything here. -/
def Lock.SameRow : Lock → DB → DB → Prop
  | .source i, d, d' => d.sources.get i = d'.sources.get i
  | .flow g, d, d' => d.flows.get g = d'.flows.get g
  | _, _, _ => True

theorem Lock.SameRow.write {ℓ : Lock} {d d' : DB} (w : Write) (h : ℓ.SameRow d d') :
    ℓ.SameRow (d.write w) (d'.write w) := by
  cases ℓ with
  | source i => cases w <;> simp_all only [Lock.SameRow, DB.write, Table.get_put]
  | flow g => cases w <;> simp_all only [Lock.SameRow, DB.write, Table.get_put, Table.get_del]
  | _ => trivial

def rowGuard : Guard DB Write Lock where
  same := Lock.SameRow
  refl ℓ d := by cases ℓ <;> first | rfl | trivial
  trans {ℓ} _ _ _ h h' := by
    cases ℓ with
    | source i => exact Eq.trans h h'
    | flow g => exact Eq.trans h h'
    | _ => trivial
  congr w h := h.write w

theorem guardsRows_rowGuard : GuardsRows rowGuard where
  source h := h
  flow h := h
  putSource r v := by
    intro ℓ hℓ
    cases ℓ with
    | source i =>
      have hne : r.id ≠ i := fun e => hℓ (by simp [e])
      exact (Table.get_put_ne v.sources hne).symm
    | _ => first | rfl | trivial
  putFlow r v := by
    intro ℓ hℓ
    cases ℓ with
    | flow g =>
      have hne : r.id ≠ g := fun e => hℓ (by simp [e])
      exact (Table.get_put_ne v.flows hne).symm
    | _ => first | rfl | trivial

def keepingSources : Rely DB Write where
  rel := SourcesKept
  refl := .refl
  trans := .trans
  congr w h := h.write w

def KeepsOrigins (d d' : DB) : Prop := OriginsKept d d' ∧ SourcesKept d d'

section
variable {d v : DB} {f : Flow} {x : Sess Write Lock} {t now : Time}

/-! ## Commits -/

theorem FormatsAgree.putFlow {r : FlowRow} (hd : FormatsAgree d) (hv : v.flows = d.flows) (hs : SourcesKept d v)
    (hr : ∃ src, v.sources.get r.sourceId = some src ∧ src.format = r.format) :
    FormatsAgree (v.write (.putFlow r)) := by
  intro r' hr'
  have hget := Table.get_of_mem hr'
  by_cases hid : r.id = r'.id
  · rw [← hid, show (v.write (.putFlow r)).flows = v.flows.put r from rfl, Table.get_put_self] at hget
    cases hget
    exact hr
  · have hold : d.flows.get r'.id = some r' := by
      rw [← hv]
      exact (Table.get_put_ne v.flows hid).symm.trans hget
    obtain ⟨src, hsrc, hf⟩ := hd r' (Table.mem_of_get hold)
    obtain ⟨src', hsrc', hf'⟩ := hs _ _ hsrc
    exact ⟨src', hsrc', hf'.trans hf⟩

theorem originsKept_putFlow {r : FlowRow} (hv : v.flows = d.flows)
    (hr : ∀ r₀, d.flows.get r.id = some r₀ → r.sourceId = r₀.sourceId ∧ r.format = r₀.format) :
    OriginsKept d (v.write (.putFlow r)) := by
  intro g r₀ r' h h'
  by_cases hid : r.id = g
  · subst hid
    rw [show (v.write (.putFlow r)).flows = v.flows.put r from rfl, Table.get_put_self] at h'
    cases h'
    exact hr r₀ h
  · have hold : d.flows.get g = some r' := by
      rw [← hv]
      exact (Table.get_put_ne v.flows hid).symm.trans h'
    cases h.symm.trans hold
    exact ⟨rfl, rfl⟩

theorem OriginsKept.refl (d : DB) : OriginsKept d d := by
  intro g r r' h h'
  cases h.symm.trans h'
  exact ⟨rfl, rfl⟩

/-! ## UpsertFlow -/

theorem creating_delivers (hd : FormatsAgree d) (h : Creating f x d) :
    Delivers rowGuard FormatsAgree KeepsOrigins x d := by
  refine h.delivers guardsRows_rowGuard fun v now hv hkept hsrc => ?_
  have hflows : v.flows = d.flows := by rw [hv]
  refine ⟨hd.putFlow hflows hkept hsrc, originsKept_putFlow hflows fun r₀ hr₀ => ?_, hkept⟩
  cases h.flow.symm.trans hr₀

theorem updating_delivers (hd : FormatsAgree d) (h : Updating f x d) :
    Delivers rowGuard FormatsAgree KeepsOrigins x d := by
  refine h.delivers guardsRows_rowGuard hd ⟨.refl d, .refl d⟩ fun r now hr => ?_
  have hid : r.id = f.id := Table.key_of_get hr
  refine ⟨hd.putFlow rfl (.refl d) (hd r (Table.mem_of_get hr)), originsKept_putFlow rfl fun r₀ hr₀ => ?_, .refl d⟩
  cases hr.symm.trans ((show (updatedFlowRow f now r).id = f.id from hid) ▸ hr₀)
  exact ⟨rfl, rfl⟩

theorem obeys_upsertFlow (f : Flow) : Obeys rowGuard FormatsAgree keepingSources KeepsOrigins (upsertFlow f) := by
  refine Obeys.inTx (Q := fun _ _ _ => True) fun t d _ => ?_
  refine rg_upsertBody (K := fun _ => True) guardsRows_rowGuard (fun _ _ h => h) (fun _ _ _ _ _ _ => trivial)
    (fun _ _ _ _ => trivial) (fun x d hd h => creating_delivers hd h) fun x d hd h _ => updating_delivers hd h

/-! ## DeleteFlow -/

def Write.offCatalog : Write → Bool
  | .putSource _ => false
  | .putFlow _ => false
  | .delFlow _ => false
  | _ => true

theorem writeAll_offCatalog {ws : List Write} (h : ∀ w ∈ ws, w.offCatalog = true) (d : DB) :
    (writeAll ws d).flows = d.flows ∧ (writeAll ws d).sources = d.sources := by
  refine writeAll_rule (J := fun v : DB => v.flows = d.flows ∧ v.sources = d.sources) (fun w hw v hv => ?_) ⟨rfl, rfl⟩
  have := h w hw
  cases w <;> first | exact hv | cases this

theorem deleted_delivers {id : Uuid} {ws : List Write} (hd : FormatsAgree d) (hws : ∀ w ∈ ws, w.offCatalog = true)
    (hp : x.pending = ws ++ [.delFlow id]) (hl : Lock.flow id ∈ x.held) :
    Delivers rowGuard FormatsAgree KeepsOrigins x d := by
  obtain ⟨hflows, hsources⟩ := writeAll_offCatalog hws d
  have hview : (writeAll x.pending d).flows = d.flows.del id ∧ (writeAll x.pending d).sources = d.sources := by
    rw [hp, writeAll_append]
    exact ⟨congrArg (·.del id) hflows, hsources⟩
  have hkept : ∀ g r, (writeAll x.pending d).flows.get g = some r → d.flows.get g = some r := by
    intro g r hr
    rw [hview.1, Table.get_del] at hr
    split at hr
    · cases hr
    · exact hr
  refine ⟨fun r hr => ?_, fun ℓ hℓ => ?_, fun g r r' hr hr' => ?_, .of_eq hview.2⟩
  · rw [hview.2]
    exact hd r (Table.mem_of_get (hkept r.id r (Table.get_of_mem hr)))
  · cases ℓ with
    | source i => exact congrArg (·.get i) hview.2.symm
    | flow g =>
      show d.flows.get g = (writeAll x.pending d).flows.get g
      rw [hview.1, Table.get_del_ne]
      exact fun he => hℓ (he ▸ hl)
    | _ => trivial
  · cases hr.symm.trans (hkept g r' hr')
    exact ⟨rfl, rfl⟩

theorem rg_subRefCount_offCatalog {name : Stmt} {m : Msg} {k : Nat} {o : Str}
    (hx : ∀ w ∈ x.pending, w.offCatalog = true) :
    Rg rowGuard FormatsAgree keepingSources KeepsOrigins (fun _ x _ => ∀ w ∈ x.pending, w.offCatalog = true)
      (subRefCount name m k o) x d := by
  refine rg_stmtE fun d' _ _ _ w hw => ?_
  rcases List.mem_append.mp hw with hw | hw
  · exact hx w hw
  · revert hw
    cases (writeAll x.pending d').objects.get o with
    | none => exact fun hw => by cases hw
    | some r =>
      intro hw
      dsimp only at hw
      split at hw
      · rw [List.mem_singleton.mp hw]
        rfl
      · cases hw

theorem rg_deleteFlowBody (id : Uuid) :
    Rg rowGuard FormatsAgree keepingSources KeepsOrigins (fun _ _ _ => True) (deleteFlowBody id) { now := t } d := by
  refine Rg.bind (flat_query ..) (rg_query fun d₁ _ => ?_)
  refine Rg.bind (flat_forEach (fun _ _ => flat_subRefCount ..) _ _) ((rg_forEach
    (J := fun x _ => ∀ w ∈ x.pending, w.offCatalog = true) (fun _ _ => flat_subRefCount ..) ?_ ?_).post ?_)
  · exact fun i o x d hx => rg_subRefCount_offCatalog hx
  · exact fun w hw => by cases hw
  · intro _ x d hx
    refine Rg.bind (flat_stmt ..) (rg_stmt fun d' _ => ?_)
    cases hf : (writeAll x.pending d').flows.get id with
    | none => trivial
    | some r =>
      let v := writeAll x.pending d'
      let dels := (v.segmentsOf id).map (fun r => Write.delSegment r.id) ++
        (v.tagsOf id).map (fun r => Write.delTag r.flowId r.name) ++
        (v.collectionOf id).map fun r => Write.delItem r.flowId r.itemId
      have hdels : ∀ w ∈ dels, w.offCatalog = true := by
        intro w hw
        simp only [dels, List.mem_append, List.mem_map] at hw
        rcases hw with (⟨_, -, rfl⟩ | ⟨_, -, rfl⟩) | ⟨_, -, rfl⟩ <;> rfl
      have hws : ∀ w ∈ x.pending ++ dels, w.offCatalog = true :=
        fun w hw => (List.mem_append.mp hw).elim (hx w) (hdels w)
      refine rg_commitThen fun d'' he => deleted_delivers he.inv hws (List.append_assoc ..).symm ?_
      exact List.mem_append_right _ (by simp)

theorem obeys_deleteFlow (id : Uuid) : Obeys rowGuard FormatsAgree keepingSources KeepsOrigins (deleteFlow id) :=
  Obeys.inTx (Q := fun _ _ _ => True) fun _ _ _ => rg_deleteFlowBody id

end

/-! ## Every interleaving -/

theorem obeys_flowTx (x : FlowTx) : Obeys rowGuard FormatsAgree keepingSources KeepsOrigins x.prog := by
  cases x with
  | upsertFlow f => exact (obeys_upsertFlow f).map _
  | deleteFlow id => exact (obeys_deleteFlow id).map _

/-- **Formats agree.** However the statements of any number of calls interleave, every flow has its
source's format in every committed state, and no commit changes the source or the format of a flow. -/
theorem formats_agree {n : Nat} (calls : Fin n → FlowTx) (t : Time) {d : DB} (hd : FormatsAgree d)
    {as : List (Act n)} {s : Sys DB Write Lock Stmt Err Answer n}
    (hs : (Sys.start t d fun p => (calls p).prog).runs as = some s) :
    FormatsAgree s.db ∧ ∀ a s', s.act a = some s' → OriginsKept s.db s'.db := by
  have hc : ∀ p, Obeys rowGuard FormatsAgree keepingSources KeepsOrigins (calls p).prog := fun p => obeys_flowTx (calls p)
  have hinv := rgInv_runs (R := fun _ => keepingSources) (T := fun _ => KeepsOrigins) hc (fun _ _ _ _ h => h.2) hd hs
  refine ⟨hinv.db, fun a s' ha => ?_⟩
  rcases (hinv.act hc ha fun p _ _ hT q _ _ => Or.inr (Or.inr hT.2)).2 with h | ⟨p, -, -, hT⟩
  · rw [h]
    exact .refl s.db
  · exact hT.1

def clashingCalls : Fin 3 → FlowTx
  | 0 => .upsertFlow { id := 1, sourceId := 5, format := lit "urn:x-nmos:format:video" }
  | 1 => .upsertFlow { id := 2, sourceId := 5, format := lit "urn:x-nmos:format:audio" }
  | 2 => .deleteFlow 1

def clashingSchedule : List (Act 3) := Act.turns 2 [0, 0, 0, 1, 1, 1, 0, 0, 0, 1, 1, 2, 2, 2, 2]

theorem clashingCalls_agree : ∃ s,
    (Sys.start 0 DB.empty fun p => (clashingCalls p).prog).runs clashingSchedule = some s ∧
      s.committed = [0, 2] ∧ FormatsAgree s.db ∧ ∀ a s', s.act a = some s' → OriginsKept s.db s'.db := by
  have hrun : ((Sys.start 0 DB.empty fun p => (clashingCalls p).prog).runs clashingSchedule).map (·.committed) =
      some [0, 2] := by
    decide +kernel
  obtain ⟨s, hs, hcom⟩ := Option.map_eq_some_iff.mp hrun
  exact ⟨s, hs, hcom, formats_agree clashingCalls 0 (fun r hr => by cases hr) hs⟩

end OpenTams
