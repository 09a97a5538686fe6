import OpenTams.SegmentPages

/-!
# What a walk of ListFlows returns

A walk over one state yields the flows that satisfy every filter, in the order
of `(created, id)`, exactly where all its fetches succeed: the parameters can be
bound, no cast of a frame size fails, and every cursor names a time that JSON
can carry.
-/

namespace OpenTams

open Sql Prog

/-! ## Filters -/

structure ColumnFilters (p : ListFlowsParams) (r : FlowRow) : Prop where
  source : ∀ x, p.sourceId = some x → r.sourceId = x
  format : ∀ x, p.format = some x → r.format = x
  label : ∀ x, p.label = some x → r.label = some x
  codec : ∀ x, p.codec = some x → r.codec = some x

def HasFrame (J : JsonFns) (name : String) (value : Int64) (r : FlowRow) : Prop :=
  ∃ e text, r.essenceParameters = some e ∧ J.field e (lit name) = some text ∧ J.toInt text = .ok value.toInt

/-- Every flow matches eternity, a flow without segments the empty range, and any other range a flow
with a segment that shares a nanosecond with it. -/
def InRange (d : DB) (tr : TimeRange) (r : FlowRow) : Prop :=
  tr.denote = Set.univ ∨ tr.denote = ∅ ∧ d.segmentsOf r.id = [] ∨
    tr.denote ≠ ∅ ∧ ∃ s ∈ d.segmentsOf r.id, ∃ tr', parse s.timerange = .ok tr' ∧ (tr'.denote ∩ tr.denote).Nonempty

structure Satisfies (J : JsonFns) (p : ListFlowsParams) (d : DB) (r : FlowRow) : Prop where
  columns : ColumnFilters p r
  width : ∀ w, p.frameWidth = some w → HasFrame J "frame_width" w r
  height : ∀ h, p.frameHeight = some h → HasFrame J "frame_height" h r
  inRange : ∀ tr, p.timerange = some tr → InRange d tr r
  tagExists : ∀ name ∈ p.tagExists, ∃ t ∈ d.tagsOf r.id, t.name = name
  tagValues : ∀ x ∈ p.tagValues, ∃ t ∈ d.tagsOf r.id, t.name = x.1 ∧ J.jsonb x.2 = some t.value

def Casts (J : JsonFns) (name : String) (r : FlowRow) : Prop :=
  ∀ e, r.essenceParameters = some e → ∀ text, J.field e (lit name) = some text → ∃ n, J.toInt text = .ok n

/-- No cast fails on the row: a width is cast for a row that the columns let through, and a height for
one that has the width as well. -/
structure CastsFor (J : JsonFns) (p : ListFlowsParams) (r : FlowRow) : Prop where
  width : p.frameWidth.isSome → ColumnFilters p r → Casts J "frame_width" r
  height : p.frameHeight.isSome → ColumnFilters p r → (∀ w, p.frameWidth = some w → HasFrame J "frame_width" w r) →
    Casts J "frame_height" r

/-! ## Conditions -/

theorem allOf_true {cs : List (Except SqlError Bool)} : allOf cs = .ok true ↔ ∀ c ∈ cs, c = .ok true := by
  induction cs with
  | nil => simp [allOf]
  | cons c cs ih =>
    rw [List.forall_mem_cons, ← ih]
    cases c with
    | error e => simp [allOf]
    | ok b => cases b <;> simp [allOf]

def Evaluates (cs : List (Except SqlError Bool)) : Prop := ∃ b, allOf cs = .ok b

theorem evaluates_append {as bs : List (Except SqlError Bool)} :
    Evaluates (as ++ bs) ↔ Evaluates as ∧ ((∀ c ∈ as, c = .ok true) → Evaluates bs) := by
  induction as with
  | nil => simp [Evaluates, allOf]
  | cons a as ih =>
    simp only [Evaluates, List.cons_append, allOf, List.forall_mem_cons] at ih ⊢
    split
    · rw [ih]
      simp
    · simp
    · simp

theorem evaluates_of_ok {cs : List (Except SqlError Bool)} (h : ∀ c ∈ cs, ∃ b, c = .ok b) : Evaluates cs := by
  induction cs with
  | nil => exact ⟨true, rfl⟩
  | cons c cs ih =>
    obtain ⟨⟨b, rfl⟩, hcs⟩ := List.forall_mem_cons.mp h
    cases b with
    | true => exact ih hcs
    | false => exact ⟨false, rfl⟩

theorem evaluates_optional {α : Type} {o : Option α} {f : α → Except SqlError Bool} :
    Evaluates (o.toList.map f) ↔ ∀ x, o = some x → ∃ b, f x = .ok b := by
  cases o with
  | none => exact ⟨fun _ x h => (by cases h), fun _ => ⟨true, rfl⟩⟩
  | some x =>
    simp only [Option.toList_some, List.map_singleton, Evaluates, Option.some.injEq, forall_eq']
    cases f x with
    | error e => simp [allOf]
    | ok b => cases b <;> simp [allOf]

section
variable {J : JsonFns} {p : ListFlowsParams} {bounds : Option (Option (Option Int64 × Option Int64))} {d : DB}
  {r : FlowRow}

theorem frameCond_true {name : String} {value : Int64} :
    frameCond J name value r = .ok true ↔ HasFrame J name value r := by
  unfold frameCond HasFrame
  cases he : r.essenceParameters with
  | none => simp
  | some e =>
    cases hf : J.field e (lit name) with
    | none => simp [hf]
    | some text => cases hi : J.toInt text <;> simp [hf, hi, Except.map]

theorem frameCond_ok {name : String} {value : Int64} : (∃ b, frameCond J name value r = .ok b) ↔ Casts J name r := by
  unfold frameCond Casts
  cases he : r.essenceParameters with
  | none => simp
  | some e =>
    cases hf : J.field e (lit name) with
    | none => simp [hf]
    | some text => cases hi : J.toInt text <;> simp [hf, hi, Except.map]

theorem columnConds_true : (∀ c ∈ columnConds p r, c = .ok true) ↔ ColumnFilters p r := by
  simp only [columnConds, List.forall_mem_append, List.forall_mem_map, Option.mem_toList, Except.ok.injEq,
    decide_eq_true_eq]
  exact ⟨fun ⟨⟨⟨h₁, h₂⟩, h₃⟩, h₄⟩ => ⟨h₁, h₂, h₃, h₄⟩, fun h => ⟨⟨⟨h.source, h.format⟩, h.label⟩, h.codec⟩⟩

theorem columnConds_evaluates : Evaluates (columnConds p r) := by
  refine evaluates_of_ok ?_
  simp only [columnConds, List.forall_mem_append, List.forall_mem_map]
  exact ⟨⟨⟨fun x _ => ⟨_, rfl⟩, fun x _ => ⟨_, rfl⟩⟩, fun x _ => ⟨_, rfl⟩⟩, fun x _ => ⟨_, rfl⟩⟩

/-- The condition of a row has a value exactly where no cast fails. -/
theorem flowConds_evaluates : Evaluates (flowConds J p bounds d r) ↔ CastsFor J p r := by
  have hrest : Evaluates (bounds.toList.map (fun b => Except.ok (segmentsCond b d r)) ++
      p.tagExists.map (fun name => .ok ((d.tagsOf r.id).any (·.name = name))) ++
      p.tagValues.map fun x => .ok ((d.tagsOf r.id).any fun t => t.name = x.1 && J.jsonb x.2 = some t.value)) := by
    refine evaluates_of_ok ?_
    simp only [List.forall_mem_append, List.forall_mem_map]
    exact ⟨⟨fun x _ => ⟨_, rfl⟩, fun x _ => ⟨_, rfl⟩⟩, fun x _ => ⟨_, rfl⟩⟩
  rw [flowConds, evaluates_append, evaluates_append, evaluates_append, evaluates_optional, evaluates_optional,
    List.forall_mem_append, columnConds_true]
  simp only [frameCond_ok, List.forall_mem_map, Option.mem_toList, frameCond_true, columnConds_evaluates, hrest,
    true_and, implies_true, and_true]
  constructor
  · rintro ⟨hw, hh⟩
    refine ⟨fun hs hc => ?_, fun hs hc hwidth => ?_⟩
    · obtain ⟨w, hw'⟩ := Option.isSome_iff_exists.mp hs
      exact hw hc w hw'
    · obtain ⟨h, hh'⟩ := Option.isSome_iff_exists.mp hs
      exact hh ⟨hc, hwidth⟩ h hh'
  · rintro ⟨hw, hh⟩
    exact ⟨fun hc w hw' => hw (by rw [hw']; rfl) hc, fun ⟨hc, hwidth⟩ h hh' => hh (by rw [hh']; rfl) hc hwidth⟩

theorem isEternity_iff {tr : TimeRange} (h : tr.Wf) : tr.isEternity = true ↔ tr.denote = Set.univ := by
  rcases h with rfl | ⟨hs, he⟩
  · simp [TimeRange.isEternity, TimeRange.empty, TimeRange.denote, lowerSet, Set.empty_ne_univ]
  obtain ⟨start, sty, endTs, ety⟩ := tr
  have hsplit : lowerSet start sty ∩ upperSet endTs ety = Set.univ ↔
      lowerSet start sty = Set.univ ∧ upperSet endTs ety = Set.univ := inf_eq_top_iff
  simp only [TimeRange.isEternity, TimeRange.denote, Bool.and_eq_true, decide_eq_true_eq, hsplit] at hs he ⊢
  refine and_congr ?_ ?_
  · rcases hs with ⟨rfl, rfl⟩ | ⟨s, rfl, -, hsty⟩
    · simp [lowerSet]
    · refine iff_of_false hsty fun huniv => ?_
      have hmem : s.value - 1 ∈ lowerSet (some s) sty := huniv ▸ Set.mem_univ _
      have hshift : 0 ≤ sty.startShift := by cases sty <;> decide
      rw [mem_lowerSet hsty] at hmem
      omega
  · rcases he with ⟨rfl, rfl⟩ | ⟨e, rfl, -, hety⟩
    · simp [upperSet]
    · refine iff_of_false hety fun huniv => ?_
      have hmem : e.value + 1 ∈ upperSet (some e) ety := huniv ▸ Set.mem_univ _
      have hshift : ety.endShift ≤ 1 := by cases ety <;> decide
      rw [mem_upperSet hety] at hmem
      omega

theorem segmentsCond_some (hinv : SegmentInv SegmentRow.Canonical d) {lo hi : Option Int64}
    (hne : (paramSet lo hi).Nonempty) :
    segmentsCond (some (lo, hi)) d r = true ↔
      ∃ s ∈ d.segmentsOf r.id, ∃ tr, parse s.timerange = .ok tr ∧ (tr.denote ∩ paramSet lo hi).Nonempty := by
  rw [segmentsCond, List.any_eq_true]
  refine exists_congr fun s => and_congr_right fun hs => ?_
  have hc := hinv.rows s (List.mem_filter.mp hs).1
  obtain ⟨_, _, _, hp, hspan⟩ := hc.bounded
  rw [overlapCond_iff hne hc.nonempty]
  constructor
  · exact fun h => ⟨_, hp, hspan ▸ h⟩
  · rintro ⟨tr, htr, h⟩
    cases hp.symm.trans htr
    exact hspan ▸ h

/-- The condition on the segments says what the range asks for. -/
theorem flowBounds_inRange (hinv : SegmentInv SegmentRow.Canonical d)
    (hparsed : ∀ tr, p.timerange = some tr → ∃ text, parse text = .ok tr) (hb : flowBounds p.timerange = .ok bounds) :
    (∀ b, bounds = some b → segmentsCond b d r = true) ↔ ∀ tr, p.timerange = some tr → InRange d tr r := by
  cases hrange : p.timerange with
  | none =>
    rw [hrange] at hb
    cases hb
    exact ⟨fun _ tr h => (by cases h), fun _ b h => by cases h⟩
  | some tr =>
    obtain ⟨text, hp⟩ := hparsed tr hrange
    have hwf := (parse_text hp).1
    rw [hrange, flowBounds] at hb
    simp only [Option.some.injEq, forall_eq']
    by_cases het : tr.denote = Set.univ
    · rw [if_pos ((isEternity_iff hwf).mpr het)] at hb
      cases hb
      exact ⟨fun _ => Or.inl het, fun _ b h => by cases h⟩
    rw [if_neg (mt (isEternity_iff hwf).mp het)] at hb
    cases hq : queryBounds tr with
    | error e =>
      rw [hq] at hb
      cases hb
    | ok b =>
      rw [hq] at hb
      cases hb
      cases b with
      | none =>
        simp only [Option.some.injEq, forall_eq', segmentsCond, List.isEmpty_iff, InRange, (queryBounds_none hwf).mp hq,
          Set.empty_ne_univ, true_and, ne_eq, not_true_eq_false, false_and, false_or, or_false]
      | some b =>
        obtain ⟨hset, hne⟩ := queryBounds_some hwf hq
        simp only [Option.some.injEq, forall_eq', InRange, het, false_or]
        rw [segmentsCond_some hinv (hset ▸ hne), hset]
        simp only [hne.ne_empty, false_and, false_or, ne_eq, not_false_eq_true, true_and]

theorem flowBounds_ok
    (htr : ∀ tr, p.timerange = some tr → (∃ text, parse text = .ok tr) ∧ (tr.denote = ∅ ∨ tr.FitsInt64)) :
    ∃ bounds, flowBounds p.timerange = .ok bounds := by
  cases hrange : p.timerange with
  | none => exact ⟨none, rfl⟩
  | some tr =>
    obtain ⟨⟨text, hp⟩, hfit⟩ := htr tr hrange
    rw [flowBounds]
    split
    · exact ⟨none, rfl⟩
    · rcases queryBounds_ok (parse_text hp).1 hfit with ⟨-, hb⟩ | ⟨lo, hi, hb, -⟩
      · exact ⟨some none, by rw [hb]; rfl⟩
      · exact ⟨some (some (lo, hi)), by rw [hb]; rfl⟩

theorem flowConds_true (hbounds : (∀ b, bounds = some b → segmentsCond b d r = true) ↔
    ∀ tr, p.timerange = some tr → InRange d tr r) :
    allOf (flowConds J p bounds d r) = .ok true ↔ Satisfies J p d r := by
  rw [allOf_true, flowConds]
  simp only [List.forall_mem_append, columnConds_true, List.forall_mem_map, Option.mem_toList, frameCond_true,
    Except.ok.injEq, hbounds, List.any_eq_true, decide_eq_true_eq, Bool.and_eq_true]
  exact ⟨fun ⟨⟨⟨h₁, h₂⟩, h₃⟩, ⟨h₄, h₅⟩, h₆⟩ => ⟨h₁, h₂, h₃, h₄, h₅, h₆⟩,
    fun h => ⟨⟨⟨h.columns, h.width⟩, h.height⟩, ⟨h.inRange, h.tagExists⟩, h.tagValues⟩⟩

end

/-! ## Rows -/

theorem whereRows_ok {ρ : Type} {cond : ρ → Except SqlError Bool} {rows out : List ρ} :
    whereRows cond rows = .ok out ↔
      (∀ r ∈ rows, ∃ b, cond r = .ok b) ∧ out = rows.filter fun r => decide (cond r = .ok true) := by
  induction rows generalizing out with
  | nil => simp [whereRows, eq_comm]
  | cons r rs ih =>
    rw [List.forall_mem_cons, whereRows]
    cases hc : cond r with
    | error e => simp
    | ok b =>
      cases hw : whereRows cond rs with
      | error e =>
        simp only [Except.map, reduceCtorEq, false_iff]
        rintro ⟨⟨-, h⟩, -⟩
        rw [ih.mpr ⟨h, rfl⟩] at hw
        cases hw
      | ok l =>
        obtain ⟨h, rfl⟩ := ih.mp hw
        rw [and_iff_right ⟨⟨b, rfl⟩, h⟩]
        cases b <;> simp [Except.map, hc, eq_comm]

section
variable {R : JsonReader} {J : JsonFns} {p : ListFlowsParams} {bounds : Option (Option (Option Int64 × Option Int64))}
  {d : DB}

/-- The parameters can be sent: the limit leaves room for one more, and the values have their types. -/
structure Bindable (J : JsonFns) (p : ListFlowsParams) : Prop where
  limit : p.limit.toInt + 1 < 2 ^ 63
  width : ∀ w, p.frameWidth = some w → fitsInt4 w.toInt = true
  height : ∀ h, p.frameHeight = some h → fitsInt4 h.toInt = true
  tagValues : ∀ x ∈ p.tagValues, (J.jsonb x.2).isSome

def condRows (J : JsonFns) (p : ListFlowsParams) (bounds : Option (Option (Option Int64 × Option Int64))) (d : DB) :
    List FlowRow :=
  d.flows.rows.filter fun r => decide (allOf (flowConds J p bounds d r) = .ok true)

def flowKey (c : Time × Uuid) : ℤ ×ₗ ℕ := toLex (c.1, c.2.toNat)

theorem bindable_ok : bindable J p = .ok () ↔ (∀ w, p.frameWidth = some w → fitsInt4 w.toInt = true) ∧
    (∀ h, p.frameHeight = some h → fitsInt4 h.toInt = true) ∧ ∀ x ∈ p.tagValues, (J.jsonb x.2).isSome := by
  rw [← List.all_eq_true, ← Option.all_eq_true, ← Option.all_eq_true, bindable]
  split
  · rename_i h
    simp only [Bool.or_eq_true, Bool.not_eq_true'] at h
    rcases h with h | h <;> simp [h]
  · rename_i h
    simp only [Bool.or_eq_true, Bool.not_eq_true', not_or, Bool.not_eq_false] at h
    split
    · rename_i h'
      simp only [Bool.not_eq_true'] at h'
      simp [h']
    · rename_i h'
      simp only [Bool.not_eq_true', Bool.not_eq_false] at h'
      simp [h, h']

theorem limit_add_one (hlimit : 0 < p.limit.toInt) :
    (flowLimit p.limit + 1 < 0 ↔ ¬ p.limit.toInt + 1 < 2 ^ 63) ∧
      (p.limit.toInt + 1 < 2 ^ 63 → (flowLimit p.limit + 1).toInt.toNat = p.limit.toInt.toNat + 1) := by
  have hlt := p.limit.toInt_lt
  have hpos : flowLimit p.limit = p.limit := by
    rw [flowLimit, if_neg]
    rw [Int64.le_iff_toInt_le]
    exact not_le.mpr hlimit
  have hadd : (p.limit + 1).toInt = (p.limit.toInt + 1).bmod (2 ^ 64) := Int64.toInt_add p.limit 1
  rw [hpos, Int64.lt_iff_toInt_lt, hadd, Int64.toInt_zero, Int.bmod_def]
  omega

theorem flowRows_ok (hlimit : 0 < p.limit.toInt) {k : Option (Time × Uuid)} {rows : List FlowRow} :
    flowRows J p bounds k d = .ok rows ↔
      Bindable J p ∧ (∀ r ∈ d.flows.rows, CastsFor J p r) ∧
      rows = (rowsAfter FlowRow.key false (fun _ => true) (k.map flowKey) (condRows J p bounds d)).take
        (p.limit.toInt.toNat + 1) := by
  obtain ⟨hneg, hnat⟩ := limit_add_one hlimit
  have hcasts : (∀ r ∈ d.flows.rows, ∃ b, allOf (flowConds J p bounds d r) = .ok b) ↔
      ∀ r ∈ d.flows.rows, CastsFor J p r := forall₂_congr fun r _ => flowConds_evaluates
  constructor
  · intro h
    unfold flowRows at h
    split at h
    · cases h
    rename_i hbind
    split at h
    · cases h
    rename_i hl
    have hl := not_not.mp (mt hneg.mpr hl)
    cases hw : whereRows (fun r => allOf (flowConds J p bounds d r)) d.flows.rows with
    | error e =>
      rw [hw] at h
      cases h
    | ok W =>
      rw [hw] at h
      cases h
      obtain ⟨hok, rfl⟩ := whereRows_ok.mp hw
      obtain ⟨hwidth, hheight, htags⟩ := bindable_ok.mp hbind
      exact ⟨⟨hl, hwidth, hheight, htags⟩, hcasts.mp hok, by rw [hnat hl]; rfl⟩
  · rintro ⟨hb, hc, rfl⟩
    rw [flowRows, bindable_ok.mpr ⟨hb.width, hb.height, hb.tagValues⟩]
    dsimp only
    rw [if_neg (fun h => hneg.mp h hb.limit), whereRows_ok.mpr ⟨hcasts.mpr hc, rfl⟩, hnat hb.limit]
    rfl

/-- Every row that is read meets the conditions. -/
theorem mem_flowRows {k : Option (Time × Uuid)} {rows : List FlowRow} (h : flowRows J p bounds k d = .ok rows)
    {r : FlowRow} (hr : r ∈ rows) : r ∈ d.flows.rows ∧ allOf (flowConds J p bounds d r) = .ok true := by
  unfold flowRows at h
  split at h
  · cases h
  split at h
  · cases h
  cases hw : whereRows (fun r => allOf (flowConds J p bounds d r)) d.flows.rows with
  | error e =>
    rw [hw] at h
    cases h
  | ok found =>
    rw [hw] at h
    cases h
    obtain ⟨-, rfl⟩ := whereRows_ok.mp hw
    obtain ⟨hmem, hcond⟩ := List.mem_filter.mp (mem_rowsAfter.mp ((List.take_sublist _ _).subset hr)).1
    exact ⟨hmem, of_decide_eq_true hcond⟩

/-! ## One fetch -/

inductive FlowCursor : Option Str → Option (Time × Uuid) → Prop
  | start : FlowCursor none none
  | after {ts : Time} (id : Uuid) : Marshals ts → FlowCursor (some (encodeCursor ts id)) (some (ts, id))

theorem run_fetchFlows {k : Option (Time × Uuid)} {t : Time} :
    (fetchFlows J p bounds k).run t d = (match flowRows J p bounds k d with
      | .error e => .error (.wrap [.text "metastore: ListFlows: "] (.sql e))
      | .ok rows => .ok (flowPage (flowLimit p.limit).toInt.toNat d rows), d) := by
  unfold fetchFlows Prog.run
  simp only [stmtE, exec, Conn.view]
  cases flowRows J p bounds k d <;> rfl

theorem run_listFlows {t : Time} {c : Option Str} {k : Option (Time × Uuid)} (hb : flowBounds p.timerange = .ok bounds)
    (hc : FlowCursor c k) :
    (listFlows R J { p with pageFrom := c }).run t d = (fetchFlows J p bounds k).run t d := by
  unfold listFlows
  dsimp only
  rw [hb]
  cases hc with
  | start => rfl
  | after id hm =>
    dsimp only
    rw [decode_encodeCursor, if_pos hm]
    rfl

theorem run_listFlows_unreadable {t ts : Time} {id : Uuid} (hb : flowBounds p.timerange = .ok bounds)
    (h : ¬ Marshals ts) :
    (listFlows R J { p with pageFrom := some (encodeCursor ts id) }).run t d =
      (.error (.app (.new .invalidJSON [.text "invalid page_from cursor"])), d) := by
  unfold listFlows
  dsimp only
  rw [hb]
  dsimp only
  rw [decode_encodeCursor, if_neg h]
  rfl

def flowRowPage (J : JsonFns) (p : ListFlowsParams) (bounds : Option (Option (Option Int64 × Option Int64)))
    (k : Option (Time × Uuid)) (d : DB) : List FlowRow × Option FlowRow :=
  pageAfter FlowRow.key false (fun _ => true) p.limit.toInt.toNat (k.map flowKey) (condRows J p bounds d)

theorem listFlows_ok {t : Time} {c : Option Str} {k : Option (Time × Uuid)} {page : FlowPage}
    (hlimit : 0 < p.limit.toInt) (hb : flowBounds p.timerange = .ok bounds) (hc : FlowCursor c k) :
    (listFlows R J { p with pageFrom := c }).run t d = (.ok page, d) ↔
      Bindable J p ∧ (∀ r ∈ d.flows.rows, CastsFor J p r) ∧
      page = ⟨(flowRowPage J p bounds k d).1.map (listedFlow d),
        (flowRowPage J p bounds k d).2.map fun r => encodeCursor r.created r.id⟩ := by
  have hpos : flowLimit p.limit = p.limit := by
    rw [flowLimit, if_neg]
    rw [Int64.le_iff_toInt_le]
    exact not_le.mpr hlimit
  rw [run_listFlows hb hc, run_fetchFlows, hpos]
  constructor
  · intro h
    cases hrows : flowRows J p bounds k d with
    | error e =>
      rw [hrows] at h
      cases h
    | ok rows =>
      obtain ⟨hbind, hcasts, rfl⟩ := (flowRows_ok hlimit).mp hrows
      rw [hrows] at h
      cases h
      exact ⟨hbind, hcasts, rfl⟩
  · rintro ⟨hbind, hcasts, rfl⟩
    rw [(flowRows_ok hlimit).mpr ⟨hbind, hcasts, rfl⟩]
    rfl

/-- Whatever the cursor of a listing, its flows meet the conditions. -/
theorem listFlows_items {t : Time} {page : FlowPage} (h : ((listFlows R J p).run t d).1 = .ok page) :
    ∃ bounds, flowBounds p.timerange = .ok bounds ∧ ∀ x ∈ page.items, ∃ r ∈ d.flows.rows,
      x = listedFlow d r ∧ allOf (flowConds J p bounds d r) = .ok true := by
  unfold listFlows at h
  cases hb : flowBounds p.timerange with
  | error e =>
    rw [hb] at h
    cases h
  | ok bounds =>
    refine ⟨bounds, rfl, ?_⟩
    have hfetch : ∀ k, ((fetchFlows J p bounds k).run t d).1 = .ok page → ∀ x ∈ page.items, ∃ r ∈ d.flows.rows,
        x = listedFlow d r ∧ allOf (flowConds J p bounds d r) = .ok true := by
      intro k hk x hx
      rw [run_fetchFlows] at hk
      cases hrows : flowRows J p bounds k d with
      | error e =>
        rw [hrows] at hk
        cases hk
      | ok rows =>
        rw [hrows] at hk
        cases hk
        obtain ⟨r, hr, rfl⟩ := List.mem_map.mp hx
        obtain ⟨hmem, hcond⟩ := mem_flowRows hrows (mem_cutPage hr)
        exact ⟨r, hmem, rfl, hcond⟩
    rw [hb] at h
    dsimp only at h
    split at h
    · exact hfetch none h
    split at h
    · cases h
    · exact hfetch _ h

/-! ## Walks -/

variable (R J p d) in
inductive FlowWalk : Option Str → List Time → List FlowPage → Prop
  | last {c t page} : (listFlows R J { p with pageFrom := c }).run t d = (.ok page, d) → page.nextCursor = none →
      FlowWalk c [t] [page]
  | next {c t page s times pages} : (listFlows R J { p with pageFrom := c }).run t d = (.ok page, d) →
      page.nextCursor = some s → FlowWalk (some s) times pages → FlowWalk c (t :: times) (page :: pages)

/-- The walk ends, and its pages are the flows that satisfy the filters, in order. -/
def ListsFlows (R : JsonReader) (J : JsonFns) (p : ListFlowsParams) (d : DB) : Prop :=
  ∃ (pages : List FlowPage) (rows : List FlowRow),
    (∀ times : List Time, times.length = pages.length → FlowWalk R J p d none times pages) ∧
    pages.flatMap (·.items) = rows.map (listedFlow d) ∧
    (∀ r, r ∈ rows ↔ r ∈ d.flows.rows ∧ Satisfies J p d r) ∧ rows.Pairwise fun a b => a.key < b.key

open Classical in
noncomputable def DB.flowsFor (d : DB) (J : JsonFns) (p : ListFlowsParams) : List FlowRow :=
  orderBy FlowRow.key false (d.flows.rows.filter fun r => Satisfies J p d r)

structure Listable (J : JsonFns) (p : ListFlowsParams) (d : DB) : Prop where
  bindable : Bindable J p
  casts : ∀ r ∈ d.flows.rows, CastsFor J p r
  ends : PageEnds (fun r => Marshals r.created) p.limit.toInt.toNat (d.flowsFor J p)

theorem flowKeys_nodup : ((condRows J p bounds d).map FlowRow.key).Nodup := by
  have hid : ((condRows J p bounds d).map (·.id)).Nodup := d.flows.nodup.sublist (List.filter_sublist.map _)
  have hinj : Function.Injective (BitVec.toNat : Uuid → ℕ) := fun _ _ h => BitVec.eq_of_toNat_eq h
  have hnat : (((condRows J p bounds d).map (·.id)).map BitVec.toNat).Nodup := hid.map hinj
  refine List.Nodup.of_map (fun k => (ofLex k).2) ?_
  rw [List.map_map] at hnat ⊢
  exact hnat

theorem flowKey_row (r : FlowRow) : flowKey (r.created, r.id) = r.key := rfl

theorem flowWalk_of_walk (hlimit : 0 < p.limit.toInt) (hb : flowBounds p.timerange = .ok bounds) (hbind : Bindable J p)
    (hcasts : ∀ r ∈ d.flows.rows, CastsFor J p r) {c : Option Str} {k : Option (Time × Uuid)} (hc : FlowCursor c k)
    {tables ps : List (List FlowRow)} (htables : ∀ T ∈ tables, T = condRows J p bounds d)
    (hends : PageEnds (fun r => Marshals r.created) p.limit.toInt.toNat
      (rowsAfter FlowRow.key false (fun _ => true) (k.map flowKey) (condRows J p bounds d)))
    (h : Walk FlowRow.key false (fun _ => true) p.limit.toInt.toNat (k.map flowKey) tables ps none) :
    ∃ pages, pages.map (·.items) = ps.map (·.map (listedFlow d)) ∧
      ∀ times : List Time, times.length = pages.length → FlowWalk R J p d c times pages := by
  have hpos : 0 < p.limit.toInt.toNat := by omega
  generalize hkey : k.map flowKey = key at h
  generalize hnone : (none : Option FlowRow) = last at h
  induction h generalizing c k with
  | @page key rows q last hp =>
    subst hkey hnone
    cases htables _ List.mem_cons_self
    have hpage : flowRowPage J p bounds k d = (q, none) := hp
    refine ⟨[⟨q.map (listedFlow d), none⟩], rfl, fun times ht => ?_⟩
    obtain ⟨t, rfl⟩ := List.length_eq_one_iff.mp ht
    exact .last ((listFlows_ok hlimit hb hc).mpr ⟨hbind, hcasts, by rw [hpage]; rfl⟩) rfl
  | @next key rows tables q ps r last hp hw ih =>
    subst hkey
    obtain ⟨hrows, hrest⟩ := List.forall_mem_cons.mp htables
    subst hrows
    have hpage : flowRowPage J p bounds k d = (q, some r) := hp
    obtain ⟨hm, hends⟩ := (pageEnds_rowsAfter hpos flowKeys_nodup hp).mp hends r rfl
    obtain ⟨pages, hpages, hwalk⟩ := ih (.after r.id hm) hrest hends (by rw [Option.map_some, flowKey_row]) hnone
    refine ⟨⟨q.map (listedFlow d), some (encodeCursor r.created r.id)⟩ :: pages, ?_, fun times ht => ?_⟩
    · rw [List.map_cons, List.map_cons, hpages]
    · cases times with
      | nil => cases ht
      | cons t times =>
        exact .next ((listFlows_ok hlimit hb hc).mpr ⟨hbind, hcasts, by rw [hpage]; rfl⟩) rfl
          (hwalk times (by simpa using ht))

theorem FlowWalk.ends (hlimit : 0 < p.limit.toInt) (hb : flowBounds p.timerange = .ok bounds) {c : Option Str}
    {k : Option (Time × Uuid)} (hc : FlowCursor c k) {times : List Time} {pages : List FlowPage}
    (h : FlowWalk R J p d c times pages) :
    PageEnds (fun r => Marshals r.created) p.limit.toInt.toNat
      (rowsAfter FlowRow.key false (fun _ => true) (k.map flowKey) (condRows J p bounds d)) := by
  have hpos : 0 < p.limit.toInt.toNat := by omega
  obtain ⟨q, last, hpage⟩ : ∃ q last, flowRowPage J p bounds k d = (q, last) := ⟨_, _, rfl⟩
  refine (pageEnds_rowsAfter hpos flowKeys_nodup hpage).mpr ?_
  induction h generalizing k q last with
  | last hrun hnone =>
    obtain ⟨-, -, rfl⟩ := (listFlows_ok hlimit hb hc).mp hrun
    rw [hpage] at hnone
    rintro r rfl
    cases hnone
  | @next c t page s times pages hrun hs hw ih =>
    obtain ⟨-, -, rfl⟩ := (listFlows_ok hlimit hb hc).mp hrun
    rw [hpage] at hs
    rintro r rfl
    cases hs
    have hm : Marshals r.created := by
      by_contra hm
      cases hw with
      | last hrun _ =>
        rw [run_listFlows_unreadable hb hm] at hrun
        cases hrun
      | next hrun _ _ =>
        rw [run_listFlows_unreadable hb hm] at hrun
        cases hrun
    obtain ⟨q', last', hpage'⟩ : ∃ q last, flowRowPage J p bounds (some (r.created, r.id)) d = (q, last) := ⟨_, _, rfl⟩
    exact ⟨hm, (pageEnds_rowsAfter hpos flowKeys_nodup hpage').mpr (ih (.after r.id hm) _ _ hpage')⟩

theorem flowsFor_eq (hbounds : ∀ r, (∀ b, bounds = some b → segmentsCond b d r = true) ↔
    ∀ tr, p.timerange = some tr → InRange d tr r) :
    d.flowsFor J p = rowsAfter FlowRow.key false (fun _ => true) none (condRows J p bounds d) := by
  classical
  rw [DB.flowsFor, rowsAfter, condRows, List.filter_filter]
  congr 1
  refine List.filter_congr fun r _ => ?_
  simp [isAfter, flowConds_true (J := J) (hbounds r)]

theorem mem_flowsFor {r : FlowRow} : r ∈ d.flowsFor J p ↔ r ∈ d.flows.rows ∧ Satisfies J p d r := by
  classical
  rw [DB.flowsFor, (perm_orderBy false _).mem_iff, List.mem_filter, decide_eq_true_iff]

end

/-- **Flow listing is exact** where all its fetches succeed, and only there. -/
theorem listFlows_exact_iff {R : JsonReader} {J : JsonFns} {p : ListFlowsParams} {d : DB}
    (hinv : SegmentInv SegmentRow.Canonical d) (hlimit : 0 < p.limit.toInt)
    (htr : ∀ tr, p.timerange = some tr → (∃ text, parse text = .ok tr) ∧ (tr.denote = ∅ ∨ tr.FitsInt64)) :
    ListsFlows R J p d ↔ Listable J p d := by
  obtain ⟨bounds, hb⟩ := flowBounds_ok htr
  have hbounds := fun r => flowBounds_inRange (r := r) hinv (fun tr h => (htr tr h).1) hb
  have hrows := flowsFor_eq (J := J) hbounds
  constructor
  · -- a walk that ends has encoded the cursor of each of its page ends
    rintro ⟨pages, rows, hwalk, -⟩
    obtain ⟨times, hw⟩ : ∃ times, FlowWalk R J p d none times pages :=
      ⟨_, hwalk (List.replicate pages.length 0) List.length_replicate⟩
    have hends := hw.ends hlimit hb .start
    have hfetch : ∃ t page, (listFlows R J { p with pageFrom := none }).run t d = (.ok page, d) := by
      cases hw with
      | last hrun _ => exact ⟨_, _, hrun⟩
      | next hrun _ _ => exact ⟨_, _, hrun⟩
    obtain ⟨t, page, hrun⟩ := hfetch
    obtain ⟨hbind, hcasts, -⟩ := (listFlows_ok hlimit hb .start).mp hrun
    exact ⟨hbind, hcasts, hrows ▸ hends⟩
  · rintro ⟨hbind, hcasts, hends⟩
    rw [hrows] at hends
    obtain ⟨ps, hw, hflat, -⟩ : ∃ ps, Walk FlowRow.key false (fun _ => true) p.limit.toInt.toNat none
          (List.replicate ps.length (condRows J p bounds d)) ps none ∧
        ps.flatten = rowsAfter FlowRow.key false (fun _ => true) none (condRows J p bounds d) ∧
        ∀ q ∈ ps.dropLast, q.length = p.limit.toInt.toNat :=
      walk_total (by omega) flowKeys_nodup none
    obtain ⟨pages, hpages, hwalk⟩ := flowWalk_of_walk (R := R) hlimit hb hbind hcasts .start
      (fun T hT => List.eq_of_mem_replicate hT) hends hw
    refine ⟨pages, d.flowsFor J p, hwalk, ?_, fun r => mem_flowsFor, ?_⟩
    · rw [List.flatMap_def, hpages, hrows, ← hflat, List.map_flatten]
    · rw [hrows]
      exact (pairwise_rowsAfter flowKeys_nodup rfl).imp fun h => (by simpa [Before] using h)

/-! ## Flows with a frame width -/

def castInt (s : Str) : Except SqlError Int :=
  let value : Option ℤ :=
    if s.head? = some (ch '-') then (readDigits s.tail).map (fun n => -n) else (readDigits s).map (↑)
  match value with
  | none => .error .invalidText
  | some i => if fitsInt4 i then .ok i else .error .outOfRange

def decimalJson : JsonFns where
  field j name := (expect (lit "\x7b\"" ++ name ++ lit "\": ") j).map (·.takeWhile (· ≠ ch '\x7d'))
  toInt := castInt
  jsonb := some

def flowOfWidth (id : Uuid) (width : String) : Flow :=
  { sampleFlow with id, essenceParameters := lit "\x7b\"frame_width\": " ++ lit width ++ lit "\x7d" }

def hdStore : DB :=
  replay (StoreCall.prog {}) DB.empty [(.upsertFlow (flowOfWidth 1 "1920"), 0), (.upsertFlow (flowOfWidth 3 "1920"), 0)]

def hdFlows : ListFlowsParams := { frameWidth := some 1920, limit := 1 }

theorem hdStore_listed : ListsFlows canonicalReader decimalJson hdFlows hdStore := by
  have hwidth : ∀ r ∈ hdStore.flows.rows, (frameCond decimalJson "frame_width" 1920 r).isOk = true := by decide +kernel
  have htimes : ∀ r ∈ hdStore.flows.rows, Marshals r.created := by decide +kernel
  refine (listFlows_exact_iff (segmentInv_empty.of_eq (by decide +kernel)) (by decide) fun _ h => by cases h).mpr
    ⟨⟨by decide, ?_, fun _ h => (by cases h), fun _ h => by cases h⟩,
      fun r hr => ⟨fun _ _ => ?_, fun h => by cases h⟩, ?_⟩
  · rintro w ⟨⟩
    decide
  · have hok := hwidth r hr
    cases hf : frameCond decimalJson "frame_width" 1920 r with
    | ok b => exact frameCond_ok.mp ⟨b, hf⟩
    | error e =>
      rw [hf] at hok
      cases hok
  · exact fun i r _ hr => htimes r (mem_flowsFor.mp (List.mem_of_getElem? hr)).1

def wideStore : DB := replay (StoreCall.prog {}) hdStore [(.upsertFlow (flowOfWidth 5 "3000000000"), 1)]

theorem wideStore_unlisted :
    SegmentInv SegmentRow.Canonical wideStore ∧
    (∃ r ∈ wideStore.flows.rows, Satisfies decimalJson hdFlows wideStore r) ∧
    ∀ R t, (listFlows R decimalJson hdFlows).run t wideStore =
      (.error (.wrap [.text "metastore: ListFlows: "] (.sql .outOfRange)), wideStore) := by
  refine ⟨segmentInv_empty.of_eq (by decide +kernel), ?_, fun R t => ?_⟩
  · have hsome : ∃ r ∈ wideStore.flows.rows, allOf (flowConds decimalJson hdFlows none wideStore r) = .ok true := by
      decide +kernel
    obtain ⟨r, hr, h⟩ := hsome
    exact ⟨r, hr, (flowConds_true ⟨fun _ _ h => (by cases h), fun _ _ h => by cases h⟩).mp h⟩
  · refine (run_listFlows (p := hdFlows) (c := none) rfl .start).trans (run_fetchFlows.trans (Prod.ext ?_ rfl))
    decide +kernel

end OpenTams
