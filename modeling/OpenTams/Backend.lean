import OpenTams.HeadSegments

/-!
# The backend of a segment

`objects.storage_id` is written when an object is first registered: it is set for
a segment without URLs, and NULL for one that brings its own. A later segment on
the same object changes only the reference count. What is served is decided by
the segment alone. The two agree exactly as long as every segment on an object
is of the kind of the first.
-/

namespace OpenTams

open Sql Sql.Prog

/-! ## Calls -/

inductive RegistryCall where
  | insert (nextval : Nat → Nat) (batch : InsertBatch) (configured : batch.controlledStorageId ≠ [])
  | delete (q : DeleteQuery)

def RegistryCall.prog (c : Constraints) : RegistryCall → Tx Unit
  | .insert nextval batch _ => (insertSegments c nextval batch).map fun _ => ()
  | .delete q => (deleteSegmentsByTimerange q).map fun _ => ()

/-- A segment has no URLs of its own exactly if its object is in the controlled storage. -/
def Classified (d : DB) : Prop :=
  ∀ r ∈ d.segments.rows, ∃ o, d.objects.get r.objectId = some o ∧ (r.getUrls.getD [] = [] ↔ o.storageId.isSome)

/-- The object is in the controlled storage, or will be by the first segment of the batch on it. -/
def controlledBy (d : DB) (batch : InsertBatch) (o : Str) : Bool :=
  match d.objects.get o with
  | some r => r.storageId.isSome
  | none => (batch.segments.find? (·.objectId = o)).any (·.getUrls = [])

def RegistryCall.KeepsBackend (d : DB) : RegistryCall → Prop
  | .insert _ batch _ => ∀ seg ∈ batch.segments, seg.getUrls = [] ↔ controlledBy d batch seg.objectId = true
  | .delete _ => True

instance (d : DB) : (x : RegistryCall) → Decidable (x.KeepsBackend d)
  | .insert _ batch _ =>
    inferInstanceAs (Decidable (∀ seg ∈ batch.segments, seg.getUrls = [] ↔ controlledBy d batch seg.objectId = true))
  | .delete _ => .isTrue trivial

/-! ## Inserts -/

section
variable {nextval : Nat → Nat} {batch : InsertBatch} {t : Time} {d d' : DB}

theorem marshalGetURLs_getD (g : List GetURL) : (marshalGetURLs g).getD [] = g := by
  unfold marshalGetURLs
  split <;> simp_all

theorem ExactlyAdded.storage_old (h : ExactlyAdded nextval batch t d d') {o : Str} {r : ObjectRow}
    (hr : d.objects.get o = some r) : ∃ r', d'.objects.get o = some r' ∧ r'.storageId = r.storageId :=
  ⟨_, h.counted o r hr, rfl⟩

/-- The object of a segment of the batch has the storage that the first segment on it gives it. -/
theorem ExactlyAdded.storage_new (h : ExactlyAdded nextval batch t d d') {seg : Segment}
    (hs : seg ∈ batch.segments) :
    ∃ r', d'.objects.get seg.objectId = some r' ∧ r'.storageId.isSome = controlledBy d batch seg.objectId := by
  unfold controlledBy
  cases hr : d.objects.get seg.objectId with
  | some r =>
    obtain ⟨r', hr', he⟩ := h.storage_old hr
    exact ⟨r', hr', congrArg _ he⟩
  | none =>
    cases hfind : batch.segments.find? (·.objectId = seg.objectId) with
    | none =>
      have := List.find?_eq_none.mp hfind seg hs
      simp at this
    | some first =>
      obtain ⟨storageId, hget, hiff⟩ := h.created _ first hr hfind
      refine ⟨_, hget, ?_⟩
      rw [Option.any_some, Bool.eq_iff_iff, decide_eq_true_iff]
      exact hiff

theorem ExactlyAdded.keepsBackend_iff (h : ExactlyAdded nextval batch t d d') (hd : Classified d) :
    Classified d' ↔ ∀ seg ∈ batch.segments, seg.getUrls = [] ↔ controlledBy d batch seg.objectId = true := by
  obtain ⟨bounds, hb, hrows⟩ := h.segments
  constructor
  · intro hd' seg hs
    obtain ⟨x, hx, rfl⟩ : ∃ x ∈ batch.segments.zip bounds, x.1 = seg := by
      have hmap : (batch.segments.zip bounds).map Prod.fst = batch.segments :=
        List.map_fst_zip (checkBatch_length hb).ge
      rw [← hmap] at hs
      exact List.mem_map.mp hs
    obtain ⟨k, hk⟩ := List.getElem?_of_mem hx
    have hr : segmentRow (nextval (0 + k)) batch.flowId x.1 x.2.lower x.2.upper t ∈ d'.segments.rows := by
      rw [hrows]
      exact List.mem_append_right _ (mem_newRows.mpr ⟨k, x, hk, rfl⟩)
    obtain ⟨o, ho, hiff⟩ := hd' _ hr
    obtain ⟨o', ho', he⟩ := h.storage_new hs
    cases ho.symm.trans ho'
    rw [← he, ← hiff]
    show _ ↔ (marshalGetURLs x.1.getUrls).getD [] = []
    rw [marshalGetURLs_getD]
  · intro hC r hr
    rw [hrows, List.mem_append] at hr
    rcases hr with hr | hr
    · obtain ⟨o, ho, hiff⟩ := hd r hr
      obtain ⟨o', ho', he⟩ := h.storage_old ho
      exact ⟨o', ho', he ▸ hiff⟩
    · obtain ⟨k, x, hx, rfl⟩ := mem_newRows.mp hr
      have hs : x.1 ∈ batch.segments := (List.of_mem_zip (List.mem_of_getElem? hx)).1
      obtain ⟨o', ho', he⟩ := h.storage_new hs
      refine ⟨o', ho', ?_⟩
      show (marshalGetURLs x.1.getUrls).getD [] = [] ↔ _
      rw [marshalGetURLs_getD, hC x.1 hs, he]

end

/-! ## Deletes -/

theorem keeps_delete (q : DeleteQuery) : (deleteSegmentsByTimerange q).Keeps Classified := by
  refine keeps_deleteSegmentsByTimerange (fun o n v ho hv r hr => ?_) (fun _ _ _ hv => hv) fun lo hi v _ hv r hr => ?_
  · obtain ⟨o', ho', hiff⟩ := hv r hr
    show ∃ x, (v.objects.put { o with refCount := n }).get r.objectId = some x ∧ _
    rw [Table.get_put]
    split
    · rename_i he
      have he : o.id = r.objectId := he
      rw [← he, ho] at ho'
      cases ho'
      exact ⟨_, rfl, hiff⟩
    · exact ⟨o', ho', hiff⟩
  · have hr : r ∈ (v.segments.delAll _).rows := hr
    rw [Table.rows_delAll] at hr
    exact hv r (List.mem_filter.mp hr).1

/-! ## Runs -/

theorem insert_succeeded {c : Constraints} {nextval : Nat → Nat} {batch : InsertBatch} {t : Time} {d : DB}
    (h : ((insertSegments c nextval batch).run t d).1.isOk = true) :
    ExactlyAdded nextval batch t d ((insertSegments c nextval batch).run t d).2 := by
  cases hrun : (insertSegments c nextval batch).run t d with
  | mk a d' =>
    cases a with
    | error e =>
      rw [hrun] at h
      cases h
    | ok a =>
      obtain ⟨bounds, hins⟩ := insertSegments_inserted hrun
      exact hins.exactlyAdded

theorem isOk_map {ε α β : Type} (x : Except ε α) (f : α → β) : (x.map f).isOk = x.isOk := by
  cases x <;> rfl

/-- **Stored backend and what is served agree in every state of a run of successful calls exactly if
every segment is registered as its object was.** -/
theorem classified_iff (c : Constraints) {d : DB} (hd : Classified d) {h : List (RegistryCall × Time)}
    (hok : ∀ a ∈ answers (RegistryCall.prog c) d h, a.isOk = true) :
    (∀ h', h' <+: h → Classified (replay (RegistryCall.prog c) d h')) ↔
      Meets (RegistryCall.prog c) (fun d x => x.KeepsBackend d) d h := by
  have hinsert : ∀ nextval batch (hb : batch.controlledStorageId ≠ []) t d, Classified d →
      ((RegistryCall.prog c (.insert nextval batch hb)).run t d).1.isOk = true →
      (Classified ((RegistryCall.prog c (.insert nextval batch hb)).run t d).2 ↔
        (RegistryCall.insert nextval batch hb).KeepsBackend d) := by
    intro nextval batch hb t d hd hok
    rw [RegistryCall.prog, run_map] at hok ⊢
    rw [isOk_map] at hok
    exact (insert_succeeded hok).keepsBackend_iff hd
  refine (meets_iff_prefixes_of (fun d hd => hd) ?_ ?_ hd hok).symm
  · intro x t d hd hok hC
    cases x with
    | insert nextval batch hb => exact (hinsert nextval batch hb t d hd hok).mpr hC
    | delete q =>
      rw [RegistryCall.prog, run_map]
      exact (keeps_delete q).run t hd
  · intro x t d hd hok hd'
    cases x with
    | insert nextval batch hb => exact (hinsert nextval batch hb t d hd hok).mp hd'
    | delete q => trivial

/-! ## Reads -/

section
variable {R : JsonReader} {q : ListQuery} {t : Time} {d : DB} {page : SegmentPage}

theorem fetched_row {b : Option (Option Int64 × Option Int64)} {k : Option (Int64 × Int64)}
    (h : (fetchSegments q b k).run t d = (.ok page, d)) {seg : Segment} (hs : seg ∈ page.items) :
    ∃ r ∈ d.segments.rows, Shows r seg := by
  rw [run_fetchSegments] at h
  cases hm : (listRows q b k d).mapM scanSegment with
  | error e =>
    rw [hm] at h
    cases h
  | ok items =>
    rw [hm] at h
    cases h
    obtain ⟨it, hit, rfl⟩ := List.mem_map.mp hs
    have hit : it ∈ items := by
      unfold cutPage at hit
      split at hit
      · exact List.mem_of_mem_take hit
      · exact hit
    have hscan : List.Forall₂ Scanned (listRows q b k d) items := (Fallible.mapM_ok.mp hm).imp fun _ _ => scanSegment_ok
    obtain ⟨r, hr, hrit⟩ := Fallible.exists_of_forall₂ hscan hit
    have hrow : r ∈ d.segmentsOf q.flowId := (mem_rowsAfter.mp (List.mem_of_mem_take hr)).1
    exact ⟨r, (List.mem_filter.mp hrow).1, hrit.seg⟩

theorem listed_row (h : (listSegments R q).run t d = (.ok page, d)) {seg : Segment} (hs : seg ∈ page.items) :
    ∃ r ∈ d.segments.rows, Shows r seg := by
  obtain ⟨f, hf⟩ := present_of_listed h
  rcases queryBounds_cases q with ⟨b, hb⟩ | ⟨tr, htr, hb⟩ | ⟨tr, e, htr, hb⟩
  · rw [run_listSegments_filters hf hb, listFiltered] at h
    split at h
    · exact fetched_row h hs
    split at h
    · cases h
    · exact fetched_row h hs
  · rw [run_listSegments_empty hf htr hb] at h
    cases h
    cases hs
  · exact absurd h (not_listed_of_error htr hb)

/-- In a classified state a listing serves a segment as controlled exactly if its object is. -/
theorem Classified.served (hd : Classified d) (h : (listSegments R q).run t d = (.ok page, d)) {seg : Segment}
    (hs : seg ∈ page.items) :
    ∃ o, d.objects.get seg.objectId = some o ∧ (seg.isControlled = true ↔ o.storageId.isSome) := by
  obtain ⟨r, hr, hshows⟩ := listed_row h hs
  obtain ⟨o, ho, hiff⟩ := hd r hr
  refine ⟨o, hshows.objectId ▸ ho, ?_⟩
  rw [Segment.isControlled, List.isEmpty_iff, hshows.getUrls, hiff]

end

/-! ## Two runs -/

def ownURLs : List GetURL := [⟨lit "https://cdn/o", lit "cdn", false⟩]

def singleBatch (o r : String) (start stop : Int64) (getUrls : List GetURL) : InsertBatch where
  flowId := 1
  segments := [{ sampleSegment o r start stop with getUrls }]
  controlledStorageId := lit "default"

def sortedRun : List (RegistryCall × Time) :=
  [(.insert id sharedBatch (by decide), 1), (.insert (· + 2) (singleBatch "p" "[2:0_3:0)" 2 3 ownURLs) (by decide), 2),
    (.delete ⟨1, ⟨some ⟨0, 0⟩, .inclusive, some ⟨1, 0⟩, .exclusive⟩, none⟩, 3)]

theorem sortedRun_classified :
    (∀ h', h' <+: sortedRun → Classified (replay (RegistryCall.prog {}) oneFlow h')) ∧
      (replay (RegistryCall.prog {}) oneFlow sortedRun).segments.rows.length = 2 := by
  refine ⟨(classified_iff {} (fun r hr => ?_) (by decide +kernel)).mpr (by decide +kernel), by decide +kernel⟩
  cases hr

def mixedRun : List (RegistryCall × Time) :=
  [(.insert id (singleBatch "o" "[0:0_1:0)" 0 1 []) (by decide), 1),
    (.insert (· + 1) (singleBatch "o" "[1:0_2:0)" 1 2 ownURLs) (by decide), 2)]

/-- Both calls succeed, and the second segment is served with its own URLs beside a `storage_id`. -/
theorem mixedRun_unclassified :
    Classified oneFlow ∧ (∀ a ∈ answers (RegistryCall.prog {}) oneFlow mixedRun, a.isOk = true) ∧
      ¬ ∀ h', h' <+: mixedRun → Classified (replay (RegistryCall.prog {}) oneFlow h') := by
  refine ⟨fun r hr => (by cases hr), by decide +kernel, fun h => ?_⟩
  have hrow : (replay (RegistryCall.prog {}) oneFlow mixedRun).segments.rows.any (fun r =>
      decide (r.getUrls.getD [] ≠ []) && ((replay (RegistryCall.prog {}) oneFlow mixedRun).objects.get r.objectId).all
        (·.storageId.isSome)) = true := by decide +kernel
  simp only [List.any_eq_true, Bool.and_eq_true, decide_eq_true_eq, Option.all_eq_true] at hrow
  obtain ⟨r, hr, hown, hstorage⟩ := hrow
  obtain ⟨o, ho, hiff⟩ := h mixedRun (List.prefix_refl _) r hr
  exact hown (hiff.mpr (hstorage o ho))

end OpenTams
