import SegmentLog.Proofs.Store.Resting

/-!
# Records on stable storage

What a file held at its last sync is on stable storage. A segment remembers whether there is
anything more in it, so that a sync with nothing to do can be left out. Its memory is exact: as long
as syncs succeed, whatever happens to the writes, it is set just while a record that was
acknowledged in the segment is not on stable storage yet. So nobody can tell whether a sync was left
out.

* `Store.acknowledgedAll` — the records that a store has acknowledged;
* `Stable.rests`, `Stable.put` — the memory stays exact where nothing is synced, and in a write;
* `Stable.syncSegment`, `Stable.finish` — after a sync nothing is left to be synced;
* `Stable.serveAll`, `acknowledged_durable` — what a whole run keeps.
-/

namespace SegmentLog

/-! ## Acknowledged records -/

namespace Receipt

/-- Whether a record is in the file of its segment. -/
def Written (r : Receipt) (s : Store) : Prop :=
  r.StandsIn (s.disk.content (s.segment r.handle).file)

/-- Whether a record is on stable storage: it was in the file of its segment at the last sync. -/
def Durable (r : Receipt) (s : Store) : Prop :=
  r.StandsIn (s.disk.durable (s.segment r.handle).file)

/-- Whether a record came after the last sync of its segment: it lies behind what was in the file
then. -/
def IsLate (r : Receipt) (s : Store) : Prop :=
  r.IsBehind (s.disk.durable (s.segment r.handle).file)

end Receipt

namespace Store

variable {s s' s'' : Store}

/-- The record that a request leaves acknowledged, if it is an append and succeeds. -/
def acknowledged (s : Store) : Request → List Receipt
  | .append m =>
    match s.append m with
    | (.ok p, s') => s'.tail?.toList.map fun k => ⟨k, p.offset, m.payload⟩
    | (.error _, _) => []
  | _ => []

/-- The records that are acknowledged while some requests are served one after the other. -/
def acknowledgedAll (s : Store) : List Request → List Receipt
  | [] => []
  | request :: rest => s.acknowledged request ++ (s.serve request).acknowledgedAll rest

/-! ## Stores with some acknowledged records -/

/-- The records of some that were acknowledged in one segment. -/
def receiptsOf (receipts : List Receipt) (k : Handle) : List Receipt :=
  receipts.filter fun r => r.handle = k

/-- What is remembered of a segment, of its file, and of stable storage. -/
def Remembers (s : Store) (receipts : List Receipt) (k : Handle) : Prop :=
  Remembered receipts (s.disk.content (s.segment k).file) (s.disk.durable (s.segment k).file)
    (s.segment k).unsynced

/-- Whether every segment remembers exactly which of its acknowledged records are not on stable
storage. Syncs succeed, and an active segment takes in more where its file ends, unless it is
sealed. -/
structure Stable (s : Store) (receipts : List Receipt) : Prop extends Housed s [] where
  syncs : ∀ f ∈ s.disk.faults.sync, f = none
  ends : ∀ k ∈ s.active, (s.segment k).sealed = false →
    (s.segment k).cursor = (s.disk.content (s.segment k).file).length
  unused : ∀ k, s.spare = some k →
    (s.segment k).cursor = 0 ∧ s.disk.content (s.segment k).file = []
  granted : ∀ r ∈ receipts, r.handle < s.table.size
  remembers : ∀ k < s.table.size, s.Remembers (receiptsOf receipts k) k

variable {receipts : List Receipt} {k : Handle}

theorem mem_receiptsOf {r : Receipt} : r ∈ receiptsOf receipts k ↔ r ∈ receipts ∧ r.handle = k := by
  simp [receiptsOf]

theorem Stable.receiptsOf_new (hs : s.Stable receipts) (hk : s.table.size ≤ k) :
    receiptsOf receipts k = [] := by
  refine List.filter_eq_nil_iff.mpr fun r hr => ?_
  rw [decide_eq_true_eq]
  exact Nat.ne_of_lt (Nat.lt_of_lt_of_le (hs.granted r hr) hk)

theorem Remembers.of_eq {l : List Receipt} (h : s.Remembers l k)
    (hcontent : s'.disk.content (s'.segment k).file = s.disk.content (s.segment k).file)
    (hdurable : s'.disk.durable (s'.segment k).file = s.disk.durable (s.segment k).file)
    (hunsynced : (s'.segment k).unsynced = (s.segment k).unsynced) : s'.Remembers l k := by
  rw [Remembers, hcontent, hdurable, hunsynced]
  exact h

/-- Where nothing is written and nothing synced, everything stays as it is. -/
theorem Stable.rests (hs : s.Stable receipts) (hp : s.Proceeds s') (hr : s.Rests s')
    (hs' : s'.Housed []) : s'.Stable receipts := by
  have hcontent : ∀ k < s.table.size, s'.disk.content (s'.segment k).file =
      s.disk.content (s.segment k).file := by
    intro k hk
    obtain ⟨hfile, -, hcontent⟩ := hp.old k hk
    rw [hfile.file, hcontent]
  constructor
  case toHoused => exact hs'
  case syncs => exact fun f hf => hs.syncs f (hp.faults.sync f hf)
  case ends =>
    intro k hk hunsealed
    rcases hp.active k hk with hactive | hfresh
    · have hknown := hs.known_active hactive
      rw [(hp.old k hknown).2.1, hcontent k hknown]
      exact hs.ends k hactive (not_sealed_of_mono (hp.sealed k hknown) hunsealed)
    · obtain ⟨hcursor, hempty⟩ :=
        hs.unused_of_proceeds hs.unused hp (hs'.known_active hk) hfresh
      rw [hcursor, hempty, List.length_nil]
  case unused =>
    intro k hk
    have hmem : k ∈ s'.spare.toList ++ [] := by simp [hk]
    exact hs.unused_of_proceeds hs.unused hp (hs'.known k (List.mem_append_right _ hmem))
      (hp.fresh k hmem)
  case granted => exact fun r hmem => Nat.lt_of_lt_of_le (hs.granted r hmem) hr.size
  case remembers =>
    intro k hk
    by_cases hold : k < s.table.size
    · refine (hs.remembers k hold).of_eq (hcontent k hold) ?_ (hr.unsynced k hold)
      rw [hr.file k hold, hr.durable k hold]
    · have hnew := Nat.le_of_not_lt hold
      obtain ⟨hunsynced, hdurable⟩ := hr.new k hnew hk
      rw [hs.receiptsOf_new hnew, Remembers, (hp.new k hnew hk).2, hdurable, hunsynced]
      exact .empty

theorem Stable.of_eq (hs : s.Stable receipts) (hsettings : s'.settings = s.settings)
    (htable : s'.table = s.table) (hdisk : s'.disk = s.disk) (hactive : s'.active = s.active)
    (hspare : s'.spare = s.spare) : s'.Stable receipts :=
  hs.rests (.of_eq hs.toFiled hsettings htable hdisk hactive hspare)
    (rests_of_eq htable (by rw [hdisk])) (hs.toHoused.of_eq hsettings htable hdisk hactive hspare)

/-- What is done to the file of one active segment concerns no other segment. -/
theorem Stable.put (hs : s.Stable receipts) (hs' : s'.Housed []) (hk : k ∈ s.active)
    (hw : s.WritesTo s' k) (hsize : s'.table.size = s.table.size)
    (hdurable : ∀ f, f ≠ (s.segment k).file → s'.disk.durable f = s.disk.durable f)
    (hends : (s'.segment k).sealed = false →
      (s'.segment k).cursor = (s'.disk.content (s'.segment k).file).length)
    {new : List Receipt} (hnew : ∀ r ∈ new, r.handle = k)
    (hremembers : s'.Remembers (receiptsOf receipts k ++ new) k) :
    s'.Stable (receipts ++ new) := by
  have hknown := hs.known_active hk
  constructor
  case toHoused => exact hs'
  case syncs => exact fun f hf => hs.syncs f (hw.faults.sync f hf)
  case ends =>
    intro j hj hunsealed
    rw [hw.active] at hj
    by_cases hjk : j = k
    · subst hjk
      exact hends hunsealed
    · obtain ⟨hsegment, hcontent⟩ := hw.elsewhere hs.toFiled hknown (hs.known_active hj) hjk
      rw [hsegment] at hunsealed ⊢
      rw [hcontent]
      exact hs.ends j hj hunsealed
  case unused =>
    intro j hj
    rw [hw.spare] at hj
    have hfresh : j ∈ s.spare.toList ++ [] := by simp [hj]
    have hjk : j ≠ k := by
      rintro rfl
      exact hs.active_not_fresh hk hfresh
    obtain ⟨hsegment, hcontent⟩ :=
      hw.elsewhere hs.toFiled hknown (hs.known j (List.mem_append_right _ hfresh)) hjk
    rw [hsegment, hcontent]
    exact hs.unused j hj
  case granted =>
    intro r hr
    rw [hsize]
    rcases List.mem_append.mp hr with hold | hadded
    · exact hs.granted r hold
    · rw [hnew r hadded]
      exact hknown
  case remembers =>
    intro j hj
    rw [hsize] at hj
    rw [receiptsOf, List.filter_append]
    by_cases hjk : j = k
    · subst hjk
      rwa [List.filter_eq_self.mpr fun r hr => decide_eq_true (hnew r hr)]
    · have hnone : new.filter (fun r => r.handle = j) = [] := by
        refine List.filter_eq_nil_iff.mpr fun r hr => ?_
        rw [hnew r hr, decide_eq_true_eq]
        exact Ne.symm hjk
      obtain ⟨hsegment, hcontent⟩ := hw.elsewhere hs.toFiled hknown hj hjk
      rw [hnone, List.append_nil]
      refine (hs.remembers j hj).of_eq ?_ ?_ ?_
      · rw [hsegment, hcontent]
      · rw [hsegment, hdurable _ (hs.file_ne hj hknown hjk)]
      · rw [hsegment]

/-- What adds no record to the file of an active segment. -/
theorem Stable.touch (hs : s.Stable receipts) (hs' : s'.Housed []) (hk : k ∈ s.active)
    (hw : s.WritesTo s' k) (hsize : s'.table.size = s.table.size)
    (hdurable : ∀ f, f ≠ (s.segment k).file → s'.disk.durable f = s.disk.durable f)
    (hends : (s'.segment k).sealed = false →
      (s'.segment k).cursor = (s'.disk.content (s'.segment k).file).length)
    (hremembers : s'.Remembers (receiptsOf receipts k) k) : s'.Stable receipts := by
  have hput := hs.put hs' hk hw hsize hdurable hends (fun _ hr => (List.not_mem_nil hr).elim)
    (by rwa [List.append_nil])
  rwa [List.append_nil] at hput

/-! ## Syncs -/

/-- Whether no segment of a store has to be synced. -/
def Synced (s : Store) : Prop := ∀ k < s.table.size, (s.segment k).unsynced = false

theorem Rests.synced (h : s.Rests s') (hs : s.Synced) : s'.Synced := by
  intro k hk
  by_cases hold : k < s.table.size
  · rw [h.unsynced k hold, hs k hold]
  · exact (h.new k (Nat.le_of_not_lt hold) hk).1

/-- Only the segment that was written can have to be synced. -/
theorem WritesTo.synced (hw : s.WritesTo s' k) (hsize : s'.table.size = s.table.size)
    (hs : s.Synced) (hk : (s'.segment k).unsynced = false) : s'.Synced := by
  intro j hj
  rw [hsize] at hj
  by_cases hjk : j = k
  · rw [hjk, hk]
  · rw [(hw.same j hj).2 hjk, hs j hj]

/-- Whether a store came of another by syncs: its segments are those of the other, and one that had
nothing to be synced still has nothing. -/
structure Calms (s s' : Store) : Prop where
  size : s'.table.size = s.table.size
  active : s'.active = s.active
  unsynced : ∀ k, (s.segment k).unsynced = false → (s'.segment k).unsynced = false

theorem Calms.refl (s : Store) : s.Calms s := ⟨rfl, rfl, fun _ h => h⟩

theorem Calms.trans (h : s.Calms s') (h' : s'.Calms s'') : s.Calms s'' :=
  ⟨h'.size.trans h.size, h'.active.trans h.active, fun k hk => h'.unsynced k (h.unsynced k hk)⟩

theorem Calms.synced (h : s.Calms s') (hs : s.Synced) : s'.Synced :=
  fun k hk => h.unsynced k (hs k (h.size ▸ hk))

theorem writesTo_syncSegment {force : Bool} {r : Except DiskError Unit}
    (h : s.syncSegment k force = (r, s')) : s.WritesTo s' k ∧ s'.table.size = s.table.size := by
  obtain ⟨u, d, rfl, htree, hsize, hcontent, hfaults, -⟩ := syncSegment_cases h
  refine ⟨{
    settings := rfl
    ids := UInt64.le_refl _
    active := rfl
    spare := rfl
    same := fun j hj => ⟨sameFile_modify ⟨rfl, rfl, rfl, rfl⟩ j hj, segment_modify_ne _⟩
    tree := htree
    files := hsize
    content := fun f hf _ => hcontent f hf
    faults := hfaults }, size_modify s k _⟩

/-- A sync is left out if nothing has to be synced, or it brings the whole file to stable
storage. -/
theorem syncSegment_ok (hsyncs : ∀ f ∈ s.disk.faults.sync, f = none) (k : Handle) (force : Bool) :
    (s.segment k).unsynced = false ∧
        s.syncSegment k force =
          (.ok (), s.modify k fun _ => { s.segment k with unsynced := false }) ∨
      s.syncSegment k force = (.ok (),
        { s.modify k (fun _ => { s.segment k with unsynced := false }) with
          disk := (s.disk.sync (s.segment k).file).2 }) := by
  have hok := Disk.sync_ok (s.segment k).file (Faults.next?_eq_none hsyncs)
  cases hd : s.disk.sync (s.segment k).file with
  | mk r d =>
    rw [hd] at hok
    cases hok
    unfold Store.syncSegment Segment.sync
    by_cases hskip : (!force && !(s.segment k).unsynced) = true
    · refine .inl ⟨?_, by rw [if_pos hskip]; rfl⟩
      rw [Bool.and_eq_true, Bool.not_eq_true', Bool.not_eq_true'] at hskip
      exact hskip.2
    · rw [if_neg hskip, hd]
      exact .inr rfl

/-- After a sync there is nothing to be synced, and it is remembered. -/
theorem Remembers.syncSegment {l : List Receipt} (hm : s.Remembers l k) (hk : k < s.table.size)
    (hfile : (s.segment k).file < s.disk.files.size)
    (hsyncs : ∀ f ∈ s.disk.faults.sync, f = none) {force : Bool} {r : Except DiskError Unit}
    (h : s.syncSegment k force = (r, s')) :
    r = .ok () ∧ s'.segment k = { s.segment k with unsynced := false } ∧ s'.Remembers l k ∧
      ∀ f, f ≠ (s.segment k).file → s'.disk.durable f = s.disk.durable f := by
  have hsegment : ∀ d, Store.segment { s.modify k (fun _ =>
      { s.segment k with unsynced := false }) with disk := d } k =
        { s.segment k with unsynced := false } :=
    fun _ => segment_modify_self (fun _ => { s.segment k with unsynced := false }) hk
  rcases syncSegment_ok hsyncs k force with ⟨hskip, he⟩ | he <;> rw [h] at he <;> cases he
  · have hself := hsegment s.disk
    refine ⟨rfl, hself, hm.of_eq ?_ ?_ ?_, fun _ _ => rfl⟩
    · exact congrArg (fun g => s.disk.content g.file) hself
    · exact congrArg (fun g => s.disk.durable g.file) hself
    · exact (congrArg Segment.unsynced hself).trans hskip.symm
  · have hdurable := Disk.durable_sync (Faults.next?_eq_none hsyncs) hfile
    obtain ⟨-, -, -, hsame⟩ := Disk.sync_cases (Prod.eta (s.disk.sync (s.segment k).file)).symm
    refine ⟨rfl, hsegment _, ?_, fun f hf => (hdurable f).trans (if_neg (Ne.symm hf))⟩
    rw [Remembers, hsegment]
    dsimp only
    rw [hsame _ hfile, hdurable, if_pos rfl]
    exact hm.sync

/-- A sync of an active segment leaves nothing there to be synced. -/
theorem Stable.syncSegment (hs : s.Stable receipts) (hk : k ∈ s.active) {force : Bool}
    {r : Except DiskError Unit} (h : s.syncSegment k force = (r, s')) :
    r = .ok () ∧ s'.Stable receipts ∧ s.Calms s' ∧ (s'.segment k).unsynced = false := by
  have hknown := hs.known_active hk
  obtain ⟨hw, hsize⟩ := writesTo_syncSegment h
  obtain ⟨rfl, hself, hremembers, hdurable⟩ :=
    (hs.remembers k hknown).syncSegment hknown (hs.files k hknown) hs.syncs h
  obtain ⟨u, d, he, -, -, hcontent, -⟩ := syncSegment_cases h
  refine ⟨rfl, ?_, ⟨hsize, hw.active, fun j hj => ?_⟩, by rw [hself]⟩
  · refine hs.touch (hs.toHoused.syncSegment h) hk hw hsize hdurable (fun hopen => ?_) hremembers
    have hsame : s'.disk.content (s.segment k).file = s.disk.content (s.segment k).file := by
      rw [he]
      exact hcontent _ (hs.files k hknown)
    rw [hself] at hopen ⊢
    rw [hsame]
    exact hs.ends k hk hopen
  · by_cases hjk : j = k
    · rw [hjk, hself]
    · rw [he]
      exact (segment_modify_ne _ hjk).symm ▸ hj

/-- A sync of some active segments succeeds, and leaves nothing there to be synced. -/
theorem Stable.syncEach (hs : s.Stable receipts) (force : Bool) {todo : List Handle}
    (htodo : ∀ k ∈ todo, k ∈ s.active) :
    ∃ s', Store.syncEach force todo s = (.ok (), s') ∧ s'.Stable receipts ∧ s.Calms s' ∧
      ∀ k ∈ todo, (s'.segment k).unsynced = false := by
  induction todo generalizing s with
  | nil => exact ⟨s, rfl, hs, .refl s, fun _ hk => (List.not_mem_nil hk).elim⟩
  | cons k rest ih =>
    cases hr : s.syncSegment k force with
    | mk r s₁ =>
      obtain ⟨rfl, hs₁, hcalms, hsynced⟩ := hs.syncSegment (htodo k List.mem_cons_self) hr
      obtain ⟨s', hrest, hs', hcalms', hall⟩ := ih hs₁ fun j hj => by
        rw [hcalms.active]
        exact htodo j (List.mem_cons_of_mem k hj)
      refine ⟨s', ?_, hs', hcalms.trans hcalms', fun j hj => ?_⟩
      · rw [Store.syncEach, hr]
        exact hrest
      · rcases List.mem_cons.mp hj with rfl | hj
        · exact hcalms'.unsynced _ hsynced
        · exact hall j hj

theorem Stable.syncActive (hs : s.Stable receipts) (force : Bool) :
    ∃ s', s.syncActive force = (.ok (), s') ∧ s'.Stable receipts ∧ s.Calms s' ∧
      ∀ k ∈ s'.active, (s'.segment k).unsynced = false := by
  obtain ⟨s', hall, hs', hcalms, hsynced⟩ := hs.syncEach force fun _ hk => hk
  exact ⟨s', hall, hs', hcalms, by rwa [hcalms.active]⟩

/-- The use of a store ends with a sync, whatever becomes of the spare. -/
theorem Stable.finish (hs : s.Stable receipts) :
    s.finish.2.Stable receipts ∧ s.Calms s.finish.2 ∧
      ∀ k ∈ s.finish.2.active, (s.finish.2.segment k).unsynced = false := by
  have hs' := hs.toHoused.finish
  obtain ⟨synced, s₁, hsync, hcase⟩ := finish_cases (Prod.eta s.finish).symm
  obtain ⟨_, hall, hs₁, hcalms, hsynced⟩ := hs.syncActive true
  rw [hsync] at hall
  cases hall
  rcases hcase with ⟨_, he, -⟩ | ⟨-, ⟨-, -, he⟩ | ⟨k, removed, -, hd, -⟩⟩
  · cases he
  · rw [he]
    exact ⟨hs₁, hcalms, hsynced⟩
  · have hout : s₁.Rests { s₁ with spare := none } := rests_of_eq rfl rfl
    have hrests := hout.trans (rests_deleteFile { s₁ with spare := none } k)
    rw [hd] at hrests
    obtain ⟨d, he, -⟩ := deleteFile_cases hd
    refine ⟨hs₁.rests (hs₁.proceeds_dropSpare hd) hrests hs', ?_⟩
    rw [he]
    exact ⟨hcalms.trans ⟨rfl, rfl, fun _ h => h⟩, hsynced⟩

/-! ## Appends -/

/-- A write that succeeds leaves something to be synced, and one that fails does not. -/
theorem unsynced_write {c : Claim} {frame : Bytes} {r : Except DiskError Unit}
    (h : s.write c frame = (r, s')) (hc : c.handle < s.table.size) :
    r = .ok () ∧ (s'.segment c.handle).unsynced = true ∨
      (∃ cause, r = .error cause) ∧
        (s'.segment c.handle).unsynced = (s.segment c.handle).unsynced := by
  have hself : ∀ g d,
      Store.segment { s.modify c.handle (fun _ => g) with disk := d } c.handle = g :=
    fun g _ => segment_modify_self (fun _ => g) hc
  rw [Store.write, Segment.write] at h
  split at h
  rename_i hw
  split at hw <;> cases hw <;> cases h
  · exact .inl ⟨rfl, congrArg Segment.unsynced (hself _ _)⟩
  · exact .inr ⟨⟨_, rfl⟩, (congrArg Segment.unsynced (hself _ _)).trans rfl⟩

/-- The segment that an append goes to takes in more where its file ends. -/
theorem Stable.segmentFor (hs : s.Stable receipts) {length : Nat} {r : Except LogError Handle}
    (h : s.segmentFor length = (r, s')) :
    s'.Stable receipts ∧ ∀ k, r = .ok k → s'.tail? = some k ∧
      (s'.segment k).cursor = (s'.disk.content (s'.segment k).file).length := by
  refine ⟨hs.rests (hs.proceeds_segmentFor h) (hs.rests_segmentFor h) (hs.toHoused.segmentFor h).1,
    ?_⟩
  rintro k rfl
  obtain ⟨ht, ⟨rfl, hunsealed, -⟩ | ⟨-, -, hcursor, hcontent⟩⟩ := hs.segmentFor_ok hs.unused h
  · exact ⟨ht, hs.ends k (mem_of_tail? ht) hunsealed⟩
  · exact ⟨ht, by rw [hcursor, hcontent, List.length_nil]⟩

/-- A frame that is written is a record that has to be synced, and a write that fails leaves nothing
to be synced. -/
theorem Stable.write (hs : s.Stable receipts) (hk : k ∈ s.active)
    (hend : (s.segment k).cursor = (s.disk.content (s.segment k).file).length)
    {partitions : List Partition} {payload : Bytes} {r : Except DiskError Unit}
    (h : (s.modify k fun g => g.claimed partitions (Frame.ofPayload payload).length).write
      ⟨k, (s.segment k).cursor⟩ (Frame.ofPayload payload) = (r, s')) :
    s.WritesTo s' k ∧ s'.table.size = s.table.size ∧
      (r = .ok () ∧ s'.Stable (receipts ++ [⟨k, (s.segment k).cursor, payload⟩]) ∨
        ∃ cause, r = .error cause ∧ (s'.segment k).unsynced = (s.segment k).unsynced ∧
          (s'.giveUp k cause).2.Stable receipts) := by
  have hknown := hs.known_active hk
  have hfile := hs.files k hknown
  have hmemory := hs.remembers k hknown
  have hclaimed := segment_modify_self
    (fun g => g.claimed partitions (Frame.ofPayload payload).length) hknown
  have hknown' : k < (s.modify k fun g => g.claimed partitions
      (Frame.ofPayload payload).length).table.size := by rwa [size_modify]
  have hs' : s'.Housed [] := by
    have hput := hs.toHoused.modify (h := k)
      (f := fun g => g.claimed partitions (Frame.ofPayload payload).length) ⟨rfl, rfl, rfl, rfl⟩
      (.refl _) rfl
    exact hput.write h hknown'
  have hunsynced := unsynced_write h hknown'
  obtain ⟨hw, hsize, hcursor, hwrite⟩ := writesTo_write hknown hfile h
  have hself := (hw.same k hknown).1.file
  have hdurable := Disk.durable_writeAt hwrite
  refine ⟨hw, hsize, ?_⟩
  rw [hend] at hwrite hcursor
  rcases Disk.writeAt_end_cases hwrite hfile with
    ⟨rfl, hcontent⟩ | ⟨cause, torn, rfl, -, -, hcontent⟩
  · obtain ⟨-, hset⟩ | ⟨⟨_, hr⟩, -⟩ := hunsynced
    · refine .inl ⟨rfl, hs.put hs' hk hw hsize (fun f _ => hdurable f) (fun _ => ?_) ?_ ?_⟩
      · rw [hself, hcontent, hcursor, List.length_append]
      · rintro r hr
        rw [List.mem_singleton.mp hr]
      · rw [Remembers, hself, hcontent, hdurable, hset, hend]
        exact hmemory.write k payload
    · cases hr
  · obtain ⟨hr, -⟩ | ⟨-, hsame⟩ := hunsynced
    · cases hr
    rw [hclaimed] at hsame
    have hsealed := segment_giveUp (k := k) (by rwa [hsize]) cause
    refine .inr ⟨cause, rfl, hsame, hs.touch (hs'.giveUp k cause) hk (hw.giveUp hsize cause)
      ((size_modify s' k _).trans hsize) (fun f _ => hdurable f) (fun hopen => ?_) ?_⟩
    · rw [hsealed] at hopen
      cases hopen
    · rw [Remembers, hsealed]
      show Remembered _ (s'.disk.content (s'.segment k).file) (s'.disk.durable (s'.segment k).file)
        (s'.segment k).unsynced
      rw [hself, hcontent, hdurable, hsame]
      exact hmemory.tear torn

theorem acknowledged_of_ok {m : Mutation} {p : Position} (h : s.append m = (.ok p, s'))
    (ht : s'.tail? = some k) : s.acknowledged (.append m) = [⟨k, p.offset, m.payload⟩] := by
  rw [acknowledged, h]
  dsimp only
  rw [ht]
  rfl

theorem acknowledged_of_error {m : Mutation} {e : LogError} (h : s.append m = (.error e, s')) :
    s.acknowledged (.append m) = [] := by
  rw [acknowledged, h]

/-- An append whose frame is written is acknowledged, after a sync where every append is synced. -/
theorem Stable.acknowledge (hs : s.Stable receipts) {c : Claim} (hc : c.handle ∈ s.active)
    {r : Except LogError Position} (h : s.acknowledge c = (r, s')) :
    ∃ p, r = .ok p ∧ p.offset = c.offset ∧ s'.Stable receipts ∧ s.Calms s' ∧
      (s.settings.sync = .eachAppend → (s'.segment c.handle).unsynced = false) := by
  obtain ⟨hsync, rfl, rfl⟩ | ⟨-, synced, s₁, hsync, hcase⟩ := acknowledge_cases h
  · exact ⟨_, rfl, rfl, hs, .refl _, fun heach => absurd heach hsync⟩
  · obtain ⟨rfl, hs₁, hcalms, hsynced⟩ := hs.syncSegment hc hsync
    obtain ⟨-, rfl, rfl⟩ | ⟨_, _, hr, -⟩ := hcase
    · exact ⟨_, rfl, rfl, hs₁, hcalms, fun _ => hsynced⟩
    · cases hr

/-- A range is claimed where the file of its segment ends, or nothing is claimed. -/
theorem Stable.claim (hs : s.Stable receipts) {partitions : List Partition} {length : Nat}
    {granted : Except LogError Claim} (h : s.claim partitions length = (granted, s')) :
    (∃ e, granted = .error e ∧ s'.Stable receipts ∧ s.Rests s') ∨
      ∃ k s₁, granted = .ok ⟨k, (s₁.segment k).cursor⟩ ∧ s₁.Stable receipts ∧ s.Rests s₁ ∧
        s₁.settings = s.settings ∧ s₁.tail? = some k ∧
        (s₁.segment k).cursor = (s₁.disk.content (s₁.segment k).file).length ∧
        s' = s₁.modify k fun g => g.claimed partitions length := by
  obtain ⟨chosen, s₁, hf, -, hcase⟩ := Store.claim_cases h
  obtain ⟨hs₁, hchosen⟩ := hs.segmentFor hf
  have hrests := hs.toHoused.rests_segmentFor hf
  rcases hcase with ⟨e, -, rfl, rfl⟩ | ⟨k, rfl, ⟨cause, rfl, rfl⟩ | ⟨rfl, -, hclaimed⟩⟩
  · exact .inl ⟨e, rfl, hs₁, hrests⟩
  · exact .inl ⟨_, rfl, hs₁.of_eq rfl rfl rfl rfl rfl, hrests.trans (rests_of_eq rfl rfl)⟩
  · obtain ⟨ht, hend⟩ := hchosen k rfl
    exact .inr ⟨k, s₁, rfl, hs₁, hrests, (hs.proceeds_segmentFor hf).settings, ht, hend,
      hclaimed (hs₁.known_active (mem_of_tail? ht))⟩

/-- An append that is acknowledged adds its record, and one that fails adds none. -/
theorem Stable.append (hs : s.Stable receipts) (m : Mutation) :
    (s.append m).2.Stable (receipts ++ s.acknowledged (.append m)) ∧
      (s.settings.sync = .eachAppend → s.Synced → (s.append m).2.Synced) := by
  cases h : s.append m with
  | mk r s' =>
    obtain ⟨e, -, rfl, rfl⟩ | ⟨frame, granted, s₁, hframe, hclaim, hcase⟩ := Store.append_cases h
    · rw [acknowledged_of_error h, List.append_nil]
      exact ⟨hs, fun _ hsynced => hsynced⟩
    obtain ⟨-, -, -, rfl⟩ := Mutation.frame_eq_ok_iff.mp hframe
    obtain ⟨e, rfl, hs₁, hrests⟩ | ⟨k, s₀, rfl, hs₀, hrests, hsettings, ht, hend, rfl⟩ :=
      hs.claim hclaim
    · obtain ⟨_, -, rfl, rfl⟩ | ⟨_, _, _, hr, -⟩ := hcase
      · rw [acknowledged_of_error h, List.append_nil]
        exact ⟨hs₁, fun _ => hrests.synced⟩
      · cases hr
    obtain ⟨_, hr, -⟩ | ⟨c, written, s₂, hr, hwrite, hcase⟩ := hcase <;> cases hr
    have hk := mem_of_tail? ht
    have hknown := hs₀.known_active hk
    obtain ⟨hw, hsize, ⟨rfl, hs₂⟩ | ⟨cause, rfl, hsame, hs₂⟩⟩ := hs₀.write hk hend hwrite
    · obtain ⟨-, hack⟩ | ⟨_, _, hr, -⟩ := hcase
      · obtain ⟨p, rfl, hp, hs', hcalms, hsynced⟩ :=
          hs₂.acknowledge (show k ∈ s₂.active by rwa [hw.active]) hack
        have ht' : s'.tail? = some k := by rw [tail?, hcalms.active, hw.active, ← tail?, ht]
        rw [acknowledged_of_ok h ht', hp]
        refine ⟨hs', fun heach hbefore j hj => ?_⟩
        rw [← hsettings, ← hw.settings] at heach
        rw [hcalms.size, hsize] at hj
        by_cases hjk : j = k
        · rw [hjk, hsynced heach]
        · refine hcalms.unsynced j ?_
          rw [(hw.same j hj).2 hjk, hrests.synced hbefore j hj]
      · cases hr
    · obtain ⟨hr, -⟩ | ⟨_, _, hr, rfl, rfl⟩ := hcase <;> cases hr
      rw [acknowledged_of_error h, List.append_nil]
      refine ⟨hs₂, fun _ hbefore => ?_⟩
      refine (hw.giveUp hsize cause).synced ((size_modify s₂ k _).trans hsize)
        (hrests.synced hbefore) ?_
      rw [segment_giveUp (by rwa [hsize])]
      exact hsame.trans (hrests.synced hbefore k hknown)

/-! ## Runs -/

/-- A request that is no append adds no record: it brings nothing to stable storage, or it syncs. -/
theorem Stable.serve_cases (hs : s.Stable receipts) (request : Request) :
    (∃ m, request = .append m) ∨ s.acknowledged request = [] ∧
      (s.Proceeds (s.serve request) ∧ s.Rests (s.serve request) ∨
        (s.serve request).Stable receipts ∧ s.Calms (s.serve request)) := by
  have hsync : ∀ force,
      (s.syncActive force).2.Stable receipts ∧ s.Calms (s.syncActive force).2 := by
    intro force
    obtain ⟨s', he, hs', hcalms, -⟩ := hs.syncActive force
    rw [he]
    exact ⟨hs', hcalms⟩
  cases request with
  | append m => exact .inl ⟨m, rfl⟩
  | discard p upTo =>
    exact .inr ⟨rfl, .inl ⟨hs.proceeds_discardEach p upTo s.active,
      rests_discardEach p upTo s.active s⟩⟩
  | stockSpare => exact .inr ⟨rfl, .inl ⟨hs.proceeds_stockSpare, hs.rests_stockSpare⟩⟩
  | sync force =>
    refine .inr ⟨rfl, ?_⟩
    show s.Proceeds (s.sync force).2 ∧ s.Rests (s.sync force).2 ∨
      (s.sync force).2.Stable receipts ∧ s.Calms (s.sync force).2
    unfold Store.sync
    split
    · obtain ⟨mail, he⟩ := send_eq s .sync
      dsimp only
      rw [he]
      exact .inl ⟨.of_eq hs.toFiled rfl rfl rfl rfl rfl, rests_of_eq rfl rfl⟩
    · exact .inr (hsync force)
  | syncActive force => exact .inr ⟨rfl, .inr (hsync force)⟩
  | finish => exact .inr ⟨rfl, .inr ⟨hs.finish.1, hs.finish.2.1⟩⟩
  | wipe => exact .inr ⟨rfl, .inl ⟨hs.proceeds_wipe, rests_wipe s⟩⟩
  | keepIdsAbove | attach =>
    exact .inr ⟨rfl, .inl ⟨.of_eq hs.toFiled rfl rfl rfl rfl rfl, rests_of_eq rfl rfl⟩⟩

/-- One request adds the record that it leaves acknowledged. Where every append is synced, it leaves
nothing to be synced. -/
theorem Stable.serve (hs : s.Stable receipts) (request : Request) :
    (s.serve request).Stable (receipts ++ s.acknowledged request) ∧
      (s.settings.sync = .eachAppend → s.Synced → (s.serve request).Synced) := by
  obtain ⟨m, rfl⟩ | ⟨hnone, hcase⟩ := hs.serve_cases request
  · exact hs.append m
  rw [hnone, List.append_nil]
  rcases hcase with ⟨hp, hr⟩ | ⟨hs', hcalms⟩
  · exact ⟨hs.rests hp hr (hs.toHoused.serve request), fun _ => hr.synced⟩
  · exact ⟨hs', fun _ => hcalms.synced⟩

/-- So does a whole run of them. -/
theorem Stable.serveAll (hs : s.Stable receipts) (requests : List Request) :
    (s.serveAll requests).Stable (receipts ++ s.acknowledgedAll requests) ∧
      (s.settings.sync = .eachAppend → s.Synced → (s.serveAll requests).Synced) := by
  induction requests generalizing s receipts with
  | nil =>
    rw [acknowledgedAll, List.append_nil]
    exact ⟨hs, fun _ hsynced => hsynced⟩
  | cons request rest ih =>
    obtain ⟨hs₁, hsynced₁⟩ := hs.serve request
    obtain ⟨hs', hsynced⟩ := ih hs₁
    rw [acknowledgedAll, ← List.append_assoc]
    refine ⟨hs', fun heach hbefore => hsynced ?_ (hsynced₁ heach hbefore)⟩
    rw [hs.toHoused.settings_serve request]
    exact heach

/-- Before anything is asked for, there is nothing to be synced. -/
theorem stable_onDirectory {settings : Settings} {now : UInt64} {disk : Disk} {monitor : Monitor}
    (h : onDirectory settings now disk monitor = .ok s) (hd : disk.WellFormed)
    (hsyncs : ∀ f ∈ disk.faults.sync, f = none) :
    s.Stable [] ∧ s.Synced ∧ s.settings = settings := by
  have hs := housed_onDirectory h hd
  obtain ⟨found, rfl, -⟩ := onDirectory_cases h
  exact ⟨{
    toHoused := hs
    syncs := hsyncs
    ends := fun k hk => (List.not_mem_nil hk).elim
    unused := fun k hk => (nomatch hk)
    granted := fun r hr => (List.not_mem_nil hr).elim
    remembers := fun k hk => absurd hk (Nat.not_lt_zero k) },
    fun k hk => absurd hk (Nat.not_lt_zero k), rfl⟩

/-- An acknowledged record is durable where its segment has nothing to be synced. -/
theorem Stable.durable (hs : s.Stable receipts) {r : Receipt} (hr : r ∈ receipts)
    (hsynced : (s.segment r.handle).unsynced = false) : r.Durable s := by
  have hmemory := hs.remembers r.handle (hs.granted r hr)
  rw [Remembers, hsynced] at hmemory
  exact hmemory.standsIn_of_synced (mem_receiptsOf.mpr ⟨hr, rfl⟩)

/-- **Nobody can tell whether a sync was left out.** Take a store that was opened with any settings,
on any disk whose syncs succeed, and any requests that one caller makes after that, whatever else
fails; among others, a write may leave a torn frame behind. A segment then remembers that it has to
be synced exactly if a record was acknowledged in it that came after its last sync. Every record
that was acknowledged is in the file of its segment, and it is on stable storage exactly if it did
not come after the last sync. A sync of the active segments succeeds, and whether it is forced or
leaves out what it can, and when the use of the store ends, all records that were acknowledged in
them are on stable storage. Where every append is synced, they always are. -/
theorem acknowledged_durable {settings : Settings} {now : UInt64} {disk : Disk} {monitor : Monitor}
    {opened : Store} (hopen : onDirectory settings now disk monitor = .ok opened)
    (hdisk : disk.WellFormed) (hsyncs : ∀ f ∈ disk.faults.sync, f = none)
    (requests : List Request) :
    let s := opened.serveAll requests
    let receipts := opened.acknowledgedAll requests
    (∀ k < s.table.size,
        (s.segment k).unsynced = true ↔ ∃ r ∈ receipts, r.handle = k ∧ r.IsLate s) ∧
      (∀ r ∈ receipts, r.handle < s.table.size ∧ r.Written s ∧ (r.Durable s ↔ ¬ r.IsLate s)) ∧
      (∀ force, (s.syncActive force).1 = .ok () ∧
        ∀ r ∈ receipts, r.handle ∈ s.active → r.Durable (s.syncActive force).2) ∧
      (∀ r ∈ receipts, r.handle ∈ s.active → r.Durable s.finish.2) ∧
      (settings.sync = .eachAppend → ∀ r ∈ receipts, r.Durable s) := by
  intro s receipts
  obtain ⟨hfresh, hclean, hsettings⟩ := stable_onDirectory hopen hdisk hsyncs
  obtain ⟨hs, hsynced⟩ := hfresh.serveAll requests
  rw [List.nil_append] at hs
  refine ⟨fun k hk => ?_, fun r hr => ?_, fun force => ?_, fun r hr hactive => ?_, ?_⟩
  · rw [(hs.remembers k hk).mark]
    constructor
    · rintro ⟨r, hr, hbehind⟩
      obtain ⟨hmem, rfl⟩ := mem_receiptsOf.mp hr
      exact ⟨r, hmem, rfl, hbehind⟩
    · rintro ⟨r, hmem, rfl, hlate⟩
      exact ⟨r, mem_receiptsOf.mpr ⟨hmem, rfl⟩, hlate⟩
  · have hknown := hs.granted r hr
    have hmem := mem_receiptsOf.mpr ⟨hr, rfl⟩
    exact ⟨hknown, (hs.remembers _ hknown).written r hmem,
      (hs.remembers _ hknown).standsIn_iff hmem⟩
  · obtain ⟨s', he, hs', hcalms, hall⟩ := hs.syncActive force
    rw [he]
    exact ⟨rfl, fun r hr hactive => hs'.durable hr (hall _ (hcalms.active ▸ hactive))⟩
  · obtain ⟨hs', hcalms, hall⟩ := hs.finish
    exact hs'.durable hr (hall _ (hcalms.active ▸ hactive))
  · exact fun heach r hr => hs.durable hr (hsynced (hsettings ▸ heach) hclean _ (hs.granted r hr))

/-- The second write fails, and leaves a torn frame behind. The third record goes to another
segment; a sync that is not forced leaves nothing out that was acknowledged. -/
theorem acknowledged_durable_torn :
    let settings : Settings :=
      { directory := ⟨[Path.dot]⟩, segmentSize := 64, sync := .every 10 }
    let faults : Faults := { write := [none, some (3, .device)] }
    let opened := blank settings 5 faults
    let requests : List Request := [.append (.raw [⟨1⟩] [7]), .append (.raw [⟨1⟩] [8, 8]),
      .append (.raw [⟨2⟩] [9])]
    let s := opened.serveAll requests
    onDirectory settings 5 { faults } { policy := settings.policy } = .ok opened ∧
      opened.acknowledgedAll requests = [⟨0, 0, [7]⟩, ⟨1, 0, [9]⟩] ∧
      s.active = [0, 1] ∧ (s.segment 0).unsynced = true ∧
      (s.disk.content (s.segment 0).file).length = 16 ∧
      Receipt.Durable ⟨0, 0, [7]⟩ (s.syncActive false).2 ∧
      Receipt.Durable ⟨1, 0, [9]⟩ (s.syncActive false).2 := by
  intro settings faults opened requests s
  have hopen := onDirectory_blank (show settings.directory = ⟨[Path.dot]⟩ from rfl) 5 faults
  have hreceipts : opened.acknowledgedAll requests = [⟨0, 0, [7]⟩, ⟨1, 0, [9]⟩] := by
    decide +kernel
  have hactive : s.active = [0, 1] := by decide +kernel
  obtain ⟨-, -, hsync, -⟩ := acknowledged_durable hopen (Disk.wellFormed_empty _)
    (fun f hf => (List.not_mem_nil hf).elim) requests
  have hall := (hsync false).2
  rw [hreceipts] at hall
  exact ⟨hopen, hreceipts, hactive, by decide +kernel, by decide +kernel,
    hall _ (by simp) (by rw [hactive]; decide), hall _ (by simp) (by rw [hactive]; decide)⟩

end Store

end SegmentLog
