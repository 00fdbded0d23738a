import SegmentLog.Proofs.Replay.Torn
import SegmentLog.Proofs.Store.Ready
import SegmentLog.Proofs.Store.Reporting

/-!
# Appends that fail

An append can fail at four steps. A mutation that is refused changes nothing. If no segment can be
made for the record, a number is used up and the failure is reported; a spare that is of no use any
more has gone by then, and there is one only if the numbers have run out and started over. If the
write of the frame fails, a beginning of it may be left behind the records of its segment, which is
sealed and takes in nothing more; the records that were there before are replayed as they were, and
the one that has failed is not. If the sync after the write fails, the segment is sealed as well.

* `Ready.retired` — a sealed segment takes in nothing more, whatever is asked for later;
* `segmentFor_error` — what is left when no segment can be made;
* `Ready.unwritten` — what is left when a write fails;
* `failed_append` — all of it, in every state that a store can be in.
-/

namespace SegmentLog

/-- Whether a mutation is refused, and why. -/
def Mutation.Refused (m : Mutation) (max : Nat) (e : LogError) : Prop :=
  m.declared = 0 ∧ e = .emptyRecord ∨
    m.declared ≠ 0 ∧ max < m.declared ∧ e = .recordTooLarge m.declared max ∨
    m.declared ≠ 0 ∧ m.declared ≤ max ∧ m.payload.length ≠ m.declared ∧
      e = .io (.wrongLength m.declared m.payload.length)

theorem Mutation.refused_of_frame {m : Mutation} {max : Nat} {e : LogError}
    (h : m.frame max = .error e) : m.Refused max e := by
  unfold Mutation.frame Frame.checkSize at h
  split at h
  · rename_i hsize
    split at hsize
    · rename_i hempty
      cases hsize
      cases h
      exact .inl ⟨hempty, rfl⟩
    · rename_i hempty
      split at hsize <;> cases hsize
      rename_i hlarge
      cases h
      exact .inr (.inl ⟨hempty, hlarge, rfl⟩)
  · rename_i hsize
    obtain ⟨hpos, hle⟩ := Frame.checkSize_eq_ok_iff.mp hsize
    split at h
    · cases h
    · rename_i hlength
      cases h
      exact .inr (.inr ⟨Nat.ne_of_gt hpos, hle, hlength, rfl⟩)

namespace Store

variable {s s' : Store} {k : Handle}

/-! ## Segments that take in nothing more -/

/-- The segment that an append would write to, if it came to that. -/
def destination? (s : Store) (m : Mutation) : Option Handle :=
  match m.frame s.maxPayload with
  | .error _ => none
  | .ok frame =>
    match s.claim m.partitions frame.length with
    | (.error _, _) => none
    | (.ok c, _) => some c.handle

theorem destination?_eq_some {m : Mutation} (h : s.destination? m = some k) :
    ∃ frame c s₁, m.frame s.maxPayload = .ok frame ∧
      s.claim m.partitions frame.length = (.ok c, s₁) ∧ c.handle = k := by
  unfold destination? at h
  split at h
  · cases h
  · rename_i frame hframe
    split at h
    · cases h
    · rename_i c s₁ hclaim
      exact ⟨frame, c, s₁, hframe, hclaim, Option.some.inj h⟩

/-- A record that fits goes to the last active segment, if that is not sealed. -/
theorem destination?_of_fits {m : Mutation} {frame : Bytes}
    (hframe : m.frame s.maxPayload = .ok frame) (ht : s.tail? = some k)
    (hunsealed : (s.segment k).sealed = false) (hfits : (s.segment k).fits frame.length = true) :
    s.destination? m = some k := by
  have htail : s.tailFits k frame.length = true := by
    rw [tailFits, hunsealed, hfits]
    rfl
  unfold destination? Store.claim
  rw [hframe]
  dsimp only
  rw [segmentFor_tail ht htail]
  dsimp only
  rw [Segment.claim_eq_some_iff.mpr ⟨hfits, rfl, rfl⟩]

/-- Whether a segment is sealed and has no way back into its place. -/
structure Barred (s : Store) (k : Handle) : Prop where
  known : k < s.table.size
  sealed : (s.segment k).sealed = true
  spare : s.spare ≠ some k

theorem Barred.proceeds (hb : s.Barred k) (hp : s.Proceeds s') : s'.Barred k where
  known := Nat.lt_of_lt_of_le hb.known hp.size
  sealed := hp.sealed k hb.known hb.sealed
  spare hspare := by
    rcases hp.fresh k (by simp [hspare]) with hold | hnew
    · exact hb.spare (by simpa using hold)
    · exact Nat.not_le.mpr hb.known hnew

/-- No append goes to a segment that is barred. -/
theorem Barred.ne_of_segmentFor (hb : s.Barred k) (hs : s.Ready) {length : Nat}
    (hlength : length ≤ s.settings.segmentSize.toNat) {j : Handle}
    (h : s.segmentFor length = (.ok j, s')) : j ≠ k := by
  rintro rfl
  obtain ⟨-, ht, -, -, ⟨-, hunsealed⟩ | ⟨hout, -⟩⟩ := hs.segmentFor_ok hlength h
  · rw [hb.sealed] at hunsealed
    cases hunsealed
  · rcases (hs.proceeds_segmentFor h).active j (mem_of_tail? ht) with hactive | hspare | hnew
    · exact hout hactive
    · exact hb.spare (by simpa using hspare)
    · exact Nat.not_le.mpr hb.known hnew

theorem Barred.append (hb : s.Barred k) (hs : s.Ready) (m : Mutation) :
    (s.append m).2.Barred k := by
  cases h : s.append m with
  | mk r s' =>
    obtain ⟨e, -, -, rfl⟩ | ⟨payload, hframe, hpayload, hcase⟩ := hs.append_cases h
    · exact hb
    obtain ⟨e, hf, -⟩ | ⟨j, s₁, s₂, written, hf, -, hwrite, hcase⟩ := hcase
    · exact hb.proceeds (hs.proceeds_segmentFor hf)
    have hjk := hb.ne_of_segmentFor hs (length_frame_le hframe) hf
    have hb₁ := hb.proceeds (hs.proceeds_segmentFor hf)
    obtain ⟨hs₁, ht, -, hwhole, -⟩ := hs.segmentFor_ok (length_frame_le hframe) hf
    obtain ⟨hw, hsize, hs₂, -⟩ := hs₁.write ht hwhole hpayload hwrite
    have hb₂ : s₂.Barred k :=
      { known := by rw [hsize]; exact hb₁.known
        sealed := by
          rw [(hw.same k hb₁.known).2 (Ne.symm hjk)]
          exact hb₁.sealed
        spare := by rw [hw.spare]; exact hb₁.spare }
    obtain ⟨-, hack⟩ | ⟨cause, -, -, rfl⟩ := hcase
    · exact hb₂.proceeds (hs₂.proceeds_acknowledge hack)
    · exact hb₂.proceeds (proceeds_giveUp hs₂.toFiled j cause)

theorem Barred.serve (hb : s.Barred k) (hs : s.Ready) (request : Request) :
    (s.serve request).Barred k := by
  obtain ⟨m, rfl⟩ | hp := hs.serve_cases request
  · exact hb.append hs m
  · exact hb.proceeds hp

theorem Barred.serveAll (hb : s.Barred k) (hs : s.Ready) (requests : List Request) :
    (s.serveAll requests).Barred k := by
  induction requests generalizing s with
  | nil => exact hb
  | cons request rest ih => exact ih (hb.serve hs request) (hs.serve request)

/-- Whether a segment takes in nothing more, whatever is asked for later. -/
structure Retired (s : Store) (k : Handle) : Prop where
  sealed : (s.segment k).sealed = true
  never : ∀ later m, (s.serveAll later).destination? m ≠ some k

/-- An active segment that is sealed takes in nothing more, even after it was taken out. -/
theorem Ready.retired (hs : s.Ready) (hk : k ∈ s.active) (hsealed : (s.segment k).sealed = true) :
    s.Retired k where
  sealed := hsealed
  never later m hm := by
    have hb : s.Barred k :=
      { known := hs.known_active hk
        sealed := hsealed
        spare := fun hspare => hs.active_not_fresh hk (by simp [hspare]) }
    have hs' := hs.serveAll later
    obtain ⟨frame, c, s₁, hframe, hclaim, rfl⟩ := destination?_eq_some hm
    have hlength := length_frame_le hframe
    obtain ⟨_, hr, -⟩ | ⟨j, s₀, hr, hf, -⟩ := hs'.claim_cases hlength hclaim <;> cases hr
    exact (hb.serveAll hs later).ne_of_segmentFor hs' hlength hf rfl

/-! ## Segments that cannot be made -/

/-- What is left of a store when no segment can be made for a record. -/
structure Uncreated (s s' : Store) : Prop where
  /-- A number is used up, a failure is reported, and a spare that is of no use is gone. -/
  rest : ∃ disk, s' =
    { s with ids := s.ids.take.2, monitor := s.monitor.report, spare := none, disk }
  /-- There was no spare, and no file has come or gone; or the spare did not come after the last
  active segment, and its file was removed. -/
  spare : s.spare = none ∧ Disk.SameTree s.disk s'.disk ∨
    ∃ k, s.spare = some k ∧ (s.segment k).id ≤ s.tailId ∧
      Disk.SameTree (s.disk.remove (s.segment k).path).2 s'.disk
  files : s'.disk.files = s.disk.files
  found : ∀ k ∈ s.active, s'.Found k
  /-- The last active segment goes on as before. -/
  accepts : ∀ m frame k, m.frame s.maxPayload = .ok frame → s.tail? = some k →
    (s.segment k).sealed = false → (s.segment k).fits frame.length = true →
    s'.destination? m = some k

/-- The spare is only removed if it does not come after the last active segment. -/
theorem le_tailId_of_withdrawSpare (h : s.withdrawSpare = (none, s')) (hk : s.spare = some k) :
    (s.segment k).id ≤ s.tailId := by
  unfold Store.withdrawSpare at h
  rw [hk] at h
  dsimp only at h
  split at h
  · cases h
  · rename_i hstale
    exact UInt64.not_lt.mp hstale

/-- If no spare is given back, there was none, or it was of no use and its file was removed. -/
theorem withdrawSpare_none (h : s.withdrawSpare = (none, s')) :
    ∃ d, s' = { s with spare := none, disk := d } ∧ d.files = s.disk.files ∧
      (s.spare = none ∧ d = s.disk ∨
        ∃ k, s.spare = some k ∧ (s.segment k).id ≤ s.tailId ∧
          d = (s.disk.remove (s.segment k).path).2) := by
  rcases withdrawSpare_cases h with ⟨hnone, -, rfl⟩ | ⟨k, hk, ⟨hr, -⟩ | ⟨-, rfl⟩⟩
  · exact ⟨_, by rw [← hnone], rfl, .inl ⟨hnone, rfl⟩⟩
  · cases hr
  · cases hdelete : Store.deleteFile { s with spare := none } k with
    | mk removed t =>
      obtain ⟨d, rfl, hremove⟩ := deleteFile_cases hdelete
      exact ⟨d, rfl, Disk.files_remove hremove,
        .inr ⟨k, hk, le_tailId_of_withdrawSpare h hk, (congrArg Prod.snd hremove).symm⟩⟩

/-- An append finds no segment only if none could be created. -/
theorem segmentFor_error (hs : s.Housed []) {length : Nat} {e : LogError}
    (h : s.segmentFor length = (.error e, s')) :
    ∃ cause, e = .io (.disk cause) ∧ s.Uncreated s' := by
  obtain ⟨hs', -, hactive, -⟩ := hs.segmentFor h
  obtain ⟨_, -, -, hr, -⟩ | hroll := segmentFor_cases h
  · cases hr
  obtain ⟨spare, s₁, hw, ⟨_, -, hr, -⟩ | ⟨rfl, made, s₂, hn, hmade⟩⟩ := rollOver_cases hroll
  · cases hr
  obtain ⟨cause, rfl, hr, rfl⟩ | ⟨_, -, hr, -⟩ := hmade <;> cases hr
  obtain ⟨d, -, ⟨_, -, rfl, htree, hfiles⟩ | ⟨_, _, _, hr, -⟩⟩ := newSegment_cases hn
  · refine ⟨cause, rfl, ?_⟩
    obtain ⟨d₁, rfl, hfiles₁, hspare⟩ := withdrawSpare_none hw
    constructor
    case rest => exact ⟨d, rfl⟩
    case spare =>
      obtain ⟨hnone, rfl⟩ | ⟨k, hk, hid, rfl⟩ := hspare
      · exact .inl ⟨hnone, htree⟩
      · exact .inr ⟨k, hk, hid, htree⟩
    case files => exact hfiles.trans hfiles₁
    case found => exact fun k hk => hs'.found_active (hactive.subset hk)
    case accepts =>
      intro m frame k hframe ht hunsealed hfits
      exact destination?_of_fits hframe ht hunsealed hfits
  · cases hr

/-! ## Writes that fail -/

/-- What is left of a store when the write of a frame to a segment has failed. -/
structure Unwritten (s s' : Store) (k : Handle) (frame : Bytes) : Prop where
  monitor : s'.monitor = s.monitor.report
  /-- The segment is the last active one, or comes behind it. -/
  active : s'.active = s.active ∨ k ∉ s.active ∧ s'.active = s.active ++ [k]
  last : s'.tail? = some k
  retired : s'.Retired k
  /-- The other segments keep their claims and marks, and their files. -/
  others : ∀ j ∈ s.active, j ≠ k → (s.segment j).Keeps (s'.segment j) ∧
    s'.disk.content (s.segment j).file = s.disk.content (s.segment j).file
  /-- At most a proper beginning of the frame stands behind what the file held. -/
  torn : ∃ torn, torn <+: frame ∧ torn.length < frame.length ∧
    s'.disk.content (s'.segment k).file =
      (if k ∈ s.active then s.disk.content (s.segment k).file else []) ++ torn
  /-- What was in the active segments is replayed as it was. -/
  replays : ∀ {σ : Type} (r : Replay) (target : Target σ) (paths : List Path) (state : σ),
    (∀ path ∈ paths, ∃ j ∈ s.active, (s.segment j).path = path) →
    (r.run target s'.disk paths state).2 = (r.run target s.disk paths state).2 ∧
      (r.run target s'.disk paths state).1.map (·.last) =
        (r.run target s.disk paths state).1.map (·.last)
  /-- Nothing is replayed from a segment that was new. -/
  nothing : k ∉ s.active → ∀ {σ : Type} (r : Replay) (target : Target σ) (state : σ),
    r.applied target s'.disk (s'.segment k).name (s'.segment k).path state = []

/-- A segment that stays active with its file and its records is replayed as it was. -/
theorem Housed.agrees (hs : s.Housed []) (hs' : s'.Housed []) {j : Handle} (hj : j ∈ s.active)
    (hj' : j ∈ s'.active) (hsame : (s.segment j).SameFile (s'.segment j))
    (hrecords : (Scan.ofBytes (s'.disk.content (s.segment j).file)).records =
      (Scan.ofBytes (s.disk.content (s.segment j).file)).records) :
    s.disk.Agrees s'.disk (s.segment j).path := by
  refine ⟨_, _, hs.contents hj, ?_, hrecords⟩
  rw [← hsame.path, hs'.contents hj', hsame.file]

/-- The segments that are not written keep their claims and marks, and their files. -/
theorem WritesTo.keeps_elsewhere {s₁ : Store} (hw : s₁.WritesTo s' k) (he : s.Evolves s₁)
    (hs : s.Filed) (hs₁ : s₁.Filed) (hk : k < s₁.table.size) {j : Handle}
    (hj : j < s.table.size) (hjk : j ≠ k) : (s.segment j).Keeps (s'.segment j) ∧
      s'.disk.content (s.segment j).file = s.disk.content (s.segment j).file := by
  have hkeeps := he.old j hj
  obtain ⟨hsegment, hcontent⟩ := hw.elsewhere hs₁ hk (Nat.lt_of_lt_of_le hj he.size) hjk
  rw [hkeeps.file] at hcontent
  rw [hsegment]
  exact ⟨hkeeps, hcontent.trans (he.content _ (hs.files j hj))⟩

/-- A write that fails behind whole frames leaves all records as they were. -/
theorem Ready.unwritten (hs : s.Ready) {partitions : List Partition} {payload : Bytes}
    (hpayload : Frame.Framable payload)
    (hlength : (Frame.ofPayload payload).length ≤ s.settings.segmentSize.toNat)
    {s₁ s₂ : Store} {cause : DiskError}
    (hf : s.segmentFor (Frame.ofPayload payload).length = (.ok k, s₁))
    (hwrite : (s₁.modify k fun g => g.claimed partitions (Frame.ofPayload payload).length).write
      ⟨k, (s₁.segment k).cursor⟩ (Frame.ofPayload payload) = (.error cause, s₂)) :
    s.Unwritten (s₂.giveUp k cause).2 k (Frame.ofPayload payload) := by
  have he := evolves_segmentFor hf
  obtain ⟨hs₁, ht, -, hwhole, hchosen⟩ := hs.segmentFor_ok hlength hf
  have hknown := hs₁.known_active (mem_of_tail? ht)
  obtain ⟨hw, hsize, -, ⟨hr, -⟩ | ⟨_, torn, hr, hfront, hshort, hcontent, hs'⟩⟩ :=
    hs₁.write ht hwhole hpayload hwrite <;> cases hr
  have hw' := hw.giveUp hsize cause
  have hsealed := segment_giveUp (k := k) (by rw [hsize]; exact hknown) cause
  have hmonitor : (s₂.giveUp k cause).2.monitor = s.monitor.report := by
    have hsame : s₁.monitor = s.monitor := (answered_segmentFor hf).trans (Monitor.answered_ok _ _)
    show s₂.monitor.report = _
    rw [monitor_write hwrite]
    exact congrArg Monitor.report hsame
  have hcontent' : (s₂.giveUp k cause).2.disk.content (s₁.segment k).file =
      s₁.disk.content (s₁.segment k).file ++ torn := hcontent
  generalize (s₂.giveUp k cause).2 = s' at hs' hw' hsealed hmonitor hcontent' ⊢
  have htail : s'.tail? = some k := by
    rw [tail?, hw'.active]
    exact ht
  have hfile := (hw'.same k hknown).1.file
  have hrecords := hwhole.records_torn hpayload hfront hshort
  rw [← hcontent'] at hrecords
  have hothers : ∀ j ∈ s.active, j ≠ k → (s.segment j).Keeps (s'.segment j) ∧
      s'.disk.content (s.segment j).file = s.disk.content (s.segment j).file := fun j hj hjk =>
    hw'.keeps_elsewhere he hs.toFiled hs₁.toFiled hknown (hs.known_active hj) hjk
  constructor
  case monitor => exact hmonitor
  case active =>
    rw [hw'.active]
    obtain ⟨rfl, -⟩ | ⟨hout, hactive, -⟩ := hchosen
    · exact .inl rfl
    · exact .inr ⟨hout, hactive⟩
  case last => exact htail
  case retired => exact hs'.retired (mem_of_tail? htail) (by rw [hsealed]; rfl)
  case others => exact hothers
  case torn =>
    refine ⟨torn, hfront, hshort, ?_⟩
    rw [hfile, hcontent']
    obtain ⟨rfl, -⟩ | ⟨hout, -, hempty⟩ := hchosen
    · rw [if_pos (mem_of_tail? ht)]
    · rw [if_neg hout, hempty]
  case replays =>
    intro σ r target paths state hpaths
    refine Replay.run_agrees (fun path hpath => ?_) state
    obtain ⟨j, hj, rfl⟩ := hpaths path hpath
    have hj' : j ∈ s'.active := by
      rw [hw'.active]
      obtain ⟨rfl, -⟩ | ⟨-, hactive, -⟩ := hchosen
      · exact hj
      · exact hactive ▸ List.mem_append_left _ hj
    by_cases hjk : j = k
    · subst hjk
      obtain ⟨rfl, -⟩ | ⟨hout, -⟩ := hchosen
      · exact hs.toHoused.agrees hs'.toHoused hj hj' (hw'.same j hknown).1 hrecords
      · exact absurd hj hout
    · obtain ⟨hkeeps, hsame⟩ := hothers j hj hjk
      exact hs.toHoused.agrees hs'.toHoused hj hj' hkeeps.toSameFile (by rw [hsame])
  case nothing =>
    intro hout σ r target state
    obtain ⟨rfl, -⟩ | ⟨-, -, hempty⟩ := hchosen
    · exact absurd (mem_of_tail? ht) hout
    have hnone : (Scan.ofBytes []).records = [] := by
      rw [Scan.ofBytes, Scan.ofBytesAt_stop rfl]
    rw [Replay.applied_eq (hs'.contents (mem_of_tail? htail)), hfile, hrecords, hempty, hnone]
    rfl

/-! ## Failed appends -/

/-- What is left of a store when an append has failed, by the step at which it has failed. -/
inductive FailedAppend (s : Store) (m : Mutation) : LogError → Store → Prop where
  /-- The mutation was refused. -/
  | refused {e : LogError} (h : m.Refused s.maxPayload e) : FailedAppend s m e s
  /-- No segment could be made for the record. -/
  | uncreated {s' : Store} {frame : Bytes} {cause : DiskError}
      (hframe : m.frame s.maxPayload = .ok frame)
      (hclaim : s.claim m.partitions frame.length = (.error (.io (.disk cause)), s'))
      (h : s.Uncreated s') : FailedAppend s m (.io (.disk cause)) s'
  /-- The frame could not be written. -/
  | unwritten {s' s₁ s₂ : Store} {frame : Bytes} {c : Claim} {cause : DiskError}
      (hframe : m.frame s.maxPayload = .ok frame)
      (hclaim : s.claim m.partitions frame.length = (.ok c, s₁))
      (hwrite : s₁.write c frame = (.error cause, s₂))
      (h : s.Unwritten s' c.handle frame) : FailedAppend s m (.io (.disk cause)) s'
  /-- The segment could not be brought to stable storage. -/
  | unsynced {s' s₁ s₂ : Store} {frame : Bytes} {c : Claim} {cause : DiskError}
      (hframe : m.frame s.maxPayload = .ok frame)
      (hclaim : s.claim m.partitions frame.length = (.ok c, s₁))
      (hwrite : s₁.write c frame = (.ok (), s₂))
      (hsync : s₂.settings.sync = .eachAppend ∧ (s₂.syncSegment c.handle true).1 = .error cause)
      (h : s'.Retired c.handle) : FailedAppend s m (.io (.disk cause)) s'

/-- The end of an append fails only if the sync of its segment does, which is sealed then. -/
theorem acknowledge_error {c : Claim} {e : LogError} (h : s.acknowledge c = (.error e, s')) :
    ∃ cause s₁, e = .io (.disk cause) ∧ s.settings.sync = .eachAppend ∧
      s.syncSegment c.handle true = (.error cause, s₁) ∧ s' = (s₁.giveUp c.handle cause).2 := by
  unfold Store.acknowledge at h
  split at h
  · rename_i hsync
    cases hr : s.syncSegment c.handle true with
    | mk synced s₁ =>
      rw [hr] at h
      cases synced with
      | ok => cases h
      | error cause =>
        cases h
        exact ⟨cause, s₁, rfl, hsync, rfl, rfl⟩
  · cases h

theorem Ready.failedAppend (hs : s.Ready) {m : Mutation} {e : LogError}
    (h : s.append m = (.error e, s')) : s.FailedAppend m e s' := by
  have hready := hs.append m
  rw [h] at hready
  obtain ⟨_, hframe, hr, rfl⟩ | ⟨payload, hframe, hpayload, hcase⟩ := hs.append_cases h
  · cases hr
    exact .refused (Mutation.refused_of_frame hframe)
  have hlength := length_frame_le hframe
  obtain ⟨_, hf, hclaim, hr⟩ | ⟨k, s₁, s₂, written, hf, hclaim, hwrite, hcase⟩ := hcase
  · cases hr
    obtain ⟨cause, rfl, huncreated⟩ := segmentFor_error hs.toHoused hf
    exact .uncreated hframe hclaim huncreated
  obtain ⟨rfl, hack⟩ | ⟨cause, rfl, hr, rfl⟩ := hcase
  · obtain ⟨cause, s₃, rfl, hsync, hsynced, rfl⟩ := acknowledge_error hack
    obtain ⟨hs₁, ht, -, hwhole, -⟩ := hs.segmentFor_ok hlength hf
    obtain ⟨hw, hsize, hs₂, -⟩ := hs₁.write ht hwhole hpayload hwrite
    have hk₂ : k ∈ s₂.active := hw.active ▸ mem_of_tail? ht
    have hs₃ := hs₂.syncSegment hsynced
    have hk₃ : k ∈ s₃.active := by
      obtain ⟨u, d, rfl, -⟩ := syncSegment_cases hsynced
      exact hk₂
    refine .unsynced hframe hclaim hwrite ⟨hsync, by rw [hsynced]⟩ (hready.retired hk₃ ?_)
    rw [segment_giveUp (hs₃.known_active hk₃)]
    rfl
  · cases hr
    exact .unwritten hframe hclaim hwrite (hs.unwritten hpayload hlength hf hwrite)

/-- **A failed append leaves everything else as it was.** Whatever requests a store has served since
it was opened with settings that make sense, and whatever has failed on the way:

* an append that is refused because its mutation is empty, too large, or of another length than it
  declares changes nothing;
* one for which no segment can be made uses up a number and reports a failure. The last active
  segment is not sealed by it and still takes in a record that fits. Apart from that only a spare
  can go that does not come after the last active segment; as long as the numbers have not run out
  there is none;
* one whose frame cannot be written seals the segment of the record, which takes in nothing more. At
  most a proper beginning of the frame is left there, what was in the active segments is replayed as
  before, and the record is not;
* one whose segment cannot be synced seals it as well. -/
theorem failed_append {settings : Settings} {now : UInt64} {disk : Disk} {monitor : Monitor}
    {opened : Store} (hopen : onDirectory settings now disk monitor = .ok opened)
    (hdisk : disk.WellFormed) (hchecked : settings.check = .ok ()) (requests : List Request)
    {m : Mutation} {e : LogError} {s' : Store}
    (h : (opened.serveAll requests).append m = (.error e, s')) :
    let s := opened.serveAll requests
    s.FailedAppend m e s' ∧
      ((∀ served, served <+: requests → (opened.serveAll served).ids.next ≠ 0) →
        ∀ k, s.spare = some k → s.tailId < (s.segment k).id) := by
  refine ⟨((ready_onDirectory hopen hdisk hchecked).serveAll requests).failedAppend h, ?_⟩
  intro hids k hk
  exact ((sound_onDirectory hopen hdisk).leads_serveAll hids).sound.tailId_lt_spare hk

/-- A write fails after five bytes: they stay behind the first record, and the segment is sealed. -/
theorem failed_append_torn :
    let s := (blank { directory := ⟨[Path.dot]⟩, segmentSize := 64 } 5
      { write := [none, some (5, .device)] }).serveAll [.append (.raw [⟨1⟩] [7, 8, 9])]
    let s' := (s.append (.raw [⟨2⟩] [4])).2
    s.FailedAppend (.raw [⟨2⟩] [4]) (.io (.disk .device)) s' ∧
      (s'.disk.content 0).length = 20 ∧ (s'.segment 0).sealed = true := by
  intro s s'
  have hfails : (s.append (.raw [⟨2⟩] [4])).1 = .error (.io (.disk .device)) := by decide +kernel
  have happend : s.append (.raw [⟨2⟩] [4]) = (.error (.io (.disk .device)), s') :=
    Prod.ext hfails rfl
  refine ⟨(failed_append (onDirectory_blank rfl 5 _) (Disk.wellFormed_empty _) (by decide) _
    happend).1, by decide +kernel, by decide +kernel⟩

/-- The numbers have run out and started over, and the last active segment, which came after that,
was taken out. So the spare has a lower number than the segment that is the last one now; it goes,
with its file, when the next segment cannot be created. -/
theorem failed_append_drops_spare :
    let s := (blank { directory := ⟨[Path.dot]⟩, segmentSize := 64 } 18446744073709551615
      { create := [none, none, none, some .device]
        write := [none, none, none, some (0, .device)] }).serveAll
      [.append (.raw [⟨1⟩] (.replicate 20 0)), .append (.raw [⟨1⟩] (.replicate 20 0)),
        .append (.raw [⟨2⟩] [1, 2, 3]), .stockSpare, .append (.raw [⟨2⟩] [4]),
        .discard ⟨2⟩ ⟨0, 64⟩]
    let s' := (s.append (.raw [⟨3⟩] [5])).2
    s.settings.check = .ok () ∧ (s.segmentFor 13).1 = .error (.io (.disk .device)) ∧
      (s.append (.raw [⟨3⟩] [5])).1 = .error (.io (.disk .device)) ∧
      s.spare = some 2 ∧ s'.spare = none ∧
      s.disk.isFile (s.segment 2).path = true ∧ s'.disk.isFile (s.segment 2).path = false := by
  decide +kernel

end Store

end SegmentLog
