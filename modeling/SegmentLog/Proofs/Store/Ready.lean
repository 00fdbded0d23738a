import SegmentLog.Proofs.Store.Discarding
import SegmentLog.Proofs.Store.Leading
import SegmentLog.Proofs.Store.Mirrored

/-!
# Stores that are ready for the next append

Whatever a caller that is alone with a store asks for, whatever fails on the way, and whatever
numbers are handed out: the next append finds a segment with room for it, or fails to create one. A
segment that takes in more holds whole frames up to its cursor and nothing behind them, and the
spare is empty, so that a frame always goes where the file of its segment ends.

* `Proceeds` — what all requests but appends have in common, and most of what an append does;
* `Housed.proceeds_segmentFor`, `Housed.serve_cases` — where it is the case;
* `Ready.segmentFor_ok`, `Ready.write`, `Ready.append_cases` — all that an append does;
* `Ready.serveAll`, `ready_onDirectory` — what a whole run keeps, and where it begins.
-/

namespace SegmentLog.Store

variable {s s' s'' : Store}

/-! ## Stores that go on -/

/-- Whether a store has gone on without a claim or a write: segments keep their files, what is in
them and what is claimed of them, new ones begin with nothing, and no segment gets a place back. -/
structure Proceeds (s s' : Store) : Prop extends Retains s s', Moves s [] s' [] where
  room : ∀ k, s.table.size ≤ k → k < s'.table.size →
    (s'.segment k).capacity = s.settings.segmentSize.toNat
  sealed : ∀ k < s.table.size, (s.segment k).sealed = true → (s'.segment k).sealed = true

theorem Evolves.proceeds (he : s.Evolves s') (hs : s.Filed) (hm : s.Moves [] s' []) :
    s.Proceeds s' where
  toRetains := he.retains hs
  toMoves := hm
  room := he.room
  sealed k hk := (he.old k hk).sealed

/-- No segment gets or loses a place. -/
theorem Evolves.proceeds_of_eq (he : s.Evolves s') (hs : s.Filed) (hactive : s'.active = s.active)
    (hspare : s'.spare = s.spare) : s.Proceeds s' :=
  he.proceeds hs (.of_eq he.size hactive hspare)

/-- A change that leaves the table, the places and the disk alone. -/
theorem Proceeds.of_eq (hs : s.Filed) (hsettings : s'.settings = s.settings)
    (htable : s'.table = s.table) (hdisk : s'.disk = s.disk) (hactive : s'.active = s.active)
    (hspare : s'.spare = s.spare) : s.Proceeds s' :=
  (Evolves.of_eq hsettings htable hdisk).proceeds_of_eq hs hactive hspare

theorem Proceeds.refl (hs : s.Filed) : s.Proceeds s := .of_eq hs rfl rfl rfl rfl rfl

theorem Proceeds.trans (h : s.Proceeds s') (h' : s'.Proceeds s'') : s.Proceeds s'' where
  settings := h'.settings.trans h.settings
  old k hk := by
    obtain ⟨hfile, hcursor, hcontent⟩ := h.old k hk
    obtain ⟨hfile', hcursor', hcontent'⟩ := h'.old k (Nat.lt_of_lt_of_le hk h.size)
    refine ⟨⟨hfile'.name.trans hfile.name, hfile'.path.trans hfile.path,
      hfile'.file.trans hfile.file, hfile'.capacity.trans hfile.capacity⟩,
      hcursor'.trans hcursor, ?_⟩
    rw [← hfile.file, hcontent', hfile.file, hcontent]
  new k hle hlt := by
    by_cases hk : k < s'.table.size
    · obtain ⟨hcursor, hcontent⟩ := h.new k hle hk
      obtain ⟨hfile, hcursor', hcontent'⟩ := h'.old k hk
      exact ⟨hcursor'.trans hcursor, by rw [hfile.file, hcontent', hcontent]⟩
    · exact h'.new k (Nat.le_of_not_lt hk) hlt
  faults := h.faults.trans h'.faults
  toMoves := h.toMoves.trans h'.toMoves
  room k hle hlt := by
    by_cases hk : k < s'.table.size
    · rw [(h'.old k hk).1.capacity, h.room k hle hk]
    · rw [h'.room k (Nat.le_of_not_lt hk) hlt, h.settings]
  sealed k hk hsealed := h'.sealed k (Nat.lt_of_lt_of_le hk h.size) (h.sealed k hk hsealed)

theorem proceeds_noteFlush (s : Store) (h : Handle) (p : Partition) (upTo : Position) :
    s.Proceeds (s.noteFlush h p upTo) where
  toRetains := retains_noteFlush s h p upTo
  toMoves := .of_eq (Nat.le_of_eq (size_modify s h _).symm) rfl rfl
  room k hle hlt := absurd hlt (by rw [noteFlush, size_modify]; exact Nat.not_lt.mpr hle)
  sealed k _ hsealed := by
    obtain ⟨marks, hflush⟩ := s.segment_noteFlush_marks h k p upTo
    rw [hflush]
    exact hsealed

/-! ## The segment of an append -/

/-- The spare leaves its place, and nothing else does. -/
theorem moves_withdrawSpare {r : Option Handle} (h : s.withdrawSpare = (r, s')) :
    s.Moves [] s' [] ∧ s'.spare = none := by
  have hout : ∀ t : Store, t.table = s.table → t.active = s.active → t.spare = none →
      s.Moves [] t [] ∧ t.spare = none := fun t htable hactive hspare =>
    ⟨.of_subset (Nat.le_of_eq (by rw [htable])) (fun k hk => by rwa [hactive] at hk) fun k hk => by
      rw [hspare] at hk
      exact (List.not_mem_nil hk).elim, hspare⟩
  rcases withdrawSpare_cases h with ⟨hnone, -, rfl⟩ | ⟨k, -, ⟨-, rfl⟩ | ⟨-, rfl⟩⟩
  · exact hout _ rfl rfl hnone
  · exact hout _ rfl rfl rfl
  · cases hd : Store.deleteFile { s with spare := none } k with
    | mk removed t =>
      obtain ⟨d, rfl, -⟩ := deleteFile_cases hd
      exact hout _ rfl rfl rfl

/-- The new last segment was the spare, or it is new altogether. -/
theorem moves_rollOver {r : Except LogError Handle} (h : s.rollOver = (r, s')) :
    s.Moves [] s' [] := by
  obtain ⟨spare, s₁, hw, ⟨k, rfl, -, rfl⟩ | ⟨-, made, s₂, hn, hmade⟩⟩ := rollOver_cases h
  · obtain ⟨-, hr, -⟩ | ⟨j, hj, ⟨hr, rfl⟩ | ⟨hr, -⟩⟩ := withdrawSpare_cases hw <;> cases hr
    have hsize := (evolves_activate { s with spare := none } k).size
    exact .of_append hsize (active_activate _ k) (spare_activate _ k) (.inl hj)
  · obtain ⟨hmoves, hspare⟩ := moves_withdrawSpare hw
    refine hmoves.trans ?_
    obtain ⟨d, -, ⟨_, rfl, rfl, -⟩ | ⟨g, q, n, rfl, rfl, -⟩⟩ := newSegment_cases hn
    · obtain ⟨e, -, -, rfl⟩ | ⟨_, hr, -⟩ := hmade
      · exact .of_eq (Nat.le_refl _) rfl rfl
      · cases hr
    · obtain ⟨_, hr, -⟩ | ⟨k, hr, -, rfl⟩ := hmade <;> cases hr
      refine .of_append ?_ (active_activate _ _) ((spare_activate _ _).trans hspare)
        (.inr ⟨hspare, rfl⟩)
      exact Nat.le_trans (evolves_newSegment hn).size (evolves_activate _ _).size

theorem Housed.proceeds_segmentFor (hs : s.Housed []) {length : Nat} {r : Except LogError Handle}
    (h : s.segmentFor length = (r, s')) : s.Proceeds s' := by
  refine (evolves_segmentFor h).proceeds hs.toFiled ?_
  rcases segmentFor_cases h with ⟨k, -, -, -, rfl⟩ | hr
  · exact .of_eq (Nat.le_refl _) rfl rfl
  · exact moves_rollOver hr

/-- A segment that had no place is still empty when it gets one, if the spare was empty. -/
theorem Housed.unused_of_proceeds (hs : s.Housed [])
    (hunused : ∀ k, s.spare = some k →
      (s.segment k).cursor = 0 ∧ s.disk.content (s.segment k).file = [])
    (hp : s.Proceeds s') {k : Handle} (hk : k < s'.table.size)
    (hfresh : k ∈ s.spare.toList ++ [] ∨ s.table.size ≤ k) :
    (s'.segment k).cursor = 0 ∧ s'.disk.content (s'.segment k).file = [] := by
  rcases hfresh with hspare | hnew
  · obtain ⟨hcursor, hcontent⟩ := hunused k (by simpa using hspare)
    obtain ⟨hfile, hcursor', hcontent'⟩ := hp.old k (hs.known k (List.mem_append_right _ hspare))
    exact ⟨hcursor'.trans hcursor, by rw [hfile.file, hcontent', hcontent]⟩
  · exact hp.new k hnew hk

/-- The segment that an append goes to is the last active one, if that takes in the append, or one
that comes behind it, and is empty if the spare was. -/
theorem Housed.segmentFor_ok (hs : s.Housed [])
    (hunused : ∀ k, s.spare = some k →
      (s.segment k).cursor = 0 ∧ s.disk.content (s.segment k).file = [])
    {length : Nat} {k : Handle} (h : s.segmentFor length = (.ok k, s')) :
    s'.tail? = some k ∧
      (s' = s ∧ (s.segment k).sealed = false ∧ (s.segment k).fits length = true ∨
        k ∉ s.active ∧ s'.active = s.active ++ [k] ∧ (s'.segment k).cursor = 0 ∧
          s'.disk.content (s'.segment k).file = []) := by
  have hp := hs.proceeds_segmentFor h
  obtain ⟨hs₁, -, -, htail⟩ := hs.segmentFor h
  have ht := htail k rfl
  refine ⟨ht, ?_⟩
  rcases segmentFor_cases h with ⟨j, -, hfits, hr, rfl⟩ | hr
  · cases hr
    rw [tailFits, Bool.and_eq_true, Bool.not_eq_true'] at hfits
    exact .inl ⟨rfl, hfits⟩
  · obtain ⟨-, -, ⟨_, he, -⟩ | ⟨_, he, hactive⟩⟩ := hs.rollOver hr <;> cases he
    -- the new last segment was not active before
    have hout : k ∉ s.active := by
      have hnodup := (List.nodup_append.mp hs₁.distinct).1
      rw [hactive] at hnodup
      exact fun hk => (List.nodup_append.mp hnodup).2.2 k hk k (List.mem_singleton_self k) rfl
    exact .inr ⟨hout, hactive, hs.unused_of_proceeds hunused hp
      (hs₁.known_active (mem_of_tail? ht))
      ((hp.active k (mem_of_tail? ht)).resolve_left hout)⟩

theorem proceeds_giveUp (hs : s.Filed) (k : Handle) (cause : DiskError) :
    s.Proceeds (s.giveUp k cause).2 :=
  (evolves_giveUp s k cause).proceeds_of_eq hs rfl rfl

theorem Housed.proceeds_acknowledge (hs : s.Housed []) {c : Claim} {r : Except LogError Position}
    (h : s.acknowledge c = (r, s')) : s.Proceeds s' :=
  (evolves_acknowledge h).proceeds_of_eq hs.toFiled (active_acknowledge h).1 (spare_acknowledge h)

/-! ## The other requests -/

theorem Housed.proceeds_discardOne (hs : s.Housed []) (p : Partition) (upTo : Position)
    (h : Handle) : s.Proceeds (s.discardOne p upTo h) := by
  have hflush := proceeds_noteFlush s h p upTo
  obtain ⟨-, -, r, d, hr, he⟩ | ⟨-, he⟩ := discardOne_cases s p upTo h
  · have hout : (s.noteFlush h p upTo).Evolves
        { s.noteFlush h p upTo with active := s.active.erase h, disk := d } :=
      (@evolves_remove (s.noteFlush h p upTo) _ _ _ hr).trans (.of_eq rfl rfl rfl)
    rw [he]
    exact hflush.trans (hout.proceeds (hs.noteFlush h p upTo).toFiled
      (.of_subset hout.size (fun k hk => List.mem_of_mem_erase hk) fun _ hk => hk))
  · rw [he]
    exact hflush

theorem Housed.proceeds_discardEach (hs : s.Housed []) (p : Partition) (upTo : Position)
    (todo : List Handle) : s.Proceeds (Store.discardEach p upTo todo s) := by
  induction todo generalizing s with
  | nil => exact .refl hs.toFiled
  | cons h rest ih =>
    have hone := hs.proceeds_discardOne p upTo h
    rw [discardEach_cons]
    split
    · exact hone
    · exact hone.trans (ih (hs.discardOne p upTo h))

theorem Housed.proceeds_stockSpare (hs : s.Housed []) : s.Proceeds s.stockSpare.2 := by
  unfold Store.stockSpare
  split
  · cases hn : s.newSegment with
    | mk made s₁ =>
      have hevolves := evolves_newSegment hn
      obtain ⟨hactive, hspare, hcreated⟩ := hs.newSegment hn
      cases made with
      | error e =>
        have hreported : s.Evolves (s₁.report (.disk e)).2 := hevolves.trans (.of_eq rfl rfl rfl)
        exact hreported.proceeds_of_eq hs.toFiled hactive hspare
      | ok k =>
        obtain ⟨_, hr, -⟩ | ⟨hr, -⟩ := hcreated <;> cases hr
        have hplaced := hevolves.trans (evolves_placeSpare s₁ s.table.size)
        refine hplaced.proceeds hs.toFiled ⟨hplaced.size, fun k hk => ?_, fun k hk => .inl ?_⟩
        · rcases spare_placeSpare s₁ s.table.size with he | he
          · rw [he] at hk
            obtain rfl := List.mem_singleton.mp hk
            exact .inr (Nat.le_refl _)
          · rw [he, hspare] at hk
            exact .inl hk
        · rwa [active_placeSpare, hactive] at hk
  · exact .refl hs.toFiled

theorem Housed.proceeds_syncEach (hs : s.Housed []) (force : Bool) (todo : List Handle) :
    s.Proceeds (Store.syncEach force todo s).2 := by
  induction todo generalizing s with
  | nil => exact .refl hs.toFiled
  | cons h rest ih =>
    unfold Store.syncEach
    cases hr : s.syncSegment h force with
    | mk synced s₁ =>
      have hs₁ := hs.syncSegment hr
      have hone : s.Proceeds s₁ := by
        have hevolves := evolves_syncSegment hr
        obtain ⟨u, d, rfl, -⟩ := syncSegment_cases hr
        exact hevolves.proceeds_of_eq hs.toFiled rfl rfl
      cases synced with
      | ok => exact hone.trans (ih hs₁)
      | error cause =>
        refine hone.trans ?_
        cases force
        · exact .of_eq hs₁.toFiled rfl rfl rfl rfl rfl
        · exact proceeds_giveUp hs₁.toFiled h cause

theorem Housed.proceeds_sync (hs : s.Housed []) (force : Bool) : s.Proceeds (s.sync force).2 := by
  unfold Store.sync
  split
  · obtain ⟨mail, he⟩ := send_eq s .sync
    dsimp only
    rw [he]
    exact .of_eq hs.toFiled rfl rfl rfl rfl rfl
  · exact hs.proceeds_syncEach force s.active

theorem Housed.proceeds_dropSpare (hs : s.Housed []) {k : Handle} {r : Except DiskError Unit}
    (h : { s with spare := none }.deleteFile k = (r, s')) : s.Proceeds s' := by
  obtain ⟨d, rfl, hr⟩ := deleteFile_cases h
  have hout : s.Evolves { s with spare := none, disk := d } :=
    (@evolves_remove s _ _ _ hr).trans (.of_eq rfl rfl rfl)
  exact hout.proceeds hs.toFiled
    (.of_subset hout.size (fun _ hk => hk) fun _ hk => (List.not_mem_nil hk).elim)

theorem Housed.proceeds_finish (hs : s.Housed []) : s.Proceeds s.finish.2 := by
  obtain ⟨synced, s₁, hsync, hcase⟩ := finish_cases (Prod.eta s.finish).symm
  have hall : s.Proceeds s₁ ∧ s₁.Housed [] := by
    have hboth := And.intro (hs.proceeds_syncEach true s.active) (hs.syncActive true)
    rwa [← Store.syncActive, hsync] at hboth
  rcases hcase with ⟨e, -, -, he⟩ | ⟨-, ⟨-, -, he⟩ | ⟨k, removed, -, hd, -⟩⟩
  · rw [he]
    exact hall.1
  · rw [he]
    exact hall.1
  · exact hall.1.trans (hall.2.proceeds_dropSpare hd)

theorem evolves_deleteEach (todo : List Handle) (s : Store) :
    s.Evolves (deleteEach todo s).2 := by
  induction todo generalizing s with
  | nil => exact .refl s
  | cons h rest ih =>
    have hone := evolves_deleteFile s h
    unfold Store.deleteEach
    split <;> rename_i hd <;> rw [hd] at hone
    · exact hone.trans (ih _)
    · exact hone.trans (ih _)
    · exact hone

theorem Housed.proceeds_wipe (hs : s.Housed []) : s.Proceeds s.wipe.2 := by
  have hout : s.Evolves { s with active := [], spare := none } := .of_eq rfl rfl rfl
  have hevolves : s.Evolves s.wipe.2 := hout.trans (evolves_deleteEach _ _)
  refine hevolves.proceeds hs.toFiled ?_
  obtain ⟨d, he⟩ := wipe_eq s
  rw [he] at hevolves ⊢
  exact .of_subset hevolves.size (fun _ hk => (List.not_mem_nil hk).elim)
    fun _ hk => (List.not_mem_nil hk).elim

/-- Only appends claim and write. -/
theorem Housed.serve_cases (hs : s.Housed []) (request : Request) :
    (∃ m, request = .append m) ∨ s.Proceeds (s.serve request) := by
  cases request with
  | append m => exact .inl ⟨m, rfl⟩
  | discard p upTo => exact .inr (hs.proceeds_discardEach p upTo s.active)
  | stockSpare => exact .inr hs.proceeds_stockSpare
  | sync force => exact .inr (hs.proceeds_sync force)
  | syncActive force => exact .inr (hs.proceeds_syncEach force s.active)
  | finish => exact .inr hs.proceeds_finish
  | wipe => exact .inr hs.proceeds_wipe
  | keepIdsAbove | attach => exact .inr (.of_eq hs.toFiled rfl rfl rfl rfl rfl)

/-! ## Ready stores -/

/-- Whether the next append goes where a replay will find it: its settings make sense, every segment
has the room that they give it, an active one that is not sealed holds whole frames up to its
cursor, and the spare is empty. -/
structure Ready (s : Store) : Prop extends Housed s [] where
  checked : s.settings.check = .ok ()
  capacity : ∀ k < s.table.size, (s.segment k).capacity = s.settings.segmentSize.toNat
  whole : ∀ k ∈ s.active, (s.segment k).sealed = false → s.Whole k
  unused : ∀ k, s.spare = some k →
    (s.segment k).cursor = 0 ∧ s.disk.content (s.segment k).file = []

theorem Whole.of_empty {k : Handle} (hcursor : (s.segment k).cursor = 0)
    (hcontent : s.disk.content (s.segment k).file = []) : s.Whole k :=
  ⟨[], fun _ hx => (List.not_mem_nil hx).elim, hcontent, hcursor⟩

theorem Ready.proceeds (hs : s.Ready) (hp : s.Proceeds s') (hs' : s'.Housed []) : s'.Ready where
  toHoused := hs'
  checked := by rw [hp.settings]; exact hs.checked
  capacity k hk := by
    rw [hp.settings]
    by_cases hold : k < s.table.size
    · rw [(hp.old k hold).1.capacity, hs.capacity k hold]
    · exact hp.room k (Nat.le_of_not_lt hold) hk
  whole k hk hunsealed := by
    rcases hp.active k hk with hactive | hfresh
    · have hknown := hs.known_active hactive
      obtain ⟨hfile, hcursor, hcontent⟩ := hp.old k hknown
      exact (hs.whole k hactive (not_sealed_of_mono (hp.sealed k hknown) hunsealed)).of_same
        hfile.file hcursor hcontent
    · obtain ⟨hcursor, hcontent⟩ := hs.unused_of_proceeds hs.unused hp (hs'.known_active hk) hfresh
      exact .of_empty hcursor hcontent
  unused k hk := by
    have hmem : k ∈ s'.spare.toList ++ [] := by simp [hk]
    exact hs.unused_of_proceeds hs.unused hp (hs'.known k (List.mem_append_right _ hmem))
      (hp.fresh k hmem)

/-! ## Appends -/

/-- Every payload that a store takes in can be framed. -/
theorem Ready.framable (hs : s.Ready) : s.maxPayload ≤ Frame.maxSize :=
  Settings.maxPayload_le_of_check hs.checked

/-- A frame that is not refused fits into an empty segment. -/
theorem length_frame_le {m : Mutation} {frame : Bytes} (h : m.frame s.maxPayload = .ok frame) :
    frame.length ≤ s.settings.segmentSize.toNat := by
  obtain ⟨-, hpos, hle, rfl⟩ := Mutation.frame_eq_ok_iff.mp h
  rw [Frame.length_ofPayload]
  have hmax : s.maxPayload = s.settings.segmentSize.toNat / 2 - Frame.overhead := rfl
  rw [hmax] at hle
  omega

/-- The segment that an append goes to holds whole frames up to its cursor, behind which the append
fits. It is the last active one, if that is not sealed, or an empty one that comes behind it. -/
theorem Ready.segmentFor_ok (hs : s.Ready) {length : Nat}
    (hlength : length ≤ s.settings.segmentSize.toNat) {k : Handle}
    (h : s.segmentFor length = (.ok k, s')) :
    s'.Ready ∧ s'.tail? = some k ∧ (s'.segment k).fits length = true ∧ s'.Whole k ∧
      (s' = s ∧ (s.segment k).sealed = false ∨
        k ∉ s.active ∧ s'.active = s.active ++ [k] ∧
          s'.disk.content (s'.segment k).file = []) := by
  have hp := hs.proceeds_segmentFor h
  have hs' := hs.proceeds hp (hs.toHoused.segmentFor h).1
  obtain ⟨ht, ⟨rfl, hunsealed, hfits⟩ | ⟨hout, hactive, hcursor, hcontent⟩⟩ :=
    hs.toHoused.segmentFor_ok hs.unused h
  · exact ⟨hs', ht, hfits, hs'.whole k (mem_of_tail? ht) hunsealed, .inl ⟨rfl, hunsealed⟩⟩
  · refine ⟨hs', ht, ?_, .of_empty hcursor hcontent, .inr ⟨hout, hactive, hcontent⟩⟩
    rw [Segment.fits, hcursor, hs'.capacity k (hs'.known_active (mem_of_tail? ht)), hp.settings,
      Nat.zero_add, decide_eq_true_eq]
    exact hlength

/-- An append is refused a range only if no segment could be made. -/
theorem Ready.claim_cases (hs : s.Ready) {partitions : List Partition} {length : Nat}
    (hlength : length ≤ s.settings.segmentSize.toNat) {r : Except LogError Claim}
    (h : s.claim partitions length = (r, s')) :
    (∃ e, r = .error e ∧ s.segmentFor length = (.error e, s')) ∨
      ∃ k s₁, r = .ok ⟨k, (s₁.segment k).cursor⟩ ∧ s.segmentFor length = (.ok k, s₁) ∧
        s' = s₁.modify k fun g => g.claimed partitions length := by
  obtain ⟨r₁, s₁, hf, -, hcase⟩ := Store.claim_cases h
  rcases hcase with ⟨e, rfl, rfl, rfl⟩ | ⟨k, rfl, hcase⟩
  · exact .inl ⟨e, rfl, hf⟩
  obtain ⟨hs₁, ht, hfits, -⟩ := hs.segmentFor_ok hlength hf
  have hknown := hs₁.known_active (mem_of_tail? ht)
  rcases hcase with ⟨cause, rfl, rfl⟩ | ⟨rfl, -, hclaimed⟩
  · -- there is room in the segment, so that the claim is granted
    unfold Store.claim at h
    rw [hf] at h
    dsimp only at h
    rw [Segment.claim_eq_some_iff.mpr ⟨hfits, rfl, rfl⟩] at h
    cases h
  · exact .inr ⟨k, s₁, rfl, hf, hclaimed hknown⟩

/-- What is written to the file of an active segment changes no other segment. -/
theorem Ready.put (hs : s.Ready) (hs' : s'.Housed []) {k : Handle} (hk : k ∈ s.active)
    (hw : s.WritesTo s' k) (hsize : s'.table.size = s.table.size)
    (hwhole : (s'.segment k).sealed = false → s'.Whole k) : s'.Ready := by
  have hknown := hs.known_active hk
  constructor
  case toHoused => exact hs'
  case checked =>
    rw [hw.settings]
    exact hs.checked
  case capacity =>
    intro j hj
    rw [hsize] at hj
    rw [hw.settings, (hw.same j hj).1.capacity, hs.capacity j hj]
  case whole =>
    intro j hj hunsealed
    rw [hw.active] at hj
    by_cases hjk : j = k
    · subst hjk
      exact hwhole hunsealed
    · obtain ⟨hsegment, hcontent⟩ := hw.elsewhere hs.toFiled hknown (hs.known_active hj) hjk
      rw [hsegment] at hunsealed
      exact (hs.whole j hj hunsealed).of_same (by rw [hsegment]) (by rw [hsegment]) hcontent
  case unused =>
    intro j hj
    rw [hw.spare] at hj
    have hfresh : j ∈ s.spare.toList ++ [] := by simp [hj]
    have hjk : j ≠ k := by
      rintro rfl
      exact hs.active_not_fresh hk hfresh
    obtain ⟨hsegment, hcontent⟩ :=
      hw.elsewhere hs.toFiled hknown (hs.known j (List.mem_append_right _ hfresh)) hjk
    rw [hsegment, hcontent]
    exact hs.unused j hj

/-- A frame that is written behind whole frames is one more of them, or the write fails and leaves
a beginning of it there, behind which nothing more is written. -/
theorem Ready.write (hs : s.Ready) {k : Handle} (ht : s.tail? = some k) (hwhole : s.Whole k)
    {partitions : List Partition} {payload : Bytes} (hpayload : Frame.Framable payload)
    {r : Except DiskError Unit}
    (h : (s.modify k fun g => g.claimed partitions (Frame.ofPayload payload).length).write
      ⟨k, (s.segment k).cursor⟩ (Frame.ofPayload payload) = (r, s')) :
    s.WritesTo s' k ∧ s'.table.size = s.table.size ∧ s'.Housed [] ∧
      (r = .ok () ∧ s'.Ready ∨
        ∃ cause torn, r = .error cause ∧ torn <+: Frame.ofPayload payload ∧
          torn.length < (Frame.ofPayload payload).length ∧
          s'.disk.content (s.segment k).file = s.disk.content (s.segment k).file ++ torn ∧
          (s'.giveUp k cause).2.Ready) := by
  have hk := mem_of_tail? ht
  have hknown := hs.known_active hk
  have hfile := hs.files k hknown
  have hs' : s'.Housed [] := by
    have hclaimed := hs.toHoused.modify (h := k)
      (f := fun g => g.claimed partitions (Frame.ofPayload payload).length) ⟨rfl, rfl, rfl, rfl⟩
      (.refl _) rfl
    exact hclaimed.write h (by rw [size_modify]; exact hknown)
  obtain ⟨hw, hsize, hcursor, hwrite⟩ := writesTo_write hknown hfile h
  refine ⟨hw, hsize, hs', ?_⟩
  -- the range that was claimed begins where the file ends
  have hend : (s.segment k).cursor = (s.disk.content (s.segment k).file).length := by
    obtain ⟨_, -, hholds, hend⟩ := hwhole
    rw [hholds, hend]
  rw [hend] at hwrite
  rcases Disk.writeAt_end_cases hwrite hfile with
    ⟨rfl, hcontent⟩ | ⟨cause, torn, rfl, hfront, hshort, hcontent⟩
  · exact .inl ⟨rfl, hs.put hs' hk hw hsize fun _ =>
      hwhole.put hpayload (hw.same k hknown).1.file hcontent hcursor⟩
  · have hsealed := segment_giveUp (k := k) (by rw [hsize]; exact hknown) cause
    refine .inr ⟨cause, torn, rfl, hfront, hshort, hcontent,
      hs.put (hs'.giveUp k cause) hk (hw.giveUp hsize cause)
        ((size_modify s' k _).trans hsize) fun hopen => ?_⟩
    rw [hsealed] at hopen
    cases hopen

theorem append_of_write_error {m : Mutation} {frame : Bytes} {c : Claim} {cause : DiskError}
    (hframe : m.frame s.maxPayload = .ok frame)
    (hclaim : s.claim m.partitions frame.length = (.ok c, s'))
    (hwrite : s'.write c frame = (.error cause, s'')) :
    s.append m = (.error (.io (.disk cause)), (s''.giveUp c.handle cause).2) := by
  unfold Store.append
  rw [hframe]
  dsimp only
  rw [hclaim]
  dsimp only
  rw [hwrite]
  rfl

/-- **All that an append does.** It is refused and nothing happens; or no segment can be made for
it; or it writes its frame behind the whole frames of the last active segment, where the write can
fail, or else the append ends. -/
theorem Ready.append_cases (hs : s.Ready) {m : Mutation} {r : Except LogError Position}
    (h : s.append m = (r, s')) :
    (∃ e, m.frame s.maxPayload = .error e ∧ r = .error e ∧ s' = s) ∨
      ∃ payload, m.frame s.maxPayload = .ok (Frame.ofPayload payload) ∧
        Frame.Framable payload ∧
        ((∃ e, s.segmentFor (Frame.ofPayload payload).length = (.error e, s') ∧
            s.claim m.partitions (Frame.ofPayload payload).length = (.error e, s') ∧
            r = .error e) ∨
          ∃ k s₁ s₂ written, s.segmentFor (Frame.ofPayload payload).length = (.ok k, s₁) ∧
            s.claim m.partitions (Frame.ofPayload payload).length =
              (.ok ⟨k, (s₁.segment k).cursor⟩,
                s₁.modify k fun g => g.claimed m.partitions (Frame.ofPayload payload).length) ∧
            (s₁.modify k fun g => g.claimed m.partitions (Frame.ofPayload payload).length).write
              ⟨k, (s₁.segment k).cursor⟩ (Frame.ofPayload payload) = (written, s₂) ∧
            (written = .ok () ∧ s₂.acknowledge ⟨k, (s₁.segment k).cursor⟩ = (r, s') ∨
              ∃ cause, written = .error cause ∧ r = .error (.io (.disk cause)) ∧
                s' = (s₂.giveUp k cause).2)) := by
  obtain ⟨e, hframe, rfl, rfl⟩ | ⟨frame, granted, s₁, hframe, hclaim, hcase⟩ :=
    Store.append_cases h
  · exact .inl ⟨e, hframe, rfl, rfl⟩
  have hlength := length_frame_le hframe
  obtain ⟨-, hpos, hle, rfl⟩ := Mutation.frame_eq_ok_iff.mp hframe
  refine .inr ⟨m.payload, hframe, ⟨hpos, Nat.le_trans hle hs.framable⟩, ?_⟩
  obtain ⟨e, rfl, hf⟩ | ⟨k, s₀, rfl, hf, rfl⟩ := hs.claim_cases hlength hclaim
  · obtain ⟨_, hr, rfl, rfl⟩ | ⟨_, _, _, hr, -⟩ := hcase <;> cases hr
    exact .inl ⟨e, hf, hclaim, rfl⟩
  · obtain ⟨_, hr, -⟩ | ⟨c, written, s₂, hr, hwrite, hcase⟩ := hcase <;> cases hr
    refine .inr ⟨k, s₀, s₂, written, hf, hclaim, hwrite, ?_⟩
    obtain ⟨rfl, hack⟩ | ⟨cause, e, rfl, -⟩ := hcase
    · exact .inl ⟨rfl, hack⟩
    · rw [append_of_write_error hframe hclaim hwrite] at h
      cases h
      exact .inr ⟨cause, rfl, rfl, rfl⟩

theorem Ready.append (hs : s.Ready) (m : Mutation) : (s.append m).2.Ready := by
  cases h : s.append m with
  | mk r s' =>
    obtain ⟨e, -, -, rfl⟩ | ⟨payload, hframe, hpayload, hcase⟩ := hs.append_cases h
    · exact hs
    obtain ⟨e, hf, -⟩ | ⟨k, s₁, s₂, written, hf, -, hwrite, hcase⟩ := hcase
    · exact hs.proceeds (hs.proceeds_segmentFor hf) (hs.toHoused.segmentFor hf).1
    obtain ⟨hs₁, ht, -, hwhole, -⟩ := hs.segmentFor_ok (length_frame_le hframe) hf
    obtain ⟨-, -, -, ⟨rfl, hs₂⟩ | ⟨cause, torn, rfl, -, -, -, hs₂⟩⟩ :=
      hs₁.write ht hwhole hpayload hwrite
    · obtain ⟨-, hack⟩ | ⟨_, hr, -⟩ := hcase
      · exact hs₂.proceeds (hs₂.proceeds_acknowledge hack) (hs₂.toHoused.acknowledge hack)
      · cases hr
    · obtain ⟨hr, -⟩ | ⟨_, hr, -, rfl⟩ := hcase <;> cases hr
      exact hs₂

/-! ## Runs -/

/-- One request leaves a store ready for the next append. -/
theorem Ready.serve (hs : s.Ready) (request : Request) : (s.serve request).Ready := by
  obtain ⟨m, rfl⟩ | hp := hs.serve_cases request
  · exact hs.append m
  · exact hs.proceeds hp (hs.toHoused.serve request)

/-- So does a whole run of them. -/
theorem Ready.serveAll (hs : s.Ready) (requests : List Request) : (s.serveAll requests).Ready := by
  induction requests generalizing s with
  | nil => exact hs
  | cons request rest ih => exact ih (hs.serve request)

theorem ready_onDirectory {settings : Settings} {now : UInt64} {disk : Disk} {monitor : Monitor}
    (h : onDirectory settings now disk monitor = .ok s) (hd : disk.WellFormed)
    (hchecked : settings.check = .ok ()) : s.Ready := by
  have hs := housed_onDirectory h hd
  obtain ⟨found, rfl, -⟩ := onDirectory_cases h
  exact {
    toHoused := hs
    checked := hchecked
    capacity := fun k hk => absurd hk (Nat.not_lt_zero k)
    whole := fun k hk => (List.not_mem_nil hk).elim
    unused := fun k hk => (nomatch hk) }

end SegmentLog.Store
