import SegmentLog.Proofs.Store.Claims

/-!
# One caller of a store

A caller that is alone with a store makes one request after the other. Whatever it asks for, and
whatever fails on the way, every segment that has a place afterwards is housed.

* `Housed.append`, `Housed.discard`, `Housed.finish`, `Housed.wipe` — what one request keeps;
* `syncEach_eq`, `wipe_eq`, `stockSpare_eq`, `finish_eq` — what it leaves alone;
* `Housed.serveAll` — what a whole run of requests keeps;
* `Housed.settings_serveAll` — no run changes the settings;
* `housed_onDirectory` — where it begins.
-/

namespace SegmentLog.Store

/-- What a caller that is alone with a store asks for. -/
inductive Request where
  | append (m : Mutation)
  | discard (p : Partition) (upTo : Position)
  | stockSpare
  | sync (force : Bool)
  | syncActive (force : Bool)
  | keepIdsAbove (id : SegmentId)
  | finish
  | wipe
  /-- A worker is attached, or there is none any more. -/
  | attach (worker : Option WorkerId)

/-- What becomes of a store when a request is served. -/
def serve (s : Store) : Request → Store
  | .append m => (s.append m).2
  | .discard p upTo => s.discard p upTo
  | .stockSpare => s.stockSpare.2
  | .sync force => (s.sync force).2
  | .syncActive force => (s.syncActive force).2
  | .keepIdsAbove id => s.keepIdsAbove id
  | .finish => s.finish.2
  | .wipe => s.wipe.2
  | .attach worker => { s with attached := worker }

/-- What becomes of a store when some requests are served one after the other. -/
def serveAll (s : Store) (requests : List Request) : Store := requests.foldl serve s

variable {s s' : Store} {loose : List Handle}

/-! ## Appends -/

theorem Housed.acknowledge (hs : s.Housed loose) {c : Claim} {r : Except LogError Position}
    (h : s.acknowledge c = (r, s')) : s'.Housed loose := by
  obtain ⟨-, -, rfl⟩ | ⟨-, _, s₁, hr, hcase⟩ := acknowledge_cases h
  · exact hs
  have hs₁ := hs.syncSegment hr
  obtain ⟨-, -, rfl⟩ | ⟨cause, _, -, -, rfl⟩ := hcase
  · exact hs₁
  · exact hs₁.giveUp c.handle cause

theorem Housed.append (hs : s.Housed loose) (m : Mutation) : (s.append m).2.Housed loose := by
  cases h : s.append m with
  | mk r s' =>
    obtain ⟨e, -, -, rfl⟩ | ⟨frame, granted, s₁, -, hc, hcase⟩ := append_cases h
    · exact hs
    obtain ⟨hs₁, -⟩ := hs.claim hc
    obtain ⟨e, -, -, rfl⟩ | ⟨c, written, s₂, rfl, hw, hcase⟩ := hcase
    · exact hs₁
    have hs₂ := hs₁.write hw (hs₁.known_active (mem_of_tail? (hs.tail?_claim hc)))
    rcases hcase with ⟨-, hack⟩ | ⟨cause, e, -, -, rfl⟩
    · exact hs₂.acknowledge hack
    · exact hs₂.giveUp c.handle cause

/-! ## Discards -/

theorem Housed.noteFlush (hs : s.Housed loose) (h : Handle) (p : Partition) (upTo : Position) :
    (s.noteFlush h p upTo).Housed loose :=
  hs.modify (f := fun g => g.noteFlush p upTo) (Segment.sameFile_noteFlush _ p upTo) (.refl _) rfl

/-- A segment that is taken out of the active ones leaves the others housed, with or without its
file. -/
theorem Housed.deleteSegment (hs : s.Housed loose) (h : Handle) :
    (s.deleteSegment h).Housed loose := by
  unfold Store.deleteSegment
  rcases unlink_cases s h with ⟨hu, hh, -⟩ | ⟨hu, -⟩
  · rw [hu]
    dsimp only
    have hout : Housed { s with active := s.active.erase h } (h :: loose) :=
      hs.arrange rfl rfl rfl (perm_erase hh ..).subperm
    exact hout.deleteFile
  · rw [hu]
    exact hs

theorem Housed.discardOne (hs : s.Housed loose) (p : Partition) (upTo : Position) (h : Handle) :
    (s.discardOne p upTo h).Housed loose := by
  unfold Store.discardOne
  dsimp only
  split
  · exact (hs.noteFlush h p upTo).deleteSegment h
  · exact hs.noteFlush h p upTo

theorem Housed.discardEach (hs : s.Housed loose) (p : Partition) (upTo : Position)
    (hs' : List Handle) : (discardEach p upTo hs' s).Housed loose := by
  induction hs' generalizing s with
  | nil => exact hs
  | cons h rest ih =>
    rw [discardEach_cons]
    split
    · exact hs.discardOne p upTo h
    · exact ih (hs.discardOne p upTo h)

theorem Housed.discard (hs : s.Housed loose) (p : Partition) (upTo : Position) :
    (s.discard p upTo).Housed loose := hs.discardEach p upTo s.active

/-! ## The spare, syncs and the end -/

theorem Housed.stockSpare (hs : s.Housed []) : s.stockSpare.2.Housed [] := by
  unfold Store.stockSpare
  split
  · cases hn : s.newSegment with
    | mk r s₁ =>
      obtain ⟨-, -, ⟨e, rfl, hs₁⟩ | ⟨rfl, hs₁⟩⟩ := hs.newSegment hn
      · exact hs₁.of_eq rfl rfl rfl rfl rfl
      · exact hs₁.placeSpare
  · exact hs

theorem Housed.syncEach (hs : s.Housed loose) (force : Bool) (todo : List Handle) :
    (syncEach force todo s).2.Housed loose := by
  induction todo generalizing s with
  | nil => exact hs
  | cons h rest ih =>
    unfold Store.syncEach
    cases hr : s.syncSegment h force with
    | mk r s₁ =>
      have hs₁ := hs.syncSegment hr
      cases r with
      | ok => exact ih hs₁
      | error cause =>
        cases force
        · exact hs₁.of_eq rfl rfl rfl rfl rfl
        · exact hs₁.giveUp h cause

theorem Housed.syncActive (hs : s.Housed loose) (force : Bool) :
    (s.syncActive force).2.Housed loose := hs.syncEach force s.active

theorem Housed.sync (hs : s.Housed loose) (force : Bool) : (s.sync force).2.Housed loose := by
  unfold Store.sync
  split
  · obtain ⟨mail, he⟩ := send_eq s .sync
    dsimp only
    rw [he]
    exact hs.of_eq rfl rfl rfl rfl rfl
  · exact hs.syncActive force

theorem Housed.finish (hs : s.Housed []) : s.finish.2.Housed [] := by
  obtain ⟨synced, s₁, hsync, hcase⟩ := finish_cases (Prod.eta s.finish).symm
  have hs₁ : s₁.Housed [] := by
    have hall := hs.syncActive true
    rwa [hsync] at hall
  rcases hcase with ⟨e, -, -, he⟩ | ⟨-, ⟨-, -, he⟩ | ⟨k, removed, hk, hd, -⟩⟩
  · rwa [he]
  · rwa [he]
  · have hloose : Housed { s₁ with spare := none } [k] := by
      refine hs₁.arrange rfl rfl rfl (List.Perm.subperm ?_)
      rw [hk]
      rfl
    have hgone := hloose.deleteFile
    rwa [hd] at hgone

theorem Housed.deleteEach {todo : List Handle} (hs : s.Housed todo) :
    (deleteEach todo s).2.Housed [] := by
  induction todo generalizing s with
  | nil => exact hs
  | cons h rest ih =>
    have hgone := hs.deleteFile
    unfold Store.deleteEach
    split
    · rename_i s₁ hd
      rw [hd] at hgone
      exact ih hgone
    · rename_i s₁ hd
      rw [hd] at hgone
      exact ih hgone
    · rename_i cause s₁ _ hd
      rw [hd] at hgone
      exact hgone.withdraw (List.Sublist.refl _) (List.Sublist.refl _) (List.nil_sublist _)

theorem Housed.wipe (hs : s.Housed []) : s.wipe.2.Housed [] := by
  unfold Store.wipe
  refine Housed.deleteEach (hs.arrange rfl rfl rfl (List.Perm.subperm ?_))
  simp

/-! ## What requests leave alone -/

/-- A sync of some segments moves no segment and takes no number. -/
theorem syncEach_eq (force : Bool) (todo : List Handle) (s : Store) :
    ∃ table disk monitor, (syncEach force todo s).2 = { s with table, disk, monitor } := by
  induction todo generalizing s with
  | nil => exact ⟨s.table, s.disk, s.monitor, rfl⟩
  | cons h rest ih =>
    unfold Store.syncEach
    cases hr : s.syncSegment h force with
    | mk synced s₁ =>
      obtain ⟨u, d, rfl, -⟩ := syncSegment_cases hr
      cases synced with
      | ok =>
        obtain ⟨table, disk, monitor, he⟩ := ih _
        exact ⟨table, disk, monitor, he⟩
      | error cause => cases force <;> exact ⟨_, _, _, rfl⟩

theorem sync_eq (s : Store) (force : Bool) :
    ∃ table disk monitor mail, (s.sync force).2 = { s with table, disk, monitor, mail } := by
  unfold Store.sync
  split
  · obtain ⟨mail, he⟩ := send_eq s .sync
    exact ⟨s.table, s.disk, s.monitor, mail, he⟩
  · obtain ⟨table, disk, monitor, he⟩ := syncEach_eq force s.active s
    exact ⟨table, disk, monitor, s.mail, he⟩

/-- The removal of the files of some segments changes nothing but the disk. -/
theorem deleteEach_eq (todo : List Handle) (s : Store) :
    ∃ disk, (deleteEach todo s).2 = { s with disk } := by
  induction todo generalizing s with
  | nil => exact ⟨s.disk, rfl⟩
  | cons h rest ih =>
    unfold Store.deleteEach
    split <;> rename_i hd <;> obtain ⟨d, rfl, -⟩ := deleteFile_cases hd
    · exact ih _
    · exact ih _
    · exact ⟨d, rfl⟩

theorem wipe_eq (s : Store) :
    ∃ disk, s.wipe.2 = { s with active := [], spare := none, disk } := deleteEach_eq _ _

theorem stockSpare_eq (s : Store) : ∃ ids table disk monitor spare,
    s.stockSpare.2 = { s with ids, table, disk, monitor, spare } := by
  unfold Store.stockSpare
  split
  · cases hn : s.newSegment with
    | mk made s₁ =>
      obtain ⟨d, -, ⟨e, rfl, rfl, -⟩ | ⟨g, q, n, rfl, rfl, -⟩⟩ := newSegment_cases hn
      · exact ⟨_, _, _, _, _, rfl⟩
      · dsimp only
        unfold Store.placeSpare
        split <;> exact ⟨_, _, _, _, _, rfl⟩
  · exact ⟨s.ids, s.table, s.disk, s.monitor, s.spare, rfl⟩

/-- The end of the use moves no segment but the spare. -/
theorem finish_eq (s : Store) : ∃ table disk monitor spare,
    s.finish.2 = { s with table, disk, monitor, spare } := by
  obtain ⟨synced, s₁, hsync, hcase⟩ := finish_cases (Prod.eta s.finish).symm
  obtain ⟨table, disk, monitor, he⟩ := syncEach_eq true s.active s
  rw [← syncActive, hsync] at he
  obtain rfl : s₁ = { s with table, disk, monitor } := he
  rcases hcase with ⟨e, -, -, h⟩ | ⟨-, ⟨-, -, h⟩ | ⟨k, removed, -, hd, -⟩⟩
  · exact ⟨table, disk, monitor, s.spare, h⟩
  · exact ⟨table, disk, monitor, s.spare, h⟩
  · obtain ⟨d, h, -⟩ := deleteFile_cases hd
    exact ⟨table, d, monitor, none, h⟩

theorem settings_discardEach (p : Partition) (upTo : Position) (todo : List Handle) (s : Store) :
    (discardEach p upTo todo s).settings = s.settings := by
  have hone : ∀ (t : Store) (h : Handle), (t.discardOne p upTo h).settings = t.settings := by
    intro t h
    unfold Store.discardOne Store.deleteSegment
    dsimp only
    split
    · rcases unlink_cases (t.noteFlush h p upTo) h with ⟨hu, -⟩ | ⟨hu, -⟩ <;> rw [hu]
      · exact (evolves_deleteFile _ h).settings
      · rfl
    · rfl
  induction todo generalizing s with
  | nil => rfl
  | cons h rest ih =>
    rw [discardEach_cons]
    split
    · exact hone s h
    · exact (ih _).trans (hone s h)

theorem Housed.settings_append (hs : s.Housed loose) {m : Mutation}
    {r : Except LogError Position} (h : s.append m = (r, s')) : s'.settings = s.settings := by
  obtain ⟨e, -, -, rfl⟩ | ⟨frame, granted, s₁, -, hc, hcase⟩ := append_cases h
  · rfl
  have hclaimed : s₁.settings = s.settings := by
    obtain ⟨-, -, ⟨_, -, hevolves⟩ | ⟨_, _, -, -, hevolves, -, -, -, rfl⟩⟩ := hs.claim hc
    · exact hevolves.settings
    · exact hevolves.settings
  obtain ⟨e, -, -, rfl⟩ | ⟨c, written, s₂, -, hw, hcase⟩ := hcase
  · exact hclaimed
  have hwritten := (settings_write hw).trans hclaimed
  rcases hcase with ⟨-, hack⟩ | ⟨cause, e, -, -, rfl⟩
  · exact (evolves_acknowledge hack).settings.trans hwritten
  · exact hwritten

/-! ## Runs -/

/-- One request leaves every segment that has a place housed. -/
theorem Housed.serve (hs : s.Housed []) (request : Request) : (s.serve request).Housed [] := by
  cases request with
  | append m => exact hs.append m
  | discard p upTo => exact hs.discard p upTo
  | stockSpare => exact hs.stockSpare
  | sync force => exact hs.sync force
  | syncActive force => exact hs.syncActive force
  | keepIdsAbove id => exact hs.of_eq rfl rfl rfl rfl rfl
  | finish => exact hs.finish
  | wipe => exact hs.wipe
  | attach worker => exact hs.of_eq rfl rfl rfl rfl rfl

/-- No request changes the settings. -/
theorem Housed.settings_serve (hs : s.Housed []) (request : Request) :
    (s.serve request).settings = s.settings := by
  cases request with
  | append m => exact hs.settings_append rfl
  | discard p upTo => exact settings_discardEach p upTo s.active s
  | stockSpare =>
    obtain ⟨_, _, _, _, _, he⟩ := stockSpare_eq s
    rw [Store.serve, he]
  | sync force =>
    obtain ⟨_, _, _, _, he⟩ := sync_eq s force
    rw [Store.serve, he]
  | syncActive force =>
    obtain ⟨_, _, _, he⟩ := syncEach_eq force s.active s
    rw [Store.serve, Store.syncActive, he]
  | finish =>
    obtain ⟨_, _, _, _, he⟩ := finish_eq s
    rw [Store.serve, he]
  | wipe =>
    obtain ⟨_, he⟩ := wipe_eq s
    rw [Store.serve, he]
  | keepIdsAbove | attach => rfl

/-- Any requests leave every segment that has a place housed. -/
theorem Housed.serveAll (hs : s.Housed []) (requests : List Request) :
    (s.serveAll requests).Housed [] := by
  induction requests generalizing s with
  | nil => exact hs
  | cons request rest ih => exact ih (hs.serve request)

theorem Housed.settings_serveAll (hs : s.Housed []) (requests : List Request) :
    (s.serveAll requests).settings = s.settings := by
  induction requests generalizing s with
  | nil => rfl
  | cons request rest ih => exact (ih (hs.serve request)).trans (hs.settings_serve request)

theorem housed_onDirectory {settings : Settings} {now : UInt64} {disk : Disk} {monitor : Monitor}
    (h : onDirectory settings now disk monitor = .ok s) (hd : disk.WellFormed) : s.Housed [] := by
  obtain ⟨found, rfl, -⟩ := onDirectory_cases h
  have hnone : ∀ {P : Handle → Prop}, ∀ h < (#[] : Array Segment).size, P h :=
    fun h hh => absurd hh (Nat.not_lt_zero h)
  exact {
    disk := hd
    named := hnone
    placed := hnone
    files := hnone
    apart := fun g h _ hh => absurd hh (Nat.not_lt_zero h)
    distinct := List.nodup_nil
    known := fun h hh => (List.not_mem_nil hh).elim
    found := fun h hh => (List.not_mem_nil hh).elim
    readable := hnone }

end SegmentLog.Store
