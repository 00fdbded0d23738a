import SegmentLog.Proofs.Store.Flushing
import SegmentLog.Proofs.Store.Foreign

/-!
# One caller of a store in order

Whatever a caller that is alone with a store asks for, and whatever fails on the way, a store in
order stays in order. Segments only go forward with it: none gets back the room that was claimed
in it or takes in something again once it is sealed, none that has left its place returns, and a new
one has a number that was never handed out before.

* `Leads`, `Leads.trans` — what requests have in common in this;
* `Sound.leads_claim`, `Sound.leads_append` — appends;
* `Sound.leads_discard`, `Sound.leads_stockSpare`, `Sound.leads_finish`, `Sound.leads_wipe` — the
  other requests;
* `Sound.leads_serve`, `Sound.leads_serveAll` — one request, and a whole run of them.
-/

namespace SegmentLog

/-- Whether a segment has only been used further. -/
structure Segment.Onward (g g' : Segment) : Prop where
  id : g'.id = g.id
  cursor : g.cursor ≤ g'.cursor
  sealed : g.sealed = true → g'.sealed = true

namespace Segment.Onward

variable {g g' g'' : Segment}

theorem refl (g : Segment) : Onward g g := ⟨rfl, Nat.le_refl _, fun h => h⟩

theorem trans (h : Onward g g') (h' : Onward g' g'') : Onward g g'' :=
  ⟨h'.id.trans h.id, Nat.le_trans h.cursor h'.cursor, fun hs => h'.sealed (h.sealed hs)⟩

end Segment.Onward

theorem Segment.Keeps.onward {g g' : Segment} (h : Keeps g g') : Onward g g' :=
  ⟨h.toSameFile.id, Nat.le_of_eq h.cursor.symm, h.sealed⟩

namespace Store

variable {s s' s'' : Store} {loose loose' loose'' : List Handle}

theorem Moves.trans (h : s.Moves loose s' loose') (h' : s'.Moves loose' s'' loose'') :
    s.Moves loose s'' loose'' := by
  have hnew : ∀ k, s'.table.size ≤ k → s.table.size ≤ k := fun k hk => Nat.le_trans h.size hk
  refine ⟨Nat.le_trans h.size h'.size, fun k hk => ?_, fun k hk => ?_⟩
  · rcases h'.fresh k hk with hk | hk
    · exact h.fresh k hk
    · exact .inr (hnew k hk)
  · rcases h'.active k hk with hk | hk | hk
    · exact h.active k hk
    · exact .inr (h.fresh k hk)
    · exact .inr (.inr (hnew k hk))

/-- Whether a store has gone on in order: segments were used further, and new ones came with new
numbers. -/
structure Leads (s s' : Store) : Prop extends Moves s [] s' [] where
  sound : s'.Sound []
  ids : s.ids.next ≤ s'.ids.next
  old : ∀ k < s.table.size, (s.segment k).Onward (s'.segment k)
  new : ∀ k, s.table.size ≤ k → k < s'.table.size → s.ids.next ≤ (s'.segment k).id

theorem Leads.trans (h : s.Leads s') (h' : s'.Leads s'') : s.Leads s'' where
  toMoves := h.toMoves.trans h'.toMoves
  sound := h'.sound
  ids := UInt64.le_trans h.ids h'.ids
  old k hk := (h.old k hk).trans (h'.old k (Nat.lt_of_lt_of_le hk h.size))
  new k hle hlt := by
    by_cases hk : k < s'.table.size
    · rw [(h'.old k hk).id]
      exact h.new k hle hk
    · exact UInt64.le_trans h.ids (h'.new k (Nat.le_of_not_lt hk) hlt)

theorem Evolves.leads (he : s.Evolves s') (hi : s.Issues s') (hs' : s'.Sound [])
    (hm : s.Moves [] s' []) : s.Leads s' where
  toMoves := hm
  sound := hs'
  ids := hi.ids
  old k hk := (he.old k hk).onward
  new := hi.new

/-- A change that leaves the table and the disk alone. -/
theorem leads_of_eq (hs' : s'.Sound []) (hsettings : s'.settings = s.settings)
    (htable : s'.table = s.table) (hdisk : s'.disk = s.disk) (hids : s.ids.next ≤ s'.ids.next)
    (hm : s.Moves [] s' []) : s.Leads s' :=
  (Evolves.of_eq hsettings htable hdisk).leads
    ((Issues.refl s).of_eq hsettings hids htable hdisk) hs' hm

theorem Sound.leads_refl (hs : s.Sound []) : s.Leads s :=
  leads_of_eq hs rfl rfl rfl (UInt64.le_refl _) (.of_eq (Nat.le_refl _) rfl rfl)

/-- One segment is used further. -/
theorem Sound.leads_modify {k : Handle} {f : Segment → Segment} {d : Disk}
    (hs' : Sound { s.modify k f with disk := d } [])
    (hf : (s.segment k).Onward (f (s.segment k))) :
    s.Leads { s.modify k f with disk := d } where
  toMoves := .of_eq (Nat.le_of_eq (size_modify s k f).symm) rfl rfl
  sound := hs'
  ids := UInt64.le_refl _
  old := modify_related Segment.Onward.refl hf
  new j hle hlt := by
    rw [show Array.size _ = s.table.size from size_modify s k f] at hlt
    exact absurd hlt (Nat.not_lt.mpr hle)

theorem Sound.leads_report (hs : s.Sound []) (cause : IoError) : s.Leads (s.report cause).2 :=
  leads_of_eq (hs.report cause) rfl rfl rfl (UInt64.le_refl _) (.of_eq (Nat.le_refl _) rfl rfl)

theorem Sound.leads_giveUp (hs : s.Sound []) {k : Handle} (hk : k ∈ s.active)
    (cause : DiskError) : s.Leads (s.giveUp k cause).2 :=
  have hevolves := evolves_giveUp s k cause
  hevolves.leads ((Issues.refl s).giveUp k cause) (hs.giveUp (hs.active_not_fresh hk) cause)
    (.of_eq hevolves.size rfl rfl)

/-- A sync of an active segment, which stays active. -/
theorem Sound.leads_syncSegment (hs : s.Sound []) {k : Handle} (hk : k ∈ s.active) {force : Bool}
    {r : Except DiskError Unit} (h : s.syncSegment k force = (r, s')) :
    s.Leads s' ∧ s'.active = s.active := by
  have hevolves := evolves_syncSegment h
  have hissues := issues_syncSegment h
  have hsound := hs.syncSegment (hs.active_not_fresh hk) h
  obtain ⟨u, d, rfl, -⟩ := syncSegment_cases h
  exact ⟨hevolves.leads hissues hsound (.of_eq hevolves.size rfl rfl), rfl⟩

/-- The file of a segment without a place is removed. -/
theorem Sound.leads_deleteFile (hs : s.Sound []) {k : Handle} (hk : k < s.table.size)
    (hactive : k ∉ s.active) (hspare : s.spare ≠ some k) : s.Leads (s.deleteFile k).2 := by
  have hevolves := evolves_deleteFile s k
  have hissues := issues_deleteFile s k
  have hsound : (s.deleteFile k).2.Sound [] := by
    refine hs.deleteFile hk fun hm => ?_
    rw [List.append_nil, List.mem_append, Option.mem_toList] at hm
    exact hm.elim hactive hspare
  refine hevolves.leads hissues hsound ?_
  cases hd : s.deleteFile k with
  | mk r t =>
    obtain ⟨d, rfl, -⟩ := deleteFile_cases hd
    exact .of_eq (Nat.le_refl _) rfl rfl

/-! ## Appends -/

/-- A range is claimed in the last active segment, which is not sealed, or nothing is claimed. -/
theorem Sound.leads_claim (hs : s.Sound []) {partitions : List Partition} {length : Nat}
    {r : Except LogError Claim} (h : s.claim partitions length = (r, s'))
    (hids : s'.ids.next ≠ 0) :
    s.Leads s' ∧ ∀ c, r = .ok c → ∃ s₁, s.Leads s₁ ∧ s₁.tail? = some c.handle ∧
      (s₁.segment c.handle).sealed = false ∧ c.offset = (s₁.segment c.handle).cursor ∧
      s' = s₁.modify c.handle fun g => g.claimed partitions length := by
  have hissues := hs.issues_claim h hids
  obtain ⟨hsound, hmoves, ⟨e, rfl, hevolves, -⟩ |
    ⟨s₁, c, rfl, hsound₁, hevolves, ht, hunsealed, hoffset, -, rfl⟩⟩ := hs.claim h hids
  · exact ⟨hevolves.leads hissues hsound hmoves, fun c hc => (nomatch hc)⟩
  have hsize := size_modify s₁ c.handle fun g => g.claimed partitions length
  have hid : ∀ k < s₁.table.size, (s₁.segment k).id =
      ((s₁.modify c.handle fun g => g.claimed partitions length).segment k).id := by
    intro k hk
    rw [segment_modify _ _ _ _ hk]
    split <;> rfl
  have hleads₁ : s.Leads s₁ :=
    { size := hevolves.size
      fresh := hmoves.fresh
      active := hmoves.active
      sound := hsound₁
      ids := hissues.ids
      old := fun k hk => (hevolves.old k hk).onward
      new := fun k hle hlt => by
        rw [hid k hlt]
        exact hissues.new k hle (by rw [hsize]; exact hlt) }
  have hleads : s₁.Leads (s₁.modify c.handle fun g => g.claimed partitions length) :=
    Sound.leads_modify (f := fun g => g.claimed partitions length) (d := s₁.disk) hsound
      ⟨rfl, Nat.le_add_right _ _, fun hsealed => hsealed⟩
  refine ⟨hleads₁.trans hleads, fun c' hc => ?_⟩
  cases hc
  exact ⟨s₁, hleads₁, ht, hunsealed, hoffset, rfl⟩

/-- A frame is written into an active segment, which stays active. -/
theorem Sound.leads_write (hs : s.Sound []) {c : Claim} (hc : c.handle ∈ s.active)
    {frame : Bytes} {r : Except DiskError Unit} (h : s.write c frame = (r, s')) :
    s.Leads s' ∧ s'.active = s.active := by
  have hsound := hs.write h (hs.known_active hc) (hs.active_not_fresh hc)
  obtain ⟨u, d, rfl, -⟩ := write_cases h (hs.known_active hc)
  exact ⟨Sound.leads_modify (f := fun g => { g.release c.offset with unsynced := u }) hsound
    ⟨rfl, Nat.le_refl _, fun hsealed => hsealed⟩, rfl⟩

theorem Sound.leads_acknowledge (hs : s.Sound []) {c : Claim} (hc : c.handle ∈ s.active)
    {r : Except LogError Position} (h : s.acknowledge c = (r, s')) : s.Leads s' := by
  obtain ⟨-, -, rfl⟩ | ⟨-, _, s₁, hr, hcase⟩ := acknowledge_cases h
  · exact hs.leads_refl
  obtain ⟨hleads, hactive⟩ := hs.leads_syncSegment hc hr
  obtain ⟨-, -, rfl⟩ | ⟨cause, _, -, -, rfl⟩ := hcase
  · exact hleads
  · exact hleads.trans (hleads.sound.leads_giveUp (hactive ▸ hc) cause)

/-- An append is a claim that is granted, or refused, and what follows it. -/
theorem Sound.leads_append (hs : s.Sound []) {m : Mutation} {r : Except LogError Position}
    (h : s.append m = (r, s')) (hids : s'.ids.next ≠ 0) :
    s.Leads s' ∧ ∀ p, r = .ok p → ∃ frame c s₁, m.frame s.maxPayload = .ok frame ∧
      s.claim m.partitions frame.length = (.ok c, s₁) ∧ s₁.ids.next ≠ 0 ∧ s₁.Leads s' ∧
      p = s'.positionOf c := by
  obtain ⟨e, -, rfl, rfl⟩ | ⟨frame, granted, s₁, hm, hc, hcase⟩ := append_cases h
  · exact ⟨hs.leads_refl, fun p hp => (nomatch hp)⟩
  obtain ⟨e, rfl, rfl, rfl⟩ | ⟨c, written, s₂, rfl, hw, hcase⟩ := hcase
  · exact ⟨(hs.leads_claim hc hids).1, fun p hp => (nomatch hp)⟩
  have hids₁ : s₁.ids.next ≠ 0 := by
    rw [← ids_write hw]
    rcases hcase with ⟨-, hack⟩ | ⟨cause, e, -, -, rfl⟩
    · rw [← (active_acknowledge hack).2]
      exact hids
    · exact hids
  have hleads₁ := (hs.leads_claim hc hids₁).1
  have hhandle := mem_of_tail? (hs.housed.tail?_claim hc)
  obtain ⟨hleads₂, hactive⟩ := hleads₁.sound.leads_write hhandle hw
  have hhandle₂ : c.handle ∈ s₂.active := hactive ▸ hhandle
  rcases hcase with ⟨-, hack⟩ | ⟨cause, e, -, rfl, rfl⟩
  · have hleads := hleads₂.trans (hleads₂.sound.leads_acknowledge hhandle₂ hack)
    refine ⟨hleads₁.trans hleads, fun p hp => ?_⟩
    subst hp
    exact ⟨frame, c, s₁, hm, hc, hids₁, hleads, acknowledge_ok hack⟩
  · exact ⟨hleads₁.trans (hleads₂.trans (hleads₂.sound.leads_giveUp hhandle₂ cause)),
      fun p hp => (nomatch hp)⟩

/-! ## Discards -/

theorem Sound.leads_noteFlush (hs : s.Sound []) (k : Handle) (p : Partition) (upTo : Position) :
    s.Leads (s.noteFlush k p upTo) := by
  obtain ⟨marks, hflush, -⟩ := (s.segment k).noteFlush_eq p upTo
  refine Sound.leads_modify (f := fun g => g.noteFlush p upTo) (d := s.disk)
    (hs.noteFlush k p upTo) ?_
  rw [hflush]
  exact ⟨rfl, Nat.le_refl _, fun hsealed => hsealed⟩

theorem Sound.leads_deleteSegment (hs : s.Sound []) (k : Handle) :
    s.Leads (s.deleteSegment k) := by
  unfold Store.deleteSegment
  rcases unlink_cases s k with ⟨hu, hk, -⟩ | ⟨hu, -⟩
  · rw [hu]
    dsimp only
    have hnodup : s.active.Nodup := hs.ascending_active.imp fun hlt => Nat.ne_of_lt hlt
    have hout : s.Leads { s with active := s.active.erase k } :=
      leads_of_eq (hs.erase k) rfl rfl rfl (UInt64.le_refl _)
        (.of_subset (Nat.le_refl _) (fun _ hj => List.mem_of_mem_erase hj) fun _ hj => hj)
    refine hout.trans (hout.sound.leads_deleteFile (hs.known_active hk) hnodup.not_mem_erase ?_)
    intro hspare
    exact hs.active_not_fresh hk (List.mem_append_left _ (Option.mem_toList.mpr hspare))
  · rw [hu]
    exact hs.leads_refl

theorem Sound.leads_discardOne (hs : s.Sound []) (p : Partition) (upTo : Position) (k : Handle) :
    s.Leads (s.discardOne p upTo k) := by
  have hflush := hs.leads_noteFlush k p upTo
  unfold Store.discardOne
  dsimp only
  split
  · exact hflush.trans (hflush.sound.leads_deleteSegment k)
  · exact hflush

theorem Sound.leads_discardEach (hs : s.Sound []) (p : Partition) (upTo : Position)
    (todo : List Handle) : s.Leads (discardEach p upTo todo s) := by
  induction todo generalizing s with
  | nil => exact hs.leads_refl
  | cons k rest ih =>
    have hone := hs.leads_discardOne p upTo k
    rw [discardEach_cons]
    split
    · exact hone
    · exact hone.trans (ih hone.sound)

theorem Sound.leads_discard (hs : s.Sound []) (p : Partition) (upTo : Position) :
    s.Leads (s.discard p upTo) := hs.leads_discardEach p upTo s.active

/-! ## The spare, syncs and the end -/

theorem Issues.placeSpare (h : s.Issues s') (k : Handle) : s.Issues (s'.placeSpare k) := by
  unfold Store.placeSpare
  split
  · exact h.of_eq rfl (UInt64.le_refl _) rfl rfl
  · cases hd : s'.deleteFile k with
    | mk r t =>
      obtain ⟨d, rfl, hr⟩ := deleteFile_cases hd
      exact h.congr rfl (UInt64.le_refl _) rfl (fun _ _ => .refl _) (Disk.addsNone_remove hr)

theorem spare_placeSpare (s : Store) (k : Handle) :
    (s.placeSpare k).spare = some k ∨ (s.placeSpare k).spare = s.spare := by
  unfold Store.placeSpare
  split
  · exact .inl rfl
  · cases hd : s.deleteFile k with
    | mk r t =>
      obtain ⟨d, rfl, -⟩ := deleteFile_cases hd
      exact .inr rfl

/-- A segment is made and becomes the spare, or its file is removed again. -/
theorem Sound.leads_stockSpare (hs : s.Sound []) (hids : s.stockSpare.2.ids.next ≠ 0) :
    s.Leads s.stockSpare.2 := by
  unfold Store.stockSpare at hids ⊢
  split at hids
  case isFalse hstocked =>
    rw [if_neg hstocked]
    exact hs.leads_refl
  case isTrue hlacks =>
    rw [if_pos hlacks]
    cases hn : s.newSegment with
    | mk r s₁ =>
      rw [hn] at hids
      have hevolves := evolves_newSegment hn
      cases r with
      | error e =>
        obtain ⟨hactive, hspare, ⟨_, -, -, hsound⟩ | ⟨hr, -⟩⟩ := hs.newSegment hn hids
        · have hleads := hevolves.leads (issues_newSegment hn hids) hsound
            (.of_eq hevolves.size hactive hspare)
          exact hleads.trans (hsound.leads_report (.disk e))
        · cases hr
      | ok k =>
        have hids₁ : s₁.ids.next ≠ 0 := by
          rw [← ids_placeSpare s₁ k]
          exact hids
        obtain ⟨hactive, hspare, ⟨_, hr, -⟩ | ⟨hr, -, hsound⟩⟩ := hs.newSegment hn hids₁
        · cases hr
        cases hr
        have hevolves' := hevolves.trans (evolves_placeSpare s₁ s.table.size)
        refine hevolves'.leads ((issues_newSegment hn hids₁).placeSpare _) hsound.placeSpare
          ⟨hevolves'.size, fun j hj => ?_, fun j hj => .inl ?_⟩
        · rw [List.append_nil, Option.mem_toList] at hj
          rcases spare_placeSpare s₁ s.table.size with he | he
          · rw [he] at hj
            cases hj
            exact .inr (Nat.le_refl _)
          · rw [he, hspare] at hj
            exact .inl (List.mem_append_left _ (Option.mem_toList.mpr hj))
        · rwa [active_placeSpare, hactive] at hj

theorem Sound.leads_syncEach (hs : s.Sound []) (force : Bool) {todo : List Handle}
    (htodo : ∀ k ∈ todo, k ∈ s.active) : s.Leads (syncEach force todo s).2 := by
  induction todo generalizing s with
  | nil => exact hs.leads_refl
  | cons k rest ih =>
    unfold Store.syncEach
    cases hr : s.syncSegment k force with
    | mk r s₁ =>
      have hk := htodo k List.mem_cons_self
      obtain ⟨hleads, hactive⟩ := hs.leads_syncSegment hk hr
      cases r with
      | ok =>
        refine hleads.trans (ih hleads.sound fun j hj => ?_)
        rw [hactive]
        exact htodo j (List.mem_cons_of_mem _ hj)
      | error cause =>
        cases force
        · exact hleads.trans (hleads.sound.leads_report (.disk cause))
        · exact hleads.trans (hleads.sound.leads_giveUp (hactive ▸ hk) cause)

theorem Sound.leads_syncActive (hs : s.Sound []) (force : Bool) :
    s.Leads (s.syncActive force).2 := hs.leads_syncEach force fun _ hk => hk

theorem Sound.leads_sync (hs : s.Sound []) (force : Bool) : s.Leads (s.sync force).2 := by
  unfold Store.sync
  split
  · have hsound := hs.send .sync
    obtain ⟨mail, he⟩ := send_eq s .sync
    rw [he] at hsound
    dsimp only
    rw [he]
    exact leads_of_eq hsound rfl rfl rfl (UInt64.le_refl _) (.of_eq (Nat.le_refl _) rfl rfl)
  · exact hs.leads_syncActive force

/-- Segments leave their places. -/
theorem Sound.leads_withdraw (hs : s.Sound []) {active : List Handle} {spare : Option Handle}
    (hactive : active.Sublist s.active) (hspare : spare.toList.Sublist s.spare.toList) :
    s.Leads { s with active, spare } :=
  leads_of_eq (hs.withdraw hactive hspare (List.Sublist.refl _)) rfl rfl rfl (UInt64.le_refl _)
    (.of_subset (Nat.le_refl _) (fun _ hk => hactive.subset hk)
      fun _ hk => (hspare.append_right []).subset hk)

/-- The spare is taken out, and its file removed. -/
theorem Sound.leads_finish (hs : s.Sound []) : s.Leads s.finish.2 := by
  obtain ⟨synced, s₁, hsync, hcase⟩ := finish_cases (Prod.eta s.finish).symm
  have hleads : s.Leads s₁ := by
    have hall := hs.leads_syncActive true
    rwa [hsync] at hall
  rcases hcase with ⟨e, -, -, he⟩ | ⟨-, ⟨-, -, he⟩ | ⟨k, removed, hspare, hd, -⟩⟩
  · rwa [he]
  · rwa [he]
  · have hs₁ := hleads.sound
    have hk : k ∈ s₁.spare.toList ++ [] := by
      rw [hspare]
      exact List.mem_cons_self
    have hout : s₁.Leads { s₁ with spare := none } :=
      hs₁.leads_withdraw (List.Sublist.refl _) (List.nil_sublist _)
    have hgone := hout.sound.leads_deleteFile
      (hs₁.known k (List.mem_append_right _ hk)) (fun hm => hs₁.active_not_fresh hm hk)
      fun hc => (nomatch hc)
    rw [hd] at hgone
    exact hleads.trans (hout.trans hgone)

/-- Files of segments that have no place any more are removed. -/
theorem Sound.leads_deleteEach (hs : s.Sound []) (hactive : s.active = []) (hspare : s.spare = none)
    {todo : List Handle} (htodo : ∀ k ∈ todo, k < s.table.size) :
    s.Leads (deleteEach todo s).2 := by
  induction todo generalizing s with
  | nil => exact hs.leads_refl
  | cons k rest ih =>
    have hgone := hs.leads_deleteFile (htodo k List.mem_cons_self)
      (by rw [hactive]; exact List.not_mem_nil) (by rw [hspare]; exact fun hc => (nomatch hc))
    have hrest : ∀ {r : Except DiskError Unit} {s₁ : Store}, s.deleteFile k = (r, s₁) →
        s.Leads (deleteEach rest s₁).2 := by
      intro r s₁ hd
      rw [hd] at hgone
      obtain ⟨d, rfl, -⟩ := deleteFile_cases hd
      exact hgone.trans (ih hgone.sound hactive hspare fun j hj =>
        htodo j (List.mem_cons_of_mem _ hj))
    unfold Store.deleteEach
    split
    · rename_i s₁ hd
      exact hrest hd
    · rename_i s₁ hd
      exact hrest hd
    · rename_i cause s₁ _ hd
      rw [hd] at hgone
      exact hgone

/-- All segments are taken out, and their files removed. -/
theorem Sound.leads_wipe (hs : s.Sound []) : s.Leads s.wipe.2 := by
  have hout : s.Leads { s with active := [], spare := none } :=
    hs.leads_withdraw (List.nil_sublist _) (List.nil_sublist _)
  refine hout.trans (hout.sound.leads_deleteEach rfl rfl fun k hk => hs.known k ?_)
  rwa [List.append_nil]

/-! ## Runs -/

/-- One request leaves a store in order, and only goes forward. -/
theorem Sound.leads_serve (hs : s.Sound []) (request : Request)
    (hids : (s.serve request).ids.next ≠ 0) : s.Leads (s.serve request) := by
  cases request with
  | append m =>
    cases h : s.append m with
    | mk r s' =>
      rw [serve, h] at hids ⊢
      exact (hs.leads_append h hids).1
  | discard p upTo => exact hs.leads_discard p upTo
  | stockSpare => exact hs.leads_stockSpare hids
  | sync force => exact hs.leads_sync force
  | syncActive force => exact hs.leads_syncActive force
  | keepIdsAbove id =>
    exact leads_of_eq (hs.keepIdsAbove id) rfl rfl rfl (s.ids.next_le_keepAbove id)
      (.of_eq (Nat.le_refl _) rfl rfl)
  | finish => exact hs.leads_finish
  | wipe => exact hs.leads_wipe
  | attach worker =>
    have hsound : Sound { s with attached := worker } [] :=
      hs.of_same rfl rfl (fun _ _ => ⟨.refl _, fun h => h⟩) (fun _ _ => rfl) (UInt64.le_refl _) rfl
        rfl (.refl _) rfl
    exact leads_of_eq hsound rfl rfl rfl (UInt64.le_refl _) (.of_eq (Nat.le_refl _) rfl rfl)

/-- So does a whole run of them. -/
theorem Sound.leads_serveAll (hs : s.Sound []) {requests : List Request}
    (hids : ∀ served, served <+: requests → (s.serveAll served).ids.next ≠ 0) :
    s.Leads (s.serveAll requests) := by
  induction requests generalizing s with
  | nil => exact hs.leads_refl
  | cons request rest ih =>
    have hserve := hs.leads_serve request (hids [request] ⟨rest, rfl⟩)
    exact hserve.trans (ih hserve.sound fun served hserved =>
      hids (request :: served) (List.cons_prefix_cons.mpr ⟨rfl, hserved⟩))

end Store

end SegmentLog
