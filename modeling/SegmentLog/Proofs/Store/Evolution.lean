import SegmentLog.Proofs.Store.Table

/-!
# How a store goes on

Most of what a store does neither claims nor writes: it makes segments, puts them into their
places, seals them, takes them out again, and removes and syncs their files. `Store.Evolves` is
what all of these have in common. A segment that was there keeps its place in the table, its
file, its claims and its marks; its file keeps its content; and a segment that is new has had
nothing done to it yet.

* `newSegment_cases`, `deleteFile_cases` — all that the store does to the tree of its disk;
* `syncSegment_cases`, `finish_cases` — a sync of a segment, and the end of the use;
* `Evolves.trans` — one such change after the other is one.
-/

namespace SegmentLog

/-! ## Plans of faults -/

/-- Whether a plan of faults has nothing in store that another one has not. -/
structure Faults.Within (f f' : Faults) : Prop where
  create : ∀ x ∈ f'.create, x ∈ f.create
  write : ∀ x ∈ f'.write, x ∈ f.write
  sync : ∀ x ∈ f'.sync, x ∈ f.sync
  remove : ∀ x ∈ f'.remove, x ∈ f.remove

theorem Faults.Within.refl (f : Faults) : Within f f :=
  ⟨fun _ h => h, fun _ h => h, fun _ h => h, fun _ h => h⟩

theorem Faults.Within.trans {f f' f'' : Faults} (h : Within f f') (h' : Within f' f'') :
    Within f f'' :=
  ⟨fun x hx => h.create x (h'.create x hx), fun x hx => h.write x (h'.write x hx),
    fun x hx => h.sync x (h'.sync x hx), fun x hx => h.remove x (h'.remove x hx)⟩

theorem Faults.within_create (f : Faults) : Within f { f with create := f.create.tail } :=
  { Within.refl f with create := fun _ => List.mem_of_mem_tail }

theorem Faults.within_sync (f : Faults) : Within f { f with sync := f.sync.tail } :=
  { Within.refl f with sync := fun _ => List.mem_of_mem_tail }

theorem Faults.within_remove (f : Faults) : Within f { f with remove := f.remove.tail } :=
  { Within.refl f with remove := fun _ => List.mem_of_mem_tail }

/-! ## Segments -/

namespace Segment

/-- What is left alone of a segment in which nothing is claimed, written or forgotten. -/
structure Keeps (g g' : Segment) : Prop extends SameFile g g' where
  cursor : g'.cursor = g.cursor
  marks : g'.marks = g.marks
  pending : g'.pending = g.pending
  sealed : g.sealed = true → g'.sealed = true

/-- Whether nothing was ever claimed in a segment. -/
structure IsBlank (g : Segment) : Prop where
  cursor : g.cursor = 0
  marks : g.marks = {}
  pending : g.pending = []

theorem Keeps.refl (g : Segment) : Keeps g g := ⟨.refl g, rfl, rfl, rfl, fun h => h⟩

theorem Keeps.trans {g g' g'' : Segment} (h : Keeps g g') (h' : Keeps g' g'') : Keeps g g'' where
  name := h'.name.trans h.name
  path := h'.path.trans h.path
  file := h'.file.trans h.file
  capacity := h'.capacity.trans h.capacity
  cursor := h'.cursor.trans h.cursor
  marks := h'.marks.trans h.marks
  pending := h'.pending.trans h.pending
  sealed := fun hs => h'.sealed (h.sealed hs)

theorem Keeps.isBlank {g g' : Segment} (h : Keeps g g') (hg : g.IsBlank) : g'.IsBlank :=
  ⟨h.cursor.trans hg.cursor, h.marks.trans hg.marks, h.pending.trans hg.pending⟩

theorem keeps_sealOff (g : Segment) : Keeps g g.sealOff := ⟨⟨rfl, rfl, rfl, rfl⟩, rfl, rfl, rfl,
  fun _ => rfl⟩

/-- A sync changes nothing but whether there is something left to sync. -/
theorem sync_cases {g g' : Segment} {d d' : Disk} {force : Bool} {r : Except DiskError Unit}
    (h : g.sync d force = (r, g', d')) :
    (∃ u, g' = { g with unsynced := u }) ∧
      (r = .ok () ∧ d' = d ∨ d.sync g.file = (r, d')) := by
  rw [sync] at h
  split at h
  · cases h
    exact ⟨⟨_, rfl⟩, .inl ⟨rfl, rfl⟩⟩
  · split at h
    · rename_i hd
      cases h
      exact ⟨⟨_, rfl⟩, .inr hd⟩
    · rename_i hd
      cases h
      exact ⟨⟨_, rfl⟩, .inr hd⟩

end Segment

namespace Store

/-! ## Evolution -/

/-- What is left alone of a store in which nothing is claimed, written or forgotten. -/
structure Evolves (s s' : Store) : Prop where
  settings : s'.settings = s.settings
  size : s.table.size ≤ s'.table.size
  old : ∀ k < s.table.size, (s.segment k).Keeps (s'.segment k)
  content : ∀ f < s.disk.files.size, s'.disk.content f = s.disk.content f
  files : s.disk.files.size ≤ s'.disk.files.size
  new : ∀ k, s.table.size ≤ k → k < s'.table.size →
    (s'.segment k).IsBlank ∧ s.disk.files.size ≤ (s'.segment k).file ∧
      (s'.segment k).file < s'.disk.files.size ∧ s'.disk.content (s'.segment k).file = []
  room : ∀ k, s.table.size ≤ k → k < s'.table.size →
    (s'.segment k).capacity = s.settings.segmentSize.toNat
  faults : Faults.Within s.disk.faults s'.disk.faults
  filed : s.Filed → s'.Filed

/-- A change that leaves the table and the disk alone is an evolution. -/
theorem Evolves.of_eq {s s' : Store} (hs : s'.settings = s.settings) (ht : s'.table = s.table)
    (hd : s'.disk = s.disk) : Evolves s s' where
  settings := hs
  size := Nat.le_of_eq (by rw [ht])
  old k _ := by rw [segment, segment, ht]; exact .refl _
  content f _ := by rw [hd]
  files := Nat.le_of_eq (by rw [hd])
  new k hle hlt := by rw [ht] at hlt; omega
  room k hle hlt := by rw [ht] at hlt; omega
  faults := by rw [hd]; exact .refl _
  filed hf := hf.of_same hs (by rw [ht]) (fun k _ => by rw [segment, segment, ht]; exact .refl _)
    (by rw [hd]; exact hf.disk) (Nat.le_of_eq (by rw [hd]))

theorem Evolves.refl (s : Store) : Evolves s s := .of_eq rfl rfl rfl

theorem Evolves.trans {s s' s'' : Store} (h : Evolves s s') (h' : Evolves s' s'') :
    Evolves s s'' where
  settings := h'.settings.trans h.settings
  size := Nat.le_trans h.size h'.size
  old k hk := (h.old k hk).trans (h'.old k (Nat.lt_of_lt_of_le hk h.size))
  content f hf := (h'.content f (Nat.lt_of_lt_of_le hf h.files)).trans (h.content f hf)
  files := Nat.le_trans h.files h'.files
  new k hle hlt := by
    by_cases hk : k < s'.table.size
    · obtain ⟨hblank, hnew, hold, hempty⟩ := h.new k hle hk
      have hkeeps := h'.old k hk
      rw [hkeeps.file, h'.content _ hold]
      exact ⟨hkeeps.isBlank hblank, hnew, Nat.lt_of_lt_of_le hold h'.files, hempty⟩
    · obtain ⟨hblank, hnew, hold, hempty⟩ := h'.new k (Nat.le_of_not_lt hk) hlt
      exact ⟨hblank, Nat.le_trans h.files hnew, hold, hempty⟩
  room k hle hlt := by
    by_cases hk : k < s'.table.size
    · rw [(h'.old k hk).capacity, h.room k hle hk]
    · rw [h'.room k (Nat.le_of_not_lt hk) hlt, h.settings]
  faults := h.faults.trans h'.faults
  filed hf := h'.filed (h.filed hf)

/-- A change to one segment that leaves its claims and marks alone is an evolution. -/
theorem evolves_modify {s : Store} {h : Handle} {f : Segment → Segment}
    (hf : (s.segment h).Keeps (f (s.segment h))) : Evolves s (s.modify h f) where
  settings := rfl
  size := Nat.le_of_eq (size_modify s h f).symm
  old := modify_related Segment.Keeps.refl hf
  content _ _ := rfl
  files := Nat.le_refl _
  new k hle hlt := by rw [size_modify] at hlt; omega
  room k hle hlt := by rw [size_modify] at hlt; omega
  faults := .refl _
  filed hs := hs.modify hf.toSameFile

/-- A change to the disk that leaves its files alone is an evolution. -/
theorem evolves_disk {s : Store} {d : Disk} (hdisk : s.disk.WellFormed → d.WellFormed)
    (hsize : d.files.size = s.disk.files.size)
    (hcontent : ∀ f < s.disk.files.size, d.content f = s.disk.content f)
    (hfaults : Faults.Within s.disk.faults d.faults) : Evolves s { s with disk := d } where
  settings := rfl
  size := Nat.le_refl _
  old _ _ := .refl _
  content := hcontent
  files := Nat.le_of_eq hsize.symm
  new _ hle hlt := absurd hlt (Nat.not_lt.mpr hle)
  room _ hle hlt := absurd hlt (Nat.not_lt.mpr hle)
  faults := hfaults
  filed hs := hs.of_disk (hdisk hs.disk) (Nat.le_of_eq hsize.symm)

theorem evolves_sealOff (s : Store) (h : Handle) : Evolves s (s.sealOff h) :=
  evolves_modify (Segment.keeps_sealOff _)

theorem evolves_giveUp (s : Store) (h : Handle) (cause : DiskError) :
    Evolves s (s.giveUp h cause).2 :=
  (evolves_sealOff s h).trans (.of_eq rfl rfl rfl)

theorem segment_giveUp {s : Store} {k : Handle} (hk : k < s.table.size) (cause : DiskError) :
    (s.giveUp k cause).2.segment k = (s.segment k).sealOff :=
  segment_modify_self Segment.sealOff hk

/-! ## New segments and old files -/

/-- A segment is made with the next number, or only the number is used up. -/
theorem newSegment_cases {s s' : Store} {r : Except DiskError Handle}
    (h : s.newSegment = (r, s')) :
    ∃ d, Faults.Within s.disk.faults d.faults ∧
      ((∃ e, r = .error e ∧ s' = { s with ids := s.ids.take.2, disk := d } ∧
          Disk.SameTree s.disk d ∧ d.files = s.disk.files) ∨
        ∃ g q n, r = .ok s.table.size ∧
          s' = { s with ids := s.ids.take.2, disk := d, table := s.table.push g } ∧
          g = { name := .ofId s.ids.next
                path := (SegmentName.ofId s.ids.next).pathIn s.settings.directory s.settings.stem
                file := s.disk.files.size
                capacity := s.settings.segmentSize.toNat } ∧
          s.disk.locate g.path = .ok q ∧ q.name = some n ∧
          Disk.Attached s.disk d q.way.here n) := by
  simp only [newSegment, IdSource.take, Segment.create] at h
  cases hc : s.disk.createNew (s.settings.directory.join
    (.ofString ((SegmentName.ofId s.ids.next).render s.settings.stem))) with
  | mk result d =>
    obtain ⟨hfaults, hcases⟩ := Disk.createNew_cases hc
    have hwithin : Faults.Within s.disk.faults d.faults := by
      rw [hfaults]
      exact Faults.within_create _
    rw [hc] at h
    refine ⟨d, hwithin, ?_⟩
    rcases hcases with ⟨e, rfl, htree, hfiles⟩ | ⟨q, n, rfl, hq, hn, hattached⟩
    · cases h
      exact .inl ⟨e, rfl, rfl, htree, hfiles⟩
    · cases h
      exact .inr ⟨_, q, n, rfl, rfl, rfl, hq, hn, hattached⟩

theorem active_newSegment {s s' : Store} {r : Except DiskError Handle}
    (h : s.newSegment = (r, s')) : s'.active = s.active := by
  obtain ⟨d, -, ⟨e, -, rfl, -⟩ | ⟨g, q, n, -, rfl, -⟩⟩ := newSegment_cases h <;> rfl

theorem evolves_newSegment {s s' : Store} {r : Except DiskError Handle}
    (h : s.newSegment = (r, s')) : Evolves s s' := by
  obtain ⟨d, hfaults, ⟨e, -, rfl, htree, hfiles⟩ | ⟨g, q, n, -, rfl, hg, -, -, hattached⟩⟩ :=
    newSegment_cases h
  · have hd := evolves_disk (s := s) (d := d) htree.wellFormed (by rw [hfiles])
      (fun f _ => Disk.content_of_files hfiles f) hfaults
    exact hd.trans (.of_eq rfl rfl rfl)
  · have hpush := @segment_push s { s with ids := s.ids.take.2, disk := d, table := s.table.push g }
      g rfl
    have hsize : d.files.size = s.disk.files.size + 1 := by rw [hattached.files, Array.size_push]
    constructor
    · rfl
    · simp only [Array.size_push]
      omega
    · intro k hk
      rw [hpush, if_neg (Nat.ne_of_lt hk)]
      exact .refl _
    · intro f hf
      rw [hattached.content, if_neg (Nat.ne_of_lt hf)]
    · rw [hsize]
      omega
    · intro k hle hlt
      simp only [Array.size_push] at hlt
      have hk : k = s.table.size := by omega
      have hfile : g.file = s.disk.files.size := by rw [hg]
      rw [hpush, if_pos hk, hfile, hattached.content, if_pos rfl, hsize]
      refine ⟨?_, Nat.le_refl _, Nat.lt_succ_self _, rfl⟩
      rw [hg]
      exact ⟨rfl, rfl, rfl⟩
    · intro k hle hlt
      simp only [Array.size_push] at hlt
      have hk : k = s.table.size := by omega
      rw [hpush, if_pos hk, hg]
    · exact hfaults
    · exact fun hs => hs.push (g := g) rfl rfl (by rw [hg]; rfl) (by rw [hg]) (by rw [hg])
        (hattached.wellFormed hs.disk) hsize

theorem deleteFile_eq {s : Store} {h : Handle} {r : Except DiskError Unit} {d : Disk}
    (hr : s.disk.remove (s.segment h).path = (r, d)) :
    s.deleteFile h = (r, { s with disk := d }) := by
  unfold deleteFile Segment.delete
  rw [hr]

/-- A file is taken out of its directory, or nothing is. -/
theorem deleteFile_cases {s s' : Store} {h : Handle} {r : Except DiskError Unit}
    (hd : s.deleteFile h = (r, s')) :
    ∃ d, s' = { s with disk := d } ∧ s.disk.remove (s.segment h).path = (r, d) := by
  rw [deleteFile, Segment.delete] at hd
  cases hr : s.disk.remove (s.segment h).path with
  | mk result d =>
    rw [hr] at hd
    cases hd
    exact ⟨d, rfl, rfl⟩

theorem evolves_remove {s : Store} {p : Path} {d : Disk} {r : Except DiskError Unit}
    (h : s.disk.remove p = (r, d)) : Evolves s { s with disk := d } := by
  have hfiles := Disk.files_remove h
  refine evolves_disk (fun hd => Disk.wellFormed_remove hd h) (by rw [hfiles])
    (fun f _ => Disk.content_of_files hfiles f) ?_
  rw [(Disk.remove_cases h).1]
  exact Faults.within_remove _

theorem evolves_deleteFile (s : Store) (h : Handle) : Evolves s (s.deleteFile h).2 := by
  cases hd : s.deleteFile h with
  | mk r s' =>
    obtain ⟨d, rfl, hr⟩ := deleteFile_cases hd
    exact evolves_remove hr

theorem active_deleteFile (s : Store) (h : Handle) : (s.deleteFile h).2.active = s.active := by
  cases hd : s.deleteFile h with
  | mk r s' =>
    obtain ⟨d, rfl, -⟩ := deleteFile_cases hd
    rfl

/-- A sync of a segment changes neither the tree nor what any file holds. -/
theorem syncSegment_cases {s s' : Store} {h : Handle} {force : Bool} {r : Except DiskError Unit}
    (hs : s.syncSegment h force = (r, s')) :
    ∃ u d, s' = { s.modify h (fun _ => { s.segment h with unsynced := u }) with disk := d } ∧
      Disk.SameTree s.disk d ∧ d.files.size = s.disk.files.size ∧
      (∀ f < s.disk.files.size, d.content f = s.disk.content f) ∧
      Faults.Within s.disk.faults d.faults ∧
      (Faults.next? s.disk.faults.sync = none → r = .ok ()) := by
  rw [syncSegment] at hs
  cases hg : (s.segment h).sync s.disk force with
  | mk result pair =>
    obtain ⟨g, d⟩ := pair
    rw [hg] at hs
    cases hs
    obtain ⟨⟨u, rfl⟩, ⟨hr, rfl⟩ | hsync⟩ := Segment.sync_cases hg
    · exact ⟨u, _, rfl, .refl _, rfl, fun _ _ => rfl, .refl _, fun _ => hr⟩
    · obtain ⟨htree, hsize, hfaults, hcontent⟩ := Disk.sync_cases hsync
      refine ⟨u, d, rfl, htree, hsize, hcontent, ?_, fun hnone => ?_⟩
      · rw [hfaults]
        exact Faults.within_sync _
      · rw [← Disk.sync_ok (s.segment h).file hnone, hsync]

theorem evolves_syncSegment {s s' : Store} {h : Handle} {force : Bool}
    {r : Except DiskError Unit} (hs : s.syncSegment h force = (r, s')) : Evolves s s' := by
  obtain ⟨u, d, rfl, htree, hsize, hcontent, hfaults, -⟩ := syncSegment_cases hs
  have hmodify : Evolves s (s.modify h fun _ => { s.segment h with unsynced := u }) :=
    evolves_modify ⟨⟨rfl, rfl, rfl, rfl⟩, rfl, rfl, rfl, fun hsealed => hsealed⟩
  exact hmodify.trans (evolves_disk htree.wellFormed hsize hcontent hfaults)

/-! ## Places -/

theorem mem_of_tail? {s : Store} {t : Handle} (ht : s.tail? = some t) : t ∈ s.active :=
  List.mem_of_getLast? ht

theorem evolves_placeSpare (s : Store) (k : Handle) : Evolves s (s.placeSpare k) := by
  rw [placeSpare]
  split
  · exact .of_eq rfl rfl rfl
  · exact evolves_deleteFile s k

theorem active_placeSpare (s : Store) (k : Handle) : (s.placeSpare k).active = s.active := by
  rw [placeSpare]
  split
  · rfl
  · exact active_deleteFile s k

theorem ids_placeSpare (s : Store) (k : Handle) : (s.placeSpare k).ids = s.ids := by
  unfold placeSpare
  split
  · rfl
  · cases hd : s.deleteFile k with
    | mk r s' =>
      obtain ⟨d, rfl, -⟩ := deleteFile_cases hd
      rfl

theorem send_eq (s : Store) (c : Chore) : ∃ mail, s.send c = { s with mail } := by
  rw [send]
  split
  · exact ⟨_, rfl⟩
  · exact ⟨s.mail, rfl⟩

/-- What becomes of a store when a segment is made the last active one: the one before it is
sealed, and no other segment changes. -/
theorem activate_eq (s : Store) (k : Handle) :
    ∃ s₁ mail, s.activate k = { s₁ with active := s.active ++ [k], mail } ∧
      (s.tail? = none ∧ s₁ = s ∨ ∃ t, s.tail? = some t ∧ s₁ = s.sealOff t) := by
  have hmail : ∀ t : Store, ∃ mail,
      (if t.settings.lookAhead then t.send .stockSpare else t) = { t with mail } := by
    intro t
    split
    · exact send_eq t _
    · exact ⟨t.mail, rfl⟩
  rw [activate]
  cases ht : s.tail? with
  | none =>
    obtain ⟨mail, hm⟩ := hmail { s with active := s.active ++ [k] }
    exact ⟨s, mail, hm, .inl ⟨rfl, rfl⟩⟩
  | some t =>
    obtain ⟨mail, hm⟩ := hmail { s.modify t Segment.sealOff with active := s.active ++ [k] }
    exact ⟨s.sealOff t, mail, hm, .inr ⟨t, rfl, rfl⟩⟩

theorem spare_activate (s : Store) (k : Handle) : (s.activate k).spare = s.spare := by
  obtain ⟨s₁, mail, he, ⟨-, rfl⟩ | ⟨t, -, rfl⟩⟩ := activate_eq s k
  · rw [he]
  · rw [he]
    rfl

theorem active_activate (s : Store) (k : Handle) : (s.activate k).active = s.active ++ [k] := by
  obtain ⟨s₁, mail, he, -⟩ := activate_eq s k
  rw [he]

theorem ids_activate (s : Store) (k : Handle) : (s.activate k).ids = s.ids := by
  obtain ⟨s₁, mail, he, ⟨-, rfl⟩ | ⟨t, -, rfl⟩⟩ := activate_eq s k
  · rw [he]
  · rw [he]
    rfl

theorem evolves_activate (s : Store) (k : Handle) : Evolves s (s.activate k) := by
  obtain ⟨s₁, mail, he, h⟩ := activate_eq s k
  have hfirst : Evolves s s₁ := by
    rcases h with ⟨-, rfl⟩ | ⟨t, -, rfl⟩
    · exact .refl _
    · exact evolves_sealOff s t
  rw [he]
  exact hfirst.trans (.of_eq rfl rfl rfl)

/-! ## The segment of an append -/

/-- The spare is taken out of its place, and it is given back or its file is removed. -/
theorem withdrawSpare_cases {s s' : Store} {r : Option Handle} (h : s.withdrawSpare = (r, s')) :
    s.spare = none ∧ r = none ∧ s' = s ∨
      ∃ k, s.spare = some k ∧ (r = some k ∧ s' = { s with spare := none } ∨
        r = none ∧ s' = (Store.deleteFile { s with spare := none } k).2) := by
  unfold Store.withdrawSpare at h
  split at h
  · rename_i hspare
    cases h
    exact .inl ⟨hspare, rfl, rfl⟩
  · rename_i k hspare
    refine .inr ⟨k, hspare, ?_⟩
    dsimp only at h
    split at h <;> cases h
    · exact .inl ⟨rfl, rfl⟩
    · exact .inr ⟨rfl, rfl⟩

/-- A roll-over makes the spare the last active segment, or else a new one, if it can be created. -/
theorem rollOver_cases {s s' : Store} {r : Except LogError Handle} (h : s.rollOver = (r, s')) :
    ∃ spare s₁, s.withdrawSpare = (spare, s₁) ∧
      ((∃ k, spare = some k ∧ r = .ok k ∧ s' = s₁.activate k) ∨
        spare = none ∧ ∃ made s₂, s₁.newSegment = (made, s₂) ∧
          ((∃ e, made = .error e ∧ r = .error (s₂.report (.disk e)).1 ∧
              s' = (s₂.report (.disk e)).2) ∨
            ∃ k, made = .ok k ∧ r = .ok k ∧ s' = s₂.activate k)) := by
  unfold Store.rollOver at h
  cases hw : s.withdrawSpare with
  | mk spare s₁ =>
    rw [hw] at h
    refine ⟨spare, s₁, rfl, ?_⟩
    cases spare with
    | some k =>
      cases h
      exact .inl ⟨k, rfl, rfl, rfl⟩
    | none =>
      dsimp only at h
      cases hn : s₁.newSegment with
      | mk made s₂ =>
        rw [hn] at h
        refine .inr ⟨rfl, made, s₂, rfl, ?_⟩
        cases made with
        | error e =>
          cases h
          exact .inl ⟨e, rfl, rfl, rfl⟩
        | ok k =>
          cases h
          exact .inr ⟨k, rfl, rfl, rfl⟩

/-- An append goes to the last active segment if it has room there, and else the log rolls over. -/
theorem segmentFor_cases {s s' : Store} {length : Nat} {r : Except LogError Handle}
    (h : s.segmentFor length = (r, s')) :
    (∃ k, s.tail? = some k ∧ s.tailFits k length = true ∧ r = .ok k ∧ s' = s) ∨
      s.rollOver = (r, s') := by
  unfold Store.segmentFor at h
  split at h
  · rename_i k ht
    split at h
    · rename_i hfits
      cases h
      exact .inl ⟨k, ht, hfits, rfl, rfl⟩
    · exact .inr h
  · exact .inr h

theorem evolves_withdrawSpare {s s' : Store} {r : Option Handle} (h : s.withdrawSpare = (r, s')) :
    Evolves s s' := by
  have hout : Evolves s { s with spare := none } := .of_eq rfl rfl rfl
  rcases withdrawSpare_cases h with ⟨-, -, rfl⟩ | ⟨k, -, ⟨-, rfl⟩ | ⟨-, rfl⟩⟩
  · exact .refl _
  · exact hout
  · exact hout.trans (evolves_deleteFile _ k)

theorem evolves_rollOver {s s' : Store} {r : Except LogError Handle} (h : s.rollOver = (r, s')) :
    Evolves s s' := by
  obtain ⟨spare, s₁, hw, ⟨k, -, -, rfl⟩ | ⟨-, made, s₂, hn, ⟨e, -, -, rfl⟩ | ⟨k, -, -, rfl⟩⟩⟩ :=
    rollOver_cases h
  · exact (evolves_withdrawSpare hw).trans (evolves_activate s₁ k)
  · exact ((evolves_withdrawSpare hw).trans (evolves_newSegment hn)).trans (.of_eq rfl rfl rfl)
  · exact ((evolves_withdrawSpare hw).trans (evolves_newSegment hn)).trans (evolves_activate s₂ k)

/-- Whatever segment an append goes to, nothing is claimed yet. -/
theorem evolves_segmentFor {s s' : Store} {length : Nat} {r : Except LogError Handle}
    (h : s.segmentFor length = (r, s')) : Evolves s s' := by
  rcases segmentFor_cases h with ⟨k, -, -, -, rfl⟩ | h
  · exact .refl _
  · exact evolves_rollOver h

/-! ## The end of the use -/

/-- The use of a store ends with a sync, and after that with the removal of the spare, if there is
one. -/
theorem finish_cases {s s' : Store} {r : Except LogError Unit} (h : s.finish = (r, s')) :
    ∃ synced s₁, s.syncActive true = (synced, s₁) ∧
      ((∃ e, synced = .error e ∧ r = .error e ∧ s' = s₁) ∨
        synced = .ok () ∧
          (s₁.spare = none ∧ r = .ok () ∧ s' = s₁ ∨
            ∃ k removed, s₁.spare = some k ∧
              { s₁ with spare := none }.deleteFile k = (removed, s') ∧
              (removed = .ok () ∧ r = .ok () ∨
                ∃ cause, removed = .error cause ∧ r = .error (.io (.disk cause))))) := by
  unfold Store.finish at h
  cases hsync : s.syncActive true with
  | mk synced s₁ =>
    rw [hsync] at h
    refine ⟨synced, s₁, rfl, ?_⟩
    cases synced with
    | error e =>
      cases h
      exact .inl ⟨e, rfl, rfl, rfl⟩
    | ok =>
      refine .inr ⟨rfl, ?_⟩
      dsimp only at h
      split at h
      · rename_i hspare
        cases h
        exact .inl ⟨hspare, rfl, rfl⟩
      · rename_i k hspare
        split at h <;> rename_i hd <;> cases h
        · exact .inr ⟨k, _, hspare, hd, .inl ⟨rfl, rfl⟩⟩
        · exact .inr ⟨k, _, hspare, hd, .inr ⟨_, rfl, rfl⟩⟩

end Store

end SegmentLog
