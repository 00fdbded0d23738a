import Mathlib.Data.List.Perm.Subperm
import SegmentLog.Proofs.Store.Evolution

/-!
# Segments and their files

Whatever numbers are handed out, and even after they have run out and started over, every segment
that has a place in a store has a file of its own, and the file is where the path of the segment
leads. A new segment gets a new file, and a file is removed only after its segment has lost its
place. `Store.Housed` says so, with the segments that were made and have no place yet counted apart,
and that the files can be read.

* `Found.remove_elsewhere`, `Found.remove_apart` — a file that is removed leaves the others;
* `Housed.contents` — the file of an active segment can be read;
* `Housed.of_same` — what is done to segments in use keeps them housed;
* `Housed.arrange` — so does any exchange of places;
* `Housed.newSegment`, `Housed.deleteFile` — segments come and go;
* `Housed.segmentFor` — where the next record goes.
-/

namespace SegmentLog.Store

/-- Whether the file of a segment is where its path leads. -/
def Found (s : Store) (h : Handle) : Prop :=
  ∃ q, s.disk.find (s.segment h).path = .ok (q, .file (s.segment h).file)

/-- Whether the files that were made for the segments of a store can be read. -/
def Readable (s : Store) : Prop :=
  ∀ h < s.table.size, s.disk.fault? (s.segment h).file = none

variable {s s' : Store} {loose : List Handle}

/-! ## Files that can be read -/

theorem Readable.of_same (hs : s.Readable) (hsize : s'.table.size = s.table.size)
    (hsame : ∀ k < s.table.size, (s.segment k).SameFile (s'.segment k))
    (hfault : ∀ f, s'.disk.fault? f = s.disk.fault? f) : s'.Readable := by
  intro h hh
  rw [hsize] at hh
  rw [(hsame h hh).file, hfault]
  exact hs h hh

/-- A segment that is added to the table with a new file can be read. -/
theorem Readable.push (hs : s.Readable) {g : Segment} (htable : s'.table = s.table.push g)
    (hfile : g.file = s.disk.files.size) (hfault : ∀ f, s'.disk.fault? f = s.disk.fault? f) :
    s'.Readable := by
  intro k hk
  rw [htable, Array.size_push] at hk
  rw [segment_push htable, hfault]
  split
  · rw [hfile]
    exact s.disk.fault?_size
  · rename_i hne
    exact hs k (Nat.lt_of_le_of_ne (Nat.lt_succ_iff.mp hk) hne)

/-! ## Files that stay -/

theorem Found.of_tree {h : Handle} (hf : s.Found h) (hsame : (s.segment h).SameFile (s'.segment h))
    (htree : Disk.SameTree s.disk s'.disk) : s'.Found h := by
  obtain ⟨q, hq⟩ := hf
  exact ⟨q, by rw [hsame.path, hsame.file, htree.find, hq]⟩

/-- The removal of a file leaves the file of a segment at another place. -/
theorem Found.remove_elsewhere {h : Handle} (hf : s.Found h) {p : Path} {d : Disk}
    {r : Except DiskError Unit} (hr : s.disk.remove p = (r, d))
    (hplace : ∀ q q' id, s.disk.find (s.segment h).path = .ok (q, .file (s.segment h).file) →
      s.disk.find p = .ok (q', .file id) → ¬ (q.way.here = q'.way.here ∧ q.name = q'.name)) :
    Found { s with disk := d } h := by
  obtain ⟨q, hq⟩ := hf
  refine ⟨q, ?_⟩
  obtain ⟨-, ⟨e, -, htree, -⟩ | ⟨q', n, id, -, hp, hn, hdetached⟩⟩ := Disk.remove_cases hr
  · exact (htree.find _).trans hq
  · refine hdetached.find_elsewhere hq fun he => hplace q q' id hq hp ⟨he.1, ?_⟩
    rw [he.2, hn]

/-- The removal of the file of one segment leaves that of another segment with another file. -/
theorem Found.remove_apart {g h : Handle} (hg : s.Found g) (hh : s.Found h)
    (hne : (s.segment g).file ≠ (s.segment h).file) {d : Disk} {r : Except DiskError Unit}
    (hr : s.disk.remove (s.segment g).path = (r, d)) : Found { s with disk := d } h := by
  refine hh.remove_elsewhere hr fun q q' id hq hq' hsame => hne ?_
  obtain ⟨p, hp⟩ := hg
  rw [hq', Except.ok.injEq, Prod.mk.injEq, Node.file.injEq] at hp
  -- one place holds one file
  obtain ⟨n, hn, hlookup⟩ := Disk.name_of_find_file hq
  obtain ⟨m, hm, hlookup'⟩ := Disk.name_of_find_file hq'
  rw [hsame.1, ← Option.some.inj (hm.symm.trans (hsame.2.symm.trans hn)), hlookup',
    Option.some.injEq, Node.file.injEq] at hlookup
  rw [← hp.2, hlookup]

/-! ## Housed segments -/

/-- Whether every segment in a place of a store has its file, and so have some segments that were
made and have no place yet. -/
structure Housed (s : Store) (loose : List Handle) : Prop extends Filed s where
  distinct : (s.active ++ (s.spare.toList ++ loose)).Nodup
  known : ∀ h ∈ s.active ++ (s.spare.toList ++ loose), h < s.table.size
  found : ∀ h ∈ s.active ++ (s.spare.toList ++ loose), s.Found h
  readable : s.Readable

theorem Housed.known_active (hs : s.Housed loose) {h : Handle} (hh : h ∈ s.active) :
    h < s.table.size := hs.known h (List.mem_append_left _ hh)

theorem Housed.active_not_fresh (hs : s.Housed loose) {h : Handle} (hh : h ∈ s.active) :
    h ∉ s.spare.toList ++ loose :=
  fun hf => (List.nodup_append.mp hs.distinct).2.2 h hh h hf rfl

theorem Housed.found_active (hs : s.Housed loose) {h : Handle} (hh : h ∈ s.active) : s.Found h :=
  hs.found h (List.mem_append_left _ hh)

/-- The file of an active segment is read as it stands. -/
theorem Housed.contents (hs : s.Housed loose) {h : Handle} (hh : h ∈ s.active) :
    s.disk.contents (s.segment h).path = .ok (s.disk.content (s.segment h).file) := by
  obtain ⟨q, hq⟩ := hs.found_active hh
  exact Disk.contents_of_find hq (hs.readable h (hs.known_active hh))

/-- What is done to segments in use, and to the contents of files, keeps all segments housed. -/
theorem Housed.of_same (hs : s.Housed loose) (hsettings : s'.settings = s.settings)
    (hsize : s'.table.size = s.table.size)
    (hsame : ∀ k < s.table.size, (s.segment k).SameFile (s'.segment k))
    (hactive : s'.active = s.active) (hspare : s'.spare = s.spare)
    (htree : Disk.SameTree s.disk s'.disk) (hfiles : s'.disk.files.size = s.disk.files.size) :
    s'.Housed loose where
  toFiled := hs.toFiled.of_same hsettings hsize hsame (htree.wellFormed hs.disk)
    (Nat.le_of_eq hfiles.symm)
  distinct := by rw [hactive, hspare]; exact hs.distinct
  known := by rw [hactive, hspare, hsize]; exact hs.known
  found h hh := by
    rw [hactive, hspare] at hh
    exact (hs.found h hh).of_tree (hsame h (hs.known h hh)) htree
  readable := hs.readable.of_same hsize hsame htree.fault

theorem Housed.modify (hs : s.Housed loose) {h : Handle} {f : Segment → Segment}
    (hf : (s.segment h).SameFile (f (s.segment h))) {d : Disk} (htree : Disk.SameTree s.disk d)
    (hfiles : d.files.size = s.disk.files.size) : Housed { s.modify h f with disk := d } loose :=
  hs.of_same rfl (size_modify s h f) (sameFile_modify hf) rfl rfl htree hfiles

/-- A change that leaves the table, the places and the disk alone keeps all segments housed. -/
theorem Housed.of_eq (hs : s.Housed loose) (hsettings : s'.settings = s.settings)
    (htable : s'.table = s.table) (hdisk : s'.disk = s.disk) (hactive : s'.active = s.active)
    (hspare : s'.spare = s.spare) : s'.Housed loose := by
  refine hs.of_same hsettings (by rw [htable]) (fun k _ => ?_) hactive hspare ?_ (by rw [hdisk])
  · rw [segment, segment, htable]
    exact .refl _
  · rw [hdisk]
    exact .refl _

theorem Housed.sealOff (hs : s.Housed loose) (h : Handle) : (s.sealOff h).Housed loose :=
  hs.modify (Segment.keeps_sealOff _).toSameFile (.refl _) rfl

theorem Housed.giveUp (hs : s.Housed loose) (h : Handle) (cause : DiskError) :
    (s.giveUp h cause).2.Housed loose :=
  (hs.sealOff h).of_eq rfl rfl rfl rfl rfl

theorem Housed.syncSegment (hs : s.Housed loose) {h : Handle} {force : Bool}
    {r : Except DiskError Unit} (hr : s.syncSegment h force = (r, s')) : s'.Housed loose := by
  obtain ⟨u, d, rfl, htree, hsize, -⟩ := syncSegment_cases hr
  exact hs.modify ⟨rfl, rfl, rfl, rfl⟩ htree hsize

/-! ## Places -/

/-- Segments that change places, or leave them, stay housed. -/
theorem Housed.arrange {loose' : List Handle} (hs : s.Housed loose)
    (hsettings : s'.settings = s.settings) (htable : s'.table = s.table)
    (hdisk : s'.disk = s.disk)
    (hplaces : (s'.active ++ (s'.spare.toList ++ loose')).Subperm
      (s.active ++ (s.spare.toList ++ loose))) : s'.Housed loose' := by
  have hsame : ∀ k, s'.segment k = s.segment k := by
    intro k
    rw [segment, segment, htable]
  exact {
    toFiled := hs.toFiled.of_same hsettings (by rw [htable])
      (fun k _ => by rw [hsame]; exact .refl _) (by rw [hdisk]; exact hs.disk)
      (Nat.le_of_eq (by rw [hdisk]))
    distinct := by
      obtain ⟨l, hl, hsub⟩ := hplaces
      exact hl.nodup_iff.mp (hs.distinct.sublist hsub)
    known := fun h hh => by
      rw [htable]
      exact hs.known h (hplaces.subset hh)
    found := fun h hh => by
      rw [Found, hsame, hdisk]
      exact hs.found h (hplaces.subset hh)
    readable := hs.readable.of_same (by rw [htable]) (fun k _ => by rw [hsame]; exact .refl _)
      fun f => by rw [hdisk] }

/-- Segments that leave their places leave the rest housed. -/
theorem Housed.withdraw (hs : s.Housed loose) {active loose' : List Handle} {spare : Option Handle}
    (hactive : active.Sublist s.active) (hspare : spare.toList.Sublist s.spare.toList)
    (hloose : loose'.Sublist loose) : Housed { s with active, spare } loose' :=
  hs.arrange rfl rfl rfl (hactive.append (hspare.append hloose)).subperm

theorem Housed.perm {loose' : List Handle} (hs : s.Housed loose) (hp : loose.Perm loose') :
    s.Housed loose' :=
  hs.arrange rfl rfl rfl ((hp.symm.append_left _).append_left _).subperm

/-- A loose segment that leaves the others gets its file removed. -/
theorem Housed.deleteFile {k : Handle} (hs : s.Housed (k :: loose)) :
    (s.deleteFile k).2.Housed loose := by
  cases hd : s.deleteFile k with
  | mk r s' =>
    obtain ⟨d, rfl, hr⟩ := deleteFile_cases hd
    have hk : k ∈ s.active ++ (s.spare.toList ++ k :: loose) := by simp
    have hperm := perm_loose s.active s.spare.toList loose k
    have hmem : ∀ h ∈ s.active ++ (s.spare.toList ++ loose),
        h ∈ s.active ++ (s.spare.toList ++ k :: loose) :=
      fun h hh => hperm.symm.subset (List.mem_cons_of_mem _ hh)
    obtain ⟨hout, hrest⟩ := List.nodup_cons.mp (hperm.nodup_iff.mp hs.distinct)
    exact {
      toFiled := (evolves_remove hr).filed hs.toFiled
      distinct := hrest
      known := fun h hh => hs.known h (hmem h hh)
      found := fun h hh => (hs.found k hk).remove_apart (hs.found h (hmem h hh))
        (hs.toFiled.file_ne (hs.known k hk) (hs.known h (hmem h hh)) fun he => hout (he ▸ hh)) hr
      readable := hs.readable.of_same rfl (fun _ _ => .refl _)
        (Disk.fault?_of_files (Disk.files_remove hr)) }

/-! ## New segments -/

/-- A segment that was made is loose and housed. -/
theorem Housed.newSegment (hs : s.Housed loose) {r : Except DiskError Handle}
    (h : s.newSegment = (r, s')) :
    s'.active = s.active ∧ s'.spare = s.spare ∧
      ((∃ e, r = .error e ∧ s'.Housed loose) ∨
        r = .ok s.table.size ∧ s'.Housed (s.table.size :: loose)) := by
  obtain ⟨d, -, ⟨e, rfl, rfl, htree, hfiles⟩ | ⟨g, q, n, rfl, rfl, hg, hq, hn, hattached⟩⟩ :=
    newSegment_cases h
  · exact ⟨rfl, rfl, .inl ⟨e, rfl, hs.of_same rfl rfl (fun _ _ => .refl _) rfl rfl htree
      (by rw [hfiles])⟩⟩
  refine ⟨rfl, rfl, .inr ⟨rfl, ?_⟩⟩
  have hpush := @segment_push s { s with ids := s.ids.take.2, disk := d, table := s.table.push g }
    g rfl
  have hperm := perm_loose s.active s.spare.toList loose s.table.size
  constructor
  case toFiled => exact (evolves_newSegment h).filed hs.toFiled
  case distinct =>
    refine hperm.nodup_iff.mpr (List.nodup_cons.mpr ⟨fun hm => ?_, hs.distinct⟩)
    exact Nat.lt_irrefl _ (hs.known _ hm)
  case known =>
    intro k hk
    show k < (s.table.push g).size
    rw [Array.size_push]
    rcases List.mem_cons.mp (hperm.subset hk) with rfl | hk
    · exact Nat.lt_succ_self _
    · exact Nat.lt_succ_of_lt (hs.known k hk)
  case found =>
    intro k hk
    rw [Found, hpush]
    rcases List.mem_cons.mp (hperm.subset hk) with rfl | hk
    · rw [if_pos rfl, show g.file = s.disk.files.size by rw [hg]]
      exact ⟨q, hattached.find_new hs.disk hq hn⟩
    · obtain ⟨p, hp⟩ := hs.found k hk
      rw [if_neg (Nat.ne_of_lt (hs.known k hk))]
      exact ⟨p, hattached.find_old hp⟩
  case readable => exact hs.readable.push (g := g) rfl (by rw [hg]) hattached.fault?

/-- A new spare is put in its place, or its file is removed. -/
theorem Housed.placeSpare {k : Handle} (hs : s.Housed (k :: loose)) :
    (s.placeSpare k).Housed loose := by
  unfold Store.placeSpare
  split
  · rename_i hplace
    refine hs.arrange rfl rfl rfl (List.Perm.subperm ?_)
    rw [Option.isNone_iff_eq_none.mp hplace.1]
    rfl
  · exact hs.deleteFile

/-! ## The segment of an append -/

/-- The spare is taken out of its place, to be used or to be removed. -/
theorem Housed.withdrawSpare (hs : s.Housed loose) {r : Option Handle}
    (h : s.withdrawSpare = (r, s')) :
    Evolves s s' ∧ s'.active = s.active ∧
      (r = none ∧ s'.Housed loose ∨ ∃ k, r = some k ∧ s'.Housed (k :: loose)) := by
  have hevolves := evolves_withdrawSpare h
  have hloose : ∀ k, s.spare = some k → Housed { s with spare := none } (k :: loose) := by
    intro k hk
    refine hs.arrange rfl rfl rfl (List.Perm.subperm ?_)
    rw [hk]
    rfl
  rcases withdrawSpare_cases h with ⟨-, rfl, rfl⟩ | ⟨k, hk, ⟨rfl, rfl⟩ | ⟨rfl, rfl⟩⟩
  · exact ⟨hevolves, rfl, .inl ⟨rfl, hs⟩⟩
  · exact ⟨hevolves, rfl, .inr ⟨k, rfl, hloose k hk⟩⟩
  · exact ⟨hevolves, active_deleteFile _ k, .inl ⟨rfl, (hloose k hk).deleteFile⟩⟩

/-- A loose segment becomes the last active one. -/
theorem Housed.activate {k : Handle} (hs : s.Housed (k :: loose)) :
    (s.activate k).Housed loose ∧ (s.activate k).active = s.active ++ [k] := by
  obtain ⟨s₁, mail, he, hcase⟩ := activate_eq s k
  have hs₁ : s₁.Housed (k :: loose) ∧ s₁.active = s.active := by
    rcases hcase with ⟨-, rfl⟩ | ⟨t, -, rfl⟩
    · exact ⟨hs, rfl⟩
    · exact ⟨hs.sealOff t, rfl⟩
  rw [he]
  refine ⟨hs₁.1.arrange rfl rfl rfl (List.Perm.subperm ?_), rfl⟩
  show (s.active ++ [k] ++ (s₁.spare.toList ++ loose)).Perm _
  rw [hs₁.2]
  exact perm_activate ..

/-- A new last segment follows those that are active. -/
theorem Housed.rollOver (hs : s.Housed loose) {r : Except LogError Handle}
    (h : s.rollOver = (r, s')) :
    s'.Housed loose ∧ Evolves s s' ∧
      ((∃ e, r = .error e ∧ s'.active = s.active) ∨
        ∃ k, r = .ok k ∧ s'.active = s.active ++ [k]) := by
  have hevolves := evolves_rollOver h
  obtain ⟨spare, s₁, hw, ⟨k, rfl, rfl, rfl⟩ | ⟨rfl, made, s₂, hn, hmade⟩⟩ := rollOver_cases h
  · obtain ⟨-, hactive, ⟨hr, -⟩ | ⟨_, hr, hs₁⟩⟩ := hs.withdrawSpare hw <;> cases hr
    obtain ⟨hs₂, hlast⟩ := hs₁.activate
    exact ⟨hs₂, hevolves, .inr ⟨k, rfl, by rw [hlast, hactive]⟩⟩
  · obtain ⟨-, hactive, ⟨-, hs₁⟩ | ⟨_, hr, -⟩⟩ := hs.withdrawSpare hw
    · obtain ⟨hactive', -, hcreated⟩ := hs₁.newSegment hn
      rcases hmade with ⟨e, rfl, rfl, rfl⟩ | ⟨k, rfl, rfl, rfl⟩
      · obtain ⟨_, -, hs₂⟩ | ⟨hr, -⟩ := hcreated
        · exact ⟨hs₂.of_eq rfl rfl rfl rfl rfl, hevolves, .inl ⟨_, rfl, hactive'.trans hactive⟩⟩
        · cases hr
      · obtain ⟨_, hr, -⟩ | ⟨hr, hs₂⟩ := hcreated <;> cases hr
        obtain ⟨hs₃, hlast⟩ := hs₂.activate
        exact ⟨hs₃, hevolves, .inr ⟨_, rfl, by rw [hlast, hactive', hactive]⟩⟩
    · cases hr

/-- An append goes to the last active segment, or to a new one behind it. -/
theorem Housed.segmentFor (hs : s.Housed loose) {length : Nat} {r : Except LogError Handle}
    (h : s.segmentFor length = (r, s')) :
    s'.Housed loose ∧ Evolves s s' ∧ s.active <+: s'.active ∧
      ∀ k, r = .ok k → s'.tail? = some k := by
  rcases segmentFor_cases h with ⟨k, ht, -, rfl, rfl⟩ | hr
  · refine ⟨hs, .refl s', List.prefix_refl _, fun _ hk => ?_⟩
    cases hk
    exact ht
  · obtain ⟨hs', hevolves, ⟨e, rfl, hactive⟩ | ⟨k, rfl, hactive⟩⟩ := hs.rollOver hr
    · exact ⟨hs', hevolves, ⟨[], by rw [hactive, List.append_nil]⟩, fun _ hk => (nomatch hk)⟩
    · refine ⟨hs', hevolves, ⟨[k], hactive.symm⟩, fun _ hk => ?_⟩
      cases hk
      rw [tail?, hactive, List.getLast?_concat]

end SegmentLog.Store
