import SegmentLog.Proofs.Segment.Listing

/-!
# Making directories

A directory that is there already is made by doing nothing, however its path is spelled; and to
make one that is missing keeps a disk well-formed.

* `makeDirectories_of_isDirectory` — a directory that is there;
* `furnishes_makeDirectories` — what is kept of a disk when directories are made.
-/

namespace SegmentLog.Disk

variable {d d' : Disk}

/-! ## Directories that are there -/

/-- A directory lies where it would have to be made. -/
theorem node?_locateNew {p : Path} (h : d.isDirectory p = true) {q : Place}
    (hq : d.locateNew p = .ok q) : d.node? q ≠ none := by
  obtain ⟨r, D, hr⟩ := isDirectory_iff.mp h
  obtain ⟨hlocate, hnode⟩ := find_eq_ok_iff.mp hr
  have hsplit : p.stretches = (p.stretches.reverse.dropWhile (·.isEmpty)).reverse ++
      (p.stretches.reverse.takeWhile (·.isEmpty)).reverse := by
    rw [← List.reverse_append, List.takeWhile_append_dropWhile, List.reverse_reverse]
  unfold locate at hlocate
  unfold locateNew at hq
  split at hq
  · cases hq
  · rename_i hrefusal
    rw [hrefusal] at hlocate
    dsimp only at hlocate
    rw [hsplit, follow_append, hq] at hlocate
    dsimp only at hlocate
    intro hnone
    -- the separators behind the path lead on from where it would have to be made
    cases hblank : (p.stretches.reverse.takeWhile (·.isEmpty)).reverse with
    | nil =>
      rw [hblank] at hlocate
      cases hlocate
      rw [hnone] at hnode
      cases hnode
    | cons s rest =>
      rw [hblank] at hlocate
      unfold follow at hlocate
      split at hlocate
      · cases hlocate
      · rename_i way henter
        rw [node?_of_enter henter] at hnone
        cases hnone

theorem makeDirectory_of_isDirectory {p : Path} (h : d.isDirectory p = true) :
    d.makeDirectory p = (.ok (), d) := by
  obtain ⟨e, he⟩ : ∃ e, d.makeNew p = (.error e, d) := by
    unfold makeNew
    split
    · exact ⟨_, rfl⟩
    · rename_i q hq
      split
      · exact ⟨_, rfl⟩
      · rename_i hnone
        exact absurd hnone (node?_locateNew h hq)
  unfold makeDirectory
  rw [he]
  exact if_pos h

/-- A directory that is there already is made by doing nothing. -/
theorem makeDirectories_of_isDirectory {p : Path} (h : d.isDirectory p = true) :
    d.makeDirectories p = (.ok (), d) := by
  obtain ⟨q, D, hq⟩ := isDirectory_iff.mp h
  have hp := bytes_ne_nil_of_locate (find_eq_ok_iff.mp hq).1
  unfold makeDirectories Path.ancestors
  rw [if_neg (by rwa [List.isEmpty_iff])]
  unfold makeInside
  rw [makeDirectory_of_isDirectory h]

/-! ## Directories that are missing -/

theorem entriesOf_attachDirectory {q : Place} {n : FileName} (hn : q.name = some n)
    (E : DirectoryId) :
    (d.attachDirectory q).entriesOf E =
      if q.way.here = E ∧ E < d.directories.size then
        (n, .directory d.directories.size) :: d.entriesOf E
      else d.entriesOf E := by
  have hpush : (d.attachDirectory q).entriesOf E =
      (d.attach q (.directory d.directories.size)).entriesOf E := by
    simp only [attachDirectory, entriesOf, Array.getD_eq_getD_getElem?, Array.getElem?_push]
    split
    · rename_i hE
      rw [Array.getElem?_eq_none (Nat.le_of_eq hE.symm)]
      rfl
    · rfl
  rw [hpush, entriesOf_modify (D := q.way.here) (f := ((n, .directory d.directories.size) :: ·))]
  simp only [attach, hn, modifyEntries]

/-- A new directory keeps a disk well-formed. -/
theorem wellFormed_attachDirectory (hd : d.WellFormed) {q : Place} {n : FileName}
    (hn : q.name = some n) (hname : IsName n) (hfree : d.node? q = none) :
    (d.attachDirectory q).WellFormed := by
  have hentries := @entriesOf_attachDirectory d q n hn
  have hsize : (d.attachDirectory q).directories.size = d.directories.size + 1 := by
    simp only [attachDirectory, attach, hn, modifyEntries, Array.size_push, Array.size_modify]
  have hmem : ∀ {E e}, e ∈ (d.attachDirectory q).entriesOf E →
      e = (n, .directory d.directories.size) ∨ e ∈ d.entriesOf E := by
    intro E e he
    rw [hentries] at he
    split at he
    · exact List.mem_cons.mp he
    · exact .inr he
  have hworking : (d.attachDirectory q).workingDirectory = d.workingDirectory := by
    simp only [attachDirectory, attach, hn, modifyEntries]
  constructor
  · rw [hsize]
    exact Nat.succ_pos _
  · intro id hid
    rw [hworking] at hid
    rw [hsize]
    exact Nat.lt_succ_of_lt (hd.working id hid)
  · intro E m id he
    rw [hsize]
    rcases hmem he with he | he
    · cases he
      exact Nat.lt_succ_self _
    · exact Nat.lt_succ_of_lt (hd.below he)
  · intro E e he
    rcases hmem he with rfl | he
    · exact hname
    · exact hd.names he
  · intro E
    rw [hentries]
    split
    · rename_i hE
      rw [node?_of_name hn, hE.1] at hfree
      refine List.nodup_cons.mpr ⟨fun hm => ?_, hd.distinct E⟩
      obtain ⟨e, he, hen⟩ := List.mem_map.mp hm
      have hne := List.lookup_eq_none_iff.mp hfree e he
      simp [hen] at hne
    · exact hd.distinct E

/-- What is kept of a disk when directories are made. -/
structure Furnishes (d d' : Disk) : Prop where
  wellFormed : d.WellFormed → d'.WellFormed
  faults : d'.faults = d.faults

theorem Furnishes.refl (d : Disk) : Furnishes d d := ⟨fun h => h, rfl⟩

theorem Furnishes.trans {d'' : Disk} (h : Furnishes d d') (h' : Furnishes d' d'') :
    Furnishes d d'' :=
  ⟨fun hd => h'.wellFormed (h.wellFormed hd), h'.faults.trans h.faults⟩

theorem furnishes_makeNew (d : Disk) (p : Path) : Furnishes d (d.makeNew p).2 := by
  unfold makeNew
  split
  · exact .refl d
  · rename_i q hq
    split
    · exact .refl d
    · rename_i hfree
      cases hn : q.name with
      | none =>
        unfold node? at hfree
        rw [hn] at hfree
        cases hfree
      | some n =>
        have hname : IsName n := by
          unfold locateNew at hq
          split at hq
          · cases hq
          · refine isName_follow rfl (fun s hs => ?_) hq hn
            rw [List.mem_reverse] at hs
            have hs' := (List.dropWhile_suffix _).subset hs
            exact Path.separator_not_mem_stretches (List.mem_reverse.mp hs')
        refine ⟨fun hd => wellFormed_attachDirectory hd hn hname hfree, ?_⟩
        simp only [attachDirectory, attach, hn, modifyEntries]

theorem furnishes_makeDirectory (d : Disk) (p : Path) : Furnishes d (d.makeDirectory p).2 := by
  have hnew := furnishes_makeNew d p
  unfold makeDirectory
  split
  · rename_i d' hr
    rwa [hr] at hnew
  · rename_i e d' hr
    rw [hr] at hnew
    split <;> exact hnew

theorem furnishes_makeInside (d : Disk) (above : List Path) :
    Furnishes d (d.makeInside above).2 := by
  induction above generalizing d with
  | nil => exact .refl d
  | cons p above ih =>
    have hfirst := furnishes_makeDirectory d p
    unfold makeInside
    split
    · rename_i d₁ hr
      rw [hr] at hfirst
      have habove := ih d₁
      split
      · rename_i d₂ hr'
        rw [hr'] at habove
        exact (hfirst.trans habove).trans (furnishes_makeDirectory d₂ p)
      · rename_i e d₂ hr'
        rw [hr'] at habove
        exact hfirst.trans habove
    · rename_i r d₁ _ hr
      rwa [hr] at hfirst

/-- To make directories keeps a disk well-formed, and uses up no faults. -/
theorem furnishes_makeDirectories (d : Disk) (p : Path) : Furnishes d (d.makeDirectories p).2 :=
  furnishes_makeInside d p.ancestors

end SegmentLog.Disk
