import SegmentLog.Disk.Basic

/-!
# The tree of a disk while files come and go

The log only ever adds files to directories and takes files out of them. Such a change leaves
every directory where it was, so a path that was once followed is followed to the same place
ever after; and it leaves every other file where it was.

* `Keeps.locate` — directories that stay keep every path where it leads;
* `wayExists_locate` — a path leads only to directories that exist;
* `fault_getD_modify`, `Attached.fault?` — which files can be read;
* `Attached.lookup`, `Cleared.lookup` — the files that stay where they were;
* `Attached.wellFormed`, `Cleared.wellFormed` — a file more, or some less, in a well-formed disk.
-/

namespace SegmentLog.Disk

theorem lookup_filter (kept : FileName → Bool) (entries : List (FileName × Node)) (n : FileName) :
    (entries.filter fun e => kept e.1).lookup n =
      if kept n = true then entries.lookup n else none := by
  induction entries with
  | nil => simp
  | cons e entries ih =>
    obtain ⟨k, v⟩ := e
    rw [List.filter_cons]
    by_cases hn : n = k
    · subst hn
      cases hk : kept n with
      | false => simpa [hk] using ih
      | true => simp
    · have hskip : ∀ rest, ((k, v) :: rest).lookup n = rest.lookup n := by
        intro rest
        rw [List.lookup_cons, beq_eq_false_iff_ne.mpr hn]
      rw [hskip]
      split
      · rw [hskip, ih]
      · exact ih

/-! ## Trees that agree -/

/-- Whether two disks have the same tree, and the same files can be read. -/
structure SameTree (d d' : Disk) : Prop where
  working : d'.workingDirectory = d.workingDirectory
  directories : d'.directories = d.directories
  fault : ∀ f, d'.fault? f = d.fault? f

/-- Whether every directory of one disk is where it was on another disk as well. -/
structure Keeps (d d' : Disk) : Prop where
  working : d'.workingDirectory = d.workingDirectory
  lookup : ∀ {D n id}, (d.entriesOf D).lookup n = some (.directory id) →
    (d'.entriesOf D).lookup n = some (.directory id)

theorem SameTree.refl (d : Disk) : SameTree d d := ⟨rfl, rfl, fun _ => rfl⟩

theorem SameTree.entriesOf {d d' : Disk} (h : SameTree d d') (D : DirectoryId) :
    d'.entriesOf D = d.entriesOf D := by
  simp only [Disk.entriesOf, h.directories]

theorem Keeps.enter {d d' : Disk} (h : Keeps d d') {p : Place} {way : Way}
    (he : d.enter p = .ok way) : d'.enter p = .ok way := by
  simp only [Disk.enter] at he ⊢
  cases hn : p.name with
  | none => rw [hn] at he; exact he
  | some n =>
    simp only [hn] at he ⊢
    split at he
    · cases he
    · cases he
    · rename_i id hl
      rw [h.lookup hl]
      exact he

theorem Keeps.follow {d d' : Disk} (h : Keeps d d') {p q : Place} {stretches : List FileName}
    (hf : d.follow p stretches = .ok q) : d'.follow p stretches = .ok q := by
  induction stretches generalizing p with
  | nil => exact hf
  | cons s rest ih =>
    simp only [Disk.follow] at hf ⊢
    split at hf
    · cases hf
    · rename_i way he
      rw [h.enter he]
      dsimp only
      split at hf
      · cases hf
      · exact ih hf

/-- Directories that stay keep every path where it leads. -/
theorem Keeps.locate {d d' : Disk} (h : Keeps d d') {p : Path} {q : Place}
    (hl : d.locate p = .ok q) : d'.locate p = .ok q := by
  simp only [Disk.locate] at hl ⊢
  split at hl
  · cases hl
  · exact h.follow (by rw [← hl, start, start, h.working])

theorem SameTree.node? {d d' : Disk} (h : SameTree d d') (p : Place) : d'.node? p = d.node? p := by
  simp only [Disk.node?, h.entriesOf]

theorem SameTree.follow {d d' : Disk} (h : SameTree d d') (p : Place)
    (stretches : List FileName) : d'.follow p stretches = d.follow p stretches := by
  induction stretches generalizing p with
  | nil => rfl
  | cons s rest ih => simp only [Disk.follow, Disk.enter, h.entriesOf, ih]

theorem SameTree.locate {d d' : Disk} (h : SameTree d d') (p : Path) :
    d'.locate p = d.locate p := by
  simp only [Disk.locate, start, h.working, h.follow]

theorem SameTree.find {d d' : Disk} (h : SameTree d d') (p : Path) : d'.find p = d.find p := by
  simp only [Disk.find, h.locate, h.node?]

theorem SameTree.isFile {d d' : Disk} (h : SameTree d d') (p : Path) :
    d'.isFile p = d.isFile p := by
  simp only [Disk.isFile, h.find]

theorem SameTree.entries {d d' : Disk} (h : SameTree d d') (p : Path) :
    d'.entries p = d.entries p := by
  simp only [Disk.entries, h.find, h.entriesOf]

/-! ## Well-formed disks -/

/-- Whether a byte string can be the name of an entry in a directory. -/
structure IsName (n : FileName) : Prop where
  notBlank : Path.isBlank n = false
  notUp : n ≠ [Path.dot, Path.dot]
  noSeparator : Path.separator ∉ n
  short : n.length ≤ maxName

/-- Whether the directories of a disk all exist, and hold every name at most once. -/
structure WellFormed (d : Disk) : Prop where
  root : 0 < d.directories.size
  working : ∀ id ∈ d.workingDirectory, id < d.directories.size
  below : ∀ {D n id}, (n, Node.directory id) ∈ d.entriesOf D → id < d.directories.size
  names : ∀ {D e}, e ∈ d.entriesOf D → IsName e.1
  distinct : ∀ D, ((d.entriesOf D).map (·.1)).Nodup

/-- The disk with nothing on it is well-formed. -/
theorem wellFormed_empty (faults : Faults) : WellFormed { faults } := by
  have hnone : ∀ D, entriesOf { faults } D = [] := by
    intro D
    cases D <;> rfl
  constructor
  case root => exact Nat.zero_lt_one
  case working =>
    intro id h
    cases h
  case below =>
    intro D n id h
    rw [hnone] at h
    cases h
  case names =>
    intro D e h
    rw [hnone] at h
    cases h
  case distinct =>
    intro D
    rw [hnone]
    exact List.nodup_nil

theorem mem_of_lookup_eq_some {entries : List (FileName × Node)} {n : FileName} {v : Node}
    (h : entries.lookup n = some v) : (n, v) ∈ entries := by
  induction entries with
  | nil => cases h
  | cons e entries ih =>
    obtain ⟨k, w⟩ := e
    rw [List.lookup_cons] at h
    split at h
    · rename_i hk
      cases h
      rw [beq_iff_eq.mp hk]
      exact List.mem_cons_self
    · exact List.mem_cons_of_mem _ (ih h)

/-- A name that occurs once is looked up where it stands. -/
theorem lookup_eq_some_iff {entries : List (FileName × Node)}
    (hd : (entries.map (·.1)).Nodup) {n : FileName} {v : Node} :
    entries.lookup n = some v ↔ (n, v) ∈ entries := by
  constructor
  · exact mem_of_lookup_eq_some
  · intro h
    induction entries with
    | nil => cases h
    | cons e entries ih =>
      obtain ⟨k, w⟩ := e
      rw [List.map_cons, List.nodup_cons] at hd
      rw [List.lookup_cons]
      rcases List.mem_cons.mp h with he | hm
      · cases he
        simp
      · have hne : n ≠ k := by
          rintro rfl
          exact hd.1 (List.mem_map.mpr ⟨_, hm, rfl⟩)
        rw [beq_eq_false_iff_ne.mpr hne]
        exact ih hd.2 hm

/-- What makes a disk well-formed is a matter of its directories alone. -/
theorem WellFormed.of_directories {d d' : Disk} (hd : WellFormed d)
    (hworking : d'.workingDirectory = d.workingDirectory)
    (hdirectories : d'.directories = d.directories) : WellFormed d' := by
  have hentries : ∀ D, d'.entriesOf D = d.entriesOf D := fun D => by
    rw [entriesOf, entriesOf, hdirectories]
  constructor
  case root => rw [hdirectories]; exact hd.root
  case working => rw [hworking, hdirectories]; exact hd.working
  case below =>
    intro D n id hm
    rw [hdirectories]
    rw [hentries] at hm
    exact hd.below hm
  case names =>
    intro D e hm
    rw [hentries] at hm
    exact hd.names hm
  case distinct =>
    intro D
    rw [hentries]
    exact hd.distinct D

theorem SameTree.wellFormed {d d' : Disk} (h : SameTree d d') (hd : WellFormed d) :
    WellFormed d' := hd.of_directories h.working h.directories

/-- Every directory on the way to a place exists. -/
def WayExists (d : Disk) (way : Way) : Prop := ∀ id ∈ way, id < d.directories.size

theorem WayExists.here {d : Disk} (hd : WellFormed d) {way : Way} (h : d.WayExists way) :
    way.here < d.directories.size := by
  cases way with
  | nil => exact hd.root
  | cons id way => exact h id List.mem_cons_self

theorem wayExists_enter {d : Disk} (hd : WellFormed d) {p : Place} {way : Way}
    (hp : d.WayExists p.way) (he : d.enter p = .ok way) : d.WayExists way := by
  simp only [Disk.enter] at he
  split at he
  · cases he
    exact hp
  · split at he
    · cases he
    · cases he
    · rename_i id hl
      cases he
      intro k hk
      rcases List.mem_cons.mp hk with rfl | hk
      · exact hd.below (mem_of_lookup_eq_some hl)
      · exact hp k hk

theorem wayExists_step {d : Disk} {way : Way} {s : FileName} {q : Place}
    (hw : d.WayExists way) (hs : step way s = .ok q) : d.WayExists q.way := by
  simp only [step] at hs
  split at hs
  · cases hs; exact hw
  · split at hs
    · cases hs
      exact fun id hid => hw id (List.mem_of_mem_tail hid)
    · split at hs
      · cases hs
      · cases hs; exact hw

theorem wayExists_follow {d : Disk} (hd : WellFormed d) {p q : Place} {stretches : List FileName}
    (hp : d.WayExists p.way) (hf : d.follow p stretches = .ok q) : d.WayExists q.way := by
  induction stretches generalizing p with
  | nil => cases hf; exact hp
  | cons s rest ih =>
    simp only [Disk.follow] at hf
    split at hf
    · cases hf
    · rename_i way he
      split at hf
      · cases hf
      · rename_i r hs
        exact ih (wayExists_step (wayExists_enter hd hp he) hs) hf

theorem wayExists_locate {d : Disk} (hd : WellFormed d) {p : Path} {q : Place}
    (hl : d.locate p = .ok q) : d.WayExists q.way := by
  simp only [Disk.locate] at hl
  split at hl
  · cases hl
  · refine wayExists_follow hd ?_ hl
    simp only [start]
    split
    · intro id h
      cases h
    · exact hd.working

/-! ## Adding and taking out one file -/

/-- Whether a disk is another one with a new, empty file in a directory. -/
structure Attached (d d' : Disk) (D : DirectoryId) (n : FileName) : Prop where
  working : d'.workingDirectory = d.workingDirectory
  directories : d'.directories = d.directories.modify D ((n, .file d.files.size) :: ·)
  files : d'.files = d.files.push {}
  free : (d.entriesOf D).lookup n = none
  isName : IsName n

/-- Whether a disk is another one without some file in a directory. -/
structure Detached (d d' : Disk) (D : DirectoryId) (n : FileName) : Prop where
  working : d'.workingDirectory = d.workingDirectory
  directories : d'.directories = d.directories.modify D (·.filter fun e => e.1 != n)
  files : d'.files = d.files
  held : ∃ id, (d.entriesOf D).lookup n = some (.file id)

/-- Whether a disk is another one without some files in a directory. -/
structure Cleared (d d' : Disk) (D : DirectoryId) (names : List FileName) : Prop where
  working : d'.workingDirectory = d.workingDirectory
  size : d'.directories.size = d.directories.size
  entries : d'.entriesOf D = (d.entriesOf D).filter fun e => e.1 ∉ names
  elsewhere : ∀ E, E ≠ D → d'.entriesOf E = d.entriesOf E
  files : d'.files = d.files
  held : ∀ n ∈ names, ∃ id, (d.entriesOf D).lookup n = some (.file id)

theorem entriesOf_modify {d d' : Disk} {D : DirectoryId}
    {f : List (FileName × Node) → List (FileName × Node)}
    (h : d'.directories = d.directories.modify D f) (E : DirectoryId) :
    d'.entriesOf E =
      if D = E ∧ E < d.directories.size then f (d.entriesOf E) else d.entriesOf E := by
  simp only [Disk.entriesOf, h, Array.getD_eq_getD_getElem?, Array.getElem?_modify]
  by_cases hDE : D = E
  · subst hDE
    by_cases hlt : D < d.directories.size
    · rw [if_pos rfl, if_pos ⟨rfl, hlt⟩, Array.getElem?_eq_getElem hlt]
      rfl
    · rw [if_pos rfl, if_neg (fun h => hlt h.2), Array.getElem?_eq_none (Nat.le_of_not_lt hlt)]
      rfl
  · rw [if_neg hDE, if_neg (fun h => hDE h.1)]

theorem directories_size_modify {d d' : Disk} {D : DirectoryId}
    {f : List (FileName × Node) → List (FileName × Node)}
    (h : d'.directories = d.directories.modify D f) :
    d'.directories.size = d.directories.size := by
  rw [h, Array.size_modify]

/-- A change of one file that leaves its fault alone leaves those of all files. -/
theorem fault_getD_modify (change : FileData → FileData)
    (h : ∀ file, (change file).fault = file.fault) (files : Array FileData) (id f : FileId) :
    ((files.modify id change).getD f {}).fault = (files.getD f {}).fault := by
  simp only [Array.getD_eq_getD_getElem?, Array.getElem?_modify]
  split
  · cases files[f]? with
    | none => rfl
    | some file => exact h file
  · rfl

/-- A file that there is not yet has no fault. -/
theorem fault?_size (d : Disk) : d.fault? d.files.size = none := by
  rw [fault?, Array.getD_eq_getD_getElem?, Array.getElem?_eq_none (Nat.le_refl _)]
  rfl

/-- A new file has the fault that it comes with, and the others keep theirs. -/
theorem fault?_push {d d' : Disk} {file : FileData} (h : d'.files = d.files.push file)
    (f : FileId) : d'.fault? f = if f = d.files.size then file.fault else d.fault? f := by
  simp only [fault?, h, Array.getD_eq_getD_getElem?, Array.getElem?_push]
  by_cases hf : f = d.files.size
  · rw [if_pos hf, if_pos hf]
    rfl
  · rw [if_neg hf, if_neg hf]

theorem Attached.fault? {d d' : Disk} {D : DirectoryId} {n : FileName} (h : Attached d d' D n)
    (f : FileId) : d'.fault? f = d.fault? f := by
  rw [fault?_push h.files]
  split
  · rename_i hf
    rw [hf, fault?_size]
  · rfl

theorem fault?_of_files {d d' : Disk} (h : d'.files = d.files) (f : FileId) :
    d'.fault? f = d.fault? f := by
  rw [fault?, fault?, h]

theorem Attached.lookup {d d' : Disk} {D : DirectoryId} {n : FileName} (h : Attached d d' D n)
    (E : DirectoryId) (m : FileName) :
    (d'.entriesOf E).lookup m =
      if D = E ∧ E < d.directories.size ∧ m = n then some (.file d.files.size)
      else (d.entriesOf E).lookup m := by
  rw [entriesOf_modify h.directories]
  by_cases hE : D = E ∧ E < d.directories.size
  · rw [if_pos hE, List.lookup_cons]
    by_cases hm : m = n
    · rw [if_pos ⟨hE.1, hE.2, hm⟩, beq_iff_eq.mpr hm]
    · rw [if_neg (fun h => hm h.2.2), beq_eq_false_iff_ne.mpr hm]
  · rw [if_neg hE, if_neg (fun h => hE ⟨h.1, h.2.1⟩)]

theorem Cleared.lookup {d d' : Disk} {D : DirectoryId} {names : List FileName}
    (h : Cleared d d' D names) (E : DirectoryId) (n : FileName) :
    (d'.entriesOf E).lookup n =
      if D = E ∧ n ∈ names then none else (d.entriesOf E).lookup n := by
  by_cases hE : D = E
  · subst hE
    rw [h.entries, lookup_filter fun n => decide (n ∉ names)]
    by_cases hn : n ∈ names
    · simp [hn]
    · simp [hn]
  · rw [h.elsewhere E (Ne.symm hE), if_neg fun h => hE h.1]

/-- A file that is taken out is one of one. -/
theorem Detached.cleared {d d' : Disk} {D : DirectoryId} {n : FileName} (h : Detached d d' D n) :
    Cleared d d' D [n] where
  working := h.working
  size := directories_size_modify h.directories
  entries := by
    obtain ⟨id, hid⟩ := h.held
    -- a directory that does not exist has no entries
    have hD : D < d.directories.size := by
      refine Nat.lt_of_not_le fun hD => ?_
      rw [entriesOf, Array.getD_eq_getD_getElem?, Array.getElem?_eq_none hD] at hid
      cases hid
    rw [entriesOf_modify h.directories, if_pos ⟨rfl, hD⟩]
    refine List.filter_congr fun e _ => ?_
    rw [Bool.eq_iff_iff]
    simp
  elsewhere E hE := by
    rw [entriesOf_modify h.directories, if_neg fun h => hE h.1.symm]
  files := h.files
  held m hm := by
    rw [List.mem_singleton.mp hm]
    exact h.held

theorem Detached.lookup {d d' : Disk} {D : DirectoryId} {n : FileName} (h : Detached d d' D n)
    (E : DirectoryId) (m : FileName) :
    (d'.entriesOf E).lookup m =
      if D = E ∧ m = n then none else (d.entriesOf E).lookup m := by
  rw [h.cleared.lookup]
  simp only [List.mem_singleton]

theorem Attached.keeps {d d' : Disk} {D : DirectoryId} {n : FileName} (h : Attached d d' D n) :
    Keeps d d' := by
  refine ⟨h.working, fun {E m id} hl => ?_⟩
  rw [h.lookup, if_neg, hl]
  rintro ⟨rfl, -, rfl⟩
  rw [h.free] at hl
  cases hl

theorem Cleared.keeps {d d' : Disk} {D : DirectoryId} {names : List FileName}
    (h : Cleared d d' D names) : Keeps d d' := by
  refine ⟨h.working, fun {E m id} hl => ?_⟩
  rw [h.lookup, if_neg, hl]
  rintro ⟨rfl, hm⟩
  obtain ⟨k, hk⟩ := h.held m hm
  rw [hk] at hl
  cases hl

theorem Detached.keeps {d d' : Disk} {D : DirectoryId} {n : FileName} (h : Detached d d' D n) :
    Keeps d d' := h.cleared.keeps

theorem Attached.wellFormed {d d' : Disk} {D : DirectoryId} {n : FileName}
    (h : Attached d d' D n) (hd : WellFormed d) : WellFormed d' := by
  have hsize := directories_size_modify h.directories
  have hmem : ∀ {E e}, e ∈ d'.entriesOf E →
      e = (n, Node.file d.files.size) ∨ e ∈ d.entriesOf E := by
    intro E e he
    rw [entriesOf_modify h.directories] at he
    split at he
    · exact List.mem_cons.mp he
    · exact .inr he
  constructor
  case root => rw [hsize]; exact hd.root
  case working => rw [h.working, hsize]; exact hd.working
  case below =>
    intro E m id hm
    rw [hsize]
    rcases hmem hm with he | hm
    · cases he
    · exact hd.below hm
  case names =>
    intro E e he
    rcases hmem he with rfl | hm
    · exact h.isName
    · exact hd.names hm
  case distinct =>
    intro E
    rw [entriesOf_modify h.directories]
    split
    · rename_i hE
      rw [List.map_cons, List.nodup_cons]
      refine ⟨?_, hd.distinct E⟩
      intro hm
      obtain ⟨⟨k, v⟩, hk, rfl⟩ := List.mem_map.mp hm
      have hfree := h.free
      rw [hE.1, (lookup_eq_some_iff (hd.distinct E)).mpr hk] at hfree
      cases hfree
    · exact hd.distinct E

theorem Cleared.wellFormed {d d' : Disk} {D : DirectoryId} {names : List FileName}
    (h : Cleared d d' D names) (hd : WellFormed d) : WellFormed d' := by
  have hsublist : ∀ E, (d'.entriesOf E).Sublist (d.entriesOf E) := by
    intro E
    by_cases hE : E = D
    · rw [hE, h.entries]
      exact List.filter_sublist
    · simp only [h.elsewhere E hE, List.Sublist.refl]
  constructor
  case root => rw [h.size]; exact hd.root
  case working => rw [h.working, h.size]; exact hd.working
  case below =>
    intro E m id hm
    rw [h.size]
    exact hd.below ((hsublist E).subset hm)
  case names =>
    intro E e he
    exact hd.names ((hsublist E).subset he)
  case distinct => exact fun E => (hd.distinct E).sublist ((hsublist E).map _)

theorem Detached.wellFormed {d d' : Disk} {D : DirectoryId} {n : FileName}
    (h : Detached d d' D n) (hd : WellFormed d) : WellFormed d' := h.cleared.wellFormed hd

end SegmentLog.Disk
