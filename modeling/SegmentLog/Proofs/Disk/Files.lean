import SegmentLog.Proofs.Disk.Reading
import SegmentLog.Proofs.Disk.Tree

/-!
# What the calls of a disk do to its files

Each call either leaves the tree alone or adds or takes out one file, and each changes the content
of one file at most. The lemmas here say so once for every call, with the faults that it uses up.

* `createNew_cases`, `remove_cases` — a file more, a file less, or nothing;
* `writeAt_cases`, `sync_cases` — the tree stays, and so does every other file;
* `writeAt_end_cases` — what a write leaves at the end of a file;
* `Attached.find_new`, `Attached.find_old`, `Cleared.find` — where the files are after that;
* `contents_of_find`, `find_of_contents` — a file that can be read is read as it stands;
* `wellFormed_put`, `wellFormed_spoil` — changes from outside.
-/

namespace SegmentLog

/-! ## Plans of faults -/

theorem Faults.mem_of_next? {α : Type} {plan : List (Option α)} {x : α}
    (h : next? plan = some x) : some x ∈ plan := by
  cases plan with
  | nil => cases h
  | cons f rest =>
    have hf : f = some x := h
    rw [hf]
    exact List.mem_cons_self

theorem Faults.next?_eq_none {α : Type} {plan : List (Option α)} (h : ∀ f ∈ plan, f = none) :
    next? plan = none := by
  cases hn : next? plan with
  | none => rfl
  | some x => cases h _ (mem_of_next? hn)

/-! ## Names of places -/

theorem Path.separator_not_mem_stretches {p : Path} {s : FileName} (h : s ∈ p.stretches) :
    separator ∉ s := by
  obtain ⟨bytes⟩ := p
  simp only [stretches] at h
  induction bytes generalizing s with
  | nil =>
    rw [List.splitOn_nil, List.mem_singleton] at h
    subst h
    exact List.not_mem_nil
  | cons b bytes ih =>
    rw [List.splitOn_cons_eq_if_modifyHead] at h
    split at h
    · rcases List.mem_cons.mp h with rfl | h
      · exact List.not_mem_nil
      · exact ih h
    · rename_i hb
      cases hs : bytes.splitOn separator with
      | nil => rw [hs] at h; cases h
      | cons t ts =>
        rw [hs, List.modifyHead_cons] at h
        rw [hs] at ih
        rcases List.mem_cons.mp h with rfl | h
        · intro hm
          rcases List.mem_cons.mp hm with he | hm
          · exact hb (by rw [he]; exact beq_self_eq_true _)
          · exact ih List.mem_cons_self hm
        · exact ih (List.mem_cons_of_mem _ h)

namespace Disk

theorem isName_step {way : Way} {s n : FileName} {q : Place} (hs : step way s = .ok q)
    (hsep : Path.separator ∉ s) (hn : q.name = some n) : IsName n := by
  simp only [step] at hs
  split at hs
  · cases hs; cases hn
  · rename_i hblank
    split at hs
    · cases hs; cases hn
    · rename_i hup
      split at hs
      · cases hs
      · rename_i hlong
        cases hs
        cases hn
        exact ⟨Bool.eq_false_iff.mpr hblank, hup, hsep, Nat.le_of_not_lt hlong⟩

theorem isName_follow {d : Disk} {p q : Place} {n : FileName} {stretches : List FileName}
    (hp : p.name = none) (hsep : ∀ s ∈ stretches, Path.separator ∉ s)
    (hf : d.follow p stretches = .ok q) (hn : q.name = some n) : IsName n := by
  suffices h : (∀ m, p.name = some m → IsName m) → IsName n by
    apply h
    intro m hm
    rw [hp] at hm
    cases hm
  clear hp
  induction stretches generalizing p with
  | nil =>
    cases hf
    exact fun h => h n hn
  | cons s rest ih =>
    intro _
    simp only [Disk.follow] at hf
    split at hf
    · cases hf
    · split at hf
      · cases hf
      · rename_i r hs
        exact ih (fun t ht => hsep t (List.mem_cons_of_mem _ ht)) hf
          (fun m hm => isName_step hs (hsep s List.mem_cons_self) hm)

/-- The name that a path ends in is one that can stand in a directory. -/
theorem isName_locate {d : Disk} {p : Path} {q : Place} {n : FileName}
    (hl : d.locate p = .ok q) (hn : q.name = some n) : IsName n := by
  simp only [Disk.locate] at hl
  split at hl
  · cases hl
  · exact isName_follow rfl (fun s hs => Path.separator_not_mem_stretches hs) hl hn

theorem node?_of_name {d : Disk} {p : Place} {n : FileName} (h : p.name = some n) :
    d.node? p = (d.entriesOf p.way.here).lookup n := by
  rw [node?, h]

theorem find_eq_ok_iff {d : Disk} {p : Path} {q : Place} {v : Node} :
    d.find p = .ok (q, v) ↔ d.locate p = .ok q ∧ d.node? q = some v := by
  rw [find]
  constructor
  · intro h
    split at h
    · cases h
    · split at h
      · cases h
      · cases h
        exact ⟨by assumption, by assumption⟩
  · rintro ⟨hl, hn⟩
    simp only [hl, hn]

/-- A file lies under its name in the directory of its place. -/
theorem name_of_find_file {d : Disk} {p : Path} {q : Place} {id : FileId}
    (h : d.find p = .ok (q, .file id)) :
    ∃ n, q.name = some n ∧ (d.entriesOf q.way.here).lookup n = some (.file id) := by
  obtain ⟨-, hn⟩ := find_eq_ok_iff.mp h
  rw [node?] at hn
  split at hn
  · cases hn
  · exact ⟨_, by assumption, hn⟩

/-! ## Creating and removing -/

/-- A file is created or it is not; in both cases one fault of the plan is used up. -/
theorem createNew_cases {d d' : Disk} {p : Path} {r : Except DiskError FileId}
    (h : d.createNew p = (r, d')) :
    d'.faults = { d.faults with create := d.faults.create.tail } ∧
      ((∃ e, r = .error e ∧ SameTree d d' ∧ d'.files = d.files) ∨
        ∃ q n, r = .ok d.files.size ∧ d.locate p = .ok q ∧ q.name = some n ∧
          Attached d d' q.way.here n) := by
  have hsame : SameTree d { d with faults.create := d.faults.create.tail } :=
    ⟨rfl, rfl, fun _ => rfl⟩
  simp only [createNew] at h
  split at h
  · cases h
    exact ⟨rfl, .inl ⟨_, rfl, hsame, rfl⟩⟩
  · rw [hsame.locate] at h
    split at h
    · cases h
      exact ⟨rfl, .inl ⟨_, rfl, hsame, rfl⟩⟩
    · rename_i q hq
      rw [hsame.node?] at h
      split at h
      · cases h
        exact ⟨rfl, .inl ⟨_, rfl, hsame, rfl⟩⟩
      · rename_i hfree
        cases hname : q.name with
        | none => rw [node?, hname] at hfree; cases hfree
        | some n =>
          rw [node?_of_name hname] at hfree
          simp only [attachFile, attach, hname] at h
          cases h
          exact ⟨rfl, .inr ⟨q, n, rfl, hq, hname, rfl, rfl, rfl, hfree, isName_locate hq hname⟩⟩

/-- A file is removed or it is not; in both cases one fault of the plan is used up. -/
theorem remove_cases {d d' : Disk} {p : Path} {r : Except DiskError Unit}
    (h : d.remove p = (r, d')) :
    d'.faults = { d.faults with remove := d.faults.remove.tail } ∧
      ((∃ e, r = .error e ∧ SameTree d d' ∧ d'.files = d.files) ∨
        ∃ q n id, r = .ok () ∧ d.find p = .ok (q, .file id) ∧ q.name = some n ∧
          Detached d d' q.way.here n) := by
  have hsame : SameTree d { d with faults.remove := d.faults.remove.tail } :=
    ⟨rfl, rfl, fun _ => rfl⟩
  simp only [remove] at h
  split at h
  · cases h
    exact ⟨rfl, .inl ⟨_, rfl, hsame, rfl⟩⟩
  · rw [hsame.find] at h
    split at h
    · cases h
      exact ⟨rfl, .inl ⟨_, rfl, hsame, rfl⟩⟩
    · cases h
      exact ⟨rfl, .inl ⟨_, rfl, hsame, rfl⟩⟩
    · rename_i q id hf
      obtain ⟨n, hname, hheld⟩ := name_of_find_file hf
      simp only [detach, hname] at h
      cases h
      exact ⟨rfl, .inr ⟨q, n, id, rfl, hf, hname, rfl, rfl, rfl, id, hheld⟩⟩

/-- A removal takes a name out of its directory, and leaves what the files hold. -/
theorem files_remove {d d' : Disk} {p : Path} {r : Except DiskError Unit}
    (h : d.remove p = (r, d')) : d'.files = d.files := by
  obtain ⟨-, ⟨e, -, -, hfiles⟩ | ⟨q, n, id, -, -, -, hdetached⟩⟩ := remove_cases h
  · exact hfiles
  · exact hdetached.files

theorem wellFormed_remove {d d' : Disk} (hd : d.WellFormed) {p : Path}
    {r : Except DiskError Unit} (h : d.remove p = (r, d')) : d'.WellFormed := by
  obtain ⟨-, ⟨e, -, htree, -⟩ | ⟨q, n, id, -, -, -, hdetached⟩⟩ := remove_cases h
  · exact htree.wellFormed hd
  · exact hdetached.wellFormed hd

/-- A file that is there is removed, unless the plan of faults says otherwise. -/
theorem remove_ok {d : Disk} {p : Path} {q : Place} {id : FileId}
    (h : d.find p = .ok (q, .file id)) (hf : Faults.next? d.faults.remove = none) :
    (d.remove p).1 = .ok () := by
  have hsame : SameTree d { d with faults.remove := d.faults.remove.tail } :=
    ⟨rfl, rfl, fun _ => rfl⟩
  simp only [remove, hf, hsame.find, h]

/-- A new file lies where its path leads. -/
theorem Attached.find_new {d d' : Disk} {p : Path} {q : Place} {n : FileName}
    (h : Attached d d' q.way.here n) (hd : WellFormed d) (hl : d.locate p = .ok q)
    (hn : q.name = some n) : d'.find p = .ok (q, .file d.files.size) := by
  rw [find_eq_ok_iff, node?_of_name hn, h.lookup]
  exact ⟨h.keeps.locate hl, if_pos ⟨rfl, (wayExists_locate hd hl).here hd, rfl⟩⟩

/-- A new file leaves the others where they were. -/
theorem Attached.find_old {d d' : Disk} {D : DirectoryId} {m : FileName} {p : Path} {q : Place}
    {id : FileId} (h : Attached d d' D m) (hf : d.find p = .ok (q, .file id)) :
    d'.find p = .ok (q, .file id) := by
  obtain ⟨n, hn, hlookup⟩ := name_of_find_file hf
  rw [find_eq_ok_iff, node?_of_name hn, h.lookup, if_neg, hlookup]
  · exact ⟨h.keeps.locate (find_eq_ok_iff.mp hf).1, rfl⟩
  · rintro ⟨rfl, -, rfl⟩
    rw [h.free] at hlookup
    cases hlookup

/-- Whatever is not one of the removed files is found where it was. -/
theorem Cleared.find {d d' : Disk} {D : DirectoryId} {names : List FileName}
    (h : Cleared d d' D names) {p : Path} {q : Place} {v : Node} (hf : d.find p = .ok (q, v))
    (hne : ∀ n ∈ names, ¬ (q.way.here = D ∧ q.name = some n)) : d'.find p = .ok (q, v) := by
  obtain ⟨hl, hn⟩ := find_eq_ok_iff.mp hf
  refine find_eq_ok_iff.mpr ⟨h.keeps.locate hl, ?_⟩
  cases hname : q.name with
  | none =>
    unfold node? at hn ⊢
    rw [hname] at hn ⊢
    exact hn
  | some n =>
    rw [node?_of_name hname] at hn ⊢
    rw [h.lookup, if_neg, hn]
    rintro ⟨hD, hmem⟩
    exact hne n hmem ⟨hD.symm, hname⟩

/-- The removal of a file leaves those at other places where they were. -/
theorem Detached.find_elsewhere {d d' : Disk} {D : DirectoryId} {m : FileName} {p : Path}
    {q : Place} {id : FileId} (h : Detached d d' D m) (hf : d.find p = .ok (q, .file id))
    (hne : ¬ (q.way.here = D ∧ q.name = some m)) : d'.find p = .ok (q, .file id) := by
  refine h.cleared.find hf fun n hn => ?_
  rw [List.mem_singleton.mp hn]
  exact hne

/-- The removal of a file leaves those of another name where they were. -/
theorem Detached.find_other {d d' : Disk} {D : DirectoryId} {m n : FileName} {p : Path} {q : Place}
    {id : FileId} (h : Detached d d' D m) (hf : d.find p = .ok (q, .file id))
    (hn : q.name = some n) (hne : n ≠ m) : d'.find p = .ok (q, .file id) :=
  h.find_elsewhere hf fun he => hne (Option.some.inj (hn.symm.trans he.2))

/-! ## Writing and syncing -/

theorem content_modifyContent {d : Disk} (id k : FileId) (f : Content → Content)
    (hk : k < d.files.size) :
    (d.modifyContent id f).content k =
      if id = k then (f (d.files.getD k {}).content).toList else d.content k := by
  simp only [content, modifyContent, Array.getD_eq_getD_getElem?, Array.getElem?_modify]
  split
  · simp [Array.getElem?_eq_getElem hk]
  · rfl

theorem files_size_modifyContent (d : Disk) (id : FileId) (f : Content → Content) :
    (d.modifyContent id f).files.size = d.files.size := by
  rw [modifyContent, Array.size_modify]

theorem fault?_modifyContent (d : Disk) (id : FileId) (f : Content → Content) (k : FileId) :
    (d.modifyContent id f).fault? k = d.fault? k :=
  fault_getD_modify (fun file => { file with content := f file.content }) (fun _ => rfl) _ _ _

/-- Whether the content of one file is another after some bytes were written at an offset. -/
def Overwritten (before : Bytes) (offset : Nat) (bytes after : Bytes) : Prop :=
  after = before.take offset ++ (List.replicate (offset - before.length) 0 ++
    (bytes ++ before.drop (offset + bytes.length)))

/-- What a write leaves alone, whatever comes of it. -/
structure WriteFrame (d d' : Disk) (id : FileId) : Prop where
  tree : SameTree d d'
  size : d'.files.size = d.files.size
  others : ∀ k, k ≠ id → k < d.files.size → d'.content k = d.content k
  faults : ∃ plan, d'.faults = { d.faults with write := plan } ∧
    ∀ f ∈ plan, f ∈ d.faults.write

/-- A write that touches no file only uses up its fault. -/
theorem writeFrame_plan {d : Disk} {plan : List (Option (Nat × DiskError))}
    (hplan : ∀ f ∈ plan, f ∈ d.faults.write) (id : FileId) :
    WriteFrame d { d with faults.write := plan } id :=
  ⟨⟨rfl, rfl, fun _ => rfl⟩, rfl, fun _ _ _ => rfl, plan, rfl, hplan⟩

/-- A write that changes the content of a file changes no other file. -/
theorem writeFrame_modifyContent {d : Disk} {plan : List (Option (Nat × DiskError))}
    (hplan : ∀ f ∈ plan, f ∈ d.faults.write) (id : FileId) (f : Content → Content) :
    WriteFrame d (modifyContent { d with faults.write := plan } id f) id where
  tree := ⟨rfl, rfl, fault?_modifyContent _ _ _⟩
  size := files_size_modifyContent _ _ _
  others k hk hlt := by
    refine (content_modifyContent (d := { d with faults.write := plan }) id k f hlt).trans ?_
    rw [if_neg (Ne.symm hk)]
    rfl
  faults := ⟨plan, rfl, hplan⟩

theorem overwritten_modifyContent {d e : Disk} (he : e.files = d.files) {id : FileId}
    (hid : id < d.files.size) (offset : Nat) (bytes : Bytes) :
    Overwritten (d.content id) offset bytes
      ((e.modifyContent id (·.overwrite offset bytes)).content id) := by
  rw [content_modifyContent id id _ (by rw [he]; exact hid), if_pos rfl,
    Content.toList_overwrite, ← Array.length_toList, he]
  rfl

theorem writeFrame_writeAt {d d' : Disk} {id : FileId} {offset : Nat} {bytes : Bytes}
    {r : Except DiskError Unit} (h : d.writeAt id offset bytes = (r, d')) : WriteFrame d d' id := by
  have hplan : ∀ f ∈ d.faults.write.tail, f ∈ d.faults.write := fun f => List.mem_of_mem_tail
  simp only [writeAt] at h
  split at h
  · cases h
    exact writeFrame_plan (fun _ hf => hf) id
  split at h
  · cases h
    exact writeFrame_plan hplan id
  split at h
  · cases h
    exact writeFrame_modifyContent hplan id _
  · split at h <;> cases h
    · exact writeFrame_plan hplan id
    · exact writeFrame_modifyContent hplan id _

/-- A write puts all its bytes into the file, or fails and puts only a beginning there, which may
be none. -/
theorem writeAt_cases {d d' : Disk} {id : FileId} {offset : Nat} {bytes : Bytes}
    {r : Except DiskError Unit} (h : d.writeAt id offset bytes = (r, d'))
    (hid : id < d.files.size) :
    WriteFrame d d' id ∧
      ((r = .ok () ∧ (bytes ≠ [] → Overwritten (d.content id) offset bytes (d'.content id)) ∧
          (bytes = [] → d' = d)) ∨
        ∃ e torn, r = .error e ∧ torn <+: bytes ∧ torn.length < bytes.length ∧
          (torn = [] → d'.content id = d.content id) ∧
          (torn ≠ [] → Overwritten (d.content id) offset torn (d'.content id)) ∧
          ((∀ f ∈ d.faults.write, ∀ count e, f = some (count, e) → count = 0) → torn = [])) := by
  refine ⟨writeFrame_writeAt h, ?_⟩
  simp only [writeAt] at h
  split at h
  · rename_i hempty
    cases h
    exact .inl ⟨rfl, fun hne => absurd (List.isEmpty_iff.mp hempty) hne, fun _ => rfl⟩
  · rename_i hempty
    have hne : bytes ≠ [] := fun h => hempty (List.isEmpty_iff.mpr h)
    have hpos : 0 < bytes.length := List.length_pos_iff.mpr hne
    split at h
    · cases h
      exact .inr ⟨_, [], rfl, List.nil_prefix, hpos, fun _ => rfl, fun h => absurd rfl h,
        fun _ => rfl⟩
    split at h
    · cases h
      exact .inl ⟨rfl, fun _ => overwritten_modifyContent rfl hid _ _, fun h => absurd h hne⟩
    · rename_i count e hnext
      have hprefix : bytes.dropLast.take count <+: bytes :=
        (List.take_prefix _ _).trans (List.dropLast_prefix _)
      have hshort : (bytes.dropLast.take count).length < bytes.length := by
        rw [List.length_take, List.length_dropLast]
        omega
      have hzero : (∀ f ∈ d.faults.write, ∀ count e, f = some (count, e) → count = 0) →
          bytes.dropLast.take count = [] := by
        intro hall
        rw [hall _ (Faults.mem_of_next? hnext) count e rfl]
        rfl
      split at h <;> rename_i htorn <;> cases h
      · exact .inr ⟨e, _, rfl, hprefix, hshort, fun _ => rfl,
          fun h => absurd (List.isEmpty_iff.mp htorn) h, hzero⟩
      · exact .inr ⟨e, _, rfl, hprefix, hshort, fun h => absurd (List.isEmpty_iff.mpr h) htorn,
          fun _ => overwritten_modifyContent rfl hid _ _, hzero⟩

/-- Bytes that are written at the end of a file stand behind what it holds. -/
theorem Overwritten.at_end {before bytes after : Bytes}
    (h : Overwritten before before.length bytes after) : after = before ++ bytes := by
  rw [h, List.take_length, Nat.sub_self, List.drop_eq_nil_of_le (Nat.le_add_right _ _)]
  simp

/-- A write at the end of a file puts all its bytes behind what the file holds, or only a proper
beginning of them. -/
theorem writeAt_end_cases {d d' : Disk} {id : FileId} {bytes : Bytes} {r : Except DiskError Unit}
    (h : d.writeAt id (d.content id).length bytes = (r, d')) (hid : id < d.files.size) :
    (r = .ok () ∧ d'.content id = d.content id ++ bytes) ∨
      ∃ e torn, r = .error e ∧ torn <+: bytes ∧ torn.length < bytes.length ∧
        d'.content id = d.content id ++ torn := by
  obtain ⟨-, ⟨rfl, hover, hsame⟩ | ⟨e, torn, rfl, hfront, hshort, hnone, hover, -⟩⟩ :=
    writeAt_cases h hid
  · refine .inl ⟨rfl, ?_⟩
    by_cases hnil : bytes = []
    · rw [hsame hnil, hnil, List.append_nil]
    · exact (hover hnil).at_end
  · refine .inr ⟨e, torn, rfl, hfront, hshort, ?_⟩
    by_cases hnil : torn = []
    · rw [hnone hnil, hnil, List.append_nil]
    · exact (hover hnil).at_end

/-- A sync changes neither the tree nor what any file holds. -/
theorem sync_cases {d d' : Disk} {id : FileId} {r : Except DiskError Unit}
    (h : d.sync id = (r, d')) :
    SameTree d d' ∧ d'.files.size = d.files.size ∧
      d'.faults = { d.faults with sync := d.faults.sync.tail } ∧
      ∀ k, k < d.files.size → d'.content k = d.content k := by
  simp only [sync] at h
  split at h
  · cases h
    exact ⟨⟨rfl, rfl, fun _ => rfl⟩, rfl, rfl, fun _ _ => rfl⟩
  · cases h
    refine ⟨⟨rfl, rfl, fun k => ?_⟩, Array.size_modify, rfl, fun k hk => ?_⟩
    · exact fault_getD_modify (fun file => { file with durable := file.content })
        (fun _ => rfl) _ _ _
    simp only [content, Array.getD_eq_getD_getElem?, Array.getElem?_modify]
    split
    · simp [Array.getElem?_eq_getElem hk]
    · rfl

/-- A sync succeeds, unless the plan of faults says otherwise. -/
theorem sync_ok {d : Disk} (id : FileId) (hf : Faults.next? d.faults.sync = none) :
    (d.sync id).1 = .ok () := by
  simp only [sync, hf]

/-! ## Contents -/

theorem size_of_find {d : Disk} {p : Path} {q : Place} {id : FileId}
    (h : d.find p = .ok (q, .file id)) : d.size p = .ok (d.content id).length := by
  rw [size, h, content, Array.length_toList]

theorem reader_of_find {d : Disk} {p : Path} {q : Place} {id : FileId}
    (h : d.find p = .ok (q, .file id)) (hfault : d.fault? id = none) :
    d.reader p = .ok (.ofBytes (d.content id)) := by
  rw [fault?] at hfault
  rw [reader, h]
  dsimp only
  rw [FileData.reader, hfault]
  rfl

/-- A file that can be read is opened with its length and a reader of all that it holds. -/
theorem opened_of_find {d : Disk} {p : Path} {q : Place} {id : FileId}
    (h : d.find p = .ok (q, .file id)) (hfault : d.fault? id = none) :
    d.opened p = .ok ((d.content id).length, .ofBytes (d.content id)) := by
  rw [opened, reader_of_find h hfault, size_of_find h]

/-- A file that can be read is read as it stands. -/
theorem contents_of_find {d : Disk} {p : Path} {q : Place} {id : FileId}
    (h : d.find p = .ok (q, .file id)) (hfault : d.fault? id = none) :
    d.contents p = .ok (d.content id) := by
  have hread : ∃ rest, Reader.readAtMost ((d.content id).length + 1) (.ofBytes (d.content id)) =
      .ok (d.content id, rest) := by
    have hcases := Reader.readAtMost_cases ((d.content id).length + 1) (.ofBytes (d.content id))
    rw [Reader.delivered_ofBytes, Reader.cause?_ofBytes] at hcases
    rcases hcases with ⟨hlong, -⟩ | ⟨-, -, rest, hread⟩ | ⟨-, _, hfails, -⟩
    · omega
    · exact ⟨rest, hread⟩
    · cases hfails
  obtain ⟨rest, hread⟩ := hread
  simp only [contents, opened_of_find h hfault, bind, Except.bind, hread]
  rfl

/-- A file whose reading comes to its end can be read, and is what is read of it. -/
theorem find_of_contents {d : Disk} {p : Path} {bytes : Bytes} (h : d.contents p = .ok bytes) :
    ∃ q id, d.find p = .ok (q, .file id) ∧ d.fault? id = none ∧ d.content id = bytes := by
  cases hfind : d.find p with
  | error e =>
    rw [contents, opened, reader, hfind] at h
    cases h
  | ok found =>
    obtain ⟨q, node⟩ := found
    cases node with
    | directory id =>
      rw [contents, opened, reader, size, hfind] at h
      cases h
    | file id =>
      refine ⟨q, id, rfl, ?_⟩
      cases hfault : d.fault? id with
      | none =>
        rw [contents_of_find hfind hfault] at h
        exact ⟨rfl, Except.ok.inj h⟩
      | some fault =>
        exfalso
        rw [fault?] at hfault
        cases fault with
        | opening cause =>
          simp only [contents, opened, reader, hfind, FileData.reader, hfault, bind,
            Except.bind, reduceCtorEq] at h
        | reading count cause =>
          -- what is asked for is more than there is, so that the reader comes to fail
          have hcases := Reader.readAtMost_cases ((d.content id).length + 1)
            (.broken ((d.content id).take count) cause)
          rw [Reader.delivered_broken, Reader.cause?_broken, List.length_take] at hcases
          simp only [contents, opened, reader, hfind, FileData.reader, hfault,
            size_of_find hfind, bind, Except.bind] at h
          rcases hcases with ⟨hlong, -⟩ | ⟨-, hends, -⟩ | ⟨-, _, -, hfails⟩
          · omega
          · cases hends
          · rw [show (d.files.getD id {}).content.toList = d.content id from rfl, hfails] at h
            cases h

theorem content_of_files {d d' : Disk} (h : d'.files = d.files) (k : FileId) :
    d'.content k = d.content k := by
  rw [content, content, h]

/-- A new file is empty, and the others keep what they hold. -/
theorem Attached.content {d d' : Disk} {D : DirectoryId} {n : FileName} (h : Attached d d' D n)
    (k : FileId) :
    d'.content k = if k = d.files.size then [] else d.content k := by
  simp only [Disk.content, h.files, Array.getD_eq_getD_getElem?, Array.getElem?_push]
  by_cases he : k = d.files.size
  · rw [if_pos he, if_pos he]
    rfl
  · rw [if_neg he, if_neg he]

/-! ## Changes from outside -/

theorem fault?_attachFile (d : Disk) (q : Place) (file : FileData) (f : FileId) :
    (d.attachFile q file).fault? f = if f = d.files.size then file.fault else d.fault? f :=
  fault?_push rfl f

/-- A file that is put on a disk from outside leaves it well-formed. -/
theorem wellFormed_put {d : Disk} (hd : WellFormed d) (p : Path) (content : Bytes) :
    WellFormed (d.put p content) := by
  unfold put
  split
  · exact hd
  · rename_i q hq
    split
    · exact hd
    · exact hd.of_directories rfl rfl
    · rename_i hfree
      cases hname : q.name with
      | none => rw [node?, hname] at hfree; cases hfree
      | some n =>
        rw [node?_of_name hname] at hfree
        -- what the new file holds makes no difference to the tree
        have hempty : Attached d (d.attachFile q {}) q.way.here n := by
          unfold attachFile attach
          rw [hname]
          exact ⟨rfl, rfl, rfl, hfree, isName_locate hq hname⟩
        exact (hempty.wellFormed hd).of_directories rfl rfl

/-- So does a file that cannot be read any more. -/
theorem wellFormed_spoil {d : Disk} (hd : WellFormed d) (p : Path) (fault : Option ReadFault) :
    WellFormed (d.spoil p fault) := by
  unfold spoil
  split
  · exact hd.of_directories rfl rfl
  · exact hd

end Disk

end SegmentLog
