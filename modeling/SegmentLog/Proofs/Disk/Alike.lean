import SegmentLog.Proofs.Disk.Files

/-!
# Disks that look alike

Two disks look alike if they differ only in what their files hold, and a look at a file does not
tell the difference. What a look tells is left open: it may be the length of a file, or more. No
operation on a disk reads a file in order to write, so that the same operation has the same result
on disks that look alike, and leaves them alike; a write does so if its own file still looks alike.

* `Agree` — operations with the same result;
* `Alike.createNew`, `Alike.writeAt`, `Alike.sync`, `Alike.remove` — the operations on a disk;
* `Alike.size`, `Alike.opened` — what is read from it.
-/

namespace SegmentLog

/-- Whether two operations have the same result, and what they leave is related. -/
structure Agree {β γ : Type} (rel : γ → γ → Prop) (x y : β × γ) : Prop where
  result : y.1 = x.1
  state : rel x.2 y.2

theorem Agree.cases {β γ : Type} {rel : γ → γ → Prop} {x y : β × γ} (h : Agree rel x y) :
    ∃ r a b, x = (r, a) ∧ y = (r, b) ∧ rel a b :=
  ⟨x.1, x.2, y.2, rfl, Prod.ext h.result rfl, h.state⟩

theorem Agree.of_eq {β γ : Type} {rel : γ → γ → Prop} {x y : β × γ} (h : Agree rel x y) {r r' : β}
    {a b : γ} (hx : x = (r, a)) (hy : y = (r', b)) : r' = r ∧ rel a b := by
  subst hx hy
  exact ⟨h.result, h.state⟩

namespace Disk

variable {α : Type} {look : Bytes → α} {d d' : Disk}

/-- Whether two disks differ only in what their files hold, and that looks alike. Where a file
cannot be read to its end, what is read of it is no matter of looks, and it has to be the same. -/
structure Alike (look : Bytes → α) (d d' : Disk) : Prop extends SameTree d d' where
  faults : d'.faults = d.faults
  files : d'.files.size = d.files.size
  content : ∀ f, look (d'.content f) = look (d.content f)
  spoiled : ∀ f, d.fault? f ≠ none → d'.content f = d.content f

theorem Alike.refl (look : Bytes → α) (d : Disk) : d.Alike look d :=
  ⟨.refl d, rfl, rfl, fun _ => rfl, fun _ _ => rfl⟩

/-- What a look tells is told by a closer look as well. -/
theorem Alike.of_closer {β : Type} {closer : Bytes → β} (h : d.Alike closer d')
    (hlook : ∀ bytes bytes', closer bytes' = closer bytes → look bytes' = look bytes) :
    d.Alike look d' :=
  ⟨h.toSameTree, h.faults, h.files, fun f => hlook _ _ (h.content f), h.spoiled⟩

theorem Alike.withFaults (h : d.Alike look d') (faults : Faults) :
    Alike look { d with faults } { d' with faults } :=
  ⟨⟨h.working, h.directories, h.fault⟩, rfl, h.files, h.content, h.spoiled⟩

/-! ## Changes -/

theorem content_attachFile (d : Disk) (q : Place) (f : FileId) :
    (d.attachFile q {}).content f = if f = d.files.size then [] else d.content f := by
  simp only [attachFile, content, Array.getD_eq_getD_getElem?, Array.getElem?_push]
  by_cases hf : f = d.files.size
  · rw [if_pos hf, if_pos hf]
    rfl
  · rw [if_neg hf, if_neg hf]

theorem Alike.attachFile (h : d.Alike look d') (q : Place) :
    (d.attachFile q {}).Alike look (d'.attachFile q {}) where
  working := by
    unfold Disk.attachFile attach
    split <;> exact h.working
  directories := by
    unfold Disk.attachFile attach modifyEntries
    rw [h.files]
    split
    · exact h.directories
    · dsimp only
      rw [h.directories]
  fault f := by
    rw [fault?_attachFile, fault?_attachFile, h.files, h.fault]
  faults := by
    unfold Disk.attachFile attach
    split <;> exact h.faults
  files := by
    unfold Disk.attachFile
    rw [Array.size_push, Array.size_push, h.files]
  content f := by
    rw [content_attachFile, content_attachFile, h.files]
    split
    · rfl
    · exact h.content f
  spoiled f hf := by
    rw [fault?_attachFile] at hf
    rw [content_attachFile, content_attachFile, h.files]
    split
    · rfl
    · rename_i hold
      rw [if_neg hold] at hf
      exact h.spoiled f hf

theorem Alike.detach (h : d.Alike look d') (q : Place) :
    (d.detach q).Alike look (d'.detach q) where
  working := by
    unfold Disk.detach
    split <;> exact h.working
  directories := by
    unfold Disk.detach modifyEntries
    rw [h.directories]
    split <;> rfl
  fault f := by
    unfold Disk.detach
    split <;> exact h.fault f
  faults := by
    unfold Disk.detach
    split <;> exact h.faults
  files := by
    unfold Disk.detach
    split <;> exact h.files
  content f := by
    unfold Disk.detach
    split <;> exact h.content f
  spoiled f := by
    unfold Disk.detach
    split <;> exact h.spoiled f

/-- Brings a file to stable storage. -/
def markDurable (d : Disk) (id : FileId) : Disk :=
  { d with files := d.files.modify id fun f => { f with durable := f.content } }

theorem content_markDurable (d : Disk) (id k : FileId) :
    (d.markDurable id).content k = d.content k := by
  simp only [Disk.content, markDurable, Array.getD_eq_getD_getElem?, Array.getElem?_modify]
  split
  · cases d.files[k]? <;> rfl
  · rfl

theorem fault?_markDurable (d : Disk) (id k : FileId) :
    (d.markDurable id).fault? k = d.fault? k :=
  fault_getD_modify (fun f => { f with durable := f.content }) (fun _ => rfl) d.files id k

/-- Whatever of a file is on stable storage, it is read as it stands. -/
theorem Alike.markDurable (h : d.Alike look d') (id : FileId) :
    (d.markDurable id).Alike look (d'.markDurable id) where
  working := h.working
  directories := h.directories
  fault f := by rw [fault?_markDurable, fault?_markDurable, h.fault]
  faults := h.faults
  files := (Array.size_modify ..).trans (h.files.trans (Array.size_modify ..).symm)
  content k := by rw [content_markDurable, content_markDurable, h.content]
  spoiled k hk := by
    rw [fault?_markDurable] at hk
    rw [content_markDurable, content_markDurable, h.spoiled k hk]

theorem Alike.createNew (h : d.Alike look d') (p : Path) :
    Agree (Alike look) (d.createNew p) (d'.createNew p) := by
  have hplan := h.withFaults { d.faults with create := d.faults.create.tail }
  unfold Disk.createNew
  rw [h.faults]
  dsimp only at hplan ⊢
  cases Faults.next? d.faults.create with
  | some e => exact ⟨rfl, hplan⟩
  | none =>
    dsimp only
    rw [hplan.locate]
    split
    · exact ⟨rfl, hplan⟩
    · rw [hplan.node?]
      split
      · exact ⟨rfl, hplan⟩
      · exact ⟨congrArg Except.ok h.files, hplan.attachFile _⟩

theorem Alike.remove (h : d.Alike look d') (p : Path) :
    Agree (Alike look) (d.remove p) (d'.remove p) := by
  have hplan := h.withFaults { d.faults with remove := d.faults.remove.tail }
  unfold Disk.remove
  rw [h.faults]
  dsimp only at hplan ⊢
  cases Faults.next? d.faults.remove with
  | some e => exact ⟨rfl, hplan⟩
  | none =>
    dsimp only
    rw [hplan.find]
    split
    · exact ⟨rfl, hplan⟩
    · exact ⟨rfl, hplan⟩
    · exact ⟨rfl, hplan.detach _⟩

theorem Alike.sync (h : d.Alike look d') (id : FileId) :
    Agree (Alike look) (d.sync id) (d'.sync id) := by
  have hplan := h.withFaults { d.faults with sync := d.faults.sync.tail }
  unfold Disk.sync
  rw [h.faults]
  dsimp only at hplan ⊢
  cases Faults.next? d.faults.sync with
  | some e => exact ⟨rfl, hplan⟩
  | none => exact ⟨rfl, hplan.markDurable id⟩

theorem content_modifyContent_ne {id k : FileId} (f : Content → Content) (hk : k ≠ id) :
    (d.modifyContent id f).content k = d.content k := by
  simp only [content, modifyContent, Array.getD_eq_getD_getElem?, Array.getElem?_modify,
    if_neg (Ne.symm hk)]

/-- What is written to one file shows in no other. -/
theorem Alike.overwrite (h : d.Alike look d') {id : FileId} (hid : id < d.files.size)
    (hfault : d.fault? id = none) {offset : Nat} {bytes bytes' : Bytes}
    (hlook : ∀ after after', Overwritten (d.content id) offset bytes after →
      Overwritten (d'.content id) offset bytes' after' → look after' = look after) :
    (d.modifyContent id (·.overwrite offset bytes)).Alike look
      (d'.modifyContent id (·.overwrite offset bytes')) where
  working := h.working
  directories := h.directories
  fault f := by rw [fault?_modifyContent, fault?_modifyContent, h.fault]
  faults := h.faults
  files := by rw [files_size_modifyContent, files_size_modifyContent, h.files]
  content k := by
    by_cases hk : k = id
    · subst hk
      exact hlook _ _ (overwritten_modifyContent rfl hid offset bytes)
        (overwritten_modifyContent rfl (by rwa [h.files]) offset bytes')
    · rw [content_modifyContent_ne _ hk, content_modifyContent_ne _ hk, h.content]
  spoiled k hk := by
    rw [fault?_modifyContent] at hk
    have hother : k ≠ id := by
      rintro rfl
      exact hk hfault
    rw [content_modifyContent_ne _ hother, content_modifyContent_ne _ hother, h.spoiled k hk]

/-- As many bytes are written to files that look alike, or as many of them before the write fails,
so that the files look alike again if they do after as much was written. -/
theorem Alike.writeAt (h : d.Alike look d') {id : FileId} (hid : id < d.files.size)
    (hfault : d.fault? id = none) {offset : Nat} {bytes bytes' : Bytes}
    (hlength : bytes'.length = bytes.length)
    (hlook : ∀ n after after', Overwritten (d.content id) offset (bytes.take n) after →
      Overwritten (d'.content id) offset (bytes'.take n) after' → look after' = look after) :
    Agree (Alike look) (d.writeAt id offset bytes) (d'.writeAt id offset bytes') := by
  have hplan := h.withFaults { d.faults with write := d.faults.write.tail }
  have hempty : ∀ l l' : Bytes, l'.length = l.length → l'.isEmpty = l.isEmpty := by
    intro l l' hl
    rw [Bool.eq_iff_iff, List.isEmpty_iff_length_eq_zero, List.isEmpty_iff_length_eq_zero, hl]
  have htake : ∀ n after after', Overwritten (d.content id) offset (bytes.dropLast.take n) after →
      Overwritten (d'.content id) offset (bytes'.dropLast.take n) after' →
      look after' = look after := by
    intro n after after'
    rw [List.dropLast_eq_take, List.dropLast_eq_take, List.take_take, List.take_take, hlength]
    exact hlook _ after after'
  have htorn : ∀ n, (bytes'.dropLast.take n).isEmpty = (bytes.dropLast.take n).isEmpty := by
    intro n
    refine hempty _ _ ?_
    rw [List.length_take, List.length_take, List.length_dropLast, List.length_dropLast, hlength]
  unfold Disk.writeAt
  rw [hempty _ _ hlength, hlength, h.faults]
  dsimp only at hplan ⊢
  split
  · exact ⟨rfl, h⟩
  split
  · exact ⟨rfl, hplan⟩
  cases Faults.next? d.faults.write with
  | none =>
    refine ⟨rfl, hplan.overwrite hid hfault fun after after' hover hover' => ?_⟩
    refine hlook bytes.length after after' ?_ ?_
    · rwa [List.take_length]
    · rwa [← hlength, List.take_length]
  | some fault =>
    refine ⟨rfl, ?_⟩
    dsimp only
    rw [htorn]
    split
    · exact hplan
    · exact hplan.overwrite hid hfault (htake fault.1)

/-! ## What is read -/

/-- What lies at a path has the same size on disks on which the lengths of files look alike. -/
theorem Alike.size (h : d.Alike List.length d') (p : Path) : d'.size p = d.size p := by
  have hlength : ∀ f, (d'.files.getD f {}).content.size = (d.files.getD f {}).content.size := by
    intro f
    have hf := h.content f
    rwa [Disk.content, Disk.content, Array.length_toList, Array.length_toList] at hf
  unfold Disk.size
  rw [h.find]
  split
  · rfl
  · rfl
  · rw [hlength]

/-- A file is read as it stands, or what a path leads to is opened the same way on both disks. -/
theorem Alike.opened (h : d.Alike look d') (p : Path) :
    d'.opened p = d.opened p ∨
      ∃ bytes bytes', d.contents p = .ok bytes ∧ d'.contents p = .ok bytes' ∧
        look bytes' = look bytes := by
  have hfind := h.find p
  cases hf : d.find p with
  | error e =>
    rw [hf] at hfind
    simp only [Disk.opened, Disk.reader, hf, hfind, true_or]
  | ok found =>
    obtain ⟨q, node⟩ := found
    rw [hf] at hfind
    cases node with
    | directory id => simp only [Disk.opened, Disk.reader, Disk.size, hf, hfind, true_or]
    | file id =>
      have hsame := h.fault id
      by_cases hfault : d.fault? id = none
      · exact .inr ⟨_, _, contents_of_find hf hfault,
          contents_of_find hfind (hsame.trans hfault), h.content id⟩
      · have hcontent : (d'.files.getD id {}).content.toList =
            (d.files.getD id {}).content.toList := h.spoiled id hfault
        rw [Disk.fault?, Disk.fault?] at hsame
        simp only [Disk.opened, Disk.reader, Disk.size, FileData.reader, hf, hfind, hsame,
          ← Array.length_toList, hcontent, true_or]

theorem SameTree.isDirectory (h : SameTree d d') (p : Path) :
    d'.isDirectory p = d.isDirectory p := by
  unfold Disk.isDirectory
  rw [h.find]

end Disk

end SegmentLog
