import SegmentLog.Proofs.Disk.Files
import SegmentLog.Proofs.Frame.Language
import SegmentLog.Store.Basic

/-!
# What is on stable storage, and what is remembered of it

A sync brings a whole file to stable storage, and nothing else does. A record that was acknowledged
is on stable storage if its frame stands in what the file held at the last sync. One mark is enough
to remember whether this holds for all records of a file: it is set by a whole frame, left alone by
a torn one, and taken away by a sync.

* `Disk.durable_writeAt`, `Disk.Attached.durable`, `Disk.durable_sync` — stable storage;
* `Receipt` — a record that was acknowledged;
* `Remembered` — the mark is exact;
* `Remembered.write`, `Remembered.tear`, `Remembered.sync` — it stays exact.
-/

namespace SegmentLog

/-! ## Stable storage -/

namespace Disk

variable {d d' : Disk}

theorem durable_of_files (h : d'.files = d.files) (k : FileId) : d'.durable k = d.durable k := by
  rw [durable, durable, h]

theorem durable_modifyContent (d : Disk) (id k : FileId) (f : Content → Content) :
    (d.modifyContent id f).durable k = d.durable k := by
  simp only [durable, modifyContent, Array.getD_eq_getD_getElem?, Array.getElem?_modify]
  split
  · cases d.files[k]? <;> rfl
  · rfl

/-- A write brings nothing to stable storage. -/
theorem durable_writeAt {id : FileId} {offset : Nat} {bytes : Bytes} {r : Except DiskError Unit}
    (h : d.writeAt id offset bytes = (r, d')) (k : FileId) : d'.durable k = d.durable k := by
  simp only [writeAt] at h
  split at h
  · cases h
    rfl
  split at h
  · cases h
    rfl
  split at h
  · cases h
    exact durable_modifyContent _ _ _ _
  · split at h <;> cases h
    · rfl
    · exact durable_modifyContent _ _ _ _

/-- A new file has nothing on stable storage. -/
theorem Attached.durable {D : DirectoryId} {n : FileName} (h : Attached d d' D n) (k : FileId) :
    d'.durable k = if k = d.files.size then [] else d.durable k := by
  simp only [Disk.durable, h.files, Array.getD_eq_getD_getElem?, Array.getElem?_push]
  by_cases he : k = d.files.size
  · rw [if_pos he, if_pos he]
    rfl
  · rw [if_neg he, if_neg he]

/-- A sync that succeeds brings the whole file to stable storage. -/
theorem durable_sync {id : FileId} (hf : Faults.next? d.faults.sync = none)
    (hid : id < d.files.size) (k : FileId) :
    (d.sync id).2.durable k = if id = k then d.content k else d.durable k := by
  simp only [sync, hf, durable, content, Array.getD_eq_getD_getElem?, Array.getElem?_modify]
  split
  · rename_i he
    subst he
    simp [Array.getElem?_eq_getElem hid]
  · rfl

end Disk

/-! ## Receipts -/

/-- A record that was acknowledged: its segment, where its frame begins, and its payload. -/
structure Receipt where
  handle : Handle
  offset : Nat
  payload : Bytes
  deriving DecidableEq

namespace Receipt

/-- Whether the frame of a record stands at its offset in some bytes. -/
def StandsIn (r : Receipt) (bytes : Bytes) : Prop :=
  Frame.ofPayload r.payload <+: bytes.drop r.offset

/-- Whether a record lies behind some bytes. -/
def IsBehind (r : Receipt) (bytes : Bytes) : Prop := bytes.length ≤ r.offset

variable {r : Receipt} {bytes : Bytes}

theorem StandsIn.append (h : r.StandsIn bytes) (more : Bytes) : r.StandsIn (bytes ++ more) := by
  rw [StandsIn, List.drop_append]
  exact h.trans (List.prefix_append _ _)

theorem StandsIn.not_isBehind (h : r.StandsIn bytes) : ¬ r.IsBehind bytes := by
  have hle := h.length_le
  rw [Frame.length_ofPayload, Frame.overhead, List.length_drop] at hle
  rw [IsBehind]
  omega

theorem standsIn_end (handle : Handle) (bytes payload : Bytes) :
    StandsIn ⟨handle, bytes.length, payload⟩ (bytes ++ Frame.ofPayload payload) := by
  have hdrop : Frame.ofPayload payload = (bytes ++ Frame.ofPayload payload).drop bytes.length :=
    List.drop_left.symm
  exact ⟨[], (List.append_nil _).trans hdrop⟩

end Receipt

/-- Whether it is remembered exactly what has to be synced: a file holds some records, what was in
it at the last sync ends between two of them, and the mark is set just while one of them lies
behind that. -/
structure Remembered (receipts : List Receipt) (content durable : Bytes) (unsynced : Bool) :
    Prop where
  front : durable <+: content
  written : ∀ r ∈ receipts, r.StandsIn content
  settled : ∀ r ∈ receipts, r.StandsIn durable ∨ r.IsBehind durable
  mark : unsynced = true ↔ ∃ r ∈ receipts, r.IsBehind durable

namespace Remembered

variable {receipts : List Receipt} {content durable : Bytes} {unsynced : Bool}

theorem empty : Remembered [] [] [] false where
  front := List.prefix_refl _
  written _ hr := (List.not_mem_nil hr).elim
  settled _ hr := (List.not_mem_nil hr).elim
  mark := ⟨fun h => (nomatch h), fun ⟨_, hr, _⟩ => (List.not_mem_nil hr).elim⟩

/-- A record was brought to stable storage exactly if it does not lie behind what is there. -/
theorem standsIn_iff (h : Remembered receipts content durable unsynced) {r : Receipt}
    (hr : r ∈ receipts) : r.StandsIn durable ↔ ¬ r.IsBehind durable :=
  ⟨Receipt.StandsIn.not_isBehind, (h.settled r hr).resolve_right⟩

theorem standsIn_of_synced (h : Remembered receipts content durable false) {r : Receipt}
    (hr : r ∈ receipts) : r.StandsIn durable :=
  (h.standsIn_iff hr).mpr fun hbehind => nomatch h.mark.mpr ⟨r, hr, hbehind⟩

/-- A torn frame at the end is nobody's record. -/
theorem tear (h : Remembered receipts content durable unsynced) (torn : Bytes) :
    Remembered receipts (content ++ torn) durable unsynced where
  front := h.front.trans (List.prefix_append _ _)
  written r hr := (h.written r hr).append torn
  settled := h.settled
  mark := h.mark

/-- A whole frame at the end is a record that has to be synced. -/
theorem write (h : Remembered receipts content durable unsynced) (k : Handle) (payload : Bytes) :
    Remembered (receipts ++ [⟨k, content.length, payload⟩])
      (content ++ Frame.ofPayload payload) durable true := by
  have hbehind : Receipt.IsBehind ⟨k, content.length, payload⟩ durable := h.front.length_le
  constructor
  case front => exact h.front.trans (List.prefix_append _ _)
  case written =>
    intro r hr
    rcases List.mem_append.mp hr with hold | hnew
    · exact (h.written r hold).append _
    · rw [List.mem_singleton.mp hnew]
      exact Receipt.standsIn_end k content payload
  case settled =>
    intro r hr
    rcases List.mem_append.mp hr with hold | hnew
    · exact h.settled r hold
    · rw [List.mem_singleton.mp hnew]
      exact .inr hbehind
  case mark =>
    exact ⟨fun _ => ⟨_, List.mem_append_right _ (List.mem_singleton_self _), hbehind⟩, fun _ => rfl⟩

/-- A sync leaves nothing to be synced. -/
theorem sync (h : Remembered receipts content durable unsynced) :
    Remembered receipts content content false where
  front := List.prefix_refl _
  written := h.written
  settled r hr := .inl (h.written r hr)
  mark := ⟨fun hset => (nomatch hset), fun ⟨r, hr, hbehind⟩ =>
    absurd hbehind (h.written r hr).not_isBehind⟩

end Remembered

end SegmentLog
