import SegmentLog.Store.Append

/-!
# Syncing and ending

A sync brings the active segments to stable storage, oldest first, and stops at the first that
fails. One that is not forced is left to the worker, if there is one. The use of a store ends
with a forced sync, after which the spare is removed; wiping it deletes every segment.

* `sync_of_attached` — when a sync is left to the worker.
-/

namespace SegmentLog.Store

/-- Brings some segments to stable storage. A forced sync that fails seals its segment. -/
def syncEach (force : Bool) : List Handle → Store → Except LogError Unit × Store
  | [], s => (.ok (), s)
  | h :: rest, s =>
    match s.syncSegment h force with
    | (.ok (), s) => syncEach force rest s
    | (.error cause, s) =>
      match if force then s.giveUp h cause else s.report (.disk cause) with
      | (e, s) => (.error e, s)

/-- Brings all active segments to stable storage. -/
def syncActive (s : Store) (force : Bool) : Except LogError Unit × Store :=
  syncEach force s.active s

/-- Brings what was written to stable storage, at once or through the worker. -/
def sync (s : Store) (force : Bool) : Except LogError Unit × Store :=
  if !force && s.attached.isSome then (.ok (), s.send .sync) else s.syncActive force

/-- Ends the use of a store: a last sync, after which the spare is removed. -/
def finish (s : Store) : Except LogError Unit × Store :=
  match s.syncActive true with
  | (.error e, s) => (.error e, s)
  | (.ok (), s) =>
    match s.spare with
    | none => (.ok (), s)
    | some h =>
      match { s with spare := none }.deleteFile h with
      | (.ok (), s) => (.ok (), s)
      | (.error cause, s) => (.error (.io (.disk cause)), s)

/-- Removes the files of some segments, up to the first that cannot be removed. One that is gone
already is passed over. -/
def deleteEach : List Handle → Store → Except LogError Unit × Store
  | [], s => (.ok (), s)
  | h :: rest, s =>
    match s.deleteFile h with
    | (.ok (), s) => deleteEach rest s
    | (.error .notFound, s) => deleteEach rest s
    | (.error cause, s) => (.error (.io (.disk cause)), s)

/-- Drops every segment, the spare included, and removes their files. -/
def wipe (s : Store) : Except LogError Unit × Store :=
  deleteEach (s.active ++ s.spare.toList) { s with active := [], spare := none }

theorem sync_of_attached {s : Store} (h : s.attached.isSome) :
    s.sync false = (.ok (), s.send .sync) := by
  simp [sync, h]

end SegmentLog.Store
