import SegmentLog.Store.Basic

/-!
# New segments and the spare

A new segment gets the next number, whether or not its file can be created. With look-ahead the
store keeps one empty segment as a spare, so that an append whose segment is full does not have
to wait for a new file. The spare is created while others may run and put in its place
afterwards; if by then it is not needed, its file is removed again.

* `stockSpare_of_no_lookAhead`, `stockSpare_of_spare` — the cases in which nothing is done.
-/

namespace SegmentLog.Store

/-- Creates an empty segment with the next number. It is neither active nor the spare yet. -/
def newSegment (s : Store) : Except DiskError Handle × Store :=
  let (id, ids) := s.ids.take
  match Segment.create s.disk s.settings.directory s.settings.stem (.ofId id)
      s.settings.segmentSize.toNat with
  | (.error e, disk) => (.error e, { s with ids, disk })
  | (.ok segment, disk) => (.ok s.table.size, { s with ids, disk, table := s.table.push segment })

/-- Removes the file of a segment. -/
def deleteFile (s : Store) (h : Handle) : Except DiskError Unit × Store :=
  match (s.segment h).delete s.disk with
  | (r, disk) => (r, { s with disk })

/-- Takes the spare, if it comes after the last active segment. One that does not is of no use,
and its file is removed. -/
def withdrawSpare (s : Store) : Option Handle × Store :=
  match s.spare with
  | none => (none, s)
  | some h =>
    let s := { s with spare := none }
    if s.tailId < (s.segment h).id then (some h, s) else (none, (s.deleteFile h).2)

/-- Makes a new segment the spare, or removes its file if there is a spare by now, or a segment
with a higher number. -/
def placeSpare (s : Store) (h : Handle) : Store :=
  if s.spare.isNone ∧ s.tailId < (s.segment h).id then { s with spare := some h }
  else (s.deleteFile h).2

/-- Whether a spare has to be created. -/
def lacksSpare (s : Store) : Bool := s.settings.lookAhead && s.spare.isNone

/-- Creates a spare if one has to be created. -/
def stockSpare (s : Store) : Except LogError Unit × Store :=
  if s.lacksSpare then
    match s.newSegment with
    | (.error e, s) =>
      match s.report (.disk e) with
      | (e, s) => (.error e, s)
    | (.ok h, s) => (.ok (), s.placeSpare h)
  else (.ok (), s)

theorem stockSpare_of_no_lookAhead {s : Store} (h : s.settings.lookAhead = false) :
    s.stockSpare = (.ok (), s) := by
  simp [stockSpare, lacksSpare, h]

theorem stockSpare_of_spare {s : Store} (h : s.spare.isSome) : s.stockSpare = (.ok (), s) := by
  cases hs : s.spare with
  | none => simp [hs] at h
  | some k => simp [stockSpare, lacksSpare, hs]

end SegmentLog.Store
