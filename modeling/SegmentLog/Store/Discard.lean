import SegmentLog.Store.Spare

/-!
# Discarding what was flushed

When a partition was flushed up to a position, its marks up to there go, and a segment that is
sealed and has no mark left is deleted. The walk takes the active segments of the moment at which
it begins, oldest first, and ends with the segment of the position. What it does to one segment
is split where others may run: the marks, the decision, taking the segment out of the active
ones, and removing its file.

* `discardEach_cons` — the walk goes on behind every segment but that of the position.
-/

namespace SegmentLog.Store

/-- A partition was flushed up to a position: its mark in one segment goes if that covers it. -/
def noteFlush (s : Store) (h : Handle) (p : Partition) (upTo : Position) : Store :=
  s.modify h (·.noteFlush p upTo)

/-- Takes a sealed segment out of the active ones, if it is still among them. -/
def unlink (s : Store) (h : Handle) : Bool × Store :=
  if h ∈ s.active ∧ (s.segment h).sealed then (true, { s with active := s.active.erase h })
  else (false, s)

/-- Deletes a segment that nothing depends on any more. If its file cannot be removed, the
segment is out of the active ones all the same. -/
def deleteSegment (s : Store) (h : Handle) : Store :=
  match s.unlink h with
  | (true, s) => (s.deleteFile h).2
  | (false, s) => s

/-- What the walk does to one segment. -/
def discardOne (s : Store) (p : Partition) (upTo : Position) (h : Handle) : Store :=
  let s := s.noteFlush h p upTo
  if (s.segment h).isSpent then s.deleteSegment h else s

/-- Walks over some segments, up to and including the one of the position. -/
def discardEach (p : Partition) (upTo : Position) : List Handle → Store → Store
  | [], s => s
  | h :: rest, s =>
    let s := s.discardOne p upTo h
    if (s.segment h).holds upTo then s else discardEach p upTo rest s

/-- A partition was flushed up to a position: forgets its marks up to there, and deletes the
segments that nothing depends on any more. -/
def discard (s : Store) (p : Partition) (upTo : Position) : Store :=
  discardEach p upTo s.active s

theorem discardEach_nil (p : Partition) (upTo : Position) (s : Store) :
    discardEach p upTo [] s = s := rfl

theorem discardEach_cons (p : Partition) (upTo : Position) (h : Handle) (rest : List Handle)
    (s : Store) :
    discardEach p upTo (h :: rest) s =
      if ((s.discardOne p upTo h).segment h).holds upTo then s.discardOne p upTo h
      else discardEach p upTo rest (s.discardOne p upTo h) := rfl

end SegmentLog.Store
