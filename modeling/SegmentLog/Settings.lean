import SegmentLog.Monitor
import SegmentLog.Frame.Basic

/-!
# Settings

How a log is set up, and which settings make sense.

* `check_eq_ok_iff` — the conditions that settings have to meet.
-/

namespace SegmentLog

/-- When what was written is brought to stable storage. -/
inductive SyncMode where
  /-- With every append. -/
  | eachAppend
  /-- From the background, once in so many milliseconds. -/
  | every (milliseconds : UInt64)
  deriving DecidableEq, Repr, Inhabited

/-- The milliseconds between two syncs from the background, if there are any. -/
def SyncMode.interval? : SyncMode → Option UInt64
  | .eachAppend => none
  | .every ms => some ms

/-- How a log is set up. -/
structure Settings where
  /-- The directory of the segment files. -/
  directory : Path := .ofString "./atlaslog_data"
  /-- The size to which a segment grows. -/
  segmentSize : UInt64 := 32 * 1024 * 1024
  /-- What the names of the segment files begin with. -/
  stem : String := defaultStem
  sync : SyncMode := .every 10000
  /-- Whether an empty segment is kept ready for the time when the last one is full. -/
  lookAhead : Bool := true
  policy : Policy := .stop
  deriving DecidableEq, Repr, Inhabited

namespace Settings

/-- The smallest segment: it holds two records of one byte. -/
def minSegmentSize : Nat := 2 * (Frame.overhead + 1)

/-- The largest segment: the length of a payload is a signed word of four bytes. -/
def maxSegmentSize : Nat := 0x7FFFFFFF

/-- Refuses settings that describe no usable log. -/
def check (s : Settings) : Except LogError Unit :=
  if s.segmentSize.toNat < minSegmentSize then
    .error (.settings (.segmentTooSmall s.segmentSize.toNat minSegmentSize))
  else if maxSegmentSize < s.segmentSize.toNat then
    .error (.settings (.segmentTooLarge s.segmentSize.toNat))
  else if s.stem.toList = [] ∨ '-' ∈ s.stem.toList then .error (.settings (.badStem s.stem))
  else if s.sync = .every 0 then .error (.settings .zeroInterval)
  else .ok ()

/-- The largest payload for a segment of these settings. -/
def maxPayload (s : Settings) : Nat := Frame.maxPayload s.segmentSize.toNat

theorem check_eq_ok_iff (s : Settings) :
    s.check = .ok () ↔
      minSegmentSize ≤ s.segmentSize.toNat ∧ s.segmentSize.toNat ≤ maxSegmentSize ∧
        s.stem.toList ≠ [] ∧ '-' ∉ s.stem.toList ∧ s.sync ≠ .every 0 := by
  rw [check]
  split
  · exact ⟨fun h => (nomatch h), fun h => by omega⟩
  split
  · exact ⟨fun h => (nomatch h), fun h => by omega⟩
  split
  · rename_i h
    exact ⟨fun h => (nomatch h), fun h' => h.elim (absurd · h'.2.2.1) (absurd · h'.2.2.2.1)⟩
  split
  · rename_i h
    exact ⟨fun h => (nomatch h), fun h' => absurd h h'.2.2.2.2⟩
  · rename_i h3 h4
    exact ⟨fun _ => ⟨by omega, by omega, fun h => h3 (.inl h), fun h => h3 (.inr h), h4⟩,
      fun _ => rfl⟩

end Settings

end SegmentLog
