import SegmentLog.Replay.Basic
import SegmentLog.Store.Basic

/-!
# What an earlier run left behind

Segment files are replayed into a target, and after that the numbers of new segments stay above
theirs. The leftovers of a directory are the segment files there that are not the store's own;
they are removed once they were replayed and the target has flushed, and if the replay fails, all
of them stay. The steps between which others may run are listing, sorting out, replaying and
removing.

* `replay_error` — a replay that fails changes nothing in the store.
-/

namespace SegmentLog.Store

variable {σ : Type}

/-- Replays segment files. -/
def replay (s : Store) (target : Target σ) (paths : List Path) (state : σ) :
    Except LogError ReplayReport × Store × σ :=
  match ({ stem := s.settings.stem } : Replay).run target s.disk paths state with
  | (.error e, state) => (.error e, s, state)
  | (.ok report, state) =>
    match report.maxId with
    | some id => (.ok report, s.keepIdsAbove id, state)
    | none => (.ok report, s, state)

/-- The segment files among some that are not those of the store. -/
def foreign (s : Store) (found : List (SegmentName × Path)) : List Path :=
  (found.map (·.2)).filter fun p => !s.owns p

/-- Removes replayed files. One that cannot be removed is left. -/
def removeReplayed : List Path → Store → Store
  | [], s => s
  | p :: rest, s => removeReplayed rest { s with disk := (s.disk.remove p).2 }

/-- Replays every segment file in the directory that is not the store's own, and removes them. -/
def replayLeftovers (s : Store) (target : Target σ) (state : σ) :
    Except LogError ReplayReport × Store × σ :=
  match segmentFiles s.disk s.settings.directory s.settings.stem with
  | .error e => (.error (.io (.disk e)), s, state)
  | .ok found =>
    match s.foreign found with
    | [] => (.ok {}, s, state)
    | paths@(_ :: _) =>
      match s.replay target paths state with
      | (.error e, s, state) => (.error e, s, state)
      | (.ok report, s, state) => (.ok report, removeReplayed paths s, state)

theorem replay_error {s t : Store} {target : Target σ} {paths : List Path} {state state' : σ}
    {e : LogError} (h : s.replay target paths state = (.error e, t, state')) : t = s := by
  rw [replay] at h
  split at h
  · cases h; rfl
  · split at h <;> cases h

end SegmentLog.Store
