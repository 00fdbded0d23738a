import SegmentLog.Log
import SegmentLog.Proofs.Disk.Directories
import SegmentLog.Proofs.Store.Appending
import SegmentLog.Proofs.Store.Removing
import SegmentLog.Proofs.Store.Reopening

/-!
# Logs that follow one another on a directory

A session is a sequence of logs on one directory, each of them opened after the one before it was
dropped, and used by one caller. Beside the log it keeps account of the records that a replay owes:
those of the log itself, and those that earlier logs have left. The account follows from what the
operations give back, and from which segments stay active.

* `Session.step`, `Session.follow` — the account of one operation, and of a run;
* `Session.Sound` — the directory holds just the records of the account;
* `Session.replayed_exactly` — a replay after the run applies just these records.
-/

namespace SegmentLog

/-! ## Opening logs -/

namespace Log

variable {settings : Settings} {now : UInt64} {disk d : Disk} {monitor m : Monitor} {l : Log}

/-- What opening a log does. -/
theorem onDirectory_cases (h : onDirectory settings now disk monitor = (.ok l, d, m)) :
    settings.check = .ok () ∧ Disk.Furnishes disk d ∧ l = { store := l.store } ∧
      Store.onDirectory settings now d { monitor with policy := settings.policy } =
        .ok l.store := by
  unfold onDirectory at h
  split at h
  · cases h
  · rename_i hcheck
    have hmade := disk.furnishes_makeDirectories settings.directory
    split at h
    · cases h
    · rename_i hdirectories
      rw [hdirectories] at hmade
      dsimp only at h
      split at h
      · cases h
      · rename_i hstore
        cases h
        exact ⟨hcheck, hmade, rfl, hstore⟩

/-- A log is opened again on the directory that a store has left. -/
theorem exists_reopened {s : Store} {c : Settings} {left : List Volume}
    {past held : List (Position × Bytes)} (hs : s.Shelved c [] left past held) (now : UInt64)
    (monitor : Monitor) :
    ∃ l m, onDirectory c now s.disk monitor = (.ok l, s.disk, m) ∧ l.worker = none ∧
      l.store.Shelved c [] (s.shelf [] left) (past ++ held) [] := by
  have hsettings := hs.settings
  subst hsettings
  obtain ⟨store, hstore⟩ := Store.exists_onDirectory hs.shelves now
    { monitor with policy := s.settings.policy }
  refine ⟨{ store }, { monitor with policy := s.settings.policy }, ?_, rfl, ?_⟩
  · unfold onDirectory
    rw [hs.checked, Disk.makeDirectories_of_isDirectory hs.shelves.isDirectory]
    dsimp only
    rw [hstore]
  · have hbelow : ∀ v ∈ s.shelf [] left, v.id < s.ids.next := by
      intro v hv
      rcases List.mem_append.mp hv with hv | hv
      · exact hs.older v hv
      · obtain ⟨k, hk, rfl⟩ := List.mem_map.mp hv
        exact hs.below k (hs.known_own hk)
    have hopened := Store.shelved_onDirectory hstore hs.disk hs.stem hs.checked hs.removable
      hs.syncable hs.shelves hbelow
    rw [Store.shelf, Disk.stored_append, hs.past, hs.held] at hopened
    exact hopened

/-- A log that is opened on a disk with nothing on it. -/
theorem onDirectory_blank (hdirectory : settings.directory = ⟨[Path.dot]⟩)
    (hcheck : settings.check = .ok ()) (now : UInt64) (faults : Faults) :
    onDirectory settings now { faults } { policy := settings.policy } =
      (.ok { store := .blank settings now faults }, { faults }, { policy := settings.policy }) := by
  have hisDirectory : ({ faults } : Disk).isDirectory settings.directory = true := by
    rw [hdirectory]
    rfl
  unfold onDirectory
  rw [hcheck, Disk.makeDirectories_of_isDirectory hisDirectory]
  dsimp only
  rw [Store.onDirectory_blank hdirectory now faults]

theorem drop_of_idle (h : l.worker = none) : l.drop = l := by
  obtain ⟨store, worker, alive, workers⟩ := l
  cases h
  rfl

theorem stop_of_idle (h : l.worker = none) : l.stop.2 = { l with store := l.store.finish.2 } := by
  obtain ⟨store, worker, alive, workers⟩ := l
  cases h
  rfl

end Log

/-! ## Sessions -/

/-- What a caller does with a log, or with the next one on the directory. -/
inductive Operation : Type 1 where
  | append (m : Mutation)
  | discard (p : Partition) (upTo : Position)
  | sync (force : Bool)
  | stockSpare
  | keepIdsAbove (id : SegmentId)
  | wipe
  | stop
  /-- What earlier logs have left is replayed into a target that never fails. -/
  | replayLeftovers {σ : Type} (target : Target σ) (neverFails : target.NeverFails) (state : σ)
  /-- The log is dropped, and the next one is opened. -/
  | reopen (now : UInt64) (monitor : Monitor)

/-- A log, with the records that a replay owes. -/
structure Session where
  log : Log
  /-- The records that earlier logs have left. -/
  past : List (Position × Bytes) := []
  /-- The records of the log. -/
  held : List (Position × Bytes) := []

namespace Session

/-- All records that a replay owes. -/
def records (v : Session) : List (Position × Bytes) := v.past ++ v.held

/-- The store of the log takes another state. -/
def setStore (v : Session) (store : Store) : Session := { v with log.store := store }

/-- One operation, and what it does to the account. -/
def step (v : Session) : Operation → Session
  | .append m =>
    match v.log.store.append m with
    | (.ok p, store) => { v.setStore store with held := v.held ++ [(p, m.payload)] }
    | (.error _, store) => v.setStore store
  | .discard p upTo =>
    let store := v.log.store.discard p upTo
    { v.setStore store with held := v.held.filter fun r => r.1.segment ∈ store.activeIds }
  | .sync force => v.setStore (v.log.store.sync force).2
  | .stockSpare => v.setStore v.log.store.stockSpare.2
  | .keepIdsAbove id => v.setStore (v.log.store.keepIdsAbove id)
  | .wipe => { v.setStore v.log.store.wipe.2 with held := [] }
  | .stop => { v with log := v.log.stop.2 }
  | .replayLeftovers target _ state =>
    { v.setStore (v.log.store.replayLeftovers target state).2.1 with past := [] }
  | .reopen now monitor =>
    match Log.onDirectory v.log.store.settings now v.log.drop.store.disk monitor with
    | (.ok log, _) => { log, past := v.records }
    | (.error _, _) => { v with log := v.log.drop }

/-- A run of operations, as long as the numbers of segments do not run out. -/
def follow : List Operation → Session → Option Session
  | [], v => some v
  | o :: rest, v => if (v.step o).log.store.ids.next = 0 then none else follow rest (v.step o)

/-- Whether a directory holds just the records of the account. -/
structure Sound (v : Session) (c : Settings) : Prop where
  idle : v.log.worker = none
  shelved : ∃ left, v.log.store.Shelved c [] left v.past v.held

variable {v v' : Session} {c : Settings}

theorem Sound.setStore (hv : v.Sound c) {store : Store} {left : List Volume}
    {past held : List (Position × Bytes)} (hs : store.Shelved c [] left past held) :
    Sound { v.setStore store with past, held } c := ⟨hv.idle, left, hs⟩

/-- Every operation keeps the account. -/
theorem Sound.step (hv : v.Sound c) {o : Operation} (hids : (v.step o).log.store.ids.next ≠ 0) :
    (v.step o).Sound c := by
  obtain ⟨left, hs⟩ := hv.shelved
  unfold Session.step at hids ⊢
  cases o with
  | append m =>
    dsimp only at hids ⊢
    cases h : v.log.store.append m with
    | mk r store =>
      rw [h] at hids
      cases r with
      | ok p =>
        obtain ⟨_, hr, -⟩ | ⟨_, hr, hs'⟩ := hs.append h hids
        · cases hr
        · cases hr
          exact hv.setStore hs'
      | error e =>
        obtain ⟨_, -, hs'⟩ | ⟨_, hr, -⟩ := hs.append h hids
        · exact hv.setStore hs'
        · cases hr
  | discard p upTo => exact hv.setStore (hs.discard p upTo)
  | sync force => exact hv.setStore (hs.sync rfl)
  | stockSpare => exact hv.setStore (hs.stockSpare rfl hids)
  | keepIdsAbove id => exact hv.setStore (hs.keepIdsAbove id)
  | wipe => exact hv.setStore (hs.wipe rfl).2
  | stop =>
    dsimp only
    rw [Log.stop_of_idle hv.idle]
    exact hv.setStore (hs.finish rfl)
  | replayLeftovers target neverFails state =>
    obtain ⟨report, s', state', h, hs', -⟩ := hs.replayLeftovers neverFails state
    dsimp only
    rw [h]
    exact hv.setStore hs'
  | reopen now monitor =>
    obtain ⟨l, m, hopened, hidle, hs'⟩ := Log.exists_reopened hs now monitor
    dsimp only
    rw [Log.drop_of_idle hv.idle, hs.settings, hopened]
    exact ⟨hidle, _, hs'⟩

/-- A run keeps the account. -/
theorem Sound.follow (hv : v.Sound c) {ops : List Operation} (h : follow ops v = some v') :
    v'.Sound c := by
  induction ops generalizing v with
  | nil =>
    cases h
    exact hv
  | cons o rest ih =>
    unfold Session.follow at h
    split at h
    · cases h
    · rename_i hids
      exact ih (hv.step hids) h

/-- A log that was opened on a directory without segment files owes nothing. -/
theorem sound_opened {now : UInt64} {disk d : Disk} {monitor m : Monitor} {l : Log}
    (hopen : Log.onDirectory c now disk monitor = (.ok l, d, m)) (hdisk : disk.WellFormed)
    (hstem : '/' ∉ c.stem.toList) (hempty : segmentFiles d c.directory c.stem = .ok [])
    (hremove : ∀ f ∈ disk.faults.remove, f = none)
    (hsync : c.sync = .eachAppend → ∀ f ∈ disk.faults.sync, f = none) :
    Sound { log := l } c := by
  obtain ⟨hcheck, hmade, hl, hstore⟩ := Log.onDirectory_cases hopen
  have hidle : l.worker = none := congrArg Log.worker hl
  rw [← hmade.faults] at hremove hsync
  have hshelves : d.Shelves c.directory c.stem [] :=
    ⟨hempty, .nil, fun _ hv => (nomatch hv), fun _ hv => (nomatch hv), fun _ hv => (nomatch hv)⟩
  have hbelow : ∀ v ∈ ([] : List Volume), v.id < 0 := fun _ hv => (nomatch hv)
  exact ⟨hidle, [], Store.shelved_onDirectory hstore (hmade.wellFormed hdisk) hstem hcheck hremove
    hsync hshelves hbelow⟩

/-- What is owed is in the order of the positions, and no position occurs twice. -/
theorem Sound.ascending (hv : v.Sound c) : v.records.Pairwise fun r r' => r.1 < r'.1 := by
  obtain ⟨left, hs⟩ := hv.shelved
  have hascending := hs.shelves.ascending_stored
  rw [Store.shelf, Disk.stored_append, hs.past, hs.held] at hascending
  exact hascending

/-- **A replay applies exactly the records that were appended and not reclaimed.** Take any settings
whose stem holds no separator, and any directory that holds no segment file of this stem when it is
first opened. Let any run of appends, discards, syncs, resets, spares and replays follow, over any
number of logs that are opened one after the other, with or without a stop in between. Files may
fail to be created, and writes may fail with any beginning of the frame on the disk; files can be
removed, and syncs do not fail where every append is synced. Then at any point the log can be
dropped and opened again, and a target that never fails takes in each record whose append succeeded
and whose segment was neither reclaimed, reset nor replayed since: once, in the order of the
appends, at the position that was given back, with its payload; and it takes in nothing else. -/
theorem replayed_exactly {settings : Settings} {now : UInt64} {disk d : Disk} {monitor m : Monitor}
    {l : Log} {ops : List Operation} {v : Session}
    (hopen : Log.onDirectory settings now disk monitor = (.ok l, d, m))
    (hdisk : disk.WellFormed) (hstem : '/' ∉ settings.stem.toList)
    (hempty : segmentFiles d settings.directory settings.stem = .ok [])
    (hremove : ∀ f ∈ disk.faults.remove, f = none)
    (hsync : settings.sync = .eachAppend → ∀ f ∈ disk.faults.sync, f = none)
    (hrun : follow ops { log := l } = some v) (now' : UInt64) (monitor' : Monitor) :
    v.records.Pairwise (fun r r' => r.1 < r'.1) ∧
    ∃ l' m', Log.onDirectory settings now' v.log.drop.store.disk monitor' =
        (.ok l', v.log.drop.store.disk, m') ∧
      ∀ {σ : Type} {target : Target σ}, target.NeverFails → ∀ state : σ,
        ∃ report s' state', l'.store.replayLeftovers target state = (.ok report, s', state') ∧
          Store.Replayed target v.records report state state' := by
  have hv := (sound_opened hopen hdisk hstem hempty hremove hsync).follow hrun
  obtain ⟨left, hs⟩ := hv.shelved
  obtain ⟨l', m', hopened, -, hs'⟩ := Log.exists_reopened hs now' monitor'
  rw [Log.drop_of_idle hv.idle]
  refine ⟨hv.ascending, l', m', hopened, fun ht state => ?_⟩
  obtain ⟨report, s', state', h, -, hreplayed⟩ := hs'.replayLeftovers ht state
  exact ⟨report, s', state', h, hreplayed⟩

/-! ## Runs that can be computed -/

theorem follow_append (xs ys : List Operation) (v : Session) :
    follow (xs ++ ys) v = (follow xs v).bind (follow ys) := by
  induction xs generalizing v with
  | nil => rfl
  | cons o rest ih =>
    rw [List.cons_append, follow, follow]
    split
    · rfl
    · exact ih _

/-- The session after the next log was opened on a directory with known segment files. -/
def reopened (v : Session) (found : List (SegmentName × Path)) (now : UInt64) (monitor : Monitor) :
    Session where
  log :=
    { store :=
        { settings := v.log.store.settings
          ids := found.foldl (fun ids e => ids.keepAbove e.1.id) (.ofClock now)
          disk := v.log.store.disk
          monitor := { monitor with policy := v.log.store.settings.policy } } }
  past := v.records

theorem step_reopen {found : List (SegmentName × Path)} (hidle : v.log.worker = none)
    (hcheck : v.log.store.settings.check = .ok ())
    (hdirectory : v.log.store.disk.isDirectory v.log.store.settings.directory = true)
    (hlisted : segmentFiles v.log.store.disk v.log.store.settings.directory
      v.log.store.settings.stem = .ok found) (now : UInt64) (monitor : Monitor) :
    v.step (.reopen now monitor) = v.reopened found now monitor := by
  unfold Session.step Log.onDirectory
  rw [Log.drop_of_idle hidle, hcheck, Disk.makeDirectories_of_isDirectory hdirectory]
  dsimp only
  rw [Store.onDirectory_of_listed hdirectory hlisted]
  rfl

/-- Two logs follow one another. Of the first, a file fails to be created, a write breaks off, a
record is discarded with its segment, and one record is left; the second appends one more. A replay
after both applies these two records. -/
theorem replayed_exactly_two_logs :
    ∃ (settings : Settings) (l : Log) (v : Session),
      settings = { directory := ⟨[Path.dot]⟩, segmentSize := 64, sync := .eachAppend } ∧
      l = { store := .blank settings 5
              { create := [some .device], write := [none, some (5, .device)] } } ∧
      follow ([.append (.raw [⟨1⟩] [1]), .append (.raw [⟨1⟩] [2, 3]), .append (.raw [⟨1⟩] [4]),
        .append (.raw [⟨2⟩] [5]), .discard ⟨1⟩ ⟨6, 14⟩] ++
        [.reopen 3 { policy := .stop }, .append (.raw [⟨1⟩] [6, 7])]) { log := l } = some v ∧
      ∃ l' m' report s',
        Log.onDirectory settings 9 v.log.drop.store.disk { policy := .stop } =
          (.ok l', v.log.drop.store.disk, m') ∧
        l'.store.replayLeftovers
          (Target.total fun p x (s : List (Position × Bytes)) => s ++ [(p, x)]) [] =
            (.ok report, s', [(⟨7, 0⟩, [5]), (⟨8, 0⟩, [6, 7])]) := by
  have h₁ : (follow [.append (.raw [⟨1⟩] [1]), .append (.raw [⟨1⟩] [2, 3]),
      .append (.raw [⟨1⟩] [4]), .append (.raw [⟨2⟩] [5]), .discard ⟨1⟩ ⟨6, 14⟩]
      { log :=
          { store := .blank { directory := ⟨[Path.dot]⟩, segmentSize := 64, sync := .eachAppend } 5
              { create := [some .device], write := [none, some (5, .device)] } } }).isSome =
        true := by
    decide +kernel
  have h₂ : (follow [.append (.raw [⟨1⟩] [6, 7])] ((Option.get _ h₁).reopened
      [(.ofId 7, (SegmentName.ofId 7).pathIn ⟨[Path.dot]⟩ defaultStem)] 3
      { policy := .stop })).isSome = true := by decide +kernel +revert
  obtain ⟨hrecords, hentries, hfile, hidle, hsettings, hdirectory, hids⟩ :
      (Option.get _ h₂).records = [(⟨7, 0⟩, [5]), (⟨8, 0⟩, [6, 7])] ∧
      (Option.get _ h₁).log.store.disk.entries ⟨[Path.dot]⟩ =
        .ok [(SegmentName.ofId 7).fileName defaultStem] ∧
      [(SegmentName.ofId 7).fileName defaultStem].filterMap (fun n =>
        segmentFile? (Option.get _ h₁).log.store.disk defaultStem (Path.join ⟨[Path.dot]⟩ ⟨n⟩)) =
          [(.ofId 7, (SegmentName.ofId 7).pathIn ⟨[Path.dot]⟩ defaultStem)] ∧
      (Option.get _ h₁).log.worker = none ∧
      (Option.get _ h₁).log.store.settings =
        { directory := ⟨[Path.dot]⟩, segmentSize := 64, sync := .eachAppend } ∧
      (Option.get _ h₁).log.store.disk.isDirectory ⟨[Path.dot]⟩ = true ∧
      ((Option.get _ h₁).reopened
        [(.ofId 7, (SegmentName.ofId 7).pathIn ⟨[Path.dot]⟩ defaultStem)] 3
        { policy := .stop }).log.store.ids.next ≠ 0 := by
    decide +kernel +revert
  have hlisted : segmentFiles (Option.get _ h₁).log.store.disk ⟨[Path.dot]⟩ defaultStem =
      .ok [(.ofId 7, (SegmentName.ofId 7).pathIn ⟨[Path.dot]⟩ defaultStem)] :=
    segmentFiles_singleton hentries hfile
  have hrun : follow ([.append (.raw [⟨1⟩] [1]), .append (.raw [⟨1⟩] [2, 3]),
      .append (.raw [⟨1⟩] [4]), .append (.raw [⟨2⟩] [5]), .discard ⟨1⟩ ⟨6, 14⟩] ++
      [.reopen 3 { policy := .stop }, .append (.raw [⟨1⟩] [6, 7])])
      { log :=
          { store := .blank { directory := ⟨[Path.dot]⟩, segmentSize := 64, sync := .eachAppend } 5
              { create := [some .device], write := [none, some (5, .device)] } } } =
        some (Option.get _ h₂) := by
    refine (follow_append _ _ _).trans ?_
    refine (congrArg (Option.bind · _) (Option.some_get h₁).symm).trans ?_
    show follow [.reopen 3 { policy := .stop }, _] _ = _
    rw [follow, step_reopen hidle (by rw [hsettings]; rfl) hdirectory hlisted, if_neg hids]
    exact (Option.some_get h₂).symm
  obtain ⟨-, l', m', hopened, hreplay⟩ := replayed_exactly
    (Log.onDirectory_blank rfl rfl 5
      { create := [some .device], write := [none, some (5, .device)] })
    (Disk.wellFormed_empty _)
    (by decide +kernel) (Store.segmentFiles_blank _ _) (fun _ hf => (List.not_mem_nil hf).elim)
    (fun _ _ hf => (List.not_mem_nil hf).elim) hrun 9 { policy := .stop }
  obtain ⟨report, s', state', h, hreplayed⟩ := hreplay ⟨Target.accepting_total _, fun _ => rfl⟩ []
  rw [hrecords] at hreplayed
  refine ⟨_, _, _, rfl, rfl, hrun, l', m', report, s', hopened, ?_⟩
  rcases hreplayed.state with ⟨-, hnone, -⟩ | ⟨-, rfl⟩
  · cases hnone
  · exact h

end Session

end SegmentLog
