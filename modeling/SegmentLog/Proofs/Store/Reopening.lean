import SegmentLog.Proofs.Replay.Shelves
import SegmentLog.Proofs.Store.Shelved
import SegmentLog.Store.Leftovers

/-!
# Opening a directory, and what was left there

A store that is opened on a directory finds there what earlier stores have left, and holds nothing
yet. When it replays that, a target that never fails takes in just the records that were left, and
the files are gone afterwards.

* `shelved_onDirectory` — what a store finds when it is opened;
* `Shelved.foreign` — which files were left by earlier stores;
* `Shelved.replayLeftovers` — they are replayed and removed.
-/

namespace SegmentLog

/-! ## Opening -/

theorem IdSource.lt_foldl {found : List (SegmentName × Path)} {e : SegmentName × Path}
    (he : e ∈ found) {top : SegmentId} (h : e.1.id < top) (s : IdSource) :
    e.1.id < (found.foldl (fun s e => s.keepAbove e.1.id) s).next := by
  induction found generalizing s with
  | nil => cases he
  | cons e' rest ih =>
    rcases List.mem_cons.mp he with rfl | he
    · exact UInt64.lt_of_lt_of_le (s.lt_keepAbove h) (next_le_foldl rest _)
    · exact ih he _

namespace Store

variable {s : Store} {c : Settings} {left : List Volume} {past held : List (Position × Bytes)}
  {settings : Settings} {now : UInt64} {disk : Disk} {monitor : Monitor}

theorem exists_onDirectory {shelf : List Volume}
    (hshelves : disk.Shelves settings.directory settings.stem shelf) (now : UInt64)
    (monitor : Monitor) : ∃ s, onDirectory settings now disk monitor = .ok s :=
  ⟨_, onDirectory_of_listed hshelves.isDirectory hshelves.listed now monitor⟩

/-- A store that was just opened finds what was left on the shelf, and holds no records. -/
theorem shelved_onDirectory (h : onDirectory settings now disk monitor = .ok s)
    (hd : disk.WellFormed) (hstem : '/' ∉ settings.stem.toList)
    (hcheck : settings.check = .ok ()) (hremove : ∀ f ∈ disk.faults.remove, f = none)
    (hsync : settings.sync = .eachAppend → ∀ f ∈ disk.faults.sync, f = none) {shelf : List Volume}
    (hshelves : disk.Shelves settings.directory settings.stem shelf) {top : SegmentId}
    (hbelow : ∀ v ∈ shelf, v.id < top) : s.Shelved settings [] shelf (disk.stored shelf) [] := by
  have hsound := sound_onDirectory h hd
  obtain ⟨found, rfl, hlisted⟩ := onDirectory_cases h
  have hfound := hlisted hshelves.isDirectory
  rw [hshelves.listed] at hfound
  cases hfound
  have hentry : ∀ v ∈ shelf, v.entry settings.directory settings.stem ∈
      shelf.map (·.entry settings.directory settings.stem) := fun v hv => List.mem_map_of_mem hv
  have hwhole := hshelves
  rw [← List.append_nil shelf] at hwhole
  exact {
    toSound := hsound
    settings := rfl
    checked := hcheck
    stem := hstem
    shelves := hwhole
    older := fun v hv => IdSource.lt_foldl (hentry v hv) (hbelow v hv) _
    past := rfl
    held := rfl
    whole := fun _ hk => (nomatch hk)
    removable := hremove
    syncable := hsync }

/-! ## Which files were left -/

/-- The name of a volume can stand in a directory. -/
theorem Shelved.isName (hs : s.Shelved c [] left past held) {v : Volume}
    (hv : v ∈ s.shelf [] left) :
    Disk.IsName ((SegmentName.ofId v.id).fileName s.settings.stem) := by
  obtain ⟨q, hq⟩ := hs.shelves.found v hv
  exact (SegmentName.name_of_locate hs.stem (Disk.find_eq_ok_iff.mp hq).1).2

/-- A store owns just the volumes of its segments. -/
theorem Shelved.owns_iff (hs : s.Shelved c [] left past held) {v : Volume}
    (hv : v ∈ s.shelf [] left) :
    s.owns (v.path s.settings.directory s.settings.stem) = true ↔
      v.id ∈ ((s.own []).map s.volume).map (·.id) := by
  have hsame : ∀ k ∈ s.own [], (s.segment k).path.same
      (v.path s.settings.directory s.settings.stem) = true ↔ (s.volume k).id = v.id := by
    intro k hk
    have hk' : s.volume k ∈ s.shelf [] left := List.mem_append_right _ (List.mem_map_of_mem hk)
    rw [hs.filed.path_eq (hs.known_own hk)]
    refine (SegmentName.same_join_iff (hs.isName hk') (hs.isName hv)).trans ?_
    exact ⟨fun h => congrArg SegmentName.id h, fun h => congrArg SegmentName.ofId h⟩
  have hown : s.active ++ s.spare.toList = s.own [] := by simp [own]
  unfold owns
  rw [hown, List.any_eq_true, List.map_map, List.mem_map]
  exact exists_congr fun k => and_congr_right (hsame k)

/-- The files that are not those of a store are just what earlier stores have left. -/
theorem Shelved.foreign (hs : s.Shelved c [] left past held) :
    s.foreign ((s.shelf [] left).map (·.entry s.settings.directory s.settings.stem)) =
      left.map (·.path s.settings.directory s.settings.stem) := by
  obtain ⟨-, -, hbefore⟩ := List.pairwise_append.mp hs.shelves.ascending
  unfold Store.foreign
  rw [List.map_map, shelf, List.map_append, List.filter_append]
  have hkept : (left.map fun v => v.path s.settings.directory s.settings.stem).filter
      (fun p => !s.owns p) = left.map fun v => v.path s.settings.directory s.settings.stem := by
    refine List.filter_eq_self.mpr fun p hp => ?_
    obtain ⟨v, hv, rfl⟩ := List.mem_map.mp hp
    rw [Bool.not_eq_true', Bool.eq_false_iff, Ne, hs.owns_iff (List.mem_append_left _ hv)]
    intro hid
    obtain ⟨u, hu, he⟩ := List.mem_map.mp hid
    exact UInt64.lt_irrefl _ (he ▸ (hbefore v hv u hu).1)
  have hnone : (((s.own []).map s.volume).map
      fun v => v.path s.settings.directory s.settings.stem).filter (fun p => !s.owns p) = [] := by
    refine List.filter_eq_nil_iff.mpr fun p hp => ?_
    obtain ⟨v, hv, rfl⟩ := List.mem_map.mp hp
    rw [Bool.not_eq_true, Bool.not_eq_false', hs.owns_iff (List.mem_append_right _ hv)]
    exact List.mem_map_of_mem hv
  exact (congrArg₂ (· ++ ·) hkept hnone).trans (List.append_nil _)

/-! ## Replaying what was left -/

/-- The first of the volumes that earlier stores have left is removed. -/
theorem Shelved.takeLeft {v : Volume} (hs : s.Shelved c [] (v :: left) past held)
    {r : Except DiskError Unit} {d : Disk}
    (hr : s.disk.remove (v.path s.settings.directory s.settings.stem) = (r, d)) :
    Shelved { s with disk := d } c [] left (s.disk.stored left) held := by
  have hshelves : s.disk.Shelves s.settings.directory s.settings.stem
      ([] ++ v :: (left ++ (s.own []).map s.volume)) := hs.shelves
  obtain ⟨-, hd, hfiles, hshelves'⟩ :=
    hshelves.remove hs.disk hs.stem (Faults.next?_eq_none hs.removable) hr
  have hfound : ∀ k ∈ s.own [], Found { s with disk := d } k := by
    intro k hk
    obtain ⟨q, hq⟩ := hshelves'.found (s.volume k)
      (List.mem_append_right left (List.mem_map_of_mem hk))
    rw [← hs.filed.path_eq (hs.known_own hk)] at hq
    exact ⟨q, hq⟩
  have hs' := hs.of_remove hr hfiles (hs.toSound.of_found hd hfiles hfound) hshelves'
    (fun _ hu => List.mem_cons_of_mem _ hu) fun _ hk => hk
  rw [show s.disk.stored ((own { s with disk := d } []).map s.volume) = held from hs.held] at hs'
  exact hs'

/-- What earlier stores have left is removed as a whole. -/
theorem Shelved.removeReplayed (hs : s.Shelved c [] left past held) :
    (removeReplayed (left.map (·.path s.settings.directory s.settings.stem)) s).Shelved c [] [] []
      held := by
  induction left generalizing s past with
  | nil =>
    obtain rfl : [] = past := hs.past
    exact hs
  | cons v left ih =>
    cases hr : s.disk.remove (v.path s.settings.directory s.settings.stem) with
    | mk r d =>
      have hs' := ih (hs.takeLeft hr)
      rw [List.map_cons]
      unfold Store.removeReplayed
      rw [hr]
      exact hs'

variable {σ : Type} {target : Target σ}

/-- A replay changes nothing in a store but the numbers still to come. -/
theorem Shelved.replay (hs : s.Shelved c [] left past held) {paths : List Path} {state state' : σ}
    {report : ReplayReport}
    (h : ({ stem := s.settings.stem } : Replay).run target s.disk paths state =
      (.ok report, state')) :
    ∃ s', s.replay target paths state = (.ok report, s', state') ∧ s'.settings = s.settings ∧
      s'.Shelved c [] left past held := by
  unfold Store.replay
  rw [h]
  dsimp only
  split
  · rename_i id _
    exact ⟨_, rfl, rfl, hs.keepIdsAbove id⟩
  · exact ⟨s, rfl, rfl, hs⟩

/-- Whether a replay handed just some records to a target, one after the other, and then let it
flush; where there was no file to replay, the target was left alone. -/
structure Replayed (target : Target σ) (records : List (Position × Bytes)) (report : ReplayReport)
    (state state' : σ) : Prop where
  applied : report.applied = records.length
  passed : report.passed = 0
  state : report.files = [] ∧ records = [] ∧ state' = state ∨
    report.files ≠ [] ∧ state' = (target.flush (target.feed records state)).2

/-- **What earlier stores have left is replayed once**: a target that never fails takes in just the
records that were left, in their order, and then they are gone. -/
theorem Shelved.replayLeftovers (hs : s.Shelved c [] left past held) (ht : target.NeverFails)
    (state : σ) :
    ∃ report s' state', s.replayLeftovers target state = (.ok report, s', state') ∧
      s'.Shelved c [] [] [] held ∧ Replayed target past report state state' := by
  unfold Store.replayLeftovers
  rw [hs.shelves.listed]
  dsimp only
  rw [hs.foreign]
  cases hleft : left with
  | nil =>
    subst hleft
    obtain rfl : [] = past := hs.past
    exact ⟨{}, s, state, rfl, hs, rfl, rfl, .inl ⟨rfl, rfl, rfl⟩⟩
  | cons v rest =>
    have hmem : ∀ u ∈ left, u ∈ s.shelf [] left := fun u hu => List.mem_append_left _ hu
    have hascending := (List.pairwise_append.mp hs.shelves.ascending).1.imp And.left
    have hcontents := fun u hu => hs.shelves.contents (hmem u hu)
    have hrun := Replay.run_shelf ht hascending (fun u hu => hs.isName (hmem u hu)) hcontents state
    obtain ⟨happlied, hpassed, hfiles⟩ := Replay.reportOnAll_shelf hcontents
    rw [hs.past] at hrun happlied
    have hreplayed : Replayed target past (s.disk.reportOnAll
        (left.map (·.entry s.settings.directory s.settings.stem))) state
        (target.flush (target.feed past state)).2 := by
      refine ⟨happlied, hpassed, .inr ⟨?_, rfl⟩⟩
      rw [hfiles, hleft]
      exact List.cons_ne_nil _ _
    obtain ⟨s₁, hreplay, hsettings, hs₁⟩ := hs.replay hrun
    have hremoved := hs₁.removeReplayed
    rw [hsettings] at hremoved
    rw [hleft] at hreplay hremoved hreplayed
    rw [List.map_cons]
    dsimp only
    rw [← List.map_cons (f := fun u : Volume => u.path s.settings.directory s.settings.stem),
      hreplay]
    exact ⟨_, _, _, rfl, hremoved, hreplayed⟩

end Store

end SegmentLog
