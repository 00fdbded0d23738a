import SegmentLog.Proofs.Concurrent.States
import SegmentLog.Proofs.Store.Roomy

/-!
# Sizes that fit among many callers

A store can be used by one caller or by many, with recoveries among them, and for so long that the
numbers of segments run out and start over. In every state that it comes to, what is accepted by
its size fits.

* `World.roomy_step` — every step of the world leaves room;
* `Scene.roomy_run` — so does a recovery, and a whole run;
* `Store.accepted_sizes_fit` — so it is in all states that a store can come to.
-/

namespace SegmentLog

/-! ## Steps of the world -/

namespace World

variable {w w' : World}

/-- Every step leaves room. -/
theorem roomy_step (hw : w.store.Roomy w.loose) {e : Event} (h : w.step e = some w') :
    w'.store.Roomy w'.loose := by
  cases effect_of_step h with
  | refused | spareMissing | spareThere | startDiscard | startSync => exact hw
  | denied _ hclaim => exact hw.claim hclaim
  | granted _ hclaim => exact hw.claim hclaim
  | append _ hadvance =>
    obtain ⟨-, r, hwrite, -⟩ | ⟨hevolves, hactive, hspare, -⟩ := Appending.advance_cases hadvance
    · exact hw.write hwrite
    · exact hw.of_places hevolves hactive hspare
  | spareFailed _ hn =>
    obtain ⟨_, -, hs⟩ | ⟨hr, -⟩ := hw.newSegment hn
    · exact hs.of_places (.of_eq rfl rfl rfl) rfl rfl
    · cases hr
  | spareCreated _ hn =>
    obtain ⟨_, hr, -⟩ | ⟨hr, hs⟩ := hw.newSegment hn <;> cases hr
    exact hs
  | @placeSpare k hk =>
    have hperm := List.perm_cons_erase hk
    refine Store.Roomy.placeSpare (hw.arrange (.refl _) (List.Perm.subperm ?_) fun j hj => ?_)
    · exact (hperm.symm.append_left _).append_left _
    · exact (hperm.symm.append_left _).subset hj
  | discard _ hadvance =>
    obtain ⟨k, rest, -, heffect⟩ := Walk.effect_of_advance hadvance
    cases heffect with
    | flush => exact hw.noteFlush _ _ _
    | unlink => exact hw.withdraw List.erase_sublist (List.Sublist.refl _)
    | delete => exact hw.deleteFile _
    | spent | needed | keep | stop | next => exact hw
  | sync _ hadvance =>
    obtain ⟨hevolves, hactive, hspare, -⟩ := Syncing.advance_cases hadvance
    exact hw.of_places hevolves hactive hspare
  | retireSpare => exact hw.withdraw (List.Sublist.refl _) (List.nil_sublist _)
  | reset => exact hw.withdraw (List.nil_sublist _) (List.nil_sublist _)
  | delete => exact hw.deleteFile _
  | keepIdsAbove => exact hw.of_places (.of_eq rfl rfl rfl) rfl rfl

end World

/-! ## Runs -/

variable {σ : Type}

namespace Scene

variable {c c' : Scene σ}

theorem roomy_step (hc : c.world.store.Roomy c.world.loose) {e : Event σ}
    (h : c.step e = some c') : c'.world.store.Roomy c'.world.loose := by
  unfold Scene.step at h
  cases e with
  | world e =>
    obtain ⟨w, hw, rfl⟩ := Option.map_eq_some_iff.mp h
    exact World.roomy_step hc hw
  | start target state =>
    cases h
    exact hc
  | recover i =>
    simp only [Option.map_eq_some_iff, Option.bind_eq_some_iff] at h
    obtain ⟨⟨r', store⟩, ⟨r, -, ha⟩, rfl⟩ := h
    obtain ⟨hevolves, hactive, hspare⟩ := Recovery.advance_evolves ha
    exact hc.of_places hevolves hactive hspare

/-- Every run leaves room, whatever happens in it. -/
theorem roomy_run {allowed : Scene σ → Event σ → Scene σ → Prop}
    (hc : c.world.store.Roomy c.world.loose) (h : Run allowed c c') :
    c'.world.store.Roomy c'.world.loose := by
  induction h with
  | refl => exact hc
  | step e _ hstep _ ih => exact roomy_step ih hstep

end Scene

/-! ## All states -/

namespace Store

variable {settings : Settings} {now : UInt64} {disk : Disk} {monitor : Monitor} {opened s : Store}

theorem Reached.roomy (hs : opened.Reached Scene.Anything s)
    (hopen : onDirectory settings now disk monitor = .ok opened) (hd : disk.WellFormed) :
    ∃ loose, s.Roomy loose := by
  have hroomy := roomy_onDirectory hopen
  cases hs with
  | alone requests => exact ⟨[], hroomy.serveAll (housed_onDirectory hopen hd) requests⟩
  | amid hrun => exact ⟨_, Scene.roomy_run hroomy hrun⟩

/-- **Every size that is accepted fits.** Take a store that was opened with any settings that pass
the check, on any disk, and any state that it comes to after that, by the requests of one caller or
with any number of callers and recoveries, whatever has failed, and even after the numbers of
segments have run out. Some size is accepted; the frame of a payload that is accepted takes at most
half a segment and states the length of its payload, which is positive and not the end marker; no
sum over a cursor exceeds its word; the segment that is chosen for a frame takes it in, so that no
append is told that there was no room; and an empty segment has room for two records of the largest
size. -/
theorem accepted_sizes_fit (hopen : onDirectory settings now disk monitor = .ok opened)
    (hdisk : disk.WellFormed) (hchecked : settings.check = .ok ())
    (hs : opened.Reached Scene.Anything s) : s.settings = settings ∧ s.SizesFit := by
  obtain ⟨loose, hroomy⟩ := hs.roomy hopen hdisk
  obtain ⟨-, hsettings⟩ := hs.filed hopen hdisk
  exact ⟨hsettings, hroomy.sizesFit (by rw [hsettings]; exact hchecked)⟩

/-- The smallest segments, of two records of one byte, after three appends with a spare between
them. -/
theorem accepted_sizes_fit_smallest :
    let settings : Settings := { directory := ⟨[Path.dot]⟩, segmentSize := 26 }
    let s := (blank settings 5).serveAll [.append (.raw [⟨1⟩] [7]), .stockSpare,
      .append (.raw [⟨1⟩] [8]), .append (.raw [⟨2⟩] [9])]
    s.active = [0, 1] ∧ (s.segment 0).cursor = 26 ∧ s.SizesFit := by
  intro settings s
  refine ⟨by decide +kernel, by decide +kernel, ?_⟩
  exact (accepted_sizes_fit (onDirectory_blank rfl 5 {}) (Disk.wellFormed_empty _) (by decide)
    (.alone _)).2

end Store

end SegmentLog
