import SegmentLog.Proofs.Concurrent.Layout
import SegmentLog.Proofs.Concurrent.Recovery
import SegmentLog.Proofs.Store.Requests

/-!
# The states of a store

A store comes to be what it is by the requests of a caller that is alone with it, or by the steps
of any number of callers and recoveries. `Store.Reached` is each of its states, under a condition on
the steps of many callers. Whatever happens, a store keeps its settings, and its segments keep the
files that were made for them; unless the numbers run out, or a recovery comes upon a spare without
a place, the files of its active segments stay where they are.

* `World.filed_step`, `Scene.filed_run` — what every step keeps, and a whole run;
* `Store.Reached` — the states;
* `Reached.filed`, `Reached.housed` — what holds in all of them.
-/

namespace SegmentLog

/-! ## Steps of the world -/

namespace World

variable {w w' : World}

/-- No step changes the settings, and segments keep the files that were made for them. -/
theorem filed_step (hw : w.store.Filed) {e : Event} (h : w.step e = some w') :
    w'.store.Filed ∧ w'.store.settings = w.store.settings := by
  obtain ⟨-, hevolves | ⟨k, p, upTo, he⟩⟩ | ⟨m, frame, c, hframe, hclaim, -⟩ |
    ⟨i, a, a', -, hadvance, -⟩ := step_cases h
  · exact ⟨hevolves.filed hw, hevolves.settings⟩
  · rw [he]
    exact ⟨hw.modify (f := fun g => g.noteFlush p upTo) (Segment.sameFile_noteFlush _ p upTo), rfl⟩
  · obtain ⟨_, hr, -⟩ | ⟨s₁, _, -, hevolves, -, -, he⟩ :=
      Store.claim_evolves hclaim (Mutation.frame_pos hframe)
    · cases hr
    · rw [he]
      exact ⟨(hevolves.filed hw).modify ⟨rfl, rfl, rfl, rfl⟩, hevolves.settings⟩
  · obtain ⟨-, r, hwrite, -⟩ | ⟨hevolves, -⟩ := Appending.advance_cases hadvance
    · exact ⟨hw.write hwrite, Store.settings_write hwrite⟩
    · exact ⟨hevolves.filed hw, hevolves.settings⟩

end World

/-! ## Recoveries -/

variable {σ : Type}

/-- A recovery neither claims nor writes anything, and leaves all segments in their places. -/
theorem Recovery.advance_evolves {r r' : Recovery σ} {s s' : Store}
    (h : r.advance s = some (r', s')) :
    s.Evolves s' ∧ s'.active = s.active ∧ s'.spare = s.spare := by
  have hsame : s.Evolves s ∧ s.active = s.active ∧ s.spare = s.spare := ⟨.refl s, rfl, rfl⟩
  have hreplayed : ∀ paths, s.Evolves (s.replay r.target paths r.state).2.1 ∧
      (s.replay r.target paths r.state).2.1.active = s.active ∧
      (s.replay r.target paths r.state).2.1.spare = s.spare := by
    intro paths
    unfold Store.replay
    split
    · exact hsame
    · split
      · exact ⟨.of_eq rfl rfl rfl, rfl, rfl⟩
      · exact hsame
  cases effect_of_advance h with
  | «end» _ hstore =>
    rcases hstore with rfl | ⟨paths, rfl⟩
    · exact hsame
    · exact hreplayed paths
  | list | pass | keep => exact hsame
  | replay => exact hreplayed _
  | remove => exact ⟨Store.evolves_remove rfl, rfl, rfl⟩

namespace Scene

variable {c c' : Scene σ}

/-- Whatever may happen, may happen here. -/
def Anything (_ : Scene σ) (_ : Event σ) (_ : Scene σ) : Prop := True

theorem filed_step (hc : c.world.store.Filed) {e : Event σ} (h : c.step e = some c') :
    c'.world.store.Filed ∧ c'.world.store.settings = c.world.store.settings := by
  unfold Scene.step at h
  cases e with
  | world e =>
    obtain ⟨w, hw, rfl⟩ := Option.map_eq_some_iff.mp h
    exact World.filed_step hc hw
  | start target state =>
    cases h
    exact ⟨hc, rfl⟩
  | recover i =>
    simp only [Option.map_eq_some_iff, Option.bind_eq_some_iff] at h
    obtain ⟨⟨r', store⟩, ⟨r, -, ha⟩, rfl⟩ := h
    obtain ⟨hevolves, -, -⟩ := Recovery.advance_evolves ha
    exact ⟨hevolves.filed hc, hevolves.settings⟩

/-- No run changes the settings, and segments keep the files that were made for them. -/
theorem filed_run {allowed : Scene σ → Event σ → Scene σ → Prop} (hc : c.world.store.Filed)
    (h : Run allowed c c') :
    c'.world.store.Filed ∧ c'.world.store.settings = c.world.store.settings := by
  induction h with
  | refl => exact ⟨hc, rfl⟩
  | step e _ hstep _ ih =>
    obtain ⟨hd, hsettings⟩ := ih
    obtain ⟨he, hsettings'⟩ := filed_step hd hstep
    exact ⟨he, hsettings'.trans hsettings⟩

end Scene

/-! ## All states -/

namespace Store

variable {allowed : ∀ {σ : Type}, Scene σ → Scene.Event σ → Scene σ → Prop} {opened s : Store}
  {settings : Settings} {now : UInt64} {disk : Disk} {monitor : Monitor}

/-- Whether a store can come to be another one: by the requests of a caller that is alone with it,
or by those steps of any number of callers and recoveries that are allowed. -/
inductive Reached (allowed : ∀ {σ : Type}, Scene σ → Scene.Event σ → Scene σ → Prop) (s : Store) :
    Store → Prop where
  | alone (requests : List Request) : Reached allowed s (s.serveAll requests)
  | amid {σ : Type} {c : Scene σ} : Scene.Run allowed { world := { store := s } } c →
      Reached allowed s c.world.store

/-- Whatever a store becomes, its segments keep the files that were made for them, and it keeps its
settings. -/
theorem Reached.filed (hs : opened.Reached allowed s)
    (hopen : onDirectory settings now disk monitor = .ok opened) (hd : disk.WellFormed) :
    s.Filed ∧ s.settings = settings := by
  have hhoused := housed_onDirectory hopen hd
  have hopened : opened.settings = settings := by
    obtain ⟨found, rfl, -⟩ := onDirectory_cases hopen
    rfl
  cases hs with
  | alone requests =>
    exact ⟨(hhoused.serveAll requests).toFiled,
      (hhoused.settings_serveAll requests).trans hopened⟩
  | amid hrun =>
    obtain ⟨hfiled, hsettings⟩ := Scene.filed_run hhoused.toFiled hrun
    exact ⟨hfiled, hsettings.trans hopened⟩

/-- Unless the numbers run out, or a recovery comes upon a spare without a place, every active
segment has its file. -/
theorem Reached.housed (hs : opened.Reached Scene.SparesPlaced s)
    (hopen : onDirectory settings now disk monitor = .ok opened) (hd : disk.WellFormed) :
    ∃ loose, s.Housed loose := by
  cases hs with
  | alone requests => exact ⟨[], (housed_onDirectory hopen hd).serveAll requests⟩
  | amid hrun =>
    obtain ⟨hscene, -⟩ := (Scene.inOrder_onDirectory hopen hd).run hrun
    exact ⟨_, hscene.world.store.housed⟩

end Store

end SegmentLog
