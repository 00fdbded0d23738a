import SegmentLog.Proofs.Concurrent.Order
import SegmentLog.Proofs.Store.Foreign

/-!
# Leftovers that are replayed while a store is in use

What earlier runs left in the directory is replayed into a target and removed while the store may
be in use already. A `Recovery` is such a replay under way: it lists the directory, looks at one
file after the other whether the store owns it, replays those that it does not, and removes them
one by one. A `Scene` is a world with all the recoveries under way in it.

The file of a new spare is there before the store owns it, and a recovery that comes upon it at
just that time takes it for a leftover. Apart from this, no recovery ever removes the file of a
segment that is in use, or comes to be used.

* `Recovery.advance_alone` — a recovery whose steps nothing comes between is
  `Store.replayLeftovers`;
* `Scene.InOrder.step`, `Scene.InOrder.run` — what holds in every run that passes over no spare
  without a place;
* `Scene.recovery_spares_live` — the files of all segments in use are there.
-/

namespace SegmentLog

variable {σ : Type}

/-! ## Recoveries -/

/-- How far a recovery has come. -/
inductive RecoveryStage where
  /-- The directory is still to be listed. -/
  | listing
  /-- Some of the listed files are still to be looked at, and some are kept to be replayed. -/
  | sorting (todo kept : List Path)
  /-- The files are replayed, and some of them are still to be removed. -/
  | removing (todo : List Path) (report : ReplayReport)
  /-- The recovery has returned. -/
  | ended (result : Except LogError ReplayReport)

/-- A replay of the leftovers under way. -/
structure Recovery (σ : Type) where
  target : Target σ
  state : σ
  stage : RecoveryStage := .listing

namespace Recovery

/-- A recovery goes on, unless it has returned. -/
def advance (r : Recovery σ) (s : Store) : Option (Recovery σ × Store) :=
  match r.stage with
  | .listing =>
    match segmentFiles s.disk s.settings.directory s.settings.stem with
    | .error e => some ({ r with stage := .ended (.error (.io (.disk e))) }, s)
    | .ok found => some ({ r with stage := .sorting (found.map (·.2)) [] }, s)
  | .sorting (p :: rest) kept =>
    some ({ r with stage := .sorting rest (if s.owns p then kept else kept ++ [p]) }, s)
  | .sorting [] [] => some ({ r with stage := .ended (.ok {}) }, s)
  | .sorting [] kept@(_ :: _) =>
    match s.replay r.target kept r.state with
    | (.error e, s, state) => some ({ r with state, stage := .ended (.error e) }, s)
    | (.ok report, s, state) => some ({ r with state, stage := .removing kept report }, s)
  | .removing (p :: rest) report =>
    some ({ r with stage := .removing rest report }, { s with disk := (s.disk.remove p).2 })
  | .removing [] report => some ({ r with stage := .ended (.ok report) }, s)
  | .ended _ => none

/-- The file that a recovery looks at next, if it is at that. -/
def checked? (r : Recovery σ) : Option Path :=
  match r.stage with
  | .sorting (p :: _) _ => some p
  | _ => none

/-- The files that a recovery has decided to remove. -/
def doomed (r : Recovery σ) : List Path :=
  match r.stage with
  | .sorting _ kept => kept
  | .removing todo _ => todo
  | _ => []

/-! ### A recovery that nothing comes between -/

/-- A recovery goes on for some steps, and nothing comes between. -/
inductive Alone : Recovery σ × Store → Recovery σ × Store → Prop where
  | refl (x : Recovery σ × Store) : Alone x x
  | step {x y z : Recovery σ × Store} : x.1.advance x.2 = some y → Alone y z → Alone x z

theorem Alone.trans {x y z : Recovery σ × Store} (h : Alone x y) (h' : Alone y z) : Alone x z := by
  induction h with
  | refl => exact h'
  | step hstep _ ih => exact .step hstep (ih h')

variable (target : Target σ) (state : σ)

theorem sort_alone (todo kept : List Path) (s : Store) :
    Alone ({ target, state, stage := .sorting todo kept }, s)
      ({ target, state, stage := .sorting [] (kept ++ todo.filter fun p => !s.owns p) }, s) := by
  induction todo generalizing kept with
  | nil =>
    rw [List.filter_nil, List.append_nil]
    exact .refl _
  | cons p rest ih =>
    refine .step (y := ({ target, state,
                          stage := .sorting rest (if s.owns p then kept else kept ++ [p]) }, s))
      rfl ?_
    cases howns : s.owns p with
    | true =>
      rw [List.filter_cons_of_neg (by rw [howns]; decide), if_pos rfl]
      exact ih kept
    | false =>
      rw [List.filter_cons_of_pos (by rw [howns]; rfl), if_neg Bool.false_ne_true]
      have hrest := ih (kept ++ [p])
      rw [List.append_assoc, List.singleton_append] at hrest
      exact hrest

theorem remove_alone (todo : List Path) (report : ReplayReport) (s : Store) :
    Alone ({ target, state, stage := .removing todo report }, s)
      ({ target, state, stage := .ended (.ok report) }, Store.removeReplayed todo s) := by
  induction todo generalizing s with
  | nil => exact .step rfl (.refl _)
  | cons p rest ih => exact .step rfl (ih _)

/-- A recovery whose steps nothing comes between is the whole of `Store.replayLeftovers`. -/
theorem advance_alone (s : Store) :
    Alone ({ target, state }, s)
      ({ target, state := (s.replayLeftovers target state).2.2,
         stage := .ended (s.replayLeftovers target state).1 },
        (s.replayLeftovers target state).2.1) := by
  cases hlisted : segmentFiles s.disk s.settings.directory s.settings.stem with
  | error e =>
    have hwhole : s.replayLeftovers target state = (.error (.io (.disk e)), s, state) := by
      simp only [Store.replayLeftovers, hlisted]
    rw [hwhole]
    refine .step (y := ({ target, state, stage := .ended (.error (.io (.disk e))) }, s)) ?_
      (.refl _)
    simp only [advance, hlisted]
  | ok found =>
    refine .step (y := ({ target, state, stage := .sorting (found.map (·.2)) [] }, s)) ?_
      ((sort_alone target state _ [] s).trans ?_)
    · simp only [advance, hlisted]
    rw [List.nil_append, ← Store.foreign]
    cases hforeign : s.foreign found with
    | nil =>
      have hwhole : s.replayLeftovers target state = (.ok {}, s, state) := by
        simp only [Store.replayLeftovers, hlisted, hforeign]
      rw [hwhole]
      exact .step rfl (.refl _)
    | cons p rest =>
      cases hr : s.replay target (p :: rest) state with
      | mk result pair =>
        obtain ⟨s', state'⟩ := pair
        cases result with
        | error e =>
          have hwhole : s.replayLeftovers target state = (.error e, s', state') := by
            simp only [Store.replayLeftovers, hlisted, hforeign, hr]
          rw [hwhole]
          refine .step (y := ({ target, state := state', stage := .ended (.error e) }, s')) ?_
            (.refl _)
          simp only [advance, hr]
        | ok report =>
          have hwhole : s.replayLeftovers target state =
              (.ok report, Store.removeReplayed (p :: rest) s', state') := by
            simp only [Store.replayLeftovers, hlisted, hforeign, hr]
          rw [hwhole]
          refine .step (y := ({ target, state := state',
                                stage := .removing (p :: rest) report }, s')) ?_
            (remove_alone target state' _ report s')
          simp only [advance, hr]

/-! ### What a recovery relies on -/

/-- Whether a recovery removes no file but those of others. -/
def Safe (r : Recovery σ) (s : Store) (loose : List Handle) : Prop :=
  match r.stage with
  | .sorting todo kept => (∀ p ∈ todo, s.Listed p) ∧ ∀ p ∈ kept, s.Foreign loose p
  | .removing todo _ => ∀ p ∈ todo, s.Foreign loose p
  | _ => True

variable {r r' : Recovery σ} {s s' : Store} {loose loose' : List Handle}

theorem Safe.foreign (h : r.Safe s loose) {p : Path} (hp : p ∈ r.doomed) : s.Foreign loose p := by
  unfold Safe at h
  unfold doomed at hp
  split at hp
  · rename_i hstage
    rw [hstage] at h
    exact h.2 p hp
  · rename_i hstage
    rw [hstage] at h
    exact h p hp
  · cases hp

/-- What a recovery relies on stays true whatever the store does. -/
theorem Safe.issues (h : r.Safe s loose) (hi : s.Issues s') (hm : s.Moves loose s' loose')
    (hs : s.Sound loose) (hs' : s'.Sound loose') : r.Safe s' loose' := by
  unfold Safe at h ⊢
  split at h
  · exact ⟨fun p hp => (h.1 p hp).issues hi, fun p hp => (h.2 p hp).issues hi hm hs hs'⟩
  · exact fun p hp => (h p hp).issues hi hm hs hs'
  · trivial

/-- All that a step of a recovery can do. -/
inductive Effect (r : Recovery σ) (s : Store) : Recovery σ → Store → Prop where
  | end {state : σ} {store : Store} (result : Except LogError ReplayReport) :
      store = s ∨ (∃ paths, store = (s.replay r.target paths r.state).2.1) →
      Effect r s { r with state, stage := .ended result } store
  | list {found : List (SegmentName × Path)} :
      segmentFiles s.disk s.settings.directory s.settings.stem = .ok found →
      Effect r s { r with stage := .sorting (found.map (·.2)) [] } s
  | pass {p : Path} {rest kept : List Path} : r.stage = .sorting (p :: rest) kept →
      Effect r s { r with stage := .sorting rest kept } s
  | keep {p : Path} {rest kept : List Path} : r.stage = .sorting (p :: rest) kept →
      s.owns p = false → Effect r s { r with stage := .sorting rest (kept ++ [p]) } s
  | replay {kept : List Path} (report : ReplayReport) : r.stage = .sorting [] kept →
      Effect r s
        { r with state := (s.replay r.target kept r.state).2.2, stage := .removing kept report }
        (s.replay r.target kept r.state).2.1
  | remove {p : Path} {rest : List Path} {report : ReplayReport} :
      r.stage = .removing (p :: rest) report →
      Effect r s { r with stage := .removing rest report }
        { s with disk := (s.disk.remove p).2 }

theorem effect_of_advance (h : r.advance s = some (r', s')) : r.Effect s r' s' := by
  obtain ⟨target, state, stage⟩ := r
  unfold advance at h
  cases stage with
  | listing =>
    dsimp only at h
    split at h <;> cases h
    · exact .end _ (.inl rfl)
    · exact .list (by assumption)
  | sorting todo kept =>
    cases todo with
    | cons p rest =>
      cases howns : s.owns p with
      | true =>
        simp only [howns, if_true] at h
        cases h
        exact .pass rfl
      | false =>
        simp only [howns, Bool.false_eq_true, if_false] at h
        cases h
        exact .keep rfl howns
    | nil =>
      cases kept with
      | nil =>
        cases h
        exact .end _ (.inl rfl)
      | cons p rest =>
        cases hr : s.replay target (p :: rest) state with
        | mk result pair =>
          simp only [hr] at h
          cases result with
          | error e =>
            cases h
            exact .end _ (.inr ⟨p :: rest, by rw [hr]⟩)
          | ok report =>
            cases h
            have hreplay : Effect { target, state, stage := .sorting [] (p :: rest) } s _ _ :=
              .replay report rfl
            rw [hr] at hreplay
            exact hreplay
  | removing todo report =>
    cases todo with
    | nil =>
      cases h
      exact .end _ (.inl rfl)
    | cons p rest =>
      cases h
      exact .remove rfl
  | ended result => cases h

/-- What a recovery that goes on relies on. -/
theorem Safe.advance (h : r.Safe s loose) (ha : r.advance s = some (r', s')) (hs : s.Sound loose)
    (hn : s.Numbered) (hclear : ∀ p ∈ r.checked?, ∀ k ∈ loose, (s.segment k).path ≠ p) :
    r'.Safe s loose := by
  unfold Safe at h
  cases effect_of_advance ha with
  | «end» => trivial
  | list hfound =>
    refine ⟨fun p hp => ?_, fun p hp => (nomatch hp)⟩
    obtain ⟨e, he, rfl⟩ := List.mem_map.mp hp
    exact hn.listed hs.disk hfound he
  | pass hstage =>
    rw [hstage] at h
    exact ⟨fun q hq => h.1 q (List.mem_cons_of_mem _ hq), h.2⟩
  | keep hstage howns =>
    rw [hstage] at h
    refine ⟨fun q hq => h.1 q (List.mem_cons_of_mem _ hq), fun q hq => ?_⟩
    rcases List.mem_append.mp hq with hq | hq
    · exact h.2 q hq
    · rw [List.mem_singleton.mp hq]
      refine (h.1 _ List.mem_cons_self).foreign howns (hclear _ ?_)
      rw [checked?, hstage]
      rfl
  | replay report hstage =>
    rw [hstage] at h
    exact h.2
  | remove hstage =>
    rw [hstage] at h
    exact fun q hq => h q (List.mem_cons_of_mem _ hq)

/-- What a step of a recovery makes of the store: it removes a file of others, or only keeps the
numbers of later segments above those that it has replayed. -/
theorem Safe.store_advance (h : r.Safe s loose) (ha : r.advance s = some (r', s')) :
    (s' = s ∨ ∃ id, s' = s.keepIdsAbove id) ∨
      ∃ p res d, s.Foreign loose p ∧ s.disk.remove p = (res, d) ∧ s' = { s with disk := d } := by
  have hreplayed : ∀ paths, (s.replay r.target paths r.state).2.1 = s ∨
      ∃ id, (s.replay r.target paths r.state).2.1 = s.keepIdsAbove id := by
    intro paths
    unfold Store.replay
    split
    · exact .inl rfl
    · split
      · exact .inr ⟨_, rfl⟩
      · exact .inl rfl
  cases effect_of_advance ha with
  | «end» _ hstore =>
    rcases hstore with rfl | ⟨paths, rfl⟩
    · exact .inl (.inl rfl)
    · exact .inl (hreplayed paths)
  | list => exact .inl (.inl rfl)
  | pass => exact .inl (.inl rfl)
  | keep => exact .inl (.inl rfl)
  | replay => exact .inl (hreplayed _)
  | remove hstage =>
    refine .inr ⟨_, _, _, h.foreign ?_, rfl, rfl⟩
    rw [doomed, hstage]
    exact List.mem_cons_self

end Recovery

/-! ## The store beside its recoveries -/

namespace World

variable {w w' : World}

/-- No step of the world puts any file on the disk but those of new segments. -/
theorem InOrder.issues (hw : w.InOrder) {e : Event} (h : w.step e = some w')
    (hids : w'.store.ids.next ≠ 0) : w.store.Issues w'.store := by
  have hsame : w.store.Issues w.store := .refl _
  have hle : w.store.ids.next ≤ w.store.ids.next := UInt64.le_refl _
  cases effect_of_step h with
  | refused => exact hsame
  | denied _ hc => exact hw.store.issues_claim hc hids
  | granted _ hc => exact hw.store.issues_claim hc hids
  | append ha hadvance =>
    rcases Appending.advance_cases hadvance with ⟨-, r, hr, -⟩ | ⟨-, -, -, hchange, -⟩
    · have hused := hw.appends _ (List.mem_of_getElem? ha)
      exact Store.issues_write hw.store.filed hr hused.known
    · rcases hchange with hs | ⟨r, hr⟩ | ⟨cause, hs⟩
      · rw [hs]
        exact hsame
      · exact Store.issues_syncSegment hr
      · rw [hs]
        exact hsame.giveUp _ cause
  | spareMissing => exact hsame
  | spareThere => exact hsame
  | spareFailed _ hn =>
    exact (Store.issues_newSegment hn hids).of_eq rfl (UInt64.le_refl _) rfl rfl
  | spareCreated _ hn => exact Store.issues_newSegment hn hids
  | placeSpare => exact Store.issues_placeSpare _ _
  | startDiscard => exact hsame
  | discard _ hadvance =>
    obtain ⟨k, rest, -, heffect⟩ := Walk.effect_of_advance hadvance
    cases heffect with
    | flush => exact Store.issues_noteFlush _ _ _ _
    | delete => exact Store.issues_deleteFile _ _
    | unlink => exact hsame.of_eq rfl hle rfl rfl
    | spent => exact hsame
    | needed => exact hsame
    | keep => exact hsame
    | stop => exact hsame
    | next => exact hsame
  | startSync => exact hsame
  | sync _ hadvance =>
    obtain ⟨-, -, -, k, -, -, ⟨r, hr⟩ | ⟨cause, rfl⟩ | ⟨cause, rfl⟩⟩ :=
      Syncing.advance_cases hadvance
    · exact Store.issues_syncSegment hr
    · exact hsame.giveUp _ cause
    · exact hsame.of_eq rfl hle rfl rfl
  | retireSpare => exact hsame.of_eq rfl hle rfl rfl
  | reset => exact hsame.of_eq rfl hle rfl rfl
  | delete => exact Store.issues_deleteFile _ _
  | keepIdsAbove => exact hsame.of_eq rfl (w.store.ids.next_le_keepAbove _) rfl rfl

/-- A recovery keeps the store in order, and puts no file on the disk. -/
theorem InOrder.recover (hw : w.InOrder) {r r' : Recovery σ} {store : Store}
    (hr : r.Safe w.store w.loose) (ha : r.advance w.store = some (r', store)) :
    InOrder { w with store } ∧ w.store.Issues store ∧
      w.store.Follows w.loose store w.loose := by
  rcases hr.store_advance ha with (rfl | ⟨id, rfl⟩) | ⟨p, res, d, hp, hd, rfl⟩
  · exact ⟨hw, .refl _, .refl _ _⟩
  · have hf : w.store.Follows w.loose (w.store.keepIdsAbove id) w.loose :=
      Store.Evolves.follows (.of_eq rfl rfl rfl) (.of_eq (Nat.le_refl _) rfl rfl)
    exact ⟨hw.follows (hw.store.keepIdsAbove id) hf w.stocking,
      (Store.Issues.refl _).of_eq rfl (w.store.ids.next_le_keepAbove id) rfl rfl, hf⟩
  · have hf : w.store.Follows w.loose { w.store with disk := d } w.loose :=
      (Store.evolves_remove hd).follows (.of_eq (Nat.le_refl _) rfl rfl)
    exact ⟨hw.follows (hp.remove hw.store hd) hf w.stocking, Store.issues_remove hd, hf⟩

end World

/-! ## Scenes -/

/-- A world with all the recoveries under way in it. -/
structure Scene (σ : Type) where
  world : World
  recoveries : List (Recovery σ) := []

namespace Scene

/-- What can happen next. -/
inductive Event (σ : Type) where
  /-- Something happens in the world. -/
  | world (e : SegmentLog.Event)
  /-- A replay of the leftovers begins. -/
  | start (target : Target σ) (state : σ)
  /-- The recovery with this number goes on. -/
  | recover (i : Nat)

/-- What becomes of a scene when one of the operations in it goes on, if it can. -/
def step (c : Scene σ) : Event σ → Option (Scene σ)
  | .world e => (c.world.step e).map fun world => { c with world }
  | .start target state => some { c with recoveries := c.recoveries ++ [{ target, state }] }
  | .recover i =>
    (c.recoveries[i]?.bind (·.advance c.world.store)).map fun (r, store) =>
      { world := { c.world with store }, recoveries := c.recoveries.set i r }

/-- Runs of which every step meets a condition. -/
inductive Run (allowed : Scene σ → Event σ → Scene σ → Prop) : Scene σ → Scene σ → Prop where
  | refl (c : Scene σ) : Run allowed c c
  | step {c d e : Scene σ} (x : Event σ) : Run allowed c d → d.step x = some e → allowed d x e →
      Run allowed c e

namespace Run

variable {allowed : Scene σ → Event σ → Scene σ → Prop} {c d e : Scene σ} {w w' : World}

theorem trans (h : Run allowed c d) (h' : Run allowed d e) : Run allowed c e := by
  induction h' with
  | refl => exact h
  | step x _ hstep hallowed ih => exact .step x ih hstep hallowed

variable (allowed) in
/-- A run of the world is one of the scene in which no recovery goes on. -/
theorem of_world {condition : World → SegmentLog.Event → World → Prop}
    (hallowed : ∀ {v u : World} {x : SegmentLog.Event} {recoveries : List (Recovery σ)},
      condition v x u → allowed { world := v, recoveries } (.world x) { world := u, recoveries })
    (h : SegmentLog.Run condition w w') (recoveries : List (Recovery σ)) :
    Run allowed { world := w, recoveries } { world := w', recoveries } := by
  induction h with
  | refl => exact .refl _
  | step x _ hstep hcond ih =>
    refine .step (.world x) ih ?_ (hallowed hcond)
    rw [Scene.step, hstep]
    rfl

/-- The one recovery of a scene goes on. -/
theorem of_recover {r r' : Recovery σ} {store : Store}
    (ha : r.advance w.store = some (r', store))
    (hallowed : allowed { world := w, recoveries := [r] } (.recover 0)
      { world := { w with store }, recoveries := [r'] }) :
    Run allowed { world := w, recoveries := [r] }
      { world := { w with store }, recoveries := [r'] } := by
  refine .step (.recover 0) (.refl _) ?_ hallowed
  rw [Scene.step, List.getElem?_cons_zero, Option.bind_some, ha]
  rfl

variable (allowed) (target : Target σ) (state : σ) {name : SegmentName} {p : Path}

/-- A recovery keeps the only file that is listed, if the store does not own it. -/
theorem keep_file
    (hlisted : segmentFiles w.store.disk w.store.settings.directory w.store.settings.stem =
      .ok [(name, p)])
    (howns : w.store.owns p = false)
    (hallowed : ∀ rs rs' x, allowed { world := w, recoveries := rs } x
      { world := w, recoveries := rs' }) :
    Run allowed { world := w }
      { world := w, recoveries := [{ target, state, stage := .sorting [] [p] }] } := by
  have hlist : Recovery.advance { target, state } w.store =
      some ({ target, state, stage := .sorting [p] [] }, w.store) := by
    simp only [Recovery.advance, hlisted, List.map_cons, List.map_nil]
  have hcheck : Recovery.advance { target, state, stage := .sorting [p] [] } w.store =
      some ({ target, state, stage := .sorting [] [p] }, w.store) := by
    simp only [Recovery.advance, howns, Bool.false_eq_true, if_false, List.nil_append]
  exact .trans (.step (.start target state) (.refl _) rfl (hallowed _ _ _))
    ((of_recover hlist (hallowed _ _ _)).trans (of_recover hcheck (hallowed _ _ _)))

/-- A recovery replays the only file that it has kept, and removes it. -/
theorem remove_file {bytes : Bytes} (ht : target.NeverFails)
    (hname : ({ stem := w.store.settings.stem } : Replay).names [p] = .ok [(name, p)])
    (hcontents : w.store.disk.contents p = .ok bytes)
    (hallowed : ∀ c x d, d.world.store.ids = (w.store.keepIdsAbove name.id).ids → allowed c x d) :
    ∃ recoveries, Run allowed
      { world := w, recoveries := [{ target, state, stage := .sorting [] [p] }] }
      { world := { w with
          store := { w.store.keepIdsAbove name.id with disk := (w.store.disk.remove p).2 } }
        recoveries } := by
  obtain ⟨report, state', hreplay⟩ : ∃ report state', w.store.replay target [p] state =
      (.ok report, w.store.keepIdsAbove name.id, state') := by
    obtain ⟨report, state', hrun, hmax⟩ := Replay.run_singleton rfl ht hname hcontents state
    rw [Store.replay, hrun]
    dsimp only
    rw [hmax]
    exact ⟨_, _, rfl⟩
  have happly : Recovery.advance { target, state, stage := .sorting [] [p] } w.store =
      some ({ target, state := state', stage := .removing [p] report },
        w.store.keepIdsAbove name.id) := by
    simp only [Recovery.advance, hreplay]
  have hremove : Recovery.advance { target, state := state', stage := .removing [p] report }
      (w.store.keepIdsAbove name.id) =
        some ({ target, state := state', stage := .removing [] report },
          { w.store.keepIdsAbove name.id with disk := (w.store.disk.remove p).2 }) := rfl
  exact ⟨_, (of_recover happly (hallowed _ _ _ rfl)).trans
    (of_recover hremove (hallowed _ _ _ rfl))⟩

end Run

/-- Whether the numbers of segments have not run out. -/
def HasIds (_ : Scene σ) (_ : Event σ) (c : Scene σ) : Prop := c.world.store.ids.next ≠ 0

/-- Whether the numbers of segments have not run out, and no recovery looks at the file of a spare
that was created and is not in its place yet. -/
def SparesPlaced (c : Scene σ) (e : Event σ) (c' : Scene σ) : Prop :=
  HasIds c e c' ∧ ∀ i, e = .recover i → ∀ r ∈ c.recoveries[i]?, ∀ p ∈ r.checked?,
    ∀ k ∈ c.world.loose, (c.world.store.segment k).path ≠ p

/-- In a step of the world no recovery looks at anything. -/
theorem sparesPlaced_world {v u : World} {x : SegmentLog.Event} {recoveries : List (Recovery σ)}
    (h : World.HasIds v x u) :
    SparesPlaced { world := v, recoveries } (.world x) { world := u, recoveries } :=
  ⟨h, fun _ hi => (nomatch hi)⟩

/-- Whether a scene is in order, and every recovery in it removes no file but those of others. -/
structure InOrder (c : Scene σ) : Prop where
  world : c.world.InOrder
  numbered : c.world.store.Numbered
  recoveries : ∀ r ∈ c.recoveries, r.Safe c.world.store c.world.loose

variable {c c' : Scene σ}

/-- Every step keeps the order, and makes no segment of a file that is none. -/
theorem InOrder.step (hc : c.InOrder) {e : Event σ} (h : c.step e = some c')
    (hcond : c.SparesPlaced e c') :
    c'.InOrder ∧ c.world.store.Issues c'.world.store ∧
      c.world.store.Moves c.world.loose c'.world.store c'.world.loose := by
  obtain ⟨hids, hclear⟩ := hcond
  unfold Scene.step at h
  cases e with
  | world e =>
    obtain ⟨w, hw, rfl⟩ := Option.map_eq_some_iff.mp h
    obtain ⟨hworld, hf⟩ := hc.world.step hw hids
    have hi := hc.world.issues hw hids
    exact ⟨⟨hworld, hc.numbered.issues hi, fun r hr =>
      (hc.recoveries r hr).issues hi hf.toMoves hc.world.store hworld.store⟩, hi, hf.toMoves⟩
  | start target state =>
    cases h
    refine ⟨⟨hc.world, hc.numbered, fun r hr => ?_⟩, .refl _, (Store.Follows.refl _ _).toMoves⟩
    rcases List.mem_append.mp hr with hr | hr
    · exact hc.recoveries r hr
    · rw [List.mem_singleton.mp hr]
      trivial
  | recover i =>
    simp only [Option.map_eq_some_iff, Option.bind_eq_some_iff] at h
    obtain ⟨⟨r', store⟩, ⟨r, hr, ha⟩, rfl⟩ := h
    have hsafe := hc.recoveries r (List.mem_of_getElem? hr)
    obtain ⟨hworld, hi, hf⟩ := hc.world.recover hsafe ha
    have hsafe' := hsafe.advance ha hc.world.store hc.numbered (hclear i rfl r hr)
    refine ⟨⟨hworld, hc.numbered.issues hi, fun x hx => ?_⟩, hi, hf.toMoves⟩
    have hx' : x.Safe c.world.store c.world.loose := by
      rcases List.mem_or_eq_of_mem_set hx with hx | rfl
      · exact hc.recoveries x hx
      · exact hsafe'
    exact hx'.issues hi hf.toMoves hc.world.store hworld.store

/-- Every run keeps the order, and a file that is none of those of the segments stays so. -/
theorem InOrder.run (hc : c.InOrder) (h : Run SparesPlaced c c') :
    c'.InOrder ∧ ∀ p, c.world.store.Foreign c.world.loose p →
      c'.world.store.Foreign c'.world.loose p := by
  induction h with
  | refl => exact ⟨hc, fun _ hp => hp⟩
  | step e _ hstep hcond ih =>
    obtain ⟨hd, hforeign⟩ := ih
    obtain ⟨he, hi, hm⟩ := hd.step hstep hcond
    exact ⟨he, fun p hp => (hforeign p hp).issues hi hm hd.world.store he.world.store⟩

theorem inOrder_onDirectory {settings : Settings} {now : UInt64} {disk : Disk} {monitor : Monitor}
    {s : Store} (h : Store.onDirectory settings now disk monitor = .ok s)
    (hdisk : disk.WellFormed) : InOrder ({ world := { store := s } } : Scene σ) :=
  ⟨World.inOrder_onDirectory h hdisk, Store.numbered_onDirectory h hdisk,
    fun _ hr => (nomatch hr)⟩

/-- **No recovery removes a segment that is in use.** Take any run of a store that was just opened,
with any number of recoveries in it, in which the numbers do not run out, and no recovery looks at
the file of a spare that was created and is not in its place yet. At any time the file of every
active segment, and that of the spare, is where the path of the segment leads; and what a recovery
has decided to remove is the file of none of them, neither now nor at any later time. -/
theorem recovery_spares_live {settings : Settings} {now : UInt64} {disk : Disk}
    {monitor : Monitor} {s : Store} (hopen : Store.onDirectory settings now disk monitor = .ok s)
    (hdisk : disk.WellFormed) (hrun : Run SparesPlaced { world := { store := s } } c) :
    (∀ k ∈ c.world.store.active ++ c.world.store.spare.toList, c.world.store.Found k) ∧
    ∀ r ∈ c.recoveries, ∀ p ∈ r.doomed, ∀ c', Run SparesPlaced c c' →
      ∀ k ∈ c'.world.store.active ++ c'.world.store.spare.toList,
        (c'.world.store.segment k).path ≠ p := by
  obtain ⟨hc, -⟩ := (inOrder_onDirectory hopen hdisk).run hrun
  have hplace : ∀ {w : World}, ∀ k ∈ w.store.active ++ w.store.spare.toList,
      k ∈ w.store.active ++ (w.store.spare.toList ++ w.loose) := by
    intro w k hk
    rw [← List.append_assoc]
    exact List.mem_append_left _ hk
  refine ⟨fun k hk => hc.world.store.found k (hplace k hk), fun r hr p hp c' hlater k hk => ?_⟩
  obtain ⟨-, hforeign⟩ := hc.run hlater
  exact (hforeign p ((hc.recoveries r hr).foreign hp)).apart k (hplace k hk)

/-- A recovery that has kept the file of an earlier segment to remove it leaves the spare alone,
also when the spare comes to be used. -/
theorem recovery_spares_live_new_spare :
    ∃ c c' : Scene Unit, Run SparesPlaced
        { world := { store := .blank { directory := ⟨[Path.dot]⟩, segmentSize := 100 } 5 } } c ∧
      (∃ r ∈ c.recoveries, (SegmentName.ofId 5).pathIn ⟨[Path.dot]⟩ defaultStem ∈ r.doomed) ∧
      Run SparesPlaced c c' ∧ c'.world.store.active = [1] ∧ c'.world.store.Found 1 ∧
      (c'.world.store.segment 1).path ≠ (SegmentName.ofId 5).pathIn ⟨[Path.dot]⟩ defaultStem := by
  -- a segment is used, and taken out
  have h₁ : (World.follow World.HasIds [.claim (.raw [⟨1⟩] [7, 8, 9]), .append 0, .reset]
      { store := .blank { directory := ⟨[Path.dot]⟩, segmentSize := 100 } 5 }).isSome = true := by
    decide +kernel
  -- a spare is created after the recovery has looked at the segment
  have h₂ : (World.follow World.HasIds [.lookForSpare, .createSpare, .placeSpare 1]
      (Option.get _ h₁)).isSome = true := by
    decide +kernel +revert
  have h₃ : (World.follow World.HasIds [.claim (.raw [⟨2⟩] [4])] (Option.get _ h₂)).isSome =
      true := by
    decide +kernel +revert
  have hactive : (Option.get _ h₃).store.active = [1] := by
    decide +kernel +revert
  obtain ⟨hentries, hfile, howns, hids, hloose⟩ :
      (Option.get _ h₁).store.disk.entries (Option.get _ h₁).store.settings.directory =
        .ok [(SegmentName.ofId 5).fileName defaultStem] ∧
      [(SegmentName.ofId 5).fileName defaultStem].filterMap (fun n =>
        segmentFile? (Option.get _ h₁).store.disk (Option.get _ h₁).store.settings.stem
          ((Option.get _ h₁).store.settings.directory.join ⟨n⟩)) =
          [(.ofId 5, (SegmentName.ofId 5).pathIn ⟨[Path.dot]⟩ defaultStem)] ∧
      (Option.get _ h₁).store.owns ((SegmentName.ofId 5).pathIn ⟨[Path.dot]⟩ defaultStem) =
        false ∧
      (Option.get _ h₁).store.ids.next ≠ 0 ∧ (Option.get _ h₁).loose = [] := by
    clear hactive h₃ h₂
    decide +kernel +revert
  have hlisted : segmentFiles (Option.get _ h₁).store.disk
      (Option.get _ h₁).store.settings.directory (Option.get _ h₁).store.settings.stem =
        .ok [(.ofId 5, (SegmentName.ofId 5).pathIn ⟨[Path.dot]⟩ defaultStem)] :=
    segmentFiles_singleton hentries hfile
  have hused := Run.of_world SparesPlaced sparesPlaced_world
    (SegmentLog.Run.of_follow (Option.some_get h₁).symm) ([] : List (Recovery Unit))
  have hkept := Run.keep_file SparesPlaced (Target.total fun _ _ s => s) () hlisted
    howns fun _ _ _ => ⟨hids, fun _ _ _ _ _ _ k hk => by rw [hloose] at hk; cases hk⟩
  have hplaced := Run.of_world SparesPlaced sparesPlaced_world
    (SegmentLog.Run.of_follow (Option.some_get h₂).symm)
    [⟨Target.total fun _ _ s => s, (),
      .sorting [] [(SegmentName.ofId 5).pathIn ⟨[Path.dot]⟩ defaultStem]⟩]
  have hlater := Run.of_world SparesPlaced sparesPlaced_world
    (SegmentLog.Run.of_follow (Option.some_get h₃).symm)
    [⟨Target.total fun _ _ s => s, (),
      .sorting [] [(SegmentName.ofId 5).pathIn ⟨[Path.dot]⟩ defaultStem]⟩]
  have hrun := (hused.trans hkept).trans hplaced
  have hopen : Store.onDirectory { directory := ⟨[Path.dot]⟩, segmentSize := 100 } 5 {} _ = _ :=
    Store.onDirectory_blank rfl 5 {}
  have hmem : 1 ∈ (Option.get _ h₃).store.active ++ (Option.get _ h₃).store.spare.toList := by
    rw [hactive]
    exact List.mem_cons_self
  obtain ⟨-, hapart⟩ := recovery_spares_live hopen (Disk.wellFormed_empty {}) hrun
  obtain ⟨hfound, -⟩ :=
    recovery_spares_live hopen (Disk.wellFormed_empty {}) (hrun.trans hlater)
  have hdoomed : (SegmentName.ofId 5).pathIn ⟨[Path.dot]⟩ defaultStem ∈
      Recovery.doomed ⟨Target.total fun _ _ s => s, (),
        .sorting [] [(SegmentName.ofId 5).pathIn ⟨[Path.dot]⟩ defaultStem]⟩ := List.mem_cons_self
  exact ⟨_, _, hrun, ⟨_, List.mem_cons_self, hdoomed⟩, hlater, hactive, hfound 1 hmem,
    hapart _ List.mem_cons_self _ hdoomed _ hlater 1 hmem⟩

/-- A recovery may come upon a spare whose file was created before the store owns it. It takes the
file for a leftover, and removes it when the spare is in its place already; a record that is
appended then is lost. -/
theorem recovery_removes_spare :
    ∃ c : Scene Unit, Run HasIds
        { world := { store := .blank { directory := ⟨[Path.dot]⟩, segmentSize := 100 } 5 } } c ∧
      ∃ a ∈ c.world.appends, a.stage = .returned true (.ok ⟨5, 0⟩) ∧
        a.claim.handle ∈ c.world.store.active ∧
        c.world.store.disk.find (c.world.store.segment a.claim.handle).path = .error .notFound := by
  -- the spare is created, and is put in its place after the recovery has looked at its file
  have h₁ : (World.follow World.HasIds [.lookForSpare, .createSpare]
      { store := .blank { directory := ⟨[Path.dot]⟩, segmentSize := 100 } 5 }).isSome = true := by
    decide +kernel
  have h₂ : (World.follow World.HasIds [.placeSpare 0] (Option.get _ h₁)).isSome = true := by
    decide +kernel +revert
  -- a record is appended after the recovery has removed the file
  have h₃ : (World.follow World.HasIds [.claim (.raw [⟨1⟩] [7, 8, 9]), .append 0]
      { Option.get _ h₂ with
        store := { (Option.get _ h₂).store.keepIdsAbove 5 with
                   disk := ((Option.get _ h₂).store.disk.remove
                     ((SegmentName.ofId 5).pathIn ⟨[Path.dot]⟩ defaultStem)).2 } }).isSome =
      true := by
    decide +kernel +revert
  have hlost : ∃ a ∈ (Option.get _ h₃).appends, a.stage = .returned true (.ok ⟨5, 0⟩) ∧
        a.claim.handle ∈ (Option.get _ h₃).store.active ∧
        (Option.get _ h₃).store.disk.find
          ((Option.get _ h₃).store.segment a.claim.handle).path = .error .notFound := by
    decide +kernel +revert
  obtain ⟨hentries, hfile, howns, hnames, hcontents, hids₁, hids₂⟩ :
      (Option.get _ h₁).store.disk.entries (Option.get _ h₁).store.settings.directory =
        .ok [(SegmentName.ofId 5).fileName defaultStem] ∧
      [(SegmentName.ofId 5).fileName defaultStem].filterMap (fun n =>
        segmentFile? (Option.get _ h₁).store.disk (Option.get _ h₁).store.settings.stem
          ((Option.get _ h₁).store.settings.directory.join ⟨n⟩)) =
          [(.ofId 5, (SegmentName.ofId 5).pathIn ⟨[Path.dot]⟩ defaultStem)] ∧
      (Option.get _ h₁).store.owns ((SegmentName.ofId 5).pathIn ⟨[Path.dot]⟩ defaultStem) =
        false ∧
      ({ stem := (Option.get _ h₂).store.settings.stem } : Replay).names
        [(SegmentName.ofId 5).pathIn ⟨[Path.dot]⟩ defaultStem] =
          .ok [(.ofId 5, (SegmentName.ofId 5).pathIn ⟨[Path.dot]⟩ defaultStem)] ∧
      (Option.get _ h₂).store.disk.contents
        ((SegmentName.ofId 5).pathIn ⟨[Path.dot]⟩ defaultStem) = .ok [] ∧
      (Option.get _ h₁).store.ids.next ≠ 0 ∧
      ((Option.get _ h₂).store.keepIdsAbove 5).ids.next ≠ 0 := by
    clear hlost h₃
    decide +kernel +revert
  have hlisted : segmentFiles (Option.get _ h₁).store.disk
      (Option.get _ h₁).store.settings.directory (Option.get _ h₁).store.settings.stem =
        .ok [(.ofId 5, (SegmentName.ofId 5).pathIn ⟨[Path.dot]⟩ defaultStem)] :=
    segmentFiles_singleton hentries hfile
  have hcreated := Run.of_world HasIds (fun h => h)
    (SegmentLog.Run.of_follow (Option.some_get h₁).symm) ([] : List (Recovery Unit))
  have hkept := Run.keep_file HasIds (Target.total fun _ _ s => s) () hlisted howns
    fun _ _ _ => hids₁
  have hplaced := Run.of_world HasIds (fun h => h)
    (SegmentLog.Run.of_follow (Option.some_get h₂).symm)
    [⟨Target.total fun _ _ s => s, (),
      .sorting [] [(SegmentName.ofId 5).pathIn ⟨[Path.dot]⟩ defaultStem]⟩]
  obtain ⟨recoveries, hremoved⟩ := Run.remove_file HasIds
    (Target.total fun _ _ s => s) () ⟨Target.accepting_total _, fun _ => rfl⟩ hnames hcontents
    fun _ _ d hd => by rw [HasIds, hd]; exact hids₂
  have happended := Run.of_world HasIds (fun h => h)
    (SegmentLog.Run.of_follow (Option.some_get h₃).symm) recoveries
  exact ⟨_, (hcreated.trans hkept).trans ((hplaced.trans hremoved).trans happended), hlost⟩

end Scene

end SegmentLog
