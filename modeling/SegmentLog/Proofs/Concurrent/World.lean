import SegmentLog.Store.Append
import SegmentLog.Store.Discard
import SegmentLog.Store.Durability

/-!
# Many callers of one store

A store is used by any number of callers at once. Each of them is somewhere between two steps of
its operation, and a step is what the store does at a time when nothing else can run. A `World`
is a store together with all the operations under way in it, and `World.step` lets one of them go
on; a `Run` is any sequence of such steps.

* `Appending.advance`, `Walk.advance`, `Syncing.advance` — the steps of one operation;
* `Appending.advance_alone` — an append whose steps nothing comes between is `Store.append`;
* `Walk.advance_alone` — a discard whose steps nothing comes between is `Store.discardEach`;
* `World.effect_of_step` — the ways in which a step can go;
* `Run.trans`, `Run.of_follow` — runs one after the other, and runs that can be computed.
-/

namespace SegmentLog

/-! ## Appends -/

/-- How far an append that has claimed its range has come. -/
inductive Stage where
  /-- The frame is still to be written. -/
  | writing
  /-- The frame is written, and earlier claims are waited for. -/
  | waiting
  /-- No earlier claim is waited for any more, and the segment is still to be synced. -/
  | syncing
  /-- The write or the sync has failed, and the segment is still to be given up. -/
  | givingUp (written : Bool) (cause : DiskError)
  /-- The append has returned. -/
  | returned (written : Bool) (result : Except LogError Position)

/-- An append that has claimed its range. -/
structure Appending where
  mutation : Mutation
  frame : Bytes
  claim : Claim
  stage : Stage := .writing

/-- Whether the frame is still to be written. -/
def Stage.isWriting : Stage → Bool
  | .writing => true
  | _ => false

/-- Whether the frame was written. -/
def Stage.isWritten : Stage → Bool
  | .writing => false
  | .waiting => true
  | .syncing => true
  | .givingUp written _ => written
  | .returned written _ => written

/-- Whether the write has failed. -/
def Stage.hasFailed : Stage → Bool
  | .givingUp written _ => !written
  | .returned written _ => !written
  | _ => false

namespace Appending

/-- An append goes on, unless it has to wait or has returned. -/
def advance (a : Appending) (s : Store) : Option (Appending × Store) :=
  match a.stage with
  | .writing =>
    match s.write a.claim a.frame with
    | (.ok (), s) =>
      some ({ a with
        stage := if s.settings.sync = .eachAppend then .waiting
          else .returned true (.ok (s.positionOf a.claim)) }, s)
    | (.error cause, s) => some ({ a with stage := .givingUp false cause }, s)
  | .waiting => if s.awaits a.claim then none else some ({ a with stage := .syncing }, s)
  | .syncing =>
    match s.syncSegment a.claim.handle true with
    | (.ok (), s) => some ({ a with stage := .returned true (.ok (s.positionOf a.claim)) }, s)
    | (.error cause, s) => some ({ a with stage := .givingUp true cause }, s)
  | .givingUp written cause =>
    match s.giveUp a.claim.handle cause with
    | (e, s) => some ({ a with stage := .returned written (.error e) }, s)
  | .returned _ _ => none

end Appending

/-! ## Discards -/

/-- What a discard does next about the segment it has come to. -/
inductive WalkStage where
  /-- It forgets what was flushed. -/
  | flushing
  /-- It looks whether anything still depends on the segment. -/
  | judging
  /-- It takes the segment out of the active ones. -/
  | unlinking
  /-- It removes the file. -/
  | deleting
  /-- It goes on to the next segment. -/
  | leaving
  deriving DecidableEq

/-- A discard under way, with the segments still to be visited. -/
structure Walk where
  partition : Partition
  upTo : Position
  todo : List Handle
  stage : WalkStage := .flushing

namespace Walk

/-- A discard goes on, unless it has come to its end. -/
def advance (v : Walk) (s : Store) : Option (Walk × Store) :=
  match v.todo with
  | [] => none
  | h :: rest =>
    match v.stage with
    | .flushing => some ({ v with stage := .judging }, s.noteFlush h v.partition v.upTo)
    | .judging =>
      some ({ v with stage := if (s.segment h).isSpent then .unlinking else .leaving }, s)
    | .unlinking =>
      match s.unlink h with
      | (true, s) => some ({ v with stage := .deleting }, s)
      | (false, s) => some ({ v with stage := .leaving }, s)
    | .deleting => some ({ v with stage := .leaving }, (s.deleteFile h).2)
    | .leaving =>
      if (s.segment h).holds v.upTo then some ({ v with todo := [] }, s)
      else some ({ v with todo := rest, stage := .flushing }, s)

end Walk

/-! ## Syncs -/

/-- A sync of all active segments under way. -/
structure Syncing where
  force : Bool
  todo : List Handle
  /-- Why the last sync failed, if it did and the segment is still to be given up. -/
  cause : Option DiskError := none

namespace Syncing

/-- A sync of all active segments goes on, unless it has come to its end. -/
def advance (y : Syncing) (s : Store) : Option (Syncing × Store) :=
  match y.todo with
  | [] => none
  | h :: rest =>
    match y.cause with
    | none =>
      match s.syncSegment h y.force with
      | (.ok (), s) => some ({ y with todo := rest }, s)
      | (.error cause, s) => some ({ y with cause := some cause }, s)
    | some cause =>
      some ({ y with todo := [], cause := none },
        if y.force then (s.giveUp h cause).2 else (s.report (.disk cause)).2)

end Syncing

/-! ## The world -/

/-- A store with all the operations under way in it. -/
structure World where
  store : Store
  /-- The appends that have claimed a range, in the order of their claims. -/
  appends : List Appending := []
  /-- How many callers have seen that a spare is missing and have not created it yet. -/
  stocking : Nat := 0
  /-- The segments that were created to be the spare and have not been put in its place yet. -/
  loose : List Handle := []
  walks : List Walk := []
  syncs : List Syncing := []
  /-- The segments that a reset or the end of the use took out and whose files are still there. -/
  doomed : List Handle := []

/-- What can happen next. -/
inductive Event where
  /-- An append does its locked part. -/
  | claim (m : Mutation)
  /-- The append with this number goes on. -/
  | append (i : Nat)
  /-- Somebody looks whether a spare is missing. -/
  | lookForSpare
  /-- Somebody who saw that a spare is missing creates it. -/
  | createSpare
  /-- A segment that was created to be the spare is put in its place, or removed. -/
  | placeSpare (h : Handle)
  /-- A discard takes stock of the active segments. -/
  | startDiscard (p : Partition) (upTo : Position)
  /-- The discard with this number goes on. -/
  | discard (j : Nat)
  /-- A sync takes stock of the active segments. -/
  | startSync (force : Bool)
  /-- The sync with this number goes on. -/
  | sync (k : Nat)
  /-- The spare is taken out at the end of the use. -/
  | retireSpare
  /-- All segments are taken out. -/
  | reset
  /-- The file of a segment that was taken out is removed. -/
  | delete (h : Handle)
  /-- The numbers of later segments are kept above a number. -/
  | keepIdsAbove (id : SegmentId)

namespace World

/-- What becomes of a world when one of the operations in it goes on, if it can. -/
def step (w : World) : Event → Option World
  | .claim m =>
    match m.frame w.store.maxPayload with
    | .error _ => some w
    | .ok frame =>
      match w.store.claim m.partitions frame.length with
      | (.error _, store) => some { w with store }
      | (.ok claim, store) =>
        some { w with store, appends := w.appends ++ [{ mutation := m, frame, claim }] }
  | .append i =>
    (w.appends[i]?.bind (·.advance w.store)).map fun (a, store) =>
      { w with store, appends := w.appends.set i a }
  | .lookForSpare =>
    some (if w.store.lacksSpare then { w with stocking := w.stocking + 1 } else w)
  | .createSpare =>
    if w.stocking = 0 then none
    else
      match w.store.newSegment with
      | (.error e, store) =>
        some { w with store := (store.report (.disk e)).2, stocking := w.stocking - 1 }
      | (.ok h, store) =>
        some { w with store, stocking := w.stocking - 1, loose := h :: w.loose }
  | .placeSpare h =>
    if h ∈ w.loose then
      some { w with store := w.store.placeSpare h, loose := w.loose.erase h }
    else none
  | .startDiscard partition upTo =>
    some { w with walks := w.walks ++ [{ partition, upTo, todo := w.store.active }] }
  | .discard j =>
    (w.walks[j]?.bind (·.advance w.store)).map fun (v, store) =>
      { w with store, walks := w.walks.set j v }
  | .startSync force => some { w with syncs := w.syncs ++ [{ force, todo := w.store.active }] }
  | .sync k =>
    (w.syncs[k]?.bind (·.advance w.store)).map fun (y, store) =>
      { w with store, syncs := w.syncs.set k y }
  | .retireSpare =>
    some { w with
      store := { w.store with spare := none }
      doomed := w.doomed ++ w.store.spare.toList }
  | .reset =>
    some { w with
      store := { w.store with active := [], spare := none }
      doomed := w.doomed ++ (w.store.active ++ w.store.spare.toList) }
  | .delete h =>
    if h ∈ w.doomed then
      some { w with store := (w.store.deleteFile h).2, doomed := w.doomed.erase h }
    else none
  | .keepIdsAbove id => some { w with store := w.store.keepIdsAbove id }

/-- What an event does to a world, in each of the ways in which it can go. -/
inductive Effect (w : World) : Event → World → Prop where
  | refused {m : Mutation} {cause : LogError} :
      m.frame w.store.maxPayload = .error cause → Effect w (.claim m) w
  | denied {m : Mutation} {frame : Bytes} {cause : LogError} {store : Store} :
      m.frame w.store.maxPayload = .ok frame →
      w.store.claim m.partitions frame.length = (.error cause, store) →
      Effect w (.claim m) { w with store }
  | granted {m : Mutation} {frame : Bytes} {claim : Claim} {store : Store} :
      m.frame w.store.maxPayload = .ok frame →
      w.store.claim m.partitions frame.length = (.ok claim, store) →
      Effect w (.claim m)
        { w with store, appends := w.appends ++ [{ mutation := m, frame, claim }] }
  | append {i : Nat} {a a' : Appending} {store : Store} :
      w.appends[i]? = some a → a.advance w.store = some (a', store) →
      Effect w (.append i) { w with store, appends := w.appends.set i a' }
  | spareMissing : w.store.lacksSpare = true →
      Effect w .lookForSpare { w with stocking := w.stocking + 1 }
  | spareThere : w.store.lacksSpare = false → Effect w .lookForSpare w
  | spareFailed {cause : DiskError} {store : Store} :
      0 < w.stocking → w.store.newSegment = (.error cause, store) →
      Effect w .createSpare
        { w with store := (store.report (.disk cause)).2, stocking := w.stocking - 1 }
  | spareCreated {h : Handle} {store : Store} :
      0 < w.stocking → w.store.newSegment = (.ok h, store) →
      Effect w .createSpare { w with store, stocking := w.stocking - 1, loose := h :: w.loose }
  | placeSpare {h : Handle} : h ∈ w.loose →
      Effect w (.placeSpare h) { w with store := w.store.placeSpare h, loose := w.loose.erase h }
  | startDiscard {partition : Partition} {upTo : Position} :
      Effect w (.startDiscard partition upTo)
        { w with walks := w.walks ++ [{ partition, upTo, todo := w.store.active }] }
  | discard {j : Nat} {v v' : Walk} {store : Store} :
      w.walks[j]? = some v → v.advance w.store = some (v', store) →
      Effect w (.discard j) { w with store, walks := w.walks.set j v' }
  | startSync {force : Bool} :
      Effect w (.startSync force)
        { w with syncs := w.syncs ++ [{ force, todo := w.store.active }] }
  | sync {k : Nat} {y y' : Syncing} {store : Store} :
      w.syncs[k]? = some y → y.advance w.store = some (y', store) →
      Effect w (.sync k) { w with store, syncs := w.syncs.set k y' }
  | retireSpare :
      Effect w .retireSpare { w with
        store := { w.store with spare := none }
        doomed := w.doomed ++ w.store.spare.toList }
  | reset :
      Effect w .reset { w with
        store := { w.store with active := [], spare := none }
        doomed := w.doomed ++ (w.store.active ++ w.store.spare.toList) }
  | delete {h : Handle} : h ∈ w.doomed →
      Effect w (.delete h)
        { w with store := (w.store.deleteFile h).2, doomed := w.doomed.erase h }
  | keepIdsAbove {id : SegmentId} :
      Effect w (.keepIdsAbove id) { w with store := w.store.keepIdsAbove id }

/-- Every step goes in one of these ways. -/
theorem effect_of_step {w w' : World} {e : Event} (h : w.step e = some w') : w.Effect e w' := by
  unfold step at h
  cases e with
  | claim m =>
    dsimp only at h
    split at h
    · rename_i hm
      cases h
      exact .refused hm
    · rename_i hm
      split at h <;> rename_i hc <;> cases h
      · exact .denied hm hc
      · exact .granted hm hc
  | append i =>
    simp only [Option.map_eq_some_iff, Option.bind_eq_some_iff] at h
    obtain ⟨_, ⟨a, ha, hadvance⟩, rfl⟩ := h
    exact .append ha hadvance
  | lookForSpare =>
    dsimp only at h
    split at h <;> rename_i hlacks <;> cases h
    · exact .spareMissing hlacks
    · exact .spareThere (Bool.not_eq_true _ ▸ hlacks)
  | createSpare =>
    dsimp only at h
    split at h
    · cases h
    · rename_i hstocking
      split at h <;> rename_i hn <;> cases h
      · exact .spareFailed (Nat.pos_of_ne_zero hstocking) hn
      · exact .spareCreated (Nat.pos_of_ne_zero hstocking) hn
  | placeSpare k =>
    dsimp only at h
    split at h
    · rename_i hk
      cases h
      exact .placeSpare hk
    · cases h
  | startDiscard p upTo =>
    cases h
    exact .startDiscard
  | discard j =>
    simp only [Option.map_eq_some_iff, Option.bind_eq_some_iff] at h
    obtain ⟨_, ⟨v, hv, hadvance⟩, rfl⟩ := h
    exact .discard hv hadvance
  | startSync force =>
    cases h
    exact .startSync
  | sync k =>
    simp only [Option.map_eq_some_iff, Option.bind_eq_some_iff] at h
    obtain ⟨_, ⟨y, hy, hadvance⟩, rfl⟩ := h
    exact .sync hy hadvance
  | retireSpare =>
    cases h
    exact .retireSpare
  | reset =>
    cases h
    exact .reset
  | delete k =>
    dsimp only at h
    split at h
    · rename_i hk
      cases h
      exact .delete hk
    · cases h
  | keepIdsAbove id =>
    cases h
    exact .keepIdsAbove

end World

/-- Runs of which every step meets a condition. -/
inductive Run (allowed : World → Event → World → Prop) : World → World → Prop where
  | refl (w : World) : Run allowed w w
  | step {w v u : World} (e : Event) : Run allowed w v → v.step e = some u → allowed v e u →
      Run allowed w u

/-- Whether the numbers of segments have not run out. -/
def World.HasIds (_ : World) (_ : Event) (w : World) : Prop := w.store.ids.next ≠ 0

instance (w : World) (e : Event) (w' : World) : Decidable (w.HasIds e w') :=
  inferInstanceAs (Decidable (_ ≠ _))

/-- What becomes of a world when some events happen one after the other, if each of them can
happen and meets a condition. -/
def World.follow (allowed : World → Event → World → Prop)
    [∀ w e w', Decidable (allowed w e w')] : List Event → World → Option World
  | [], w => some w
  | e :: rest, w =>
    match w.step e with
    | none => none
    | some v => if allowed w e v then v.follow allowed rest else none

namespace Run

variable {allowed : World → Event → World → Prop} {w v u : World}

theorem trans (h : Run allowed w v) (h' : Run allowed v u) : Run allowed w u := by
  induction h' with
  | refl => exact h
  | step e _ hstep hallowed ih => exact .step e ih hstep hallowed

theorem of_follow [∀ w e w', Decidable (allowed w e w')] {events : List Event}
    (h : w.follow allowed events = some v) : Run allowed w v := by
  induction events generalizing w with
  | nil => cases h; exact .refl _
  | cons e rest ih =>
    rw [World.follow] at h
    split at h
    · cases h
    · rename_i u hstep
      split at h
      · exact (Run.step e (.refl w) hstep (by assumption)).trans (ih h)
      · cases h

end Run

/-! ## Operations that nothing comes between -/

/-- An append goes on for some steps, and nothing comes between. -/
inductive Appending.Alone : Appending × Store → Appending × Store → Prop where
  | refl (x : Appending × Store) : Alone x x
  | step {x y z : Appending × Store} : x.1.advance x.2 = some y → Alone y z → Alone x z

/-- A discard goes on for some steps, and nothing comes between. -/
inductive Walk.Alone : Walk × Store → Walk × Store → Prop where
  | refl (x : Walk × Store) : Alone x x
  | step {x y z : Walk × Store} : x.1.advance x.2 = some y → Alone y z → Alone x z

theorem Walk.Alone.trans {x y z : Walk × Store} (h : Alone x y) (h' : Alone y z) : Alone x z := by
  induction h with
  | refl => exact h'
  | step hstep _ ih => exact .step hstep (ih h')

/-- An append whose steps nothing comes between is the whole of `Store.append`, if no claim was
pending in its segment before. -/
theorem Appending.advance_alone {s : Store} {m : Mutation} {frame : Bytes}
    (hm : m.frame s.maxPayload = .ok frame) {c : Claim} {s₁ : Store}
    (hc : s.claim m.partitions frame.length = (.ok c, s₁))
    (hpending : ∀ r s₂, s₁.write c frame = (r, s₂) → s₂.awaits c = false) :
    ∃ written, Alone ({ mutation := m, frame, claim := c }, s₁)
      ({ mutation := m, frame, claim := c, stage := .returned written (s.append m).1 },
        (s.append m).2) := by
  have hgive : ∀ (written : Bool) (cause : DiskError) (t : Store),
      advance { mutation := m, frame, claim := c, stage := .givingUp written cause } t =
        some ({ mutation := m, frame, claim := c,
                stage := .returned written (.error (t.giveUp c.handle cause).1) },
          (t.giveUp c.handle cause).2) := fun _ _ _ => rfl
  simp only [Store.append, hm, hc]
  cases hw : s₁.write c frame with
  | mk r s₂ =>
    have hfree := hpending r s₂ hw
    cases r with
    | error cause =>
      have hfailed : advance { mutation := m, frame, claim := c } s₁ =
          some ({ mutation := m, frame, claim := c, stage := .givingUp false cause }, s₂) := by
        simp only [advance, hw]
      exact ⟨false, .step hfailed (.step (hgive false cause s₂) (.refl _))⟩
    | ok =>
      by_cases hsync : s₂.settings.sync = .eachAppend
      · simp only [Store.acknowledge, if_pos hsync]
        have hwritten : advance { mutation := m, frame, claim := c } s₁ =
            some ({ mutation := m, frame, claim := c, stage := .waiting }, s₂) := by
          simp only [advance, hw, if_pos hsync]
        have hwaited : advance { mutation := m, frame, claim := c, stage := .waiting } s₂ =
            some ({ mutation := m, frame, claim := c, stage := .syncing }, s₂) := by
          simp only [advance, hfree, Bool.false_eq_true, if_false]
        cases hy : s₂.syncSegment c.handle true with
        | mk r s₃ =>
          cases r with
          | ok =>
            refine ⟨true, .step hwritten (.step hwaited (.step (y := (_, s₃)) ?_ (.refl _)))⟩
            simp only [advance, hy]
          | error cause =>
            have hfailed : advance { mutation := m, frame, claim := c, stage := .syncing } s₂ =
                some ({ mutation := m, frame, claim := c, stage := .givingUp true cause }, s₃) := by
              simp only [advance, hy]
            exact ⟨true, .step hwritten (.step hwaited (.step hfailed
              (.step (hgive true cause s₃) (.refl _))))⟩
      · simp only [Store.acknowledge, if_neg hsync]
        refine ⟨true, .step (y := (_, s₂)) ?_ (.refl _)⟩
        simp only [advance, hw, if_neg hsync]

/-- What a discard does to one segment when nothing comes between is `Store.discardOne`. -/
theorem Walk.advance_alone_one (v : Walk) {h : Handle} {rest : List Handle} (s : Store)
    (hv : v.todo = h :: rest) (hs : v.stage = .flushing) :
    Alone (v, s) ({ v with stage := .leaving }, s.discardOne v.partition v.upTo h) := by
  obtain ⟨partition, upTo, todo, stage⟩ := v
  cases hv
  cases hs
  simp only [Store.discardOne]
  refine .step (y := (_, s.noteFlush h partition upTo)) rfl ?_
  by_cases hspent : ((s.noteFlush h partition upTo).segment h).isSpent = true
  · rw [if_pos hspent]
    refine .step (y := ({ partition, upTo, todo := h :: rest, stage := .unlinking },
      s.noteFlush h partition upTo)) ?_ ?_
    · simp only [advance, hspent, if_true]
    · rw [Store.deleteSegment]
      cases hu : (s.noteFlush h partition upTo).unlink h with
      | mk taken t =>
        cases taken with
        | true =>
          refine .step (y := ({ partition, upTo, todo := h :: rest, stage := .deleting }, t)) ?_
            (.step rfl (.refl _))
          simp only [advance, hu]
        | false =>
          refine .step (y := ({ partition, upTo, todo := h :: rest, stage := .leaving }, t)) ?_
            (.refl _)
          simp only [advance, hu]
  · rw [if_neg hspent]
    refine .step (y := ({ partition, upTo, todo := h :: rest, stage := .leaving },
      s.noteFlush h partition upTo)) ?_ (.refl _)
    simp only [advance, if_neg hspent]

/-- A discard whose steps nothing comes between is the whole of `Store.discardEach`. -/
theorem Walk.advance_alone (p : Partition) (upTo : Position) (todo : List Handle) (s : Store) :
    ∃ stage, Alone ({ partition := p, upTo, todo }, s)
      ({ partition := p, upTo, todo := [], stage }, Store.discardEach p upTo todo s) := by
  induction todo generalizing s with
  | nil => exact ⟨.flushing, .refl _⟩
  | cons h rest ih =>
    have hone := advance_alone_one { partition := p, upTo, todo := h :: rest } s rfl rfl
    rw [Store.discardEach_cons]
    by_cases hholds : ((s.discardOne p upTo h).segment h).holds upTo = true
    · rw [if_pos hholds]
      refine ⟨.leaving, hone.trans (.step ?_ (.refl _))⟩
      simp only [advance, hholds, if_true]
    · rw [if_neg hholds]
      obtain ⟨stage, hrest⟩ := ih (s.discardOne p upTo h)
      refine ⟨stage, hone.trans (.step ?_ hrest)⟩
      simp only [advance, if_neg hholds]

end SegmentLog
