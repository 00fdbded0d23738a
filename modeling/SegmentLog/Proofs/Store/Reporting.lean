import SegmentLog.Proofs.Store.Discarding

/-!
# Which failures are answered

When a request ends with an I/O error, the monitor has to have answered it: once, in the way that
suits the phase of the node and the policy in force; and nothing is to be answered when a request
ends well or is only refused. So it is, in whatever state the store is and whatever fails, with
three exceptions, in which the error is given to the caller and not to the monitor.

* `Monitor.due` — what has to be done when a request ends;
* `answered_append`, `answered_stockSpare`, `answered_syncEach`, `answered_finish` — it was done;
* `failures_answered` — all requests, with the exceptions.
-/

namespace SegmentLog

/-- What a policy wants to be done about a failure of a node that has started. -/
def Policy.action : Policy → Action
  | .stop => .stoppedParticipation
  | .die => .terminated false
  | .ignore => .ignored

namespace Monitor

variable {α β : Type}

/-- What has to be done when a request has ended: one thing about an I/O error, nothing else. -/
def due (m : Monitor) : Except LogError α → List Action
  | .error (.io _) => [if m.phase = .started then m.policy.action else .terminated true]
  | _ => []

/-- A monitor that has done what was due. -/
def answered (m : Monitor) (r : Except LogError α) : Monitor :=
  { m with actions := m.actions ++ m.due r }

theorem answered_io (m : Monitor) (cause : IoError) :
    m.answered (.error (.io cause) : Except LogError α) = m.report := by
  obtain ⟨policy, phase, actions⟩ := m
  cases phase <;> cases policy <;> rfl

/-- There is nothing to be done about any other end. -/
theorem answered_of_no_io (m : Monitor) {r : Except LogError α}
    (hr : ∀ cause, r ≠ .error (.io cause)) : m.answered r = m := by
  have hdue : m.due r = [] := by
    rw [due.eq_def]
    split
    · exact absurd rfl (hr _)
    · rfl
  rw [answered, hdue, List.append_nil]

@[simp]
theorem answered_ok (m : Monitor) (a : α) : m.answered (.ok a : Except LogError α) = m :=
  m.answered_of_no_io fun _ h => (nomatch h)

/-- What is due does not depend on what a request brings when it ends well. -/
theorem answered_error (m : Monitor) (e : LogError) :
    m.answered (.error e : Except LogError α) = m.answered (.error e : Except LogError β) := by
  cases e <;> rfl

end Monitor

/-- A mutation is refused with an I/O error just if its declared length would do, and it writes out
another one. -/
theorem Mutation.frame_eq_io_iff {m : Mutation} {max : Nat} :
    (∃ cause, m.frame max = .error (.io cause)) ↔
      Frame.checkSize m.declared max = .ok () ∧ m.payload.length ≠ m.declared := by
  unfold Mutation.frame
  split
  · rename_i e hsize
    rw [hsize]
    refine ⟨?_, fun h => (nomatch h.1)⟩
    rintro ⟨cause, he⟩
    cases he
    -- a length that is refused is refused for its own sake
    unfold Frame.checkSize at hsize
    split at hsize
    · cases hsize
    · split at hsize <;> cases hsize
  · rename_i hsize
    rw [hsize]
    split
    · rename_i hlength
      exact ⟨fun ⟨_, he⟩ => (nomatch he), fun h => absurd hlength h.2⟩
    · rename_i hlength
      exact ⟨fun _ => ⟨rfl, hlength⟩, fun _ => ⟨_, rfl⟩⟩

namespace Store

variable {α : Type} {s s' : Store}

/-! ## What reports nothing -/

theorem monitor_newSegment {r : Except DiskError Handle} (h : s.newSegment = (r, s')) :
    s'.monitor = s.monitor := by
  obtain ⟨d, -, ⟨e, -, rfl, -⟩ | ⟨g, q, n, -, rfl, -⟩⟩ := newSegment_cases h <;> rfl

/-- A file that cannot be removed is not reported. -/
theorem monitor_deleteFile (s : Store) (h : Handle) : (s.deleteFile h).2.monitor = s.monitor := by
  cases hd : s.deleteFile h with
  | mk r s' =>
    obtain ⟨d, rfl, -⟩ := deleteFile_cases hd
    rfl

theorem monitor_withdrawSpare {r : Option Handle} (h : s.withdrawSpare = (r, s')) :
    s'.monitor = s.monitor := by
  rcases withdrawSpare_cases h with ⟨-, -, rfl⟩ | ⟨k, -, ⟨-, rfl⟩ | ⟨-, rfl⟩⟩
  · rfl
  · rfl
  · exact monitor_deleteFile _ _

theorem monitor_placeSpare (s : Store) (h : Handle) : (s.placeSpare h).monitor = s.monitor := by
  unfold Store.placeSpare
  split
  · rfl
  · exact monitor_deleteFile s h

theorem monitor_activate (s : Store) (h : Handle) : (s.activate h).monitor = s.monitor := by
  obtain ⟨s₁, mail, he, ⟨-, rfl⟩ | ⟨t, -, rfl⟩⟩ := activate_eq s h
  · rw [he]
  · rw [he]
    rfl

theorem monitor_write {c : Claim} {frame : Bytes} {r : Except DiskError Unit}
    (h : s.write c frame = (r, s')) : s'.monitor = s.monitor := by
  have hs : s' = (s.write c frame).2 := by rw [h]
  rw [hs]
  rfl

theorem monitor_syncSegment {h : Handle} {force : Bool} {r : Except DiskError Unit}
    (hs : s.syncSegment h force = (r, s')) : s'.monitor = s.monitor := by
  obtain ⟨u, d, rfl, -⟩ := syncSegment_cases hs
  rfl

theorem monitor_discardOne (s : Store) (p : Partition) (upTo : Position) (h : Handle) :
    (s.discardOne p upTo h).monitor = s.monitor := by
  obtain ⟨-, -, _, d, -, he⟩ | ⟨-, he⟩ := discardOne_cases s p upTo h
  · rw [he]
    rfl
  · rw [he]
    rfl

theorem monitor_discard (s : Store) (p : Partition) (upTo : Position) :
    (s.discard p upTo).monitor = s.monitor := by
  rw [Store.discard, discardEach_eq]
  generalize s.walked upTo s.active = l
  induction l generalizing s with
  | nil => rfl
  | cons h rest ih => rw [List.foldl_cons, ih, monitor_discardOne]

/-! ## Appends -/

theorem answered_giveUp (s : Store) (h : Handle) (cause : DiskError) :
    (s.giveUp h cause).2.monitor =
      s.monitor.answered (.error (s.giveUp h cause).1 : Except LogError α) :=
  (Monitor.answered_io _ _).symm

/-- A new segment that cannot be created is reported once. -/
theorem answered_rollOver {r : Except LogError Handle} (h : s.rollOver = (r, s')) :
    s'.monitor = s.monitor.answered r := by
  obtain ⟨spare, s₁, hw, hcase⟩ := rollOver_cases h
  rw [← monitor_withdrawSpare hw]
  rcases hcase with ⟨k, -, rfl, rfl⟩ | ⟨-, made, s₂, hn, hmade⟩
  · rw [monitor_activate, Monitor.answered_ok]
  · rw [← monitor_newSegment hn]
    rcases hmade with ⟨e, -, rfl, rfl⟩ | ⟨k, -, rfl, rfl⟩
    · rw [report, Monitor.answered_io]
    · rw [monitor_activate, Monitor.answered_ok]

theorem answered_segmentFor {length : Nat} {r : Except LogError Handle}
    (h : s.segmentFor length = (r, s')) : s'.monitor = s.monitor.answered r := by
  rcases segmentFor_cases h with ⟨k, -, -, rfl, rfl⟩ | h
  · rw [Monitor.answered_ok]
  · exact answered_rollOver h

/-- The locked part of an append reports that it has failed. -/
theorem answered_claim {partitions : List Partition} {length : Nat} {r : Except LogError Claim}
    (h : s.claim partitions length = (r, s')) : s'.monitor = s.monitor.answered r := by
  unfold Store.claim at h
  cases hf : s.segmentFor length with
  | mk chosen s₁ =>
    rw [hf] at h
    have hs₁ := answered_segmentFor hf
    cases chosen with
    | error e =>
      cases h
      rw [hs₁, Monitor.answered_error]
    | ok k =>
      rw [Monitor.answered_ok] at hs₁
      rw [← hs₁]
      dsimp only at h
      split at h <;> cases h
      · rw [Monitor.answered_ok]
        rfl
      · rw [report, Monitor.answered_io]

theorem answered_acknowledge {c : Claim} {r : Except LogError Position}
    (h : s.acknowledge c = (r, s')) : s'.monitor = s.monitor.answered r := by
  unfold Store.acknowledge at h
  split at h
  · cases hr : s.syncSegment c.handle true with
    | mk synced s₁ =>
      rw [hr] at h
      rw [← monitor_syncSegment hr]
      cases synced with
      | ok =>
        cases h
        rw [Monitor.answered_ok]
      | error cause =>
        cases h
        exact answered_giveUp s₁ c.handle cause
  · cases h
    rw [Monitor.answered_ok]

/-- An append reports that it has failed, unless the mutation was not as it had declared. -/
theorem answered_append {m : Mutation} (hm : ∀ cause, m.frame s.maxPayload ≠ .error (.io cause))
    {r : Except LogError Position} (h : s.append m = (r, s')) :
    s'.monitor = s.monitor.answered r := by
  unfold Store.append at h
  cases hframe : m.frame s.maxPayload with
  | error e =>
    rw [hframe] at h hm
    cases h
    rw [Monitor.answered_of_no_io _ fun cause he => hm cause (by cases he; rfl)]
  | ok frame =>
    rw [hframe] at h
    dsimp only at h
    cases hc : s.claim m.partitions frame.length with
    | mk granted s₁ =>
      rw [hc] at h
      have hs₁ := answered_claim hc
      cases granted with
      | error e =>
        cases h
        rw [hs₁, Monitor.answered_error]
      | ok c =>
        rw [Monitor.answered_ok] at hs₁
        rw [← hs₁]
        dsimp only at h
        cases hw : s₁.write c frame with
        | mk written s₂ =>
          rw [hw] at h
          rw [← monitor_write hw]
          cases written with
          | ok => exact answered_acknowledge h
          | error cause =>
            cases h
            exact answered_giveUp s₂ c.handle cause

/-! ## The spare, syncs and the end -/

theorem answered_stockSpare (s : Store) :
    s.stockSpare.2.monitor = s.monitor.answered s.stockSpare.1 := by
  unfold Store.stockSpare
  split
  · cases hn : s.newSegment with
    | mk made s₁ =>
      rw [← monitor_newSegment hn]
      cases made with
      | ok h => rw [monitor_placeSpare, Monitor.answered_ok]
      | error e => exact (Monitor.answered_io _ _).symm
  · rw [Monitor.answered_ok]

/-- A sync of some segments reports the first failure, at which it ends. -/
theorem answered_syncEach (force : Bool) (todo : List Handle) (s : Store) :
    (syncEach force todo s).2.monitor = s.monitor.answered (syncEach force todo s).1 := by
  induction todo generalizing s with
  | nil => exact (Monitor.answered_ok _ _).symm
  | cons h rest ih =>
    unfold Store.syncEach
    cases hr : s.syncSegment h force with
    | mk synced s₁ =>
      rw [← monitor_syncSegment hr]
      cases synced with
      | ok => exact ih s₁
      | error cause =>
        cases force
        · exact (Monitor.answered_io _ _).symm
        · exact answered_giveUp s₁ h cause

theorem answered_sync (s : Store) (force : Bool) :
    (s.sync force).2.monitor = s.monitor.answered (s.sync force).1 := by
  unfold Store.sync
  split
  · obtain ⟨mail, he⟩ := send_eq s .sync
    rw [Monitor.answered_ok, he]
  · exact answered_syncEach force s.active s

/-! ## Requests -/

/-- What a request brings to the caller. -/
def reply (s : Store) : Request → Except LogError Unit
  | .append m => (s.append m).1.map fun _ => ()
  | .stockSpare => s.stockSpare.1
  | .sync force => (s.sync force).1
  | .syncActive force => (s.syncActive force).1
  | .finish => s.finish.1
  | .wipe => s.wipe.1
  | .discard _ _ => .ok ()
  | .keepIdsAbove _ => .ok ()
  | .attach _ => .ok ()

/-- Whether a request gives its failure to the caller alone: a mutation that writes out another
length than it declares, a spare that cannot be removed in the end, and segments that cannot be
removed when all are to be. -/
def Unanswered (s : Store) : Request → Prop
  | .append m =>
    Frame.checkSize m.declared s.maxPayload = .ok () ∧ m.payload.length ≠ m.declared
  | .finish => (s.syncActive true).1 = .ok () ∧ ∃ h, (s.syncActive true).2.spare = some h ∧
    ((s.syncActive true).2.deleteFile h).1 ≠ .ok ()
  | .wipe => s.wipe.1 ≠ .ok ()
  | _ => False

/-- The end of the use reports that the last sync has failed, and does not report that the spare
cannot be removed. -/
theorem answered_finish (s : Store) :
    s.Unanswered .finish ∧ (∃ cause, s.finish.1 = .error (.io cause)) ∧
        s.finish.2.monitor = s.monitor ∨
      ¬ s.Unanswered .finish ∧ s.finish.2.monitor = s.monitor.answered s.finish.1 := by
  cases h : s.finish with
  | mk r s' =>
    obtain ⟨synced, s₁, hsync, hcase⟩ := finish_cases h
    have hanswered : s₁.monitor = s.monitor.answered synced := by
      have hall := answered_syncEach true s.active s
      rwa [← syncActive, hsync] at hall
    unfold Unanswered
    rw [hsync]
    dsimp only
    rcases hcase with ⟨e, rfl, rfl, rfl⟩ | ⟨rfl, hcase⟩
    · refine .inr ⟨?_, hanswered⟩
      rintro ⟨hok, -⟩
      cases hok
    rw [Monitor.answered_ok] at hanswered
    rcases hcase with ⟨hspare, rfl, rfl⟩ | ⟨k, removed, hspare, hd, hcase⟩
    · refine .inr ⟨?_, by rw [Monitor.answered_ok, hanswered]⟩
      rintro ⟨-, k, hk, -⟩
      rw [hspare] at hk
      cases hk
    obtain ⟨d, rfl, hremove⟩ := deleteFile_cases hd
    have hdelete : s₁.deleteFile k = (removed, { s₁ with disk := d }) := deleteFile_eq hremove
    rcases hcase with ⟨rfl, rfl⟩ | ⟨cause, rfl, rfl⟩
    · refine .inr ⟨?_, by rw [Monitor.answered_ok, ← hanswered]⟩
      rintro ⟨-, j, hj, hfails⟩
      rw [hspare] at hj
      cases hj
      rw [hdelete] at hfails
      exact hfails rfl
    · refine .inl ⟨⟨rfl, k, hspare, ?_⟩, ⟨_, rfl⟩, hanswered⟩
      rw [hdelete]
      intro hok
      cases hok

/-- A file that cannot be removed is never reported where all are to be. -/
theorem monitor_deleteEach (todo : List Handle) (s : Store) :
    (deleteEach todo s).2.monitor = s.monitor ∧
      ((deleteEach todo s).1 = .ok () ∨ ∃ cause, (deleteEach todo s).1 = .error (.io cause)) := by
  induction todo generalizing s with
  | nil => exact ⟨rfl, .inl rfl⟩
  | cons h rest ih =>
    have hgone := monitor_deleteFile s h
    unfold Store.deleteEach
    split <;> rename_i hd <;> rw [hd] at hgone
    · rw [← hgone]
      exact ih _
    · rw [← hgone]
      exact ih _
    · exact ⟨hgone, .inr ⟨_, rfl⟩⟩

/-- **Which failures are answered.** Whatever state a store and its monitor are in, and whatever
fails: when a request ends with an I/O error, the monitor has done one thing more, which is to end
the process quietly before the node has started, and what the policy in force wants after that; when
it ends in any other way, the monitor has done nothing more. The exceptions are failures that only
the caller is told of. -/
theorem failures_answered (s : Store) (request : Request) :
    (¬ s.Unanswered request →
      (s.serve request).monitor = s.monitor.answered (s.reply request)) ∧
    (s.Unanswered request →
      (∃ cause, s.reply request = .error (.io cause)) ∧
        (s.serve request).monitor = s.monitor) := by
  cases request with
  | append m =>
    constructor
    · intro hm
      have hframe : ∀ cause, m.frame s.maxPayload ≠ .error (.io cause) :=
        fun cause he => hm (Mutation.frame_eq_io_iff.mp ⟨cause, he⟩)
      have hanswered := answered_append hframe (Prod.eta (s.append m)).symm
      rw [serve, reply, hanswered]
      cases (s.append m).1 with
      | ok p => rw [Monitor.answered_ok, Except.map, Monitor.answered_ok]
      | error e => rw [Except.map, Monitor.answered_error]
    · intro hm
      obtain ⟨cause, he⟩ := Mutation.frame_eq_io_iff.mpr hm
      rw [reply, serve, append_refused he]
      exact ⟨⟨cause, rfl⟩, rfl⟩
  | stockSpare => exact ⟨fun _ => answered_stockSpare s, fun h => h.elim⟩
  | sync force => exact ⟨fun _ => answered_sync s force, fun h => h.elim⟩
  | syncActive force => exact ⟨fun _ => answered_syncEach force s.active s, fun h => h.elim⟩
  | finish =>
    rcases answered_finish s with ⟨hunanswered, h⟩ | ⟨hanswered, h⟩
    · exact ⟨fun hc => absurd hunanswered hc, fun _ => h⟩
    · exact ⟨fun _ => h, fun hc => absurd hc hanswered⟩
  | wipe =>
    obtain ⟨hsame, hreply⟩ :=
      monitor_deleteEach (s.active ++ s.spare.toList) { s with active := [], spare := none }
    refine ⟨fun h => ?_, fun h => ⟨hreply.resolve_left h, hsame⟩⟩
    have hok : s.wipe.1 = .ok () := not_not.mp h
    rw [reply, hok, Monitor.answered_ok]
    exact hsame
  | discard p upTo =>
    refine ⟨fun _ => ?_, fun h => h.elim⟩
    rw [reply, Monitor.answered_ok]
    exact monitor_discard s p upTo
  | keepIdsAbove id => exact ⟨fun _ => (Monitor.answered_ok _ _).symm, fun h => h.elim⟩
  | attach worker => exact ⟨fun _ => (Monitor.answered_ok _ _).symm, fun h => h.elim⟩

/-- A write fails after the node has started: its policy decides, once. -/
theorem failures_answered_write :
    let s := { blank { directory := ⟨[Path.dot]⟩, segmentSize := 64 } 5
      { write := [some (3, .device)] } with monitor := { policy := .stop, phase := .started } }
    s.reply (.append (.raw [⟨1⟩] [7, 8, 9])) = .error (.io (.disk .device)) ∧
      (s.serve (.append (.raw [⟨1⟩] [7, 8, 9]))).monitor.actions = [.stoppedParticipation] := by
  intro s
  have hfails : s.reply (.append (.raw [⟨1⟩] [7, 8, 9])) = .error (.io (.disk .device)) := by
    decide +kernel
  refine ⟨hfails, ?_⟩
  rw [(failures_answered s (.append (.raw [⟨1⟩] [7, 8, 9]))).1 fun h => h.2 rfl, hfails]
  rfl

/-- Two failures that only the caller is told of: a mutation of three bytes that had declared two,
and a spare whose file cannot be removed when the use ends. -/
theorem failures_not_answered :
    let s := (blank { directory := ⟨[Path.dot]⟩, segmentSize := 64 } 5
      { remove := [some .device] }).serve .stockSpare
    s.reply (.append ⟨[⟨1⟩], 2, [7, 8, 9]⟩) = .error (.io (.wrongLength 2 3)) ∧
      (s.serve (.append ⟨[⟨1⟩], 2, [7, 8, 9]⟩)).monitor.actions = [] ∧
      s.reply .finish = .error (.io (.disk .device)) ∧
      (s.serve .finish).monitor.actions = [] := by
  decide +kernel

end Store

end SegmentLog
