import SegmentLog.Proofs.Concurrent.Order
import SegmentLog.Proofs.Frame.First
import SegmentLog.Proofs.Store.Reopening

/-!
# Numbers of new segments

A store hands out a number for every segment that it makes. The ledger of a store lists what its
numbers have to go by: the segment files that were there when it was opened, the numbers that it
was told to keep above, by a caller or by a replay, and the numbers that it has handed out.

A number that is handed out lies above everything in the ledger, until the largest number that
there is comes into it: nothing lies above that one, and after it numbers start over at zero.

* `Store.Quiet`, `Store.Takes` — what an operation does to the numbers: nothing, or it takes one;
* `World.numbers_of_step` — the same for every step of every caller;
* `Ledgered.above` — everything in the ledger lies below the next number;
* `new_number_above_iff` — when a new number lies above everything in the ledger.
-/

namespace SegmentLog

/-- The largest number that there is. -/
def lastId : SegmentId := 0xFFFFFFFFFFFFFFFF

namespace IdSource

variable {s : IdSource} {id : SegmentId}

theorem lt_lastId (h : id ≠ lastId) : id < lastId := by
  have hlt := id.toNat_lt
  have hne : id.toNat ≠ 2 ^ 64 - 1 := fun he => h (UInt64.toNat_inj.mp he)
  rw [UInt64.lt_iff_toNat_lt]
  show id.toNat < 2 ^ 64 - 1
  omega

theorem not_lastId_lt (id : SegmentId) : ¬ lastId < id := by
  have hlt := id.toNat_lt
  rw [UInt64.lt_iff_toNat_lt]
  show ¬ 2 ^ 64 - 1 < id.toNat
  omega

theorem next_lt_take_of_ne (h : s.next ≠ lastId) : s.next < s.take.2.next := by
  refine next_lt_take fun hzero => h ?_
  have hback : s.next = s.take.2.next - 1 := (UInt64.add_sub_cancel _ _).symm
  rw [hback, hzero]
  rfl

theorem take_ne (s : IdSource) : s.take.2 ≠ s := by
  intro he
  have hnext : (s.next + 1).toNat = s.next.toNat := congrArg (·.next.toNat) he
  have hlt := s.next.toNat_lt
  rw [UInt64.toNat_add, UInt64.toNat_one] at hnext
  omega

end IdSource

theorem SegmentName.not_precedes_of_lt {m n : SegmentName} (h : m.id < n.id) :
    n.precedes m = false := by
  have hle : ¬ n.id < m.id := UInt64.not_lt.mpr (UInt64.le_of_lt h)
  have hne : ¬ n.id = m.id := (UInt64.ne_of_lt h).symm
  simp [precedes, hle, hne]

namespace Store

variable {s s' s'' : Store}

/-! ## What an operation does to the numbers -/

/-- Whether no number is handed out, and no segment made. -/
structure Quiet (s s' : Store) : Prop where
  ids : s'.ids = s.ids
  size : s'.table.size = s.table.size
  names : ∀ k < s.table.size, (s'.segment k).name = (s.segment k).name

/-- Whether the next number is handed out, to a new segment if there is one. -/
structure Takes (s s' : Store) : Prop where
  ids : s'.ids = s.ids.take.2
  size : s.table.size ≤ s'.table.size
  old : ∀ k < s.table.size, (s'.segment k).name = (s.segment k).name
  new : ∀ k, s.table.size ≤ k → k < s'.table.size → (s'.segment k).name = .ofId s.ids.next

theorem Quiet.refl (s : Store) : s.Quiet s := ⟨rfl, rfl, fun _ _ => rfl⟩

theorem Quiet.trans (h : s.Quiet s') (h' : s'.Quiet s'') : s.Quiet s'' where
  ids := h'.ids.trans h.ids
  size := h'.size.trans h.size
  names k hk := (h'.names k (h.size ▸ hk)).trans (h.names k hk)

theorem Quiet.takes (h : s.Quiet s') (h' : s'.Takes s'') : s.Takes s'' where
  ids := by rw [h'.ids, h.ids]
  size := h.size ▸ h'.size
  old k hk := (h'.old k (h.size ▸ hk)).trans (h.names k hk)
  new k hle hlt := by
    rw [h'.new k (h.size ▸ hle) hlt, h.ids]

theorem Takes.quiet (h : s.Takes s') (h' : s'.Quiet s'') : s.Takes s'' where
  ids := h'.ids.trans h.ids
  size := h'.size ▸ h.size
  old k hk := (h'.names k (Nat.lt_of_lt_of_le hk h.size)).trans (h.old k hk)
  new k hle hlt := by
    rw [h'.size] at hlt
    rw [h'.names k hlt, h.new k hle hlt]

/-- A change that leaves the table and the numbers alone is quiet. -/
theorem quiet_of_eq (htable : s'.table = s.table) (hids : s'.ids = s.ids) : s.Quiet s' where
  ids := hids
  size := by rw [htable]
  names k _ := by rw [segment, segment, htable]

/-- A change to one segment that leaves its name alone is quiet. -/
theorem quiet_modify {h : Handle} {f : Segment → Segment} {d : Disk}
    (hf : (f (s.segment h)).name = (s.segment h).name) :
    s.Quiet { s.modify h f with disk := d } where
  ids := rfl
  size := size_modify s h f
  names := modify_related (P := fun g g' => g'.name = g.name) (fun _ => rfl) hf

theorem quiet_deleteFile (s : Store) (k : Handle) : s.Quiet (s.deleteFile k).2 := by
  cases hd : s.deleteFile k with
  | mk r t =>
    obtain ⟨d, rfl, -⟩ := deleteFile_cases hd
    exact quiet_of_eq rfl rfl

theorem quiet_placeSpare (s : Store) (k : Handle) : s.Quiet (s.placeSpare k) := by
  rw [placeSpare]
  split
  · exact quiet_of_eq rfl rfl
  · exact quiet_deleteFile s k

theorem quiet_giveUp (s : Store) (k : Handle) (cause : DiskError) : s.Quiet (s.giveUp k cause).2 :=
  quiet_modify (d := s.disk) rfl |>.trans (quiet_of_eq rfl rfl)

theorem quiet_syncSegment {k : Handle} {force : Bool} {r : Except DiskError Unit}
    (h : s.syncSegment k force = (r, s')) : s.Quiet s' := by
  obtain ⟨u, d, rfl, -⟩ := syncSegment_cases h
  exact quiet_modify rfl

theorem quiet_noteFlush (s : Store) (k : Handle) (p : Partition) (upTo : Position) :
    s.Quiet (s.noteFlush k p upTo) :=
  quiet_modify (f := (·.noteFlush p upTo)) (d := s.disk) (Segment.name_noteFlush _ p upTo)

theorem quiet_activate (s : Store) (k : Handle) : s.Quiet (s.activate k) := by
  obtain ⟨s₁, mail, he, ⟨-, rfl⟩ | ⟨t, -, rfl⟩⟩ := activate_eq s k <;> rw [he]
  · exact quiet_of_eq rfl rfl
  · exact (quiet_modify (d := s.disk) rfl).trans (quiet_of_eq rfl rfl)

theorem quiet_withdrawSpare {r : Option Handle} (h : s.withdrawSpare = (r, s')) : s.Quiet s' := by
  have hout : s.Quiet { s with spare := none } := quiet_of_eq rfl rfl
  rcases withdrawSpare_cases h with ⟨-, -, rfl⟩ | ⟨k, -, ⟨-, rfl⟩ | ⟨-, rfl⟩⟩
  · exact .refl _
  · exact hout
  · exact hout.trans (quiet_deleteFile _ k)

/-- A new segment takes the next number, and so does one that cannot be made. -/
theorem takes_newSegment {r : Except DiskError Handle} (h : s.newSegment = (r, s')) :
    s.Takes s' := by
  obtain ⟨d, -, ⟨e, -, rfl, -⟩ | ⟨g, q, n, -, rfl, hg, -⟩⟩ := newSegment_cases h
  · exact ⟨rfl, Nat.le_refl _, fun _ _ => rfl, fun k hle hlt => absurd hlt (Nat.not_lt.mpr hle)⟩
  have hpush := @segment_push s { s with ids := s.ids.take.2, disk := d, table := s.table.push g }
    g rfl
  constructor
  · rfl
  · rw [Array.size_push]
    exact Nat.le_succ _
  · intro k hk
    rw [hpush, if_neg (Nat.ne_of_lt hk)]
  · intro k hle hlt
    rw [Array.size_push] at hlt
    have hk : k = s.table.size := Nat.le_antisymm (Nat.le_of_lt_succ hlt) hle
    rw [hpush, if_pos hk, hg]

/-- A rollover takes the spare, or a number for a new segment. -/
theorem numbers_rollOver {r : Except LogError Handle} (h : s.rollOver = (r, s')) :
    s.Quiet s' ∨ s.Takes s' := by
  obtain ⟨spare, s₁, hw, hcase⟩ := rollOver_cases h
  have hspare := quiet_withdrawSpare hw
  rcases hcase with ⟨k, -, -, rfl⟩ | ⟨-, made, s₂, hn, hmade⟩
  · exact .inl (hspare.trans (quiet_activate s₁ k))
  · have hnew := hspare.takes (takes_newSegment hn)
    rcases hmade with ⟨e, -, -, rfl⟩ | ⟨k, -, -, rfl⟩
    · exact .inr (hnew.quiet (quiet_of_eq rfl rfl))
    · exact .inr (hnew.quiet (quiet_activate s₂ k))

/-- The locked part of an append takes one number at most. -/
theorem numbers_claim {partitions : List Partition} {length : Nat} {r : Except LogError Claim}
    (h : s.claim partitions length = (r, s')) (hpos : 0 < length) :
    s.Quiet s' ∨ s.Takes s' := by
  obtain ⟨r₁, s₁, hf, -, hcase⟩ := claim_cases h
  have hchosen : s.Quiet s₁ ∨ s.Takes s₁ := by
    rcases segmentFor_cases hf with ⟨k, -, -, -, rfl⟩ | hr
    · exact .inl (.refl _)
    · exact numbers_rollOver hr
  have hrest : s₁.Quiet s' := by
    rcases hcase with ⟨e, -, -, rfl⟩ | ⟨k, -, ⟨cause, -, rfl⟩ | ⟨-, hfits, hclaimed⟩⟩
    · exact .refl _
    · exact quiet_of_eq rfl rfl
    · rw [hclaimed (lt_size_of_fits hfits hpos)]
      exact quiet_modify (f := (·.claimed partitions length)) (d := s₁.disk) rfl
  exact hchosen.imp (·.trans hrest) (·.quiet hrest)

/-- A replay keeps later numbers above the largest one that it has met. -/
theorem replay_cases {σ : Type} {target : Target σ} {paths : List Path} {state state' : σ}
    {report : ReplayReport} (h : s.replay target paths state = (.ok report, s', state')) :
    report.maxId = none ∧ s' = s ∨ ∃ id, report.maxId = some id ∧ s' = s.keepIdsAbove id := by
  rw [replay] at h
  split at h
  · cases h
  · split at h <;> rename_i hmax <;> cases h
    · exact .inr ⟨_, hmax, rfl⟩
    · exact .inl ⟨hmax, rfl⟩

theorem quiet_write {c : Claim} {frame : Bytes} {r : Except DiskError Unit}
    (h : s.write c frame = (r, s')) : s.Quiet s' := by
  rw [Store.write, Segment.write] at h
  cases hw : s.disk.writeAt (s.segment c.handle).file c.offset frame with
  | mk result d =>
    rw [hw] at h
    cases result <;> cases h <;> refine quiet_modify ?_ <;> rfl

end Store

/-! ## What a step does to the numbers -/

theorem Appending.quiet_advance {a a' : Appending} {s s' : Store}
    (h : a.advance s = some (a', s')) : s.Quiet s' := by
  rcases advance_cases h with ⟨-, r, hr, -⟩ |
    ⟨-, -, -, rfl | ⟨r, hr⟩ | ⟨cause, rfl⟩, -⟩
  · exact Store.quiet_write hr
  · exact .refl _
  · exact Store.quiet_syncSegment hr
  · exact Store.quiet_giveUp _ _ _

theorem Walk.quiet_advance {v v' : Walk} {s s' : Store} (h : v.advance s = some (v', s')) :
    s.Quiet s' := by
  obtain ⟨k, rest, -, heffect⟩ := effect_of_advance h
  cases heffect with
  | flush => exact Store.quiet_noteFlush _ _ _ _
  | delete => exact Store.quiet_deleteFile _ _
  | unlink => exact Store.quiet_of_eq rfl rfl
  | spent | needed | keep | stop | next => exact .refl _

theorem Syncing.quiet_advance {y y' : Syncing} {s s' : Store}
    (h : y.advance s = some (y', s')) : s.Quiet s' := by
  obtain ⟨-, -, -, k, -, -, ⟨r, hr⟩ | ⟨cause, rfl⟩ | ⟨cause, rfl⟩⟩ := advance_cases h
  · exact Store.quiet_syncSegment hr
  · exact Store.quiet_giveUp _ _ _
  · exact Store.quiet_of_eq rfl rfl

/-- A step hands out one number at most, or it keeps later numbers above one that it is told. -/
theorem World.numbers_of_step {w w' : World} {e : Event} (h : w.step e = some w') :
    (∃ id, e = .keepIdsAbove id ∧ w'.store = w.store.keepIdsAbove id) ∨
      (∀ id, e ≠ .keepIdsAbove id) ∧ (w.store.Quiet w'.store ∨ w.store.Takes w'.store) := by
  have hsame : w.store.Quiet w.store := .refl _
  cases effect_of_step h with
  | keepIdsAbove => exact .inl ⟨_, rfl, rfl⟩
  | refused => exact .inr ⟨nofun, .inl hsame⟩
  | denied hm hc => exact .inr ⟨nofun, Store.numbers_claim hc (Mutation.frame_pos hm)⟩
  | granted hm hc => exact .inr ⟨nofun, Store.numbers_claim hc (Mutation.frame_pos hm)⟩
  | append _ hadvance => exact .inr ⟨nofun, .inl (Appending.quiet_advance hadvance)⟩
  | spareMissing => exact .inr ⟨nofun, .inl hsame⟩
  | spareThere => exact .inr ⟨nofun, .inl hsame⟩
  | spareFailed _ hn =>
    exact .inr ⟨nofun, .inr ((Store.takes_newSegment hn).quiet (Store.quiet_of_eq rfl rfl))⟩
  | spareCreated _ hn => exact .inr ⟨nofun, .inr (Store.takes_newSegment hn)⟩
  | placeSpare => exact .inr ⟨nofun, .inl (Store.quiet_placeSpare _ _)⟩
  | startDiscard => exact .inr ⟨nofun, .inl hsame⟩
  | discard _ hadvance => exact .inr ⟨nofun, .inl (Walk.quiet_advance hadvance)⟩
  | startSync => exact .inr ⟨nofun, .inl hsame⟩
  | sync _ hadvance => exact .inr ⟨nofun, .inl (Syncing.quiet_advance hadvance)⟩
  | retireSpare => exact .inr ⟨nofun, .inl (Store.quiet_of_eq rfl rfl)⟩
  | reset => exact .inr ⟨nofun, .inl (Store.quiet_of_eq rfl rfl)⟩
  | delete => exact .inr ⟨nofun, .inl (Store.quiet_deleteFile _ _)⟩

/-! ## The ledger -/

/-- A number that new numbers are to lie above. -/
inductive NumberEntry where
  /-- A segment file of this name was there when the store was opened. -/
  | found (name : SegmentName)
  /-- Later numbers were to be kept above this one. -/
  | kept (id : SegmentId)
  /-- This one was handed out. -/
  | issued (id : SegmentId)
  deriving DecidableEq

/-- The number of an entry. -/
def NumberEntry.id : NumberEntry → SegmentId
  | .found name => name.id
  | .kept id => id
  | .issued id => id

/-- The names of the segment files that a store finds when it is opened. -/
def namesFound (settings : Settings) (disk : Disk) : List SegmentName :=
  if disk.isDirectory settings.directory then
    match segmentFiles disk settings.directory settings.stem with
    | .error _ => []
    | .ok found => found.map (·.1)
  else []

/-- What a step adds to the ledger: the number that it was told to keep above, or the one that it
has taken from the source. -/
def World.entries (w : World) (e : Event) (w' : World) : List NumberEntry :=
  match e with
  | .keepIdsAbove id => [.kept id]
  | _ => if w'.store.ids = w.store.ids then [] else [.issued w.store.ids.next]

/-- The ledgers of a store that was opened on a directory: after every step of any of its callers,
and after every replay. Files may come and go at any time, also by other hands. -/
inductive Ledgered : World → List NumberEntry → Prop where
  | opened {settings : Settings} {now : UInt64} {disk : Disk} {monitor : Monitor} {s : Store} :
      Store.onDirectory settings now disk monitor = .ok s →
      Ledgered { store := s } ((namesFound settings disk).map .found)
  | step {w w' : World} {ledger : List NumberEntry} {e : Event} :
      Ledgered w ledger → w.step e = some w' → Ledgered w' (ledger ++ w.entries e w')
  | replayed {σ : Type} {w : World} {ledger : List NumberEntry} {target : Target σ}
      {paths : List Path} {state state' : σ} {report : ReplayReport} {store : Store} :
      Ledgered w ledger → w.store.replay target paths state = (.ok report, store, state') →
      Ledgered { w with store } (ledger ++ report.maxId.toList.map .kept)
  | touched {w : World} {ledger : List NumberEntry} (disk : Disk) :
      Ledgered w ledger → Ledgered { w with store := { w.store with disk } } ledger

namespace World

variable {w w' : World} {ledger : List NumberEntry} {e : Event}

theorem entries_quiet (he : ∀ id, e ≠ .keepIdsAbove id) (h : w.store.Quiet w'.store) :
    w.entries e w' = [] := by
  cases e with
  | keepIdsAbove id => exact absurd rfl (he id)
  | _ => exact if_pos h.ids

theorem entries_takes (he : ∀ id, e ≠ .keepIdsAbove id) (h : w.store.Takes w'.store) :
    w.entries e w' = [.issued w.store.ids.next] := by
  have hne : w'.store.ids ≠ w.store.ids := by
    rw [h.ids]
    exact w.store.ids.take_ne
  cases e with
  | keepIdsAbove id => exact absurd rfl (he id)
  | _ => exact if_neg hne

end World

theorem lt_next_onDirectory {settings : Settings} {now : UInt64} {disk : Disk} {monitor : Monitor}
    {s : Store} (h : Store.onDirectory settings now disk monitor = .ok s) {name : SegmentName}
    (hname : name ∈ namesFound settings disk) (hlast : name.id ≠ lastId) :
    name.id < s.ids.next := by
  obtain ⟨found, rfl, hfound⟩ := Store.onDirectory_cases h
  rw [namesFound] at hname
  split at hname
  · rename_i hdirectory
    rw [hfound hdirectory] at hname
    obtain ⟨entry, hentry, rfl⟩ := List.mem_map.mp hname
    exact IdSource.lt_foldl hentry (IdSource.lt_lastId hlast) _
  · exact absurd hname List.not_mem_nil

namespace Ledgered

variable {w : World} {ledger : List NumberEntry}

/-- What lies below the next number, and what is added to it. -/
theorem above_append {s s' : IdSource} (hle : s.next ≤ s'.next)
    (ih : ∀ n ∈ ledger, n.id < s.next) {more : List NumberEntry}
    (hmore : ∀ n ∈ more, n.id < s'.next) : ∀ n ∈ ledger ++ more, n.id < s'.next := by
  intro n hn
  rcases List.mem_append.mp hn with hn | hn
  · exact UInt64.lt_of_lt_of_le (ih n hn) hle
  · exact hmore n hn

theorem above_keepAbove {s : IdSource} {id : SegmentId} (ih : ∀ n ∈ ledger, n.id < s.next)
    (hne : id ≠ lastId) : ∀ n ∈ ledger ++ [.kept id], n.id < (s.keepAbove id).next := by
  refine above_append (s.next_le_keepAbove id) ih fun n hn => ?_
  rw [List.mem_singleton.mp hn]
  exact s.lt_keepAbove (IdSource.lt_lastId hne)

/-- Everything in the ledger lies below the next number, unless the largest number is in it. -/
theorem above (h : Ledgered w ledger) (hlast : ∀ n ∈ ledger, n.id ≠ lastId) :
    ∀ n ∈ ledger, n.id < w.store.ids.next := by
  induction h with
  | opened hopen =>
    intro n hn
    obtain ⟨name, hname, rfl⟩ := List.mem_map.mp hn
    exact lt_next_onDirectory hopen hname (hlast _ hn)
  | @step w w' ledger e _ hstep ih =>
    have hbefore := ih fun n hn => hlast n (List.mem_append_left _ hn)
    have hafter := fun n hn => hlast n (List.mem_append_right ledger hn)
    rcases World.numbers_of_step hstep with ⟨id, rfl, hstore⟩ | ⟨he, hquiet | htakes⟩
    · rw [hstore]
      exact above_keepAbove hbefore (hafter _ List.mem_cons_self)
    · rw [World.entries_quiet he hquiet, List.append_nil, hquiet.ids]
      exact hbefore
    · rw [World.entries_takes he htakes] at hafter ⊢
      have hlt := IdSource.next_lt_take_of_ne (hafter _ List.mem_cons_self)
      rw [htakes.ids]
      refine above_append (UInt64.le_of_lt hlt) hbefore fun n hn => ?_
      obtain rfl := List.mem_singleton.mp hn
      exact hlt
  | @replayed σ w ledger target paths state state' report store _ hreplay ih =>
    have hbefore := ih fun n hn => hlast n (List.mem_append_left _ hn)
    have hafter := fun n hn => hlast n (List.mem_append_right ledger hn)
    rcases Store.replay_cases hreplay with ⟨hnone, rfl⟩ | ⟨id, hsome, rfl⟩
    · rw [hnone]
      simpa using hbefore
    · rw [hsome] at hafter ⊢
      exact above_keepAbove hbefore (hafter _ List.mem_cons_self)
  | touched disk _ ih => exact ih hlast

end Ledgered

/-- A number that is handed out is the next one. -/
theorem World.next_of_issued {w w' : World} {e : Event} {id : SegmentId}
    (h : .issued id ∈ w.entries e w') : id = w.store.ids.next := by
  rw [entries.eq_def] at h
  split at h
  · cases List.mem_singleton.mp h
  · split at h
    · cases h
    · cases List.mem_singleton.mp h
      rfl

/-- **A new number lies above all others, until the largest is among them.** Take a store that was
opened on a directory, with any number of callers, each in the middle of what it does, and the
ledger of its numbers: the segment files that the directory held, the numbers that later ones were
to be kept above, also by replays, and those that were handed out. Whenever a step hands out a
number, this lies above the whole ledger just if the largest number that there is is not in the
ledger. Every new segment has the number that the step hands out, and follows each segment file
that was found, unless the largest number is in the ledger. -/
theorem new_number_above_iff {w w' : World} {ledger : List NumberEntry} {e : Event}
    (hw : Ledgered w ledger) (h : w.step e = some w') :
    (∀ id, .issued id ∈ w.entries e w' →
      ((∀ n ∈ ledger, n.id < id) ↔ ∀ n ∈ ledger, n.id ≠ lastId)) ∧
    ∀ k, w.store.table.size ≤ k → k < w'.store.table.size →
      .issued (w'.store.segment k).id ∈ w.entries e w' ∧
      ((∀ n ∈ ledger, n.id ≠ lastId) → ∀ name, .found name ∈ ledger →
        name.id ≠ (w'.store.segment k).id ∧
        (w'.store.segment k).name.precedes name = false) := by
  constructor
  · intro id hid
    rw [World.next_of_issued hid]
    refine ⟨fun hbelow n hn he => ?_, hw.above⟩
    have hlt := hbelow n hn
    rw [he] at hlt
    exact absurd hlt (IdSource.not_lastId_lt _)
  · intro k hle hlt
    rcases World.numbers_of_step h with ⟨id, rfl, hstore⟩ | ⟨he, hquiet | htakes⟩
    · rw [hstore] at hlt
      exact absurd hlt (Nat.not_lt.mpr hle)
    · rw [hquiet.size] at hlt
      exact absurd hlt (Nat.not_lt.mpr hle)
    · have hname := htakes.new k hle hlt
      have hid : (w'.store.segment k).id = w.store.ids.next := congrArg SegmentName.id hname
      rw [World.entries_takes he htakes, hid]
      refine ⟨List.mem_cons_self, fun hlast name hfound => ?_⟩
      have hbelow : name.id < w.store.ids.next := hw.above hlast _ hfound
      refine ⟨UInt64.ne_of_lt hbelow, ?_⟩
      rw [hname]
      exact SegmentName.not_precedes_of_lt hbelow

/-- The ledger of a store that was opened on a directory with one segment file. -/
theorem Ledgered.opened_of_file (settings : Settings) {d : Disk} {names : List FileName}
    {e : SegmentName × Path} (hdirectory : d.isDirectory settings.directory = true)
    (hnames : d.entries settings.directory = .ok names)
    (hfile : names.filterMap (fun n =>
      segmentFile? d settings.stem (settings.directory.join ⟨n⟩)) = [e])
    (now : UInt64) (monitor : Monitor) :
    Ledgered
      { store := { settings, ids := (IdSource.ofClock now).keepAbove e.1.id, disk := d, monitor } }
      [.found e.1] := by
  have hlisted := segmentFiles_singleton hnames hfile
  have h := opened (Store.onDirectory_of_listed hdirectory hlisted now monitor)
  rwa [namesFound, if_pos hdirectory, hlisted] at h

/-- A segment file with the number nine was there, a segment was made, and numbers were to be kept
above forty. The spare that is made then has the number forty-one. -/
theorem new_number_above_iff_spare :
    ∃ w w' ledger, Ledgered w ledger ∧ w.step .createSpare = some w' ∧
      ledger = [.found ⟨9, 3⟩, .issued 10, .kept 40] ∧ .issued 41 ∈ w.entries .createSpare w' ∧
      (∀ n ∈ ledger, n.id < 41) ∧ (w'.store.segment 1).id = 41 ∧
      (w'.store.segment 1).name.precedes ⟨9, 3⟩ = false := by
  have h₁ : (World.step
      { store :=
          { settings := { directory := ⟨[Path.dot]⟩, segmentSize := 64 }, ids := ⟨10⟩
            disk := ({} : Disk).put (.ofString "CommitLog-3-9.log") []
            monitor := { policy := .stop } } } (.claim (.raw [⟨1⟩] [7, 8, 9]))).isSome = true := by
    decide +kernel
  have h₂ : ((Option.get _ h₁).step (.keepIdsAbove 40)).isSome = true := by
    decide +kernel +revert
  have h₃ : ((Option.get _ h₂).step .lookForSpare).isSome = true := by
    decide +kernel +revert
  have h₄ : ((Option.get _ h₃).step .createSpare).isSome = true := by
    decide +kernel +revert
  obtain ⟨hissued, hsize, hsize', hid⟩ :
      .issued 41 ∈ (Option.get _ h₃).entries .createSpare (Option.get _ h₄) ∧
      (Option.get _ h₃).store.table.size ≤ 1 ∧ 1 < (Option.get _ h₄).store.table.size ∧
      ((Option.get _ h₄).store.segment 1).id = 41 := by
    decide +kernel +revert
  have hnames : (({} : Disk).put (.ofString "CommitLog-3-9.log") []).entries ⟨[Path.dot]⟩ =
      .ok [Utf8.encode "CommitLog-3-9.log"] := by decide +kernel
  have hopened := Ledgered.opened_of_file { directory := ⟨[Path.dot]⟩, segmentSize := 64 }
    (e := (⟨9, 3⟩, .ofString "./CommitLog-3-9.log")) (by decide +kernel) hnames
    (by decide +kernel) 5 { policy := .stop }
  have hledger := ((hopened.step (Option.some_get h₁).symm).step (Option.some_get h₂).symm).step
    (Option.some_get h₃).symm
  have hstep := (Option.some_get h₄).symm
  have hlast : ∀ n ∈ [NumberEntry.found ⟨9, 3⟩, .issued 10, .kept 40], n.id ≠ lastId := by decide
  obtain ⟨habove, hnew⟩ := new_number_above_iff hledger hstep
  obtain ⟨-, hafter⟩ := hnew 1 hsize hsize'
  exact ⟨_, _, _, hledger, hstep, rfl, hissued, (habove 41 hissued).mpr hlast, hid,
    (hafter hlast ⟨9, 3⟩ List.mem_cons_self).2⟩

/-- A segment file of the first version has the largest number that there is. The first segment that
is made after that has the same number. -/
theorem new_number_not_above_last :
    ∃ w w' ledger, Ledgered w ledger ∧ w.step (.claim (.raw [⟨1⟩] [7, 8, 9])) = some w' ∧
      ledger = [.found ⟨lastId, 1⟩] ∧ w'.store.active = [0] ∧
      (w'.store.segment 0).id = lastId := by
  have hstep : (World.step
      { store :=
          { settings := { directory := ⟨[Path.dot]⟩, segmentSize := 64 }, ids := ⟨lastId⟩
            disk := ({} : Disk).put (.ofString "CommitLog-18446744073709551615.log") []
            monitor := { policy := .stop } } } (.claim (.raw [⟨1⟩] [7, 8, 9]))).isSome = true := by
    decide +kernel
  have hmade : (Option.get _ hstep).store.active = [0] ∧
      ((Option.get _ hstep).store.segment 0).id = lastId := by
    decide +kernel +revert
  have hnames : (({} : Disk).put (.ofString "CommitLog-18446744073709551615.log") []).entries
      ⟨[Path.dot]⟩ = .ok [Utf8.encode "CommitLog-18446744073709551615.log"] := by decide +kernel
  have hopened := Ledgered.opened_of_file { directory := ⟨[Path.dot]⟩, segmentSize := 64 }
    (e := (⟨lastId, 1⟩, .ofString "./CommitLog-18446744073709551615.log")) (by decide +kernel)
    hnames (by decide +kernel) 5 { policy := .stop }
  exact ⟨_, _, _, hopened, (Option.some_get hstep).symm, rfl, hmade⟩

end SegmentLog
