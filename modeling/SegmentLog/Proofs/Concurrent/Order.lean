import SegmentLog.Proofs.Concurrent.World
import SegmentLog.Proofs.Store.Claims

/-!
# Order among many callers

Whatever the callers of a store do between each other's steps, the store stays in order, and each
of them can rely on what it has seen: a segment that an operation has come across is never made
the spare again, one that was seen sealed and without marks stays so, and one that was taken out
of the active segments never returns to them.

* `Store.Follows` — what no step of anybody undoes;
* `Appending.advance_cases`, `Walk.effect_of_advance`, `Syncing.advance_cases` — all that a step of
  one operation can do;
* `World.InOrder.step`, `World.InOrder.run` — the order is kept by every step, and so by every run.
-/

namespace SegmentLog

namespace Store

/-- Whether a segment has had a place among the active ones, so that it is not to get one. -/
structure Used (s : Store) (loose : List Handle) (h : Handle) : Prop where
  known : h < s.table.size
  notFresh : h ∉ s.spare.toList ++ loose

/-- What no step of anybody undoes: segments only come to the places of a store anew, and one that
nothing depends on any more stays like that. -/
structure Follows (s : Store) (loose : List Handle) (s' : Store) (loose' : List Handle) : Prop
    extends Moves s loose s' loose' where
  spent : ∀ k < s.table.size, (s.segment k).isSpent = true → (s'.segment k).isSpent = true

variable {s s' : Store} {loose loose' : List Handle} {h : Handle}

theorem Sound.used (hs : s.Sound loose) (hh : h ∈ s.active) : s.Used loose h :=
  ⟨hs.known_active hh, hs.active_not_fresh hh⟩

theorem Used.moves (hu : s.Used loose h) (hf : s.Moves loose s' loose') : s'.Used loose' h := by
  refine ⟨Nat.lt_of_lt_of_le hu.known hf.size, fun hm => ?_⟩
  rcases hf.fresh h hm with hm | hle
  · exact hu.notFresh hm
  · exact Nat.not_lt.mpr hle hu.known

/-- A segment that was taken out never becomes active again. -/
theorem Used.not_active (hu : s.Used loose h) (hf : s.Moves loose s' loose')
    (hout : h ∉ s.active) : h ∉ s'.active := by
  intro hm
  rcases hf.active h hm with hm | hm | hle
  · exact hout hm
  · exact hu.notFresh hm
  · exact Nat.not_lt.mpr hle hu.known

theorem Evolves.spent (he : Evolves s s') {k : Handle} (hk : k < s.table.size)
    (hs : (s.segment k).isSpent = true) : (s'.segment k).isSpent = true := by
  have hkeeps := he.old k hk
  rw [isSpent_iff] at hs ⊢
  rw [hkeeps.marks]
  exact ⟨hkeeps.sealed hs.1, hs.2⟩

theorem Evolves.follows (he : Evolves s s') (hm : s.Moves loose s' loose') :
    s.Follows loose s' loose' := ⟨hm, fun _ hk => he.spent hk⟩

theorem Follows.refl (s : Store) (loose : List Handle) : s.Follows loose s loose :=
  (Evolves.refl s).follows (.of_eq (Nat.le_refl _) rfl rfl)

/-- A change to one segment that leaves it spent if it is. -/
theorem follows_modify {f : Segment → Segment} {d : Disk}
    (hf : (s.segment h).isSpent = true → (f (s.segment h)).isSpent = true) :
    s.Follows loose { s.modify h f with disk := d } loose :=
  ⟨.of_eq (Nat.le_of_eq (size_modify s h f).symm) rfl rfl,
    modify_related (P := fun g g' => g.isSpent = true → g'.isSpent = true) (fun _ => id) hf⟩

theorem follows_noteFlush (s : Store) (loose : List Handle) (h : Handle) (p : Partition)
    (upTo : Position) : s.Follows loose (s.noteFlush h p upTo) loose := by
  refine follows_modify (f := fun g => g.noteFlush p upTo) (d := s.disk) fun hspent => ?_
  obtain ⟨hsealed, hmarks⟩ := isSpent_iff.mp hspent
  simp only [Segment.noteFlush, Marks.offset?, hmarks]
  exact hspent

theorem follows_write {c : Claim} {frame : Bytes} {r : Except DiskError Unit}
    (hw : s.write c frame = (r, s')) (hc : c.handle < s.table.size) :
    s.Follows loose s' loose := by
  obtain ⟨u, d, rfl, -⟩ := write_cases hw hc
  exact follows_modify fun hspent => hspent

/-- A claim goes to a segment that is not sealed, so that none is touched on which nothing depends
any more. -/
theorem Sound.follows_claim (hs : s.Sound loose) {partitions : List Partition} {length : Nat}
    {r : Except LogError Claim} (h : s.claim partitions length = (r, s'))
    (hids : s'.ids.next ≠ 0) : s.Follows loose s' loose := by
  obtain ⟨-, hmoves, ⟨e, -, hevolves, -⟩ | ⟨s₁, c, -, -, hevolves, -, hunsealed, -, -, rfl⟩⟩ :=
    hs.claim h hids
  · exact hevolves.follows hmoves
  · refine ⟨hmoves, fun k hk hspent => ?_⟩
    have hspent₁ := hevolves.spent hk hspent
    have hne : k ≠ c.handle := by
      rintro rfl
      rw [isSpent_iff, hunsealed] at hspent₁
      exact Bool.false_ne_true hspent₁.1
    rw [segment_modify_ne _ hne]
    exact hspent₁

theorem follows_deleteFile (s : Store) (loose : List Handle) (k : Handle) :
    s.Follows loose (s.deleteFile k).2 loose := by
  refine (evolves_deleteFile s k).follows ?_
  cases hd : s.deleteFile k with
  | mk r s' =>
    obtain ⟨d, rfl, -⟩ := deleteFile_cases hd
    exact .of_eq (Nat.le_refl _) rfl rfl

theorem follows_placeSpare (s : Store) (loose : List Handle) {k : Handle} (hk : k ∈ loose) :
    s.Follows loose (s.placeSpare k) (loose.erase k) := by
  have hrest : ∀ j ∈ loose.erase k, j ∈ s.spare.toList ++ loose :=
    fun j hj => List.mem_append_right _ (List.mem_of_mem_erase hj)
  rw [placeSpare]
  split
  · have hevolves : Evolves s { s with spare := some k } := .of_eq rfl rfl rfl
    refine hevolves.follows (.of_subset (Nat.le_refl _) (fun _ hj => hj) fun j hj => ?_)
    rcases List.mem_append.mp hj with hj | hj
    · rw [List.mem_singleton.mp hj]
      exact List.mem_append_right _ hk
    · exact hrest j hj
  · have hd := follows_deleteFile s loose k
    refine ⟨⟨hd.size, fun j hj => hd.fresh j ?_, hd.active⟩, hd.spent⟩
    rw [List.mem_append] at hj ⊢
    exact hj.imp_right List.mem_of_mem_erase

theorem Sound.follows_newSegment (hs : s.Sound loose) {r : Except DiskError Handle}
    (h : s.newSegment = (r, s')) (hids : s'.ids.next ≠ 0) :
    (∃ e, r = .error e ∧ s'.Sound loose ∧ s.Follows loose s' loose) ∨
      ∃ k, r = .ok k ∧ s'.Sound (k :: loose) ∧ s.Follows loose s' (k :: loose) := by
  have hevolves := evolves_newSegment h
  obtain ⟨hactive, hspare, ⟨e, rfl, -, hsound⟩ | ⟨rfl, -, hsound⟩⟩ := hs.newSegment h hids
  · exact .inl ⟨e, rfl, hsound, hevolves.follows (.of_eq hevolves.size hactive hspare)⟩
  · refine .inr ⟨_, rfl, hsound, hevolves.follows ⟨hevolves.size, fun j hj => ?_, fun j hj => ?_⟩⟩
    · rw [hspare] at hj
      rcases List.mem_append.mp hj with hj | hj
      · exact .inl (List.mem_append_left _ hj)
      · rcases List.mem_cons.mp hj with rfl | hj
        · exact .inr (Nat.le_refl _)
        · exact .inl (List.mem_append_right _ hj)
    · rw [hactive] at hj
      exact .inl hj

end Store

/-! ## Steps of one operation -/

deriving instance DecidableEq for Stage

/-- What an append does beside writing its frame is an evolution of the store. -/
theorem Appending.advance_cases {a a' : Appending} {s s' : Store}
    (h : a.advance s = some (a', s')) :
    (a.stage = .writing ∧ ∃ r, s.write a.claim a.frame = (r, s') ∧
        a' = { a with stage := match r with
          | .ok () => if s'.settings.sync = .eachAppend then .waiting
              else .returned true (.ok (s'.positionOf a.claim))
          | .error cause => .givingUp false cause }) ∨
      Store.Evolves s s' ∧ s'.active = s.active ∧ s'.spare = s.spare ∧
        (s' = s ∨ (∃ r, s.syncSegment a.claim.handle true = (r, s')) ∨
          ∃ cause, s' = (s.giveUp a.claim.handle cause).2) ∧
        a.stage.isWriting = false ∧ a'.stage.isWriting = false ∧
        a'.stage.isWritten = a.stage.isWritten ∧
        ∀ written p, a'.stage = .returned written (.ok p) → p = s'.positionOf a.claim := by
  obtain ⟨m, frame, c, stage⟩ := a
  cases stage with
  | writing =>
    refine .inl ⟨rfl, ?_⟩
    cases hr : s.write c frame with
    | mk r t =>
      cases r <;> simp only [advance, hr] at h <;> cases h <;> exact ⟨_, rfl, rfl⟩
  | waiting =>
    simp only [advance] at h
    split at h
    · cases h
    · cases h
      exact .inr ⟨.refl s, rfl, rfl, .inl rfl, rfl, rfl, rfl, fun _ _ hc => by cases hc⟩
  | syncing =>
    cases hr : s.syncSegment c.handle true with
    | mk r t =>
      have hevolves := Store.evolves_syncSegment hr
      obtain ⟨hactive, hspare⟩ : t.active = s.active ∧ t.spare = s.spare := by
        obtain ⟨u, d, rfl, -⟩ := Store.syncSegment_cases hr
        exact ⟨rfl, rfl⟩
      cases r <;> simp only [advance, hr] at h <;> cases h
      · exact .inr ⟨hevolves, hactive, hspare, .inr (.inl ⟨_, rfl⟩), rfl, rfl, rfl,
          fun _ _ hc => by cases hc⟩
      · refine .inr ⟨hevolves, hactive, hspare, .inr (.inl ⟨_, rfl⟩), rfl, rfl, rfl,
          fun _ _ hc => ?_⟩
        cases hc
        rfl
  | givingUp written cause =>
    cases h
    exact .inr ⟨Store.evolves_giveUp s c.handle cause, rfl, rfl, .inr (.inr ⟨cause, rfl⟩), rfl, rfl,
      rfl, fun _ _ hc => by cases hc⟩
  | returned written result => cases h

theorem Appending.advance_claim {a a' : Appending} {s s' : Store}
    (h : a.advance s = some (a', s')) :
    a'.claim = a.claim ∧ a'.frame = a.frame ∧ a'.mutation = a.mutation := by
  obtain ⟨m, frame, c, stage⟩ := a
  simp only [advance] at h
  split at h
  · split at h <;> cases h <;> exact ⟨rfl, rfl, rfl⟩
  · split at h
    · cases h
    · cases h
      exact ⟨rfl, rfl, rfl⟩
  · split at h <;> cases h <;> exact ⟨rfl, rfl, rfl⟩
  · cases h
    exact ⟨rfl, rfl, rfl⟩
  · cases h

/-- What a step of a discard does about the segment it has come to, in each of the ways in which
it can go. -/
inductive Walk.Effect (v : Walk) (s : Store) (k : Handle) (rest : List Handle) :
    Walk → Store → Prop where
  | flush : v.stage = .flushing →
      Effect v s k rest { v with stage := .judging } (s.noteFlush k v.partition v.upTo)
  | spent : v.stage = .judging → (s.segment k).isSpent = true →
      Effect v s k rest { v with stage := .unlinking } s
  | needed : v.stage = .judging → (s.segment k).isSpent = false →
      Effect v s k rest { v with stage := .leaving } s
  | unlink : v.stage = .unlinking → k ∈ s.active → (s.segment k).sealed = true →
      Effect v s k rest { v with stage := .deleting } { s with active := s.active.erase k }
  | keep : v.stage = .unlinking → ¬ (k ∈ s.active ∧ (s.segment k).sealed = true) →
      Effect v s k rest { v with stage := .leaving } s
  | delete : v.stage = .deleting →
      Effect v s k rest { v with stage := .leaving } (s.deleteFile k).2
  | stop : v.stage = .leaving → (s.segment k).holds v.upTo = true →
      Effect v s k rest { v with todo := [], stage := .leaving } s
  | next : v.stage = .leaving → (s.segment k).holds v.upTo = false →
      Effect v s k rest { v with todo := rest, stage := .flushing } s

/-- Every step of a discard goes in one of these ways. -/
theorem Walk.effect_of_advance {v v' : Walk} {s s' : Store} (h : v.advance s = some (v', s')) :
    ∃ k rest, v.todo = k :: rest ∧ v.Effect s k rest v' s' := by
  obtain ⟨partition, upTo, todo, stage⟩ := v
  cases todo with
  | nil => cases h
  | cons k rest =>
    refine ⟨k, rest, rfl, ?_⟩
    cases stage with
    | flushing =>
      cases h
      exact .flush rfl
    | judging =>
      by_cases hspent : (s.segment k).isSpent = true
      · simp only [advance, hspent, if_true] at h
        cases h
        exact .spent rfl hspent
      · simp only [advance, if_neg hspent] at h
        cases h
        exact .needed rfl (Bool.not_eq_true _ ▸ hspent)
    | unlinking =>
      rcases s.unlink_cases k with ⟨hu, hactive, hsealed⟩ | ⟨hu, hkept⟩
      · simp only [advance, hu] at h
        cases h
        exact .unlink rfl hactive hsealed
      · simp only [advance, hu] at h
        cases h
        exact .keep rfl hkept
    | deleting =>
      cases h
      exact .delete rfl
    | leaving =>
      simp only [advance] at h
      split at h <;> rename_i hholds <;> cases h
      · exact .stop rfl hholds
      · exact .next rfl (Bool.not_eq_true _ ▸ hholds)

/-- What a sync of all active segments does is an evolution of the store. -/
theorem Syncing.advance_cases {y y' : Syncing} {s s' : Store}
    (h : y.advance s = some (y', s')) :
    Store.Evolves s s' ∧ s'.active = s.active ∧ s'.spare = s.spare ∧
      ∃ k ∈ y.todo, (∀ j ∈ y'.todo, j ∈ y.todo) ∧
        ((∃ r, s.syncSegment k y.force = (r, s')) ∨ (∃ cause, s' = (s.giveUp k cause).2) ∨
          ∃ cause, s' = (s.report cause).2) := by
  obtain ⟨force, todo, cause⟩ := y
  cases todo with
  | nil => cases h
  | cons k rest =>
    cases cause with
    | none =>
      cases hr : s.syncSegment k force with
      | mk r t =>
        have ht : s' = t ∧ ∀ j ∈ y'.todo, j ∈ k :: rest := by
          cases r with
          | ok =>
            simp only [advance, hr] at h
            cases h
            exact ⟨rfl, fun _ hj => List.mem_cons_of_mem _ hj⟩
          | error e =>
            simp only [advance, hr] at h
            cases h
            exact ⟨rfl, fun _ hj => hj⟩
        obtain ⟨rfl, htodo⟩ := ht
        refine ⟨Store.evolves_syncSegment hr, ?_, ?_, k, List.mem_cons_self, htodo,
          .inl ⟨r, hr⟩⟩
        · obtain ⟨u, d, rfl, -⟩ := Store.syncSegment_cases hr
          rfl
        · obtain ⟨u, d, rfl, -⟩ := Store.syncSegment_cases hr
          rfl
    | some e =>
      simp only [advance] at h
      split at h
      · cases h
        exact ⟨Store.evolves_giveUp s k e, rfl, rfl, k, List.mem_cons_self,
          fun _ hj => (nomatch hj), .inr (.inl ⟨e, rfl⟩)⟩
      · cases h
        exact ⟨.of_eq rfl rfl rfl, rfl, rfl, k, List.mem_cons_self,
          fun _ hj => (nomatch hj), .inr (.inr ⟨.disk e, rfl⟩)⟩

/-! ## The world -/

namespace World

/-- Whether a store is in order with all the operations under way in it. -/
structure InOrder (w : World) : Prop where
  store : w.store.Sound w.loose
  appends : ∀ a ∈ w.appends, w.store.Used w.loose a.claim.handle
  walks : ∀ v ∈ w.walks, ∀ h ∈ v.todo, w.store.Used w.loose h
  syncs : ∀ y ∈ w.syncs, ∀ h ∈ y.todo, w.store.Used w.loose h
  doomed : ∀ h ∈ w.doomed, w.store.Used w.loose h ∧ h ∉ w.store.active
  spent : ∀ v ∈ w.walks, v.stage = .unlinking → ∀ h ∈ v.todo.head?,
    (w.store.segment h).isSpent = true
  unlinked : ∀ v ∈ w.walks, v.stage = .deleting → ∀ h ∈ v.todo.head?, h ∉ w.store.active

variable {w w' : World}

/-- A step of the store that nobody has to take notice of. -/
theorem InOrder.follows (hw : w.InOrder) {store : Store} {loose : List Handle}
    (hs : store.Sound loose) (hf : w.store.Follows w.loose store loose) (stocking : Nat) :
    InOrder { w with store, loose, stocking } where
  store := hs
  appends a ha := (hw.appends a ha).moves hf.toMoves
  walks v hv h hh := (hw.walks v hv h hh).moves hf.toMoves
  syncs y hy h hh := (hw.syncs y hy h hh).moves hf.toMoves
  doomed h hh := by
    obtain ⟨hused, hout⟩ := hw.doomed h hh
    exact ⟨hused.moves hf.toMoves, hused.not_active hf.toMoves hout⟩
  spent v hv hstage h hh :=
    hf.spent h (hw.walks v hv h (List.mem_of_mem_head? hh)).known (hw.spent v hv hstage h hh)
  unlinked v hv hstage h hh :=
    (hw.walks v hv h (List.mem_of_mem_head? hh)).not_active hf.toMoves
      (hw.unlinked v hv hstage h hh)

theorem InOrder.putAppends (hw : w.InOrder) {appends : List Appending}
    (h : ∀ a ∈ appends, w.store.Used w.loose a.claim.handle) : InOrder { w with appends } :=
  { hw with appends := h }

theorem InOrder.putSyncs (hw : w.InOrder) {syncs : List Syncing}
    (h : ∀ y ∈ syncs, ∀ k ∈ y.todo, w.store.Used w.loose k) : InOrder { w with syncs } :=
  { hw with syncs := h }

theorem InOrder.putDoomed (hw : w.InOrder) {doomed : List Handle}
    (h : ∀ k ∈ doomed, w.store.Used w.loose k ∧ k ∉ w.store.active) : InOrder { w with doomed } :=
  { hw with doomed := h }

/-- A discard that goes on knows what it does about the segment it has come to. -/
theorem InOrder.putWalk (hw : w.InOrder) {walks : List Walk} {v : Walk}
    (hmem : ∀ x ∈ walks, x ∈ w.walks ∨ x = v) (htodo : ∀ h ∈ v.todo, w.store.Used w.loose h)
    (hspent : v.stage = .unlinking → ∀ h ∈ v.todo.head?, (w.store.segment h).isSpent = true)
    (hunlinked : v.stage = .deleting → ∀ h ∈ v.todo.head?, h ∉ w.store.active) :
    InOrder { w with walks } := by
  refine { hw with walks := fun x hx => ?_, spent := fun x hx => ?_, unlinked := fun x hx => ?_ }
  · rcases hmem x hx with hx | rfl
    · exact hw.walks x hx
    · exact htodo
  · rcases hmem x hx with hx | rfl
    · exact hw.spent x hx
    · exact hspent
  · rcases hmem x hx with hx | rfl
    · exact hw.unlinked x hx
    · exact hunlinked

theorem mem_set {α : Type} {l : List α} {i : Nat} {x y : α} (h : x ∈ l.set i y) :
    x ∈ l ∨ x = y := List.mem_or_eq_of_mem_set h

/-- A step of an append under way. -/
theorem InOrder.advance_append (hw : w.InOrder) {a a' : Appending} {store : Store}
    (ha : w.store.Used w.loose a.claim.handle) (h : a.advance w.store = some (a', store)) :
    store.Sound w.loose ∧ w.store.Follows w.loose store w.loose := by
  rcases Appending.advance_cases h with ⟨-, r, hr, -⟩ |
    ⟨hevolves, hactive, hspare, hchange, -⟩
  · exact ⟨hw.store.write hr ha.known ha.notFresh, Store.follows_write hr ha.known⟩
  · refine ⟨?_, hevolves.follows (.of_eq hevolves.size hactive hspare)⟩
    rcases hchange with rfl | ⟨r, hr⟩ | ⟨cause, rfl⟩
    · exact hw.store
    · exact hw.store.syncSegment ha.notFresh hr
    · exact hw.store.giveUp ha.notFresh cause

/-- A step of a discard under way. -/
theorem InOrder.advance_walk (hw : w.InOrder) {v v' : Walk} {store : Store} (hv : v ∈ w.walks)
    (h : v.advance w.store = some (v', store)) :
    store.Sound w.loose ∧ w.store.Follows w.loose store w.loose ∧ (∀ k ∈ v'.todo, k ∈ v.todo) ∧
      (v'.stage = .unlinking → ∀ k ∈ v'.todo.head?, (store.segment k).isSpent = true) ∧
      (v'.stage = .deleting → ∀ k ∈ v'.todo.head?, k ∉ store.active) := by
  have hsame := Store.Follows.refl w.store w.loose
  obtain ⟨k, rest, htodo, heffect⟩ := Walk.effect_of_advance h
  have hk : k ∈ v.todo := by rw [htodo]; exact List.mem_cons_self
  have hhead : v.todo.head? = some k := by rw [htodo]; rfl
  have hused := hw.walks v hv k hk
  cases heffect with
  | flush =>
    exact ⟨hw.store.noteFlush k v.partition v.upTo, Store.follows_noteFlush _ _ k _ _,
      fun _ hj => hj, fun hc => (nomatch hc), fun hc => (nomatch hc)⟩
  | spent _ hspent =>
    refine ⟨hw.store, hsame, fun _ hj => hj, fun _ j hj => ?_, fun hc => (nomatch hc)⟩
    rw [hhead] at hj
    cases hj
    exact hspent
  | unlink =>
    have hevolves : Store.Evolves w.store { w.store with active := w.store.active.erase k } :=
      .of_eq rfl rfl rfl
    refine ⟨hw.store.erase k, hevolves.follows (.of_subset (Nat.le_refl _)
      (fun _ hj => List.mem_of_mem_erase hj) fun _ hj => hj), fun _ hj => hj,
      fun hc => (nomatch hc), fun _ j hj => ?_⟩
    rw [hhead] at hj
    cases hj
    have hnodup : w.store.active.Nodup :=
      hw.store.ascending_active.imp fun hlt => Nat.ne_of_lt hlt
    exact hnodup.not_mem_erase
  | delete hstage =>
    refine ⟨hw.store.deleteFile hused.known ?_, Store.follows_deleteFile _ _ _, fun _ hj => hj,
      fun hc => (nomatch hc), fun hc => (nomatch hc)⟩
    rw [List.mem_append]
    exact fun hm => hm.elim (hw.unlinked v hv hstage k hhead) hused.notFresh
  | needed =>
    exact ⟨hw.store, hsame, fun _ hj => hj, fun hc => (nomatch hc), fun hc => (nomatch hc)⟩
  | keep =>
    exact ⟨hw.store, hsame, fun _ hj => hj, fun hc => (nomatch hc), fun hc => (nomatch hc)⟩
  | stop =>
    exact ⟨hw.store, hsame, fun _ hj => (nomatch hj), fun hc => (nomatch hc),
      fun hc => (nomatch hc)⟩
  | next =>
    refine ⟨hw.store, hsame, fun _ hj => ?_, fun hc => (nomatch hc), fun hc => (nomatch hc)⟩
    rw [htodo]
    exact List.mem_cons_of_mem _ hj

/-- A step of a sync under way. -/
theorem InOrder.advance_sync (hw : w.InOrder) {y y' : Syncing} {store : Store} (hy : y ∈ w.syncs)
    (h : y.advance w.store = some (y', store)) :
    store.Sound w.loose ∧ w.store.Follows w.loose store w.loose ∧ ∀ k ∈ y'.todo, k ∈ y.todo := by
  obtain ⟨hevolves, hactive, hspare, k, hk, htodo, hchange⟩ := Syncing.advance_cases h
  have hused := hw.syncs y hy k hk
  refine ⟨?_, hevolves.follows (.of_eq hevolves.size hactive hspare), htodo⟩
  rcases hchange with ⟨r, hr⟩ | ⟨cause, rfl⟩ | ⟨cause, rfl⟩
  · exact hw.store.syncSegment hused.notFresh hr
  · exact hw.store.giveUp hused.notFresh cause
  · exact hw.store.report _

/-- An append that is granted its range uses the segment of the range. -/
theorem InOrder.claim (hw : w.InOrder) {partitions : List Partition} {length : Nat}
    {r : Except LogError Claim} {store : Store}
    (h : w.store.claim partitions length = (r, store)) (hids : store.ids.next ≠ 0) :
    InOrder { w with store } ∧ w.store.Follows w.loose store w.loose ∧
      ∀ c, r = .ok c → store.Used w.loose c.handle := by
  have hf := hw.store.follows_claim h hids
  obtain ⟨hsound, -, hcase⟩ := hw.store.claim h hids
  refine ⟨hw.follows hsound hf w.stocking, hf, fun c hr => ?_⟩
  rcases hcase with ⟨_, hr', -⟩ | ⟨s₁, _, hr', -, -, ht, -, -, -, rfl⟩
  · rw [hr'] at hr
    cases hr
  · rw [hr'] at hr
    cases hr
    exact hsound.used (Store.mem_of_tail? ht)

/-- Segments that are taken out of the store wait to be deleted. -/
theorem InOrder.withdraw (hw : w.InOrder) {active out : List Handle} {spare : Option Handle}
    (hactive : active.Sublist w.store.active)
    (hspare : spare.toList.Sublist w.store.spare.toList)
    (hout : ∀ k ∈ out, k ∈ w.store.active ++ w.store.spare.toList ∧
      k ∉ active ∧ k ∉ spare.toList) :
    InOrder { w with store := { w.store with active, spare }, doomed := w.doomed ++ out } ∧
      w.store.Follows w.loose { w.store with active, spare } w.loose := by
  have hsound : Store.Sound { w.store with active, spare } w.loose :=
    hw.store.withdraw hactive hspare (List.Sublist.refl _)
  have hevolves : Store.Evolves w.store { w.store with active, spare } := .of_eq rfl rfl rfl
  have hf : w.store.Follows w.loose { w.store with active, spare } w.loose := by
    refine hevolves.follows (.of_subset (Nat.le_refl _) (fun _ hk => hactive.subset hk) ?_)
    intro k hk
    exact (List.mem_append.mp hk).elim (fun hk => List.mem_append_left _ (hspare.subset hk))
      (List.mem_append_right _)
  have hw' := hw.follows hsound hf w.stocking
  refine ⟨hw'.putDoomed fun k hk => ?_, hf⟩
  rcases List.mem_append.mp hk with hk | hk
  · exact hw'.doomed k hk
  · obtain ⟨hplace, hnactive, hnspare⟩ := hout k hk
    have hknown : k ∈ w.store.active ++ (w.store.spare.toList ++ w.loose) := by
      rw [← List.append_assoc]
      exact List.mem_append_left _ hplace
    refine ⟨⟨hw.store.known k hknown, fun hm => ?_⟩, hnactive⟩
    exact (List.mem_append.mp hm).elim hnspare fun hloose => hw.store.outside k hloose hplace

/-- Every step keeps the order. -/
theorem InOrder.step (hw : w.InOrder) {e : Event} (h : w.step e = some w')
    (hids : w'.store.ids.next ≠ 0) :
    w'.InOrder ∧ w.store.Follows w.loose w'.store w'.loose := by
  have hsame := Store.Follows.refl w.store w.loose
  cases effect_of_step h with
  | refused => exact ⟨hw, hsame⟩
  | denied hm hc =>
    obtain ⟨hw', hf, -⟩ := hw.claim hc hids
    exact ⟨hw', hf⟩
  | granted hm hc =>
    obtain ⟨hw', hf, hused⟩ := hw.claim hc hids
    refine ⟨hw'.putAppends fun a ha => ?_, hf⟩
    rcases List.mem_append.mp ha with ha | ha
    · exact hw'.appends a ha
    · rw [List.mem_singleton.mp ha]
      exact hused _ rfl
  | @append i a a' store ha hadvance =>
    have hmem : a ∈ w.appends := List.mem_of_getElem? ha
    obtain ⟨hsound, hf⟩ := hw.advance_append (hw.appends a hmem) hadvance
    have hw' := hw.follows hsound hf w.stocking
    refine ⟨hw'.putAppends fun b hb => ?_, hf⟩
    rcases mem_set hb with hb | rfl
    · exact hw'.appends b hb
    · rw [(Appending.advance_claim hadvance).1]
      exact hw'.appends a hmem
  | spareMissing => exact ⟨hw.follows hw.store hsame _, hsame⟩
  | spareThere => exact ⟨hw, hsame⟩
  | @spareFailed cause store _ hn =>
    rcases hw.store.follows_newSegment hn hids with ⟨_, -, hsound, hf⟩ | ⟨_, hr, -⟩
    · have hf' : w.store.Follows w.loose (store.report (.disk cause)).2 w.loose :=
        ⟨⟨hf.size, hf.fresh, hf.active⟩, hf.spent⟩
      exact ⟨hw.follows (hsound.report _) hf' _, hf'⟩
    · cases hr
  | spareCreated _ hn =>
    rcases hw.store.follows_newSegment hn hids with ⟨_, hr, -⟩ | ⟨_, hr, hsound, hf⟩
    · cases hr
    · cases hr
      exact ⟨hw.follows hsound hf _, hf⟩
  | placeSpare hk =>
    have hf := Store.follows_placeSpare w.store w.loose hk
    exact ⟨hw.follows (hw.store.perm (List.perm_cons_erase hk)).placeSpare hf _, hf⟩
  | @startDiscard p upTo =>
    refine ⟨hw.putWalk (v := { partition := p, upTo, todo := w.store.active }) (fun x hx => ?_)
      (fun k hk => hw.store.used hk) (fun hc => (nomatch hc)) (fun hc => (nomatch hc)), hsame⟩
    exact (List.mem_append.mp hx).imp_right List.mem_singleton.mp
  | @discard j v v' store hv hadvance =>
    have hmem : v ∈ w.walks := List.mem_of_getElem? hv
    obtain ⟨hsound, hf, htodo, hspent, hunlinked⟩ := hw.advance_walk hmem hadvance
    have hw' := hw.follows hsound hf w.stocking
    exact ⟨hw'.putWalk (fun x hx => mem_set hx) (fun k hk => hw'.walks v hmem k (htodo k hk))
      hspent hunlinked, hf⟩
  | startSync =>
    refine ⟨hw.putSyncs fun y hy k hk => ?_, hsame⟩
    rcases List.mem_append.mp hy with hy | hy
    · exact hw.syncs y hy k hk
    · rw [List.mem_singleton.mp hy] at hk
      exact hw.store.used hk
  | @sync k y y' store hy hadvance =>
    have hmem : y ∈ w.syncs := List.mem_of_getElem? hy
    obtain ⟨hsound, hf, htodo⟩ := hw.advance_sync hmem hadvance
    have hw' := hw.follows hsound hf w.stocking
    refine ⟨hw'.putSyncs fun z hz j hj => ?_, hf⟩
    rcases mem_set hz with hz | rfl
    · exact hw'.syncs z hz j hj
    · exact hw'.syncs y hmem j (htodo j hj)
  | retireSpare =>
    refine hw.withdraw (List.Sublist.refl _) (List.nil_sublist _) fun k hk => ?_
    refine ⟨List.mem_append_right _ hk, fun hm => ?_, List.not_mem_nil⟩
    exact hw.store.active_not_fresh hm (List.mem_append_left _ hk)
  | reset =>
    exact hw.withdraw (List.nil_sublist _) (List.nil_sublist _)
      fun k hk => ⟨hk, List.not_mem_nil, List.not_mem_nil⟩
  | @delete k hk =>
    obtain ⟨hused, hout⟩ := hw.doomed k hk
    have hsound : (w.store.deleteFile k).2.Sound w.loose := by
      refine hw.store.deleteFile hused.known ?_
      rw [List.mem_append]
      exact fun hm => hm.elim hout hused.notFresh
    have hf := Store.follows_deleteFile w.store w.loose k
    have hw' := hw.follows hsound hf w.stocking
    exact ⟨hw'.putDoomed fun j hj => hw'.doomed j (List.mem_of_mem_erase hj), hf⟩
  | @keepIdsAbove id =>
    have hevolves : w.store.Evolves (w.store.keepIdsAbove id) := .of_eq rfl rfl rfl
    have hf : w.store.Follows w.loose (w.store.keepIdsAbove id) w.loose :=
      hevolves.follows (.of_eq (Nat.le_refl _) rfl rfl)
    exact ⟨hw.follows (hw.store.keepIdsAbove id) hf w.stocking, hf⟩

/-- The order is kept by every run in which numbers do not run out. -/
theorem InOrder.run {allowed : World → Event → World → Prop}
    (hallowed : ∀ w e w', allowed w e w' → w'.store.ids.next ≠ 0) (h : Run allowed w w')
    (hw : w.InOrder) : w'.InOrder := by
  induction h with
  | refl => exact hw
  | step e _ hstep hcond ih => exact (ih.step hstep (hallowed _ e _ hcond)).1

/-- A store that was just opened is in order. -/
theorem inOrder_onDirectory {settings : Settings} {now : UInt64} {disk : Disk} {monitor : Monitor}
    {s : Store} (h : Store.onDirectory settings now disk monitor = .ok s)
    (hd : disk.WellFormed) : InOrder { store := s } where
  store := Store.sound_onDirectory h hd
  appends _ ha := (nomatch ha)
  walks _ hv := (nomatch hv)
  syncs _ hy := (nomatch hy)
  doomed _ hh := (nomatch hh)
  spent _ hv := (nomatch hv)
  unlinked _ hv := (nomatch hv)

end World

end SegmentLog
