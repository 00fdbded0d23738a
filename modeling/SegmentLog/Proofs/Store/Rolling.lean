import SegmentLog.Proofs.Store.Roomy

/-!
# Segments that are more than half full

A log rolls over only where the next frame does not fit, and no frame takes more than half a
segment. So every active segment but the last is more than half full, and the last is open and has
something in it. That holds as long as no segment is given up: a write or a forced sync that fails
seals the segment wherever it stands, and the next append goes to another one.

* `GivesUp`, `NeverGivesUp` — when a segment is given up;
* `Steady` — what leaves the cursors and the seals alone;
* `HalfFull.segmentFor`, `HalfFull.append` — what an append does;
* `HalfFull.serveAll`, `rollover_keeps_half` — what a whole run keeps.
-/

namespace SegmentLog

/-- What is left alone of a segment in which nothing is claimed and which is not sealed either. -/
structure Segment.Steady (g g' : Segment) : Prop where
  capacity : g'.capacity = g.capacity
  cursor : g'.cursor = g.cursor
  sealed : g'.sealed = g.sealed

theorem Segment.Steady.refl (g : Segment) : Steady g g := ⟨rfl, rfl, rfl⟩

theorem Segment.Steady.trans {g g' g'' : Segment} (h : Steady g g') (h' : Steady g' g'') :
    Steady g g'' :=
  ⟨h'.capacity.trans h.capacity, h'.cursor.trans h.cursor, h'.sealed.trans h.sealed⟩

namespace Store

variable {s s' s'' : Store}

/-! ## Segments that are given up -/

/-- Whether a segment is given up while a request is served: a frame has got its range, and its
write or the sync after that fails, or another forced sync fails. -/
def GivesUp (s : Store) : Request → Prop
  | .append m => (s.destination? m).isSome = true ∧ (s.append m).1.isOk = false
  | .sync force => force = true ∧ (s.syncActive true).1 ≠ .ok ()
  | .syncActive force => force = true ∧ (s.syncActive true).1 ≠ .ok ()
  | .finish => (s.syncActive true).1 ≠ .ok ()
  | _ => False

/-- Whether no segment is given up while some requests are served one after the other. -/
def NeverGivesUp (s : Store) : List Request → Prop
  | [] => True
  | request :: rest => ¬ s.GivesUp request ∧ (s.serve request).NeverGivesUp rest

instance (s : Store) : (request : Request) → Decidable (s.GivesUp request)
  | .append _ => inferInstanceAs (Decidable (_ ∧ _))
  | .sync _ => inferInstanceAs (Decidable (_ ∧ _))
  | .syncActive _ => inferInstanceAs (Decidable (_ ∧ _))
  | .finish => inferInstanceAs (Decidable (_ ≠ _))
  | .discard _ _ | .stockSpare | .keepIdsAbove _ | .wipe | .attach _ =>
    inferInstanceAs (Decidable False)

instance decidableNeverGivesUp : (s : Store) → (requests : List Request) →
    Decidable (s.NeverGivesUp requests)
  | _, [] => inferInstanceAs (Decidable True)
  | s, request :: rest =>
    have := decidableNeverGivesUp (s.serve request) rest
    inferInstanceAs (Decidable (_ ∧ _))

/-! ## Cursors and seals -/

/-- What is left alone of the segments of a store in which nothing is claimed or sealed. -/
structure Steady (s s' : Store) : Prop where
  size : s.table.size ≤ s'.table.size
  old : ∀ k < s.table.size, (s.segment k).Steady (s'.segment k)

theorem Steady.trans (h : s.Steady s') (h' : s'.Steady s'') : s.Steady s'' where
  size := Nat.le_trans h.size h'.size
  old k hk := (h.old k hk).trans (h'.old k (Nat.lt_of_lt_of_le hk h.size))

theorem steady_of_table (h : s'.table = s.table) : s.Steady s' where
  size := Nat.le_of_eq (by rw [h])
  old k _ := by rw [segment, segment, h]; exact .refl _

theorem steady_modify {k : Handle} {f : Segment → Segment} {d : Disk}
    (hf : (s.segment k).Steady (f (s.segment k))) : s.Steady { s.modify k f with disk := d } where
  size := Nat.le_of_eq (size_modify s k f).symm
  old := modify_related Segment.Steady.refl hf

theorem steady_noteFlush (s : Store) (k : Handle) (p : Partition) (upTo : Position) :
    s.Steady (s.noteFlush k p upTo) := by
  obtain ⟨marks, hflush, -⟩ := (s.segment k).noteFlush_eq p upTo
  exact steady_modify (f := fun g => g.noteFlush p upTo) (d := s.disk)
    (by rw [hflush]; exact ⟨rfl, rfl, rfl⟩)

theorem steady_syncSegment {k : Handle} {force : Bool} {r : Except DiskError Unit}
    (h : s.syncSegment k force = (r, s')) : s.Steady s' := by
  obtain ⟨u, d, rfl, -⟩ := syncSegment_cases h
  exact steady_modify ⟨rfl, rfl, rfl⟩

/-- A sync of some segments seals none, unless it is forced and fails. -/
theorem steady_syncEach {force : Bool} {todo : List Handle} {r : Except LogError Unit}
    (h : syncEach force todo s = (r, s')) (hok : force = true → r = .ok ()) : s.Steady s' := by
  induction todo generalizing s with
  | nil =>
    cases h
    exact steady_of_table rfl
  | cons k rest ih =>
    unfold Store.syncEach at h
    cases hsync : s.syncSegment k force with
    | mk synced s₁ =>
      have hs₁ := steady_syncSegment hsync
      rw [hsync] at h
      cases synced with
      | ok => exact hs₁.trans (ih h)
      | error cause =>
        cases force with
        | true =>
          cases h
          cases hok rfl
        | false =>
          cases h
          exact hs₁.trans (steady_of_table rfl)

/-- A segment that is made is not sealed, and no other is. -/
theorem steady_newSegment {r : Except DiskError Handle} (h : s.newSegment = (r, s')) :
    s.Steady s' ∧ ∀ k, r = .ok k → k = s.table.size ∧ (s'.segment k).sealed = false := by
  obtain ⟨d, -, ⟨e, rfl, rfl, -⟩ | ⟨g, q, n, rfl, rfl, hg, -⟩⟩ := newSegment_cases h
  · exact ⟨steady_of_table rfl, fun _ hk => (nomatch hk)⟩
  have hpush := @segment_push s { s with ids := s.ids.take.2, disk := d, table := s.table.push g }
    g rfl
  refine ⟨⟨?_, fun k hk => ?_⟩, fun k hk => ?_⟩
  · rw [Array.size_push]
    exact Nat.le_succ _
  · rw [hpush, if_neg (Nat.ne_of_lt hk)]
    exact .refl _
  · cases hk
    rw [hpush, if_pos rfl, hg]
    exact ⟨rfl, rfl⟩

theorem steady_deleteFile (s : Store) (k : Handle) : s.Steady (s.deleteFile k).2 := by
  cases hd : s.deleteFile k with
  | mk r s' =>
    obtain ⟨d, rfl, -⟩ := deleteFile_cases hd
    exact steady_of_table rfl

/-! ## Half full segments -/

/-- Whether every active segment but the last is more than half full, the last one is open and has
something in it, and the spare is open. -/
structure HalfFull (s : Store) : Prop where
  older : ∀ front t, s.active = front ++ [t] → ∀ k ∈ front,
    (s.segment k).capacity < 2 * (s.segment k).cursor
  tail : ∀ t, s.tail? = some t → (s.segment t).sealed = false ∧ 0 < (s.segment t).cursor
  spare : ∀ k, s.spare = some k → (s.segment k).sealed = false

theorem Housed.known_spare (hr : s.Housed []) {k : Handle} (hk : s.spare = some k) :
    k < s.table.size :=
  hr.known k (List.mem_append_right _ (List.mem_append_left _ (Option.mem_toList.mpr hk)))

theorem HalfFull.steady (hs : s.HalfFull) (hr : s.Housed []) (h : s.Steady s')
    (hactive : s'.active = s.active)
    (hspare : ∀ k, s'.spare = some k → s.spare = some k ∨ (s'.segment k).sealed = false) :
    s'.HalfFull where
  older front t ht k hk := by
    rw [hactive] at ht
    have hmem : k ∈ s.active := by rw [ht]; exact List.mem_append_left _ hk
    have hsame := h.old k (hr.known_active hmem)
    rw [hsame.capacity, hsame.cursor]
    exact hs.older front t ht k hk
  tail t ht := by
    rw [tail?, hactive] at ht
    have hsame := h.old t (hr.known_active (mem_of_tail? ht))
    rw [hsame.sealed, hsame.cursor]
    exact hs.tail t ht
  spare k hk := by
    rcases hspare k hk with hold | hopen
    · rw [(h.old k (hr.known_spare hold)).sealed]
      exact hs.spare k hold
    · exact hopen

/-- A segment that leaves the active ones was sealed, so that it was not the last. -/
theorem HalfFull.erase (hs : s.HalfFull) {k : Handle} (hsealed : (s.segment k).sealed = true)
    (d : Disk) : HalfFull { s with active := s.active.erase k, disk := d } := by
  have hne : ∀ t, s.tail? = some t → t ≠ k := by
    rintro t ht rfl
    rw [(hs.tail t ht).1] at hsealed
    cases hsealed
  have hlast : ∀ front t, s.active = front ++ [t] →
      s.active.erase k = front.erase k ++ [t] := by
    intro front t ht
    have htk := hne t (by rw [tail?, ht, List.getLast?_concat])
    rw [ht]
    by_cases hk : k ∈ front
    · rw [List.erase_append_left _ hk]
    · rw [List.erase_append_right _ hk, List.erase_of_not_mem hk,
        List.erase_of_not_mem (by simpa using htk.symm)]
  rcases List.eq_nil_or_concat' s.active with hnil | ⟨front, t, ht⟩
  · have hout : s.active.erase k = s.active := by rw [hnil]; rfl
    exact ⟨by rw [hout]; exact hs.older, by rw [tail?, hout]; exact hs.tail, hs.spare⟩
  · have herase := hlast front t ht
    constructor
    case older =>
      intro front' t' ht' j hj
      obtain ⟨rfl, -⟩ := List.append_inj' (herase.symm.trans ht') rfl
      exact hs.older front t ht j (List.mem_of_mem_erase hj)
    case tail =>
      intro t' ht'
      refine hs.tail t' ?_
      rw [tail?, herase, List.getLast?_concat] at ht'
      rw [tail?, ht, List.getLast?_concat, ht']
    case spare => exact hs.spare

/-! ## Appends -/

/-- A loose segment that is not sealed becomes the last active one, and only the one before it is
sealed. -/
theorem activate_open {k : Handle} (hr : s.Housed [k]) (hopen : (s.segment k).sealed = false) :
    ((s.activate k).segment k).sealed = false := by
  obtain ⟨s₁, mail, he, ⟨-, rfl⟩ | ⟨t, ht, rfl⟩⟩ := activate_eq s k
  · rw [he]
    exact hopen
  · have hne : k ≠ t := by
      rintro rfl
      exact hr.active_not_fresh (mem_of_tail? ht) (by simp)
    rw [he]
    show ((s.sealOff t).segment k).sealed = false
    rw [sealOff, segment_modify_ne _ hne]
    exact hopen

theorem steady_withdrawSpare {r : Option Handle} (h : s.withdrawSpare = (r, s')) :
    s.Steady s' ∧ s'.active = s.active ∧ s'.spare = none ∧ ∀ k, r = some k → s.spare = some k := by
  rcases withdrawSpare_cases h with ⟨hnone, rfl, rfl⟩ | ⟨k, hk, ⟨rfl, rfl⟩ | ⟨rfl, rfl⟩⟩
  · exact ⟨steady_of_table rfl, rfl, hnone, fun _ hc => (nomatch hc)⟩
  · exact ⟨steady_of_table rfl, rfl, rfl, fun j hj => by cases hj; exact hk⟩
  · have hout : s.Steady { s with spare := none } := steady_of_table rfl
    have hgone := hout.trans (steady_deleteFile { s with spare := none } k)
    refine ⟨hgone, active_deleteFile _ k, ?_, fun _ hc => (nomatch hc)⟩
    exact (moves_withdrawSpare h).2

/-- A roll-over opens a new last segment, or all segments stay as they are. -/
theorem HalfFull.rollOver (hs : s.HalfFull) (hr : s.Housed []) {r : Except LogError Handle}
    (h : s.rollOver = (r, s')) :
    s'.spare = none ∧ ((∃ e, r = .error e) ∧ s.Steady s' ∧ s'.active = s.active ∨
      ∃ k, r = .ok k ∧ s'.active = s.active ++ [k] ∧ (s'.segment k).sealed = false) := by
  obtain ⟨spare, s₁, hw, hcase⟩ := rollOver_cases h
  obtain ⟨hsteady, hactive, hnone, htaken⟩ := steady_withdrawSpare hw
  obtain ⟨-, -, hr₁⟩ := hr.withdrawSpare hw
  rcases hcase with ⟨k, rfl, rfl, rfl⟩ | ⟨rfl, made, s₂, hn, hmade⟩
  · have hk := htaken k rfl
    obtain ⟨hnot, -⟩ | ⟨_, he, hhoused⟩ := hr₁ <;> cases ‹_ = _›
    refine ⟨(spare_activate s₁ k).trans hnone, .inr ⟨k, rfl, ?_, activate_open hhoused ?_⟩⟩
    · rw [active_activate, hactive]
    · rw [(hsteady.old k (hr.known_spare hk)).sealed]
      exact hs.spare k hk
  · obtain ⟨-, hr₁⟩ | ⟨_, hnot, -⟩ := hr₁
    · obtain ⟨hmade₂, hopen⟩ := steady_newSegment hn
      obtain ⟨hactive₂, hspare₂, hr₂⟩ := hr₁.newSegment hn
      rw [hactive] at hactive₂
      rw [hnone] at hspare₂
      rcases hmade with ⟨e, rfl, rfl, rfl⟩ | ⟨k, rfl, rfl, rfl⟩
      · exact ⟨hspare₂, .inl ⟨⟨_, rfl⟩, (hsteady.trans hmade₂).trans (steady_of_table rfl),
          hactive₂⟩⟩
      · obtain ⟨_, he, -⟩ | ⟨he, hr₂⟩ := hr₂ <;> cases he
        refine ⟨(spare_activate s₂ _).trans hspare₂, .inr ⟨_, rfl, ?_, ?_⟩⟩
        · rw [active_activate, hactive₂]
        · exact activate_open hr₂ (hopen _ rfl).2
    · cases hnot

/-- A segment in which a frame does not fit is more than half full. -/
theorem Ready.half_of_not_fits (hr : s.Ready) {m : Mutation} {frame : Bytes}
    (hframe : m.frame s.maxPayload = .ok frame) {k : Handle} (hk : k < s.table.size)
    (hfits : (s.segment k).fits frame.length = false) :
    (s.segment k).capacity < 2 * (s.segment k).cursor := by
  obtain ⟨-, hpos, hle, rfl⟩ := Mutation.frame_eq_ok_iff.mp hframe
  have hhalf := Settings.frame_le_half hpos hle
  have hcapacity := hr.capacity k hk
  rw [Segment.fits, decide_eq_false_iff_not, Frame.length_ofPayload] at hfits
  omega

/-- Where a frame does not fit the last active segment, all are more than half full. -/
theorem HalfFull.half_of_full (hs : s.HalfFull) (hr : s.Ready) {m : Mutation} {frame : Bytes}
    (hframe : m.frame s.maxPayload = .ok frame)
    (hfull : ∀ t, s.tail? = some t → (s.segment t).fits frame.length = false) :
    ∀ k ∈ s.active, (s.segment k).capacity < 2 * (s.segment k).cursor := by
  intro k hk
  rcases List.eq_nil_or_concat' s.active with hnil | ⟨front, t, ht⟩
  · rw [hnil] at hk
    cases hk
  · have htail : s.tail? = some t := by rw [tail?, ht, List.getLast?_concat]
    rw [ht, List.mem_append, List.mem_singleton] at hk
    rcases hk with hk | rfl
    · exact hs.older front t ht k hk
    · exact hr.half_of_not_fits hframe (hr.known_active (mem_of_tail? htail)) (hfull k htail)

/-- Behind active segments that are all more than half full, a new one with something in it is the
last. -/
theorem HalfFull.behind {k : Handle} (hactive : s'.active = s.active ++ [k])
    (hold : ∀ j ∈ s.active, (s'.segment j).capacity < 2 * (s'.segment j).cursor)
    (hopen : (s'.segment k).sealed = false) (hpos : 0 < (s'.segment k).cursor)
    (hspare : s'.spare = none) : s'.HalfFull where
  older front t ht j hj := by
    obtain ⟨rfl, -⟩ := List.append_inj' (hactive.symm.trans ht) rfl
    exact hold j hj
  tail t ht := by
    rw [tail?, hactive, List.getLast?_concat] at ht
    cases ht
    exact ⟨hopen, hpos⟩
  spare j hj := by
    rw [hspare] at hj
    cases hj

/-- The last active segment takes in a frame. -/
theorem HalfFull.claimed (hs : s.HalfFull) (hr : s.Housed []) {k : Handle} (ht : s.tail? = some k)
    (partitions : List Partition) (length : Nat) :
    (s.modify k fun g => g.claimed partitions length).HalfFull where
  older front t ht' j hj := by
    have hlast : s.active = front ++ [t] := ht'
    have hne : j ≠ k := by
      rintro rfl
      rw [tail?, hlast, List.getLast?_concat] at ht
      cases ht
      have hnodup := (List.nodup_append.mp hr.distinct).1
      rw [hlast] at hnodup
      exact (List.nodup_append.mp hnodup).2.2 t hj t (List.mem_singleton_self t) rfl
    rw [segment_modify_ne _ hne]
    exact hs.older front t hlast j hj
  tail t ht' := by
    cases ht.symm.trans ht'
    obtain ⟨hopen, hpos⟩ := hs.tail k ht
    rw [segment_modify_self _ (hr.known_active (mem_of_tail? ht))]
    exact ⟨hopen, Nat.lt_of_lt_of_le hpos (Nat.le_add_right _ _)⟩
  spare j hj := by
    have hne : j ≠ k := by
      rintro rfl
      exact hr.active_not_fresh (mem_of_tail? ht) (by simpa using show s.spare = some j from hj)
    rw [segment_modify_ne _ hne]
    exact hs.spare j hj

/-- The log rolls over only where the last segment has no room, because that is open. -/
theorem HalfFull.segmentFor (hs : s.HalfFull) {length : Nat} {r : Except LogError Handle}
    (h : s.segmentFor length = (r, s')) :
    (∃ k, s.tail? = some k ∧ r = .ok k ∧ s' = s) ∨
      s.rollOver = (r, s') ∧ ∀ t, s.tail? = some t → (s.segment t).fits length = false := by
  unfold Store.segmentFor at h
  split at h
  · rename_i k ht
    split at h
    · cases h
      exact .inl ⟨k, ht, rfl, rfl⟩
    · rename_i hfits
      refine .inr ⟨h, fun t ht' => ?_⟩
      cases ht.symm.trans ht'
      rw [tailFits, (hs.tail k ht).1] at hfits
      simpa using hfits
  · rename_i hnone
    exact .inr ⟨h, fun t ht => by rw [hnone] at ht; cases ht⟩

/-- Whether one new segment has become the last, because the frame of a mutation does not fit the
one before. -/
def RollsOver (s : Store) (m : Mutation) (s' : Store) : Prop :=
  ∃ k frame, s'.active = s.active ++ [k] ∧ m.frame s.maxPayload = .ok frame ∧
    ∀ t, s.tail? = some t → (s.segment t).fits frame.length = false

/-- Where an append claims its range. -/
theorem HalfFull.claim (hs : s.HalfFull) (hr : s.Ready) {m : Mutation} {frame : Bytes}
    (hframe : m.frame s.maxPayload = .ok frame) {r : Except LogError Claim}
    (h : s.claim m.partitions frame.length = (r, s')) :
    s'.HalfFull ∧ (s'.active = s.active ∨ s.RollsOver m s') := by
  obtain ⟨e, rfl, hf⟩ | ⟨k, s₁, rfl, hf, rfl⟩ := hr.claim_cases (length_frame_le hframe) h
  · obtain ⟨_, -, he, -⟩ | ⟨hroll, -⟩ := hs.segmentFor hf
    · cases he
    · obtain ⟨hnone, ⟨-, hsteady, hactive⟩ | ⟨_, he, -⟩⟩ := hs.rollOver hr.toHoused hroll
      · refine ⟨hs.steady hr.toHoused hsteady hactive fun j hj => ?_, .inl hactive⟩
        rw [hnone] at hj
        cases hj
      · cases he
  · obtain ⟨_, ht, he, rfl⟩ | ⟨hroll, hfull⟩ := hs.segmentFor hf
    · cases he
      exact ⟨hs.claimed hr.toHoused ht m.partitions frame.length, .inl rfl⟩
    · obtain ⟨hnone, ⟨⟨_, he⟩, -⟩ | ⟨_, he, hactive, hopen⟩⟩ := hs.rollOver hr.toHoused hroll <;>
        cases he
      have hr₁ := (hr.segmentFor_ok (length_frame_le hframe) hf).1
      have hevolves := evolves_rollOver hroll
      have hk : k < s₁.table.size := hr₁.known_active (by rw [hactive]; simp)
      have hout : k ∉ s.active := by
        have hnodup := (List.nodup_append.mp hr₁.distinct).1
        rw [hactive] at hnodup
        exact fun hm => (List.nodup_append.mp hnodup).2.2 k hm k (List.mem_singleton_self k) rfl
      refine ⟨HalfFull.behind (s := s) (k := k) hactive (fun j hj => ?_) ?_ ?_ hnone,
        .inr ⟨k, frame, hactive, hframe, hfull⟩⟩
      · have hknown := hr.known_active hj
        have hjk : j ≠ k := by
          rintro rfl
          exact hout hj
        rw [segment_modify_ne _ hjk, (hevolves.old j hknown).capacity,
          (hevolves.old j hknown).cursor]
        exact hs.half_of_full hr hframe hfull j hj
      · rw [segment_modify_self _ hk]
        exact hopen
      · rw [segment_modify_self _ hk]
        exact Nat.lt_of_lt_of_le (Mutation.frame_pos hframe) (Nat.le_add_left _ _)

/-- What follows the claim of an append seals nothing, if it does not fail. -/
theorem steady_acknowledge {c : Claim} {p : Position} (h : s.acknowledge c = (.ok p, s')) :
    s.Steady s' := by
  obtain ⟨-, -, rfl⟩ | ⟨-, _, s₁, hsync, ⟨-, -, rfl⟩ | ⟨_, _, -, he, -⟩⟩ := acknowledge_cases h
  · exact steady_of_table rfl
  · exact steady_syncSegment hsync
  · cases he

/-- An append makes at most one new segment the last, and only if its frame does not fit the one
before. -/
theorem HalfFull.active_append (hs : s.HalfFull) (hr : s.Ready) (m : Mutation) :
    (s.append m).2.active = s.active ∨ s.RollsOver m (s.append m).2 := by
  obtain ⟨e, -, -, he⟩ | ⟨frame, granted, s₁, hframe, hclaim, hcase⟩ :=
    append_cases (Prod.eta (s.append m)).symm
  · rw [he]
    exact .inl rfl
  have hactive : (s.append m).2.active = s₁.active := by
    obtain ⟨e, -, -, he⟩ | ⟨c, written, s₂, -, hwrite, hcase⟩ := hcase
    · rw [he]
    have hwritten : s₂.active = s₁.active := by
      have he : s₂ = (s₁.write c frame).2 := by rw [hwrite]
      rw [he]
      rfl
    rcases hcase with ⟨-, hack⟩ | ⟨cause, e, -, -, he⟩
    · exact (active_acknowledge hack).1.trans hwritten
    · rw [he]
      exact hwritten
  obtain ⟨-, hclaimed⟩ := hs.claim hr hframe hclaim
  rw [RollsOver, hactive]
  exact hclaimed

theorem HalfFull.append (hs : s.HalfFull) (hr : s.Ready) {m : Mutation}
    (hkept : ¬ s.GivesUp (.append m)) : (s.append m).2.HalfFull := by
  obtain ⟨e, -, -, he⟩ | ⟨frame, granted, s₁, hframe, hclaim, hcase⟩ :=
    append_cases (Prod.eta (s.append m)).symm
  · rw [he]
    exact hs
  have hs₁ := (hs.claim hr hframe hclaim).1
  obtain ⟨e, -, -, he⟩ | ⟨c, written, s₂, rfl, hwrite, hcase⟩ := hcase
  · rw [he]
    exact hs₁
  -- a claim that is granted is followed by success, or else the segment is given up
  have hdestination : (s.destination? m).isSome = true := by
    unfold destination?
    rw [hframe]
    dsimp only
    rw [hclaim]
    rfl
  have hnot : ∀ e, (s.append m).1 ≠ .error e := fun e he => hkept ⟨hdestination, by rw [he]; rfl⟩
  have hr₁ := (hr.toHoused.claim hclaim).1
  have hc := hr₁.known_active (mem_of_tail? (hr.toHoused.tail?_claim hclaim))
  have hr₂ := hr₁.write hwrite hc
  rcases hcase with ⟨-, hack⟩ | ⟨cause, e, -, he, -⟩
  · obtain ⟨p, hp⟩ : ∃ p, (s.append m).1 = .ok p := by
      cases hresult : (s.append m).1 with
      | error e => exact absurd hresult (hnot e)
      | ok p => exact ⟨p, rfl⟩
    rw [hp] at hack
    have hsteady := steady_acknowledge hack
    have hactive := (active_acknowledge hack).1
    have hspare := spare_acknowledge hack
    have hwritten : s₁.Steady s₂ ∧ s₂.active = s₁.active ∧ s₂.spare = s₁.spare := by
      obtain ⟨u, d, rfl, -⟩ := write_cases hwrite hc
      exact ⟨steady_modify ⟨rfl, rfl, rfl⟩, rfl, rfl⟩
    exact hs₁.steady hr₁ (hwritten.1.trans hsteady) (hactive.trans hwritten.2.1) fun j hj =>
      .inl (by rw [← hwritten.2.2, ← hspare, hj])
  · exact absurd he (hnot e)

/-! ## The other requests -/

theorem HalfFull.discardOne (hs : s.HalfFull) (hr : s.Housed []) (p : Partition)
    (upTo : Position) (k : Handle) : (s.discardOne p upTo k).HalfFull := by
  have hflush := hs.steady hr (steady_noteFlush s k p upTo) rfl fun _ hj => .inl hj
  obtain ⟨hspent, hactive, _, d, -, he⟩ | ⟨-, he⟩ := discardOne_cases s p upTo k
  · rw [he]
    refine hflush.erase (k := k) ?_ d
    rw [segment_noteFlush, if_pos rfl]
    exact (isSpent_iff.mp hspent).1
  · rw [he]
    exact hflush

theorem HalfFull.discardEach (hs : s.HalfFull) (hr : s.Housed []) (p : Partition)
    (upTo : Position) (todo : List Handle) : (discardEach p upTo todo s).HalfFull := by
  induction todo generalizing s with
  | nil => exact hs
  | cons k rest ih =>
    have hone := hs.discardOne hr p upTo k
    rw [discardEach_cons]
    split
    · exact hone
    · exact ih hone (hr.discardOne p upTo k)

theorem HalfFull.stockSpare (hs : s.HalfFull) (hr : s.Housed []) : s.stockSpare.2.HalfFull := by
  unfold Store.stockSpare
  split
  · cases hn : s.newSegment with
    | mk made s₁ =>
      obtain ⟨hsteady, hopen⟩ := steady_newSegment hn
      obtain ⟨hactive, hspare, -⟩ := hr.newSegment hn
      cases made with
      | error e =>
        exact hs.steady hr (hsteady.trans (steady_of_table rfl)) hactive fun j hj =>
          .inl (by rw [← hspare]; exact hj)
      | ok k =>
        dsimp only
        unfold Store.placeSpare
        split
        · refine hs.steady hr (hsteady.trans (steady_of_table rfl)) hactive fun j hj => .inr ?_
          cases hj
          exact (hopen k rfl).2
        · refine hs.steady hr (hsteady.trans (steady_deleteFile s₁ k))
            ((active_deleteFile s₁ k).trans hactive) fun j hj => .inl ?_
          cases hd : s₁.deleteFile k with
          | mk r t =>
            obtain ⟨d, rfl, -⟩ := deleteFile_cases hd
            rw [hd] at hj
            rw [← hspare]
            exact hj
  · exact hs

theorem HalfFull.syncActive (hs : s.HalfFull) (hr : s.Housed []) {force : Bool}
    (hok : force = true → (s.syncActive true).1 = .ok ()) : (s.syncActive force).2.HalfFull := by
  obtain ⟨table, disk, monitor, he⟩ := syncEach_eq force s.active s
  have hsteady : s.Steady (s.syncActive force).2 := by
    refine steady_syncEach (Prod.eta _).symm fun hforce => ?_
    subst hforce
    exact hok rfl
  refine hs.steady hr hsteady ?_ fun j hj => .inl ?_
  · rw [Store.syncActive, he]
  · rw [Store.syncActive, he] at hj
    exact hj

theorem HalfFull.sync (hs : s.HalfFull) (hr : s.Housed []) {force : Bool}
    (hok : force = true → (s.syncActive true).1 = .ok ()) : (s.sync force).2.HalfFull := by
  unfold Store.sync
  split
  · obtain ⟨mail, he⟩ := send_eq s .sync
    rw [he]
    exact hs.steady hr (steady_of_table rfl) rfl fun _ hj => .inl hj
  · exact hs.syncActive hr hok

theorem HalfFull.finish (hs : s.HalfFull) (hr : s.Housed [])
    (hok : (s.syncActive true).1 = .ok ()) : s.finish.2.HalfFull := by
  obtain ⟨synced, s₁, hsync, hcase⟩ := finish_cases (Prod.eta s.finish).symm
  have hs₁ : s₁.HalfFull := by
    have hall : (s.syncActive true).2.HalfFull := hs.syncActive hr fun _ => hok
    rwa [hsync] at hall
  have hr₁ : s₁.Housed [] := by
    have hall := hr.syncActive true
    rwa [hsync] at hall
  rcases hcase with ⟨e, -, -, he⟩ | ⟨-, ⟨-, -, he⟩ | ⟨k, removed, -, hd, -⟩⟩
  · rwa [he]
  · rwa [he]
  · obtain ⟨d, he, -⟩ := deleteFile_cases hd
    rw [he]
    exact hs₁.steady hr₁ (steady_of_table rfl) rfl fun _ hj => (nomatch hj)

/-! ## Runs -/

theorem halfFull_of_none (hactive : s.active = []) (hspare : s.spare = none) : s.HalfFull where
  older front t ht := by
    rw [hactive] at ht
    simp at ht
  tail t ht := by
    rw [tail?, hactive] at ht
    cases ht
  spare k hk := by
    rw [hspare] at hk
    cases hk

/-- One request keeps the segments more than half full, if none is given up. -/
theorem HalfFull.serve (hs : s.HalfFull) (hr : s.Ready) {request : Request}
    (hkept : ¬ s.GivesUp request) : (s.serve request).HalfFull := by
  have hh := hr.toHoused
  cases request with
  | append m => exact hs.append hr hkept
  | discard p upTo => exact hs.discardEach hh p upTo s.active
  | stockSpare => exact hs.stockSpare hh
  | sync force =>
    rw [GivesUp, not_and, not_not] at hkept
    exact hs.sync hh hkept
  | syncActive force =>
    rw [GivesUp, not_and, not_not] at hkept
    exact hs.syncActive hh hkept
  | finish =>
    rw [GivesUp, not_not] at hkept
    exact hs.finish hh hkept
  | wipe =>
    obtain ⟨d, he⟩ := wipe_eq s
    rw [Store.serve, he]
    exact halfFull_of_none rfl rfl
  | keepIdsAbove | attach => exact hs.steady hh (steady_of_table rfl) rfl fun _ hj => .inl hj

theorem HalfFull.serveAll (hs : s.HalfFull) (hr : s.Ready) {requests : List Request}
    (hkept : s.NeverGivesUp requests) : (s.serveAll requests).HalfFull := by
  induction requests generalizing s with
  | nil => exact hs
  | cons request rest ih => exact ih (hs.serve hr hkept.1) (hr.serve request) hkept.2

/-- **A log rolls over only where it must.** Take a store that was opened with any settings that
pass the check, on any disk, and any requests that one caller makes after that, in which no write
and no forced sync fails; whatever else fails. Then every active segment but the last is more than
half full, and the last, if there is one, is open and has something in it. The next append makes at
most one new segment the last, and it does so only if its frame does not fit the one before. -/
theorem rollover_keeps_half {settings : Settings} {now : UInt64} {disk : Disk} {monitor : Monitor}
    {opened : Store} (hopen : onDirectory settings now disk monitor = .ok opened)
    (hdisk : disk.WellFormed) (hchecked : settings.check = .ok ()) {requests : List Request}
    (hkept : opened.NeverGivesUp requests) :
    let s := opened.serveAll requests
    (∀ front t, s.active = front ++ [t] →
        (∀ k ∈ front, (s.segment k).capacity < 2 * (s.segment k).cursor) ∧
          (s.segment t).sealed = false ∧ 0 < (s.segment t).cursor) ∧
      ∀ m, (s.append m).2.active = s.active ∨ s.RollsOver m (s.append m).2 := by
  intro s
  have hready := ready_onDirectory hopen hdisk hchecked
  have hfresh : opened.HalfFull := by
    obtain ⟨found, rfl, -⟩ := onDirectory_cases hopen
    exact halfFull_of_none rfl rfl
  have hs : s.HalfFull := hfresh.serveAll hready hkept
  refine ⟨fun front t ht => ⟨hs.older front t ht, hs.tail t ?_⟩,
    hs.active_append (hready.serveAll requests)⟩
  rw [tail?, ht, List.getLast?_concat]

/-- Two records fill a segment to more than half, and the third goes to the spare. -/
theorem rollover_keeps_half_spare :
    let settings : Settings := { directory := ⟨[Path.dot]⟩, segmentSize := 64 }
    let requests : List Request := [.append (.raw [⟨1⟩] (.replicate 20 7)), .stockSpare,
      .append (.raw [⟨1⟩] (.replicate 20 8)), .append (.raw [⟨2⟩] [9])]
    let s := (blank settings 5).serveAll requests
    (blank settings 5).NeverGivesUp requests ∧ s.active = [0, 1] ∧
      (s.segment 0).capacity < 2 * (s.segment 0).cursor ∧ (s.segment 1).sealed = false ∧
      0 < (s.segment 1).cursor := by
  intro settings requests s
  have hkept : (blank settings 5).NeverGivesUp requests := by decide +kernel
  have hactive : s.active = [0] ++ [1] := by decide +kernel
  obtain ⟨hhalf, -⟩ := rollover_keeps_half (onDirectory_blank rfl 5 {}) (Disk.wellFormed_empty _)
    (by decide) hkept
  obtain ⟨hfront, hopen, hpos⟩ := hhalf [0] 1 hactive
  exact ⟨hkept, hactive, hfront 0 (List.mem_singleton_self 0), hopen, hpos⟩

/-- A forced sync that fails gives its segment up, though every file could be created and every
write has succeeded. Then the last active segment is sealed; the next append goes to another one,
though its frame would fit, and less than half of the first is used. -/
theorem rollover_after_failed_sync :
    let settings : Settings := { directory := ⟨[Path.dot]⟩, segmentSize := 64, lookAhead := false }
    let faults : Faults := { sync := [some .device] }
    let opened := blank settings 5 faults
    let s := opened.serveAll [.append (.raw [⟨1⟩] [1, 2, 3]), .sync true]
    let s' := (s.append (.raw [⟨1⟩] [4, 5, 6])).2
    settings.check = .ok () ∧
      onDirectory settings 5 { faults } { policy := settings.policy } = .ok opened ∧
      faults.create = [] ∧ faults.write = [] ∧
      s.active = [0] ∧ (s.segment 0).sealed = true ∧ (s.segment 0).fits 15 = true ∧
      s'.active = [0, 1] ∧ (s'.segment 0).cursor = 15 ∧ (s'.segment 0).capacity = 64 := by
  intro settings faults opened s s'
  exact ⟨by decide, onDirectory_blank rfl 5 faults, by decide +kernel⟩

end Store

end SegmentLog
