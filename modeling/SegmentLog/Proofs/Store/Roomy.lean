import SegmentLog.Proofs.Store.Failing

/-!
# Room for every size that is accepted

The check of the settings, the limit for a payload and the room of a segment are three sums over
the size of a segment, with a division, a subtraction that stops at zero and a conversion to a
signed word between them. They agree: what is accepted by its size fits, whatever has become of
the store, and as often as the limit promises.

* `Frame.sizeField_ofPayload` — the length that a frame states is that of its payload;
* `Roomy` — every segment has the room of the settings, and one without a place is unused;
* `Roomy.segmentFor`, `Roomy.claim`, `Roomy.serveAll` — it stays like that;
* `SizesFit`, `Roomy.sizesFit` — what follows for every size that is accepted.
-/

namespace SegmentLog

/-! ## Sizes -/

namespace Frame

/-- A length that a header can state is kept by the conversion to a signed word. -/
theorem toInt_ofNat {size : Nat} (h : size ≤ maxSize) : (Int32.ofNat size).toInt = size :=
  Int32.toInt_ofNat_of_lt (by simp only [maxSize] at h; omega)

/-- A length that is not zero does not read as the end marker. -/
theorem endMarker_lt_ofNat {size : Nat} (hpos : 0 < size) (h : size ≤ maxSize) :
    endMarker < Int32.ofNat size := by
  rw [Int32.lt_iff_toInt_lt, toInt_ofNat h, endMarker, Int32.toInt_zero]
  omega

theorem header_ofPayload (payload : Bytes) :
    Header.decode ((ofPayload payload).take overhead) =
      Header.ofSize (Int32.ofNat payload.length) := by
  rw [ofPayload, ofParts, List.take_left' (Header.length_encode _), Header.decode_encode]

/-- The length that a frame states is that of its payload. -/
theorem sizeField_ofPayload {payload : Bytes} (h : payload.length ≤ maxSize) :
    (sizeField (ofPayload payload)).toInt = payload.length := by
  rw [sizeField, header_ofPayload, Header.ofSize, toInt_ofNat h]

end Frame

namespace Settings

variable {c : Settings}

/-- With settings that make sense some payload is accepted. -/
theorem maxPayload_pos_of_check (h : c.check = .ok ()) : 0 < c.maxPayload := by
  obtain ⟨hsmall, -⟩ := (check_eq_ok_iff c).mp h
  rw [minSegmentSize, Frame.overhead] at hsmall
  rw [maxPayload, Frame.maxPayload, Frame.overhead]
  omega

/-- The frame of a payload that is accepted takes at most half a segment. -/
theorem frame_le_half {size : Nat} (hpos : 0 < size) (h : size ≤ c.maxPayload) :
    Frame.overhead + size ≤ c.segmentSize.toNat / 2 := by
  rw [maxPayload, Frame.maxPayload] at h
  omega

end Settings

/-- An empty segment grants a length twice if it is at most half of the room. -/
theorem Segment.claim_twice {g : Segment} {length : Nat} (hcursor : g.cursor = 0)
    (hhalf : 2 * length ≤ g.capacity) :
    ∃ g₁ g₂, g.claim length = some (0, g₁) ∧ g₁.claim length = some (length, g₂) := by
  refine ⟨_, _, claim_eq_some_iff.mpr ⟨?_, hcursor.symm, rfl⟩, claim_eq_some_iff.mpr ⟨?_, ?_, rfl⟩⟩
  · rw [fits, decide_eq_true_eq, hcursor]
    omega
  · rw [fits, decide_eq_true_eq, hcursor]
    show 0 + length + length ≤ g.capacity
    omega
  · show _ = g.cursor + _
    rw [hcursor, Nat.zero_add]

namespace Store

variable {s s' : Store} {loose loose' : List Handle}

/-! ## Stores with room -/

/-- Whether every segment has the room of the settings and keeps within it, and a segment that never
was active, those in `loose` included, is unused. -/
structure Roomy (s : Store) (loose : List Handle) : Prop where
  distinct : (s.own loose).Nodup
  known : ∀ k ∈ s.own loose, k < s.table.size
  capacity : ∀ k < s.table.size, (s.segment k).capacity = s.settings.segmentSize.toNat
  bounded : ∀ k < s.table.size, (s.segment k).cursor ≤ s.settings.segmentSize.toNat
  unused : ∀ k ∈ s.spare.toList ++ loose, (s.segment k).cursor = 0

theorem Roomy.known_fresh (hs : s.Roomy loose) {k : Handle} (hk : k ∈ s.spare.toList ++ loose) :
    k < s.table.size := hs.known k (List.mem_append_right _ hk)

theorem Roomy.active_not_fresh (hs : s.Roomy loose) {k : Handle} (hk : k ∈ s.active) :
    k ∉ s.spare.toList ++ loose :=
  fun hf => (List.nodup_append.mp hs.distinct).2.2 k hk k hf rfl

/-- What claims nothing leaves room, if a segment without a place does not come back. -/
theorem Roomy.goOn (hs : s.Roomy loose) (hsettings : s'.settings = s.settings)
    (hold : ∀ k < s.table.size, (s'.segment k).capacity = (s.segment k).capacity ∧
      (s'.segment k).cursor = (s.segment k).cursor)
    (hnew : ∀ k, s.table.size ≤ k → k < s'.table.size →
      (s'.segment k).capacity = s.settings.segmentSize.toNat ∧ (s'.segment k).cursor = 0)
    (hdistinct : (s'.own loose').Nodup) (hknown : ∀ k ∈ s'.own loose', k < s'.table.size)
    (hfresh : ∀ k ∈ s'.spare.toList ++ loose',
      k ∈ s.spare.toList ++ loose ∨ s.table.size ≤ k) : s'.Roomy loose' where
  distinct := hdistinct
  known := hknown
  capacity k hk := by
    rw [hsettings]
    by_cases hk' : k < s.table.size
    · rw [(hold k hk').1, hs.capacity k hk']
    · exact (hnew k (Nat.le_of_not_lt hk') hk).1
  bounded k hk := by
    rw [hsettings]
    by_cases hk' : k < s.table.size
    · rw [(hold k hk').2]
      exact hs.bounded k hk'
    · rw [(hnew k (Nat.le_of_not_lt hk') hk).2]
      exact Nat.zero_le _
  unused k hk := by
    rcases hfresh k hk with hmem | hge
    · rw [(hold k (hs.known_fresh hmem)).2, hs.unused k hmem]
    · exact (hnew k hge (hknown k (List.mem_append_right _ hk))).2

theorem Roomy.evolves (hs : s.Roomy loose) (he : s.Evolves s')
    (hdistinct : (s'.own loose').Nodup) (hknown : ∀ k ∈ s'.own loose', k < s'.table.size)
    (hfresh : ∀ k ∈ s'.spare.toList ++ loose',
      k ∈ s.spare.toList ++ loose ∨ s.table.size ≤ k) : s'.Roomy loose' :=
  hs.goOn he.settings (fun k hk => ⟨(he.old k hk).capacity, (he.old k hk).cursor⟩)
    (fun k hle hlt => ⟨he.room k hle hlt, (he.new k hle hlt).1.cursor⟩) hdistinct hknown hfresh

/-- Segments change places or leave them. -/
theorem Roomy.arrange (hs : s.Roomy loose) (he : s.Evolves s')
    (hplaces : (s'.own loose').Subperm (s.own loose))
    (hfresh : ∀ k ∈ s'.spare.toList ++ loose', k ∈ s.spare.toList ++ loose) :
    s'.Roomy loose' := by
  refine hs.evolves he ?_ (fun k hk => ?_) fun k hk => .inl (hfresh k hk)
  · obtain ⟨l, hl, hsub⟩ := hplaces
    exact hl.nodup_iff.mp (hs.distinct.sublist hsub)
  · exact Nat.lt_of_lt_of_le (hs.known k (hplaces.subset hk)) he.size

theorem Roomy.of_places (hs : s.Roomy loose) (he : s.Evolves s') (hactive : s'.active = s.active)
    (hspare : s'.spare = s.spare) : s'.Roomy loose := by
  refine hs.arrange he (List.Perm.subperm ?_) fun k hk => by rwa [hspare] at hk
  rw [own, own, hactive, hspare]

/-- Segments that leave their places leave the rest with room. -/
theorem Roomy.withdraw (hs : s.Roomy loose) {active : List Handle} {spare : Option Handle}
    (hactive : active.Sublist s.active) (hspare : spare.toList.Sublist s.spare.toList) :
    Roomy { s with active, spare } loose :=
  hs.arrange (.of_eq rfl rfl rfl)
    (hactive.append (hspare.append (List.Sublist.refl _))).subperm
    fun _ hk => (hspare.append (List.Sublist.refl _)).subset hk

/-- Whatever is done to segments in their places, if nothing is claimed in them. -/
theorem Roomy.of_same (hs : s.Roomy loose) (hsettings : s'.settings = s.settings)
    (hsize : s'.table.size = s.table.size)
    (hsame : ∀ k < s.table.size, (s'.segment k).capacity = (s.segment k).capacity ∧
      (s'.segment k).cursor = (s.segment k).cursor)
    (hactive : s'.active = s.active) (hspare : s'.spare = s.spare) : s'.Roomy loose := by
  have hown : s'.own loose = s.own loose := by rw [own, own, hactive, hspare]
  refine hs.goOn hsettings hsame (fun k hle hlt => ?_) ?_ ?_ fun k hk => ?_
  · rw [hsize] at hlt
    exact absurd hlt (Nat.not_lt.mpr hle)
  · rw [hown]
    exact hs.distinct
  · rw [hown, hsize]
    exact hs.known
  · rw [hspare] at hk
    exact .inl hk

theorem Roomy.write (hs : s.Roomy loose) {c : Claim} {frame : Bytes} {r : Except DiskError Unit}
    (h : s.write c frame = (r, s')) : s'.Roomy loose := by
  have hs' : s' = (s.write c frame).2 := by rw [h]
  subst hs'
  refine hs.of_same rfl (size_modify s c.handle _) (modify_related
    (P := fun g g' => g'.capacity = g.capacity ∧ g'.cursor = g.cursor) (fun _ => ⟨rfl, rfl⟩) ?_)
    rfl rfl
  cases s.disk.writeAt (s.segment c.handle).file c.offset frame with
  | mk result d => cases result <;> exact ⟨rfl, rfl⟩

theorem Roomy.noteFlush (hs : s.Roomy loose) (h : Handle) (p : Partition) (upTo : Position) :
    (s.noteFlush h p upTo).Roomy loose := by
  refine hs.of_same rfl (size_modify s h _) (fun k hk => ?_) rfl rfl
  obtain ⟨marks, hflush⟩ := s.segment_noteFlush_marks h k p upTo
  rw [hflush]
  exact ⟨rfl, rfl⟩

/-! ## New segments -/

/-- A segment that was made is loose and unused. -/
theorem Roomy.newSegment (hs : s.Roomy loose) {r : Except DiskError Handle}
    (h : s.newSegment = (r, s')) :
    (∃ e, r = .error e ∧ s'.Roomy loose) ∨
      r = .ok s.table.size ∧ s'.Roomy (s.table.size :: loose) := by
  have hevolves := evolves_newSegment h
  obtain ⟨d, -, ⟨e, rfl, rfl, -⟩ | ⟨g, q, n, rfl, rfl, -⟩⟩ := newSegment_cases h
  · exact .inl ⟨e, rfl, hs.of_places hevolves rfl rfl⟩
  have hperm := perm_loose s.active s.spare.toList loose s.table.size
  refine .inr ⟨rfl, hs.evolves hevolves ?_ (fun k hk => ?_) fun k hk => ?_⟩
  · refine hperm.nodup_iff.mpr (List.nodup_cons.mpr ⟨fun hm => ?_, hs.distinct⟩)
    exact Nat.lt_irrefl _ (hs.known _ hm)
  · show k < (s.table.push g).size
    rw [Array.size_push]
    rcases List.mem_cons.mp (hperm.subset hk) with rfl | hk
    · exact Nat.lt_succ_self _
    · exact Nat.lt_succ_of_lt (hs.known k hk)
  · rcases List.mem_append.mp hk with hk | hk
    · exact .inl (List.mem_append_left _ hk)
    · rcases List.mem_cons.mp hk with rfl | hk
      · exact .inr (Nat.le_refl _)
      · exact .inl (List.mem_append_right _ hk)

theorem Roomy.deleteFile (hs : s.Roomy loose) (k : Handle) : (s.deleteFile k).2.Roomy loose := by
  cases hd : s.deleteFile k with
  | mk r s' =>
    obtain ⟨d, rfl, hr⟩ := deleteFile_cases hd
    exact hs.of_places (evolves_remove hr) rfl rfl

/-- A new spare gets its place, or its file is removed. -/
theorem Roomy.placeSpare {k : Handle} (hs : s.Roomy (k :: loose)) :
    (s.placeSpare k).Roomy loose := by
  unfold Store.placeSpare
  split
  · rename_i hplace
    have hnone := Option.isNone_iff_eq_none.mp hplace.1
    have hevolves : s.Evolves { s with spare := some k } := .of_eq rfl rfl rfl
    refine hs.arrange hevolves (List.Perm.subperm ?_) fun j hj => ?_
    · rw [own, own, hnone]
      rfl
    · rwa [hnone]
  · have hout : s.Roomy loose := by
      refine hs.arrange (.refl s) ?_ fun j hj => ?_
      · exact (((List.sublist_cons_self k loose).append_left _).append_left _).subperm
      · exact ((List.sublist_cons_self k loose).append_left _).subset hj
    exact hout.deleteFile k

/-! ## The segment of an append -/

/-- The spare is taken out of its place. -/
theorem Roomy.withdrawSpare (hs : s.Roomy loose) {r : Option Handle}
    (h : s.withdrawSpare = (r, s')) :
    r = none ∧ s'.Roomy loose ∨ ∃ k, r = some k ∧ s'.Roomy (k :: loose) := by
  have hout : ∀ k, s.spare = some k → Roomy { s with spare := none } (k :: loose) := by
    intro k hk
    have hevolves : s.Evolves { s with spare := none } := .of_eq rfl rfl rfl
    refine hs.arrange hevolves (List.Perm.subperm ?_) fun j hj => ?_
    · rw [own, own, hk]
      rfl
    · rwa [hk]
  rcases withdrawSpare_cases h with ⟨-, rfl, rfl⟩ | ⟨k, hk, ⟨rfl, rfl⟩ | ⟨rfl, rfl⟩⟩
  · exact .inl ⟨rfl, hs⟩
  · exact .inr ⟨k, rfl, hout k hk⟩
  · have hgone : Roomy { s with spare := none } loose :=
      hs.withdraw (List.Sublist.refl _) (List.nil_sublist _)
    exact .inl ⟨rfl, hgone.deleteFile k⟩

/-- A loose segment becomes the last active one, and is still unused. -/
theorem Roomy.activate {k : Handle} (hs : s.Roomy (k :: loose)) :
    (s.activate k).Roomy loose ∧ k ∈ (s.activate k).active ∧
      ((s.activate k).segment k).cursor = 0 := by
  have hevolves := evolves_activate s k
  have hk : k ∈ s.spare.toList ++ k :: loose := List.mem_append_right _ List.mem_cons_self
  refine ⟨hs.arrange hevolves (List.Perm.subperm ?_) fun j hj => ?_, ?_, ?_⟩
  · rw [own, own, active_activate, spare_activate]
    exact perm_activate ..
  · rw [spare_activate] at hj
    exact ((List.sublist_cons_self k loose).append_left _).subset hj
  · rw [active_activate]
    exact List.mem_append_right _ (List.mem_singleton_self k)
  · rw [(hevolves.old k (hs.known_fresh hk)).cursor, hs.unused k hk]

/-- A roll-over gives an unused segment, or nothing is claimed. -/
theorem Roomy.rollOver (hs : s.Roomy loose) {r : Except LogError Handle}
    (h : s.rollOver = (r, s')) :
    s'.Roomy loose ∧ ((∃ cause, r = .error (.io (.disk cause))) ∨
      ∃ k, r = .ok k ∧ k ∈ s'.active ∧ (s'.segment k).cursor = 0) := by
  obtain ⟨spare, s₁, hw, ⟨k, rfl, rfl, rfl⟩ | ⟨rfl, made, s₂, hn, hmade⟩⟩ := rollOver_cases h
  · obtain ⟨hr, -⟩ | ⟨_, hr, hs₁⟩ := hs.withdrawSpare hw <;> cases hr
    obtain ⟨hs₂, hactive, hcursor⟩ := hs₁.activate
    exact ⟨hs₂, .inr ⟨k, rfl, hactive, hcursor⟩⟩
  · obtain ⟨-, hs₁⟩ | ⟨_, hr, -⟩ := hs.withdrawSpare hw
    · rcases hmade with ⟨e, rfl, rfl, rfl⟩ | ⟨k, rfl, rfl, rfl⟩
      · obtain ⟨_, -, hs₂⟩ | ⟨hr, -⟩ := hs₁.newSegment hn
        · exact ⟨hs₂.of_places (.of_eq rfl rfl rfl) rfl rfl, .inl ⟨e, rfl⟩⟩
        · cases hr
      · obtain ⟨_, hr, -⟩ | ⟨hr, hs₂⟩ := hs₁.newSegment hn <;> cases hr
        obtain ⟨hs₃, hactive, hcursor⟩ := hs₂.activate
        exact ⟨hs₃, .inr ⟨_, rfl, hactive, hcursor⟩⟩
    · cases hr

/-- The segment that is chosen for some bytes takes them in, if a whole segment would. -/
theorem Roomy.segmentFor (hs : s.Roomy loose) {length : Nat} {r : Except LogError Handle}
    (h : s.segmentFor length = (r, s')) :
    s'.Roomy loose ∧ ((∃ cause, r = .error (.io (.disk cause))) ∨
      ∃ k, r = .ok k ∧ k ∈ s'.active ∧
        (length ≤ s.settings.segmentSize.toNat → (s'.segment k).fits length = true)) := by
  rcases segmentFor_cases h with ⟨k, ht, hfits, rfl, rfl⟩ | hr
  · rw [tailFits, Bool.and_eq_true] at hfits
    exact ⟨hs, .inr ⟨k, rfl, mem_of_tail? ht, fun _ => hfits.2⟩⟩
  · obtain ⟨hs', ⟨cause, rfl⟩ | ⟨k, rfl, hactive, hcursor⟩⟩ := hs.rollOver hr
    · exact ⟨hs', .inl ⟨cause, rfl⟩⟩
    · refine ⟨hs', .inr ⟨k, rfl, hactive, fun hlength => ?_⟩⟩
      rw [Segment.fits, decide_eq_true_eq, hcursor, Nat.zero_add,
        hs'.capacity k (hs'.known k (List.mem_append_left _ hactive)),
        (evolves_rollOver hr).settings]
      exact hlength

/-- What is claimed keeps within the room of its segment, if the segment has room for it. -/
theorem Roomy.claimed (hs : s.Roomy loose) {k : Handle} (hactive : k ∈ s.active)
    (partitions : List Partition) {length : Nat} (hfits : (s.segment k).fits length = true) :
    (s.modify k fun g => g.claimed partitions length).Roomy loose := by
  have hk := hs.known k (List.mem_append_left _ hactive)
  have hsize := size_modify s k fun g => g.claimed partitions length
  rw [Segment.fits, decide_eq_true_eq, hs.capacity k hk] at hfits
  constructor
  case distinct => exact hs.distinct
  case known =>
    rw [hsize]
    exact hs.known
  case capacity =>
    intro j hj
    rw [hsize] at hj
    rw [segment_modify _ _ _ _ hj]
    split <;> exact hs.capacity j hj
  case bounded =>
    intro j hj
    rw [hsize] at hj
    rw [segment_modify _ _ _ _ hj]
    split
    · rename_i he
      subst he
      exact hfits
    · exact hs.bounded j hj
  case unused =>
    intro j hj
    have hjk : j ≠ k := by
      rintro rfl
      exact hs.active_not_fresh hactive hj
    rw [segment_modify_ne _ hjk]
    exact hs.unused j hj

theorem Roomy.claim (hs : s.Roomy loose) {partitions : List Partition} {length : Nat}
    {r : Except LogError Claim} (h : s.claim partitions length = (r, s')) : s'.Roomy loose := by
  obtain ⟨r₁, s₁, hf, -, hcase⟩ := claim_cases h
  obtain ⟨hs₁, hchosen⟩ := hs.segmentFor hf
  rcases hcase with ⟨e, -, -, rfl⟩ | ⟨k, rfl, ⟨cause, -, rfl⟩ | ⟨-, hfits, hclaimed⟩⟩
  · exact hs₁
  · exact hs₁.of_places (.of_eq rfl rfl rfl) rfl rfl
  · obtain ⟨_, hr⟩ | ⟨_, hr, hactive, -⟩ := hchosen <;> cases hr
    obtain rfl := hclaimed (hs₁.known k (List.mem_append_left _ hactive))
    exact hs₁.claimed hactive partitions hfits

/-! ## Sizes that are accepted -/

/-- What holds for the sizes that a store accepts. Some size is accepted. The frame of a payload of
an accepted size takes at most half a segment, and the length that it states is that of the payload,
so that it is positive and not the end marker. Where a segment is asked for room, the sum keeps
within a word of eight bytes. The segment that is chosen for a frame takes it in, so that an append
is never told that there was no room. And an empty segment has room for two records of the largest
size. -/
structure SizesFit (s : Store) : Prop where
  some_accepted : 1 ≤ s.maxPayload
  size : ∀ size, Frame.checkSize size s.maxPayload = .ok () →
    Frame.overhead + size ≤ s.settings.segmentSize.toNat / 2 ∧
      (Int32.ofNat size).toInt = size ∧ Frame.endMarker < Int32.ofNat size
  written : ∀ (m : Mutation) frame, m.frame s.maxPayload = .ok frame →
    frame.length ≤ s.settings.segmentSize.toNat / 2 ∧
      (Frame.sizeField frame).toInt = m.payload.length ∧
      Frame.endMarker < Frame.sizeField frame
  sum : ∀ size, Frame.checkSize size s.maxPayload = .ok () → ∀ k < s.table.size,
    (s.segment k).cursor + (Frame.overhead + size) < UInt64.size
  taken : ∀ (m : Mutation) frame, m.frame s.maxPayload = .ok frame → ∀ k s',
    s.segmentFor frame.length = (.ok k, s') →
      (s'.segment k).cursor + frame.length < UInt64.size ∧
        ((s'.segment k).claim frame.length).isSome = true
  room : ∀ (m : Mutation) length segment, (s.append m).1 ≠ .error (.io (.noRoom length segment))
  twice : ∀ g : Segment, g.capacity = s.settings.segmentSize.toNat → g.cursor = 0 →
    ∃ g₁ g₂, g.claim (Frame.overhead + s.maxPayload) = some (0, g₁) ∧
      g₁.claim (Frame.overhead + s.maxPayload) = some (Frame.overhead + s.maxPayload, g₂)

/-- The segment that is chosen for a frame takes it in. -/
theorem Roomy.fits (hs : s.Roomy loose) {m : Mutation} {frame : Bytes}
    (hframe : m.frame s.maxPayload = .ok frame) {k : Handle}
    (h : s.segmentFor frame.length = (.ok k, s')) :
    k < s'.table.size ∧ (s'.segment k).fits frame.length = true := by
  obtain ⟨hs', ⟨_, hr⟩ | ⟨_, hr, hactive, hfits⟩⟩ := hs.segmentFor h <;> cases hr
  exact ⟨hs'.known k (List.mem_append_left _ hactive), hfits (length_frame_le hframe)⟩

/-- A claim for a frame fails only where the disk does. -/
theorem Roomy.claim_error (hs : s.Roomy loose) {m : Mutation} {frame : Bytes}
    (hframe : m.frame s.maxPayload = .ok frame) {e : LogError}
    (h : s.claim m.partitions frame.length = (.error e, s')) : ∃ cause, e = .io (.disk cause) := by
  unfold Store.claim at h
  cases hf : s.segmentFor frame.length with
  | mk chosen s₁ =>
    rw [hf] at h
    cases chosen with
    | error e' =>
      cases h
      obtain ⟨-, ⟨cause, he⟩ | ⟨_, he, -⟩⟩ := hs.segmentFor hf <;> cases he
      exact ⟨cause, rfl⟩
    | ok k =>
      dsimp only at h
      rw [Segment.claim_eq_some_iff.mpr ⟨(hs.fits hframe hf).2, rfl, rfl⟩] at h
      cases h

/-- An append that fails was refused its mutation, or the disk has failed. -/
theorem Roomy.append_error (hs : s.Roomy loose) {m : Mutation} {e : LogError}
    (h : s.append m = (.error e, s')) :
    m.Refused s.maxPayload e ∨ ∃ cause, e = .io (.disk cause) := by
  unfold Store.append at h
  split at h
  · rename_i hframe
    cases h
    exact .inl (Mutation.refused_of_frame hframe)
  rename_i frame hframe
  right
  split at h
  · rename_i hclaim
    cases h
    exact hs.claim_error hframe hclaim
  split at h
  · obtain ⟨cause, -, he, -⟩ := acknowledge_error h
    exact ⟨cause, he⟩
  · cases h
    exact ⟨_, rfl⟩

/-- Every size that is accepted fits. -/
theorem Roomy.sizesFit (hs : s.Roomy loose) (hcheck : s.settings.check = .ok ()) : s.SizesFit := by
  have hmax : s.maxPayload ≤ Frame.maxSize := Settings.maxPayload_le_of_check hcheck
  obtain ⟨-, hlarge, -⟩ := (Settings.check_eq_ok_iff _).mp hcheck
  rw [Settings.maxSegmentSize] at hlarge
  have hword : UInt64.size = 2 ^ 64 := rfl
  constructor
  case some_accepted => exact Settings.maxPayload_pos_of_check hcheck
  case size =>
    intro size h
    obtain ⟨hpos, hle⟩ := Frame.checkSize_eq_ok_iff.mp h
    have hword := Nat.le_trans hle hmax
    exact ⟨Settings.frame_le_half hpos hle, Frame.toInt_ofNat hword,
      Frame.endMarker_lt_ofNat hpos hword⟩
  case written =>
    intro m frame h
    obtain ⟨-, hpos, hle, rfl⟩ := Mutation.frame_eq_ok_iff.mp h
    have hword := Nat.le_trans hle hmax
    refine ⟨?_, Frame.sizeField_ofPayload hword, ?_⟩
    · rw [Frame.length_ofPayload]
      exact Settings.frame_le_half hpos hle
    · rw [Frame.sizeField, Frame.header_ofPayload]
      exact Frame.endMarker_lt_ofNat hpos hword
  case sum =>
    intro size h k hk
    obtain ⟨hpos, hle⟩ := Frame.checkSize_eq_ok_iff.mp h
    have hhalf := Settings.frame_le_half hpos hle
    have hcursor := hs.bounded k hk
    omega
  case taken =>
    intro m frame hframe k s' h
    obtain ⟨hk, hfits⟩ := hs.fits hframe h
    have hclaim := Segment.claim_eq_some_iff.mpr ⟨hfits, rfl, rfl⟩
    refine ⟨?_, by rw [hclaim]; rfl⟩
    rw [Segment.fits, decide_eq_true_eq, (hs.segmentFor h).1.capacity k hk,
      (evolves_segmentFor h).settings] at hfits
    omega
  case room =>
    intro m length segment h
    cases happend : s.append m with
    | mk r s' =>
      rw [happend] at h
      subst h
      obtain (⟨-, he⟩ | ⟨-, -, he⟩ | ⟨-, -, -, he⟩) | ⟨_, he⟩ := hs.append_error happend <;>
        cases he
  case twice =>
    intro g hcapacity hcursor
    have hhalf := Settings.frame_le_half (Settings.maxPayload_pos_of_check hcheck) (Nat.le_refl _)
    refine Segment.claim_twice hcursor ?_
    rw [hcapacity, maxPayload]
    omega

/-! ## One caller -/

theorem Roomy.proceeds (hs : s.Roomy []) (hp : s.Proceeds s') (hs' : s'.Housed []) :
    s'.Roomy [] :=
  hs.goOn hp.settings (fun k hk => ⟨(hp.old k hk).1.capacity, (hp.old k hk).2.1⟩)
    (fun k hle hlt => ⟨hp.room k hle hlt, (hp.new k hle hlt).1⟩) hs'.distinct hs'.known hp.fresh

theorem Roomy.append (hs : s.Roomy loose) (m : Mutation) : (s.append m).2.Roomy loose := by
  obtain ⟨e, -, -, he⟩ | ⟨frame, granted, s₁, -, hclaim, hcase⟩ :=
    append_cases (Prod.eta (s.append m)).symm
  · rw [he]
    exact hs
  have hs₁ := hs.claim hclaim
  obtain ⟨e, -, -, he⟩ | ⟨c, written, s₂, -, hwrite, hcase⟩ := hcase
  · rw [he]
    exact hs₁
  have hs₂ := hs₁.write hwrite
  rcases hcase with ⟨-, hack⟩ | ⟨cause, e, -, -, he⟩
  · exact hs₂.of_places (evolves_acknowledge hack) (active_acknowledge hack).1
      (spare_acknowledge hack)
  · rw [he]
    exact hs₂.of_places (evolves_giveUp s₂ c.handle cause) rfl rfl

/-- One request of a caller that is alone with a store leaves room in it. -/
theorem Roomy.serve (hs : s.Roomy []) (hhoused : s.Housed []) (request : Request) :
    (s.serve request).Roomy [] := by
  obtain ⟨m, rfl⟩ | hp := hhoused.serve_cases request
  · exact hs.append m
  · exact hs.proceeds hp (hhoused.serve request)

theorem Roomy.serveAll (hs : s.Roomy []) (hhoused : s.Housed []) (requests : List Request) :
    (s.serveAll requests).Roomy [] := by
  induction requests generalizing s with
  | nil => exact hs
  | cons request rest ih => exact ih (hs.serve hhoused request) (hhoused.serve request)

/-- A store that was just opened has nothing in it, and so it has room. -/
theorem roomy_onDirectory {settings : Settings} {now : UInt64} {disk : Disk} {monitor : Monitor}
    (h : onDirectory settings now disk monitor = .ok s) : s.Roomy [] := by
  obtain ⟨found, rfl, -⟩ := onDirectory_cases h
  exact {
    distinct := List.nodup_nil
    known := fun k hk => (List.not_mem_nil hk).elim
    capacity := fun k hk => absurd hk (Nat.not_lt_zero k)
    bounded := fun k hk => absurd hk (Nat.not_lt_zero k)
    unused := fun k hk => (List.not_mem_nil hk).elim }

end Store

end SegmentLog
