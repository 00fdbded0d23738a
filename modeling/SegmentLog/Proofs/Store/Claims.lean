import SegmentLog.Proofs.Store.Placing

/-!
# Claims and writes

The locked part of an append chooses a segment that is not sealed and claims the space behind its
cursor; the write that follows releases the claim and changes the content of this one file.

* `claim_cases`, `Housed.claim`, `Sound.claim` — all that the locked part of an append does;
* `write_cases` — all that the write of a frame does;
* `acknowledge_cases`, `append_cases` — all that the end of an append does, and a whole append;
* `Marks.le_offset?_markAll` — a mark only moves on while more records are noted.
-/

namespace SegmentLog

/-! ## Marks of many partitions -/

namespace Marks

/-- The marks after a record at an offset of some partitions. -/
def markAll (m : Marks) (partitions : List Partition) (offset : Nat) : Marks :=
  partitions.foldl (fun m p => m.mark p offset) m

theorem offset?_markAll (m : Marks) (partitions : List Partition) (offset : Nat) (q : Partition) :
    (m.markAll partitions offset).offset? q =
      if q ∈ partitions then some (max ((m.offset? q).getD offset) offset) else m.offset? q := by
  induction partitions generalizing m with
  | nil => rfl
  | cons p rest ih =>
    rw [show m.markAll (p :: rest) offset = (m.mark p offset).markAll rest offset from rfl, ih,
      offset?_mark]
    by_cases hp : q = p
    · subst hp
      rw [if_pos rfl, if_pos List.mem_cons_self]
      split
      · rw [Option.getD_some, Nat.max_assoc, Nat.max_self]
      · rfl
    · rw [if_neg hp]
      by_cases hm : q ∈ rest
      · rw [if_pos hm, if_pos (List.mem_cons_of_mem _ hm)]
      · rw [if_neg hm, if_neg fun hc => (List.mem_cons.mp hc).elim hp hm]

/-- A partition that is marked stays marked, no further back than it was. -/
theorem le_offset?_markAll {m : Marks} {q : Partition} {o : Nat} (h : m.offset? q = some o)
    (partitions : List Partition) (offset : Nat) :
    ∃ o', (m.markAll partitions offset).offset? q = some o' ∧ o ≤ o' := by
  rw [offset?_markAll]
  split
  · refine ⟨_, rfl, ?_⟩
    rw [h, Option.getD_some]
    exact Nat.le_max_left _ _
  · exact ⟨o, h, Nat.le_refl o⟩

end Marks

namespace Segment

/-- A segment in which space was claimed for a record of some partitions. -/
def claimed (g : Segment) (partitions : List Partition) (length : Nat) : Segment :=
  { g with
    cursor := g.cursor + length
    pending := g.pending.insert g.cursor
    marks := g.marks.markAll partitions g.cursor }

theorem foldl_noteRecord (g : Segment) (partitions : List Partition) (offset : Nat) :
    partitions.foldl (fun g p => g.noteRecord p offset) g =
      { g with marks := g.marks.markAll partitions offset } := by
  induction partitions generalizing g with
  | nil => rfl
  | cons p rest ih =>
    rw [List.foldl_cons, ih]
    rfl

/-- A flush changes nothing of a segment but its marks, and nothing at all where there are none. -/
theorem noteFlush_eq (g : Segment) (p : Partition) (upTo : Position) :
    ∃ marks, g.noteFlush p upTo = { g with marks } ∧ (g.marks = {} → marks = {}) := by
  unfold noteFlush
  split
  · rename_i o ho
    split
    · refine ⟨_, rfl, fun hg => ?_⟩
      rw [hg] at ho
      cases ho
    · exact ⟨g.marks, rfl, fun hg => hg⟩
  · exact ⟨g.marks, rfl, fun hg => hg⟩

theorem sameFile_noteFlush (g : Segment) (p : Partition) (upTo : Position) :
    g.SameFile (g.noteFlush p upTo) := by
  obtain ⟨marks, hflush, -⟩ := g.noteFlush_eq p upTo
  rw [hflush]
  exact ⟨rfl, rfl, rfl, rfl⟩

theorem name_noteFlush (g : Segment) (p : Partition) (upTo : Position) :
    (g.noteFlush p upTo).name = g.name :=
  (g.sameFile_noteFlush p upTo).name

end Segment

namespace Store

variable {s s' : Store} {loose : List Handle}

theorem modify_modify (s : Store) (h : Handle) (f g : Segment → Segment) :
    (s.modify h f).modify h g = s.modify h (g ∘ f) := by
  simp only [modify]
  congr 1
  apply Array.ext_getElem?
  intro i
  simp only [Array.getElem?_modify]
  split
  · rw [Option.map_map]
  · rfl

theorem modify_congr {h : Handle} {f g : Segment → Segment} (hh : h < s.table.size)
    (hfg : f (s.segment h) = g (s.segment h)) : s.modify h f = s.modify h g := by
  simp only [modify]
  congr 1
  apply Array.ext_getElem?
  intro i
  simp only [Array.getElem?_modify]
  split
  · rename_i hi
    subst hi
    rw [Array.getElem?_eq_getElem hh, Option.map_some, Option.map_some]
    congr 1
    rw [segment, Array.getD_eq_getD_getElem?, Array.getElem?_eq_getElem hh] at hfg
    exact hfg
  · rfl

/-! ## The locked part of an append -/

/-- The locked part of an append claims the space behind the cursor of the segment that was chosen,
or it claims nothing. -/
theorem claim_cases {partitions : List Partition} {length : Nat} {r : Except LogError Claim}
    (h : s.claim partitions length = (r, s')) :
    ∃ r₁ s₁, s.segmentFor length = (r₁, s₁) ∧ s'.ids = s₁.ids ∧
      ((∃ e, r₁ = .error e ∧ r = .error e ∧ s' = s₁) ∨
        ∃ k, r₁ = .ok k ∧
          ((∃ cause, r = .error (.io cause) ∧ s' = (s₁.report cause).2) ∨
            r = .ok ⟨k, (s₁.segment k).cursor⟩ ∧ (s₁.segment k).fits length = true ∧
              (k < s₁.table.size → s' = s₁.modify k fun g => g.claimed partitions length))) := by
  unfold Store.claim at h
  cases hf : s.segmentFor length with
  | mk result s₁ =>
    rw [hf] at h
    cases result with
    | error e =>
      cases h
      exact ⟨_, _, rfl, rfl, .inl ⟨e, rfl, rfl, rfl⟩⟩
    | ok k =>
      dsimp only at h
      split at h
      · rename_i offset g hc
        cases h
        obtain ⟨hfits, rfl, hg⟩ := Segment.claim_eq_some_iff.mp hc
        refine ⟨_, _, rfl, rfl, .inr ⟨k, rfl, .inr ⟨rfl, hfits, fun hk => ?_⟩⟩⟩
        unfold noteRecord
        rw [modify_modify]
        refine modify_congr hk ?_
        simp only [Function.comp, Segment.foldl_noteRecord, hg]
        rfl
      · cases h
        exact ⟨_, _, rfl, rfl, .inr ⟨k, rfl, .inl ⟨_, rfl, rfl⟩⟩⟩

/-- Nothing fits into a segment that is not in the table. -/
theorem lt_size_of_fits {k : Handle} {length : Nat} (h : (s.segment k).fits length = true)
    (hpos : 0 < length) : k < s.table.size := by
  refine Nat.lt_of_not_le fun hle => ?_
  have hnone : s.segment k = default := by
    rw [segment, Array.getD_eq_getD_getElem?, Array.getElem?_eq_none hle]
    rfl
  rw [hnone, Segment.fits, decide_eq_true_eq] at h
  exact Nat.not_le.mpr hpos (Nat.le_trans (Nat.le_add_left _ _) h)

/-- The locked part of an append claims space in a segment of the table, or it claims nothing. -/
theorem claim_evolves {partitions : List Partition} {length : Nat} {r : Except LogError Claim}
    (h : s.claim partitions length = (r, s')) (hpos : 0 < length) :
    (∃ e, r = .error e ∧ Evolves s s') ∨
      ∃ s₁ c, r = .ok c ∧ Evolves s s₁ ∧ c.handle < s₁.table.size ∧
        c.offset = (s₁.segment c.handle).cursor ∧
        s' = s₁.modify c.handle fun g => g.claimed partitions length := by
  obtain ⟨r₁, s₁, hf, -, hcase⟩ := claim_cases h
  have hevolves := evolves_segmentFor hf
  rcases hcase with ⟨e, -, rfl, rfl⟩ | ⟨k, -, ⟨cause, rfl, rfl⟩ | ⟨rfl, hfits, hclaimed⟩⟩
  · exact .inl ⟨e, rfl, hevolves⟩
  · exact .inl ⟨_, rfl, hevolves.trans (.of_eq rfl rfl rfl)⟩
  · have hk := lt_size_of_fits hfits hpos
    exact .inr ⟨s₁, ⟨k, _⟩, rfl, hevolves, hk, rfl, hclaimed hk⟩

/-- The locked part of an append claims the space behind the cursor of the last active segment, in
which it fits, or it claims nothing. -/
theorem Housed.claim (hs : s.Housed loose) {partitions : List Partition} {length : Nat}
    {r : Except LogError Claim} (h : s.claim partitions length = (r, s')) :
    s'.Housed loose ∧ s.active <+: s'.active ∧
      ((∃ e, r = .error e ∧ Evolves s s') ∨
        ∃ s₁ c, r = .ok c ∧ s₁.Housed loose ∧ Evolves s s₁ ∧ s₁.tail? = some c.handle ∧
          (s₁.segment c.handle).fits length = true ∧
          c.offset = (s₁.segment c.handle).cursor ∧
          s' = s₁.modify c.handle fun g => g.claimed partitions length) := by
  obtain ⟨r₁, s₁, hf, -, hcase⟩ := claim_cases h
  obtain ⟨hs₁, hevolves, hactive, htail⟩ := hs.segmentFor hf
  rcases hcase with ⟨e, -, rfl, rfl⟩ | ⟨k, rfl, ⟨cause, rfl, rfl⟩ | ⟨rfl, hfits, hclaimed⟩⟩
  · exact ⟨hs₁, hactive, .inl ⟨e, rfl, hevolves⟩⟩
  · exact ⟨hs₁.of_eq rfl rfl rfl rfl rfl, hactive,
      .inl ⟨_, rfl, hevolves.trans (.of_eq rfl rfl rfl)⟩⟩
  · have ht := htail k rfl
    obtain rfl := hclaimed (hs₁.known_active (mem_of_tail? ht))
    have hs' := hs₁.modify (h := k) (f := fun g => g.claimed partitions length)
      ⟨rfl, rfl, rfl, rfl⟩ (.refl _) rfl
    exact ⟨hs', hactive,
      .inr ⟨s₁, ⟨k, (s₁.segment k).cursor⟩, rfl, hs₁, hevolves, ht, hfits, rfl, rfl⟩⟩

theorem Housed.tail?_claim (hs : s.Housed loose) {partitions : List Partition} {length : Nat}
    {c : Claim} (h : s.claim partitions length = (.ok c, s')) : s'.tail? = some c.handle := by
  obtain ⟨-, -, ⟨_, hr, -⟩ | ⟨s₁, _, hr, -, -, ht, -, -, rfl⟩⟩ := hs.claim h
  · cases hr
  · cases hr
    exact ht

/-- What the locked part of an append does: it claims the space behind the cursor of a last active
segment that is not sealed, or it claims nothing. -/
theorem Sound.claim (hs : s.Sound loose) {partitions : List Partition} {length : Nat}
    {r : Except LogError Claim} (h : s.claim partitions length = (r, s'))
    (hids : s'.ids.next ≠ 0) :
    s'.Sound loose ∧ s.Moves loose s' loose ∧
      ((∃ e, r = .error e ∧ Evolves s s' ∧ s.active <+: s'.active) ∨
        ∃ s₁ c, r = .ok c ∧ s₁.Sound loose ∧ Evolves s s₁ ∧ s₁.tail? = some c.handle ∧
          (s₁.segment c.handle).sealed = false ∧ c.offset = (s₁.segment c.handle).cursor ∧
          (s₁ = s ∨ s₁.active = s.active ++ [c.handle] ∧ s₁.spare = none ∧
            (s₁.segment c.handle).IsBlank ∧
            (s.spare = some c.handle ∨ s.spare = none ∧ c.handle = s.table.size)) ∧
          s' = s₁.modify c.handle fun g => g.claimed partitions length) := by
  obtain ⟨r₁, s₁, hf, hsame, hcase⟩ := claim_cases h
  rw [hsame] at hids
  obtain ⟨hsound, hevolves, hchosen⟩ := hs.segmentFor hf hids
  rcases hcase with ⟨e, rfl, rfl, rfl⟩ | ⟨k, rfl, hcase⟩
  · rcases hchosen with ⟨_, -, hactive, hspare⟩ | ⟨_, hr, -⟩
    · exact ⟨hsound, .of_eq hevolves.size hactive hspare,
        .inl ⟨e, rfl, hevolves, [], by rw [hactive, List.append_nil]⟩⟩
    · cases hr
  rcases hchosen with ⟨_, hr, -⟩ | ⟨_, hr, ht, hunsealed, hchosen⟩
  · cases hr
  cases hr
  have hmoves : s.Moves loose s₁ loose := by
    rcases hchosen with rfl | ⟨hactive, hspare, -, hk⟩
    · exact .of_eq (Nat.le_refl _) rfl rfl
    · exact .of_append hevolves.size hactive hspare hk
  rcases hcase with ⟨cause, rfl, rfl⟩ | ⟨rfl, -, hclaimed⟩
  · refine ⟨hsound.report _, ⟨hmoves.size, hmoves.fresh, hmoves.active⟩,
      .inl ⟨_, rfl, hevolves.trans (.of_eq rfl rfl rfl), ?_⟩⟩
    rcases hchosen with rfl | ⟨hactive, -⟩
    · exact List.prefix_refl _
    · exact ⟨[k], hactive.symm⟩
  · have hk := mem_of_tail? ht
    obtain rfl := hclaimed (hsound.known_active hk)
    refine ⟨?_, ⟨?_, hmoves.fresh, hmoves.active⟩, .inr ⟨s₁, ⟨k, (s₁.segment k).cursor⟩, rfl,
      hsound, hevolves, ht, hunsealed, rfl, hchosen, rfl⟩⟩
    · exact hsound.modify (f := fun g => g.claimed partitions length) ⟨rfl, rfl, rfl, rfl⟩
        (fun hsealed => hsealed) (.inl (hsound.active_not_fresh hk)) (.refl _) rfl
    · rw [size_modify]
      exact hmoves.size

/-! ## The write of a frame -/

/-- The write of a frame ends its claim, and is a write into the file of the segment. -/
theorem write_cases {c : Claim} {frame : Bytes} {r : Except DiskError Unit}
    (h : s.write c frame = (r, s')) (hc : c.handle < s.table.size) :
    ∃ u d, s' = { s.modify c.handle (fun g => { g.release c.offset with unsynced := u }) with
        disk := d } ∧
      s.disk.writeAt (s.segment c.handle).file c.offset frame = (r, d) := by
  have hmodify : ∀ u, s.modify c.handle
      (fun _ => { (s.segment c.handle).release c.offset with unsynced := u }) =
        s.modify c.handle (fun g => { g.release c.offset with unsynced := u }) :=
    fun u => modify_congr hc rfl
  rw [Store.write, Segment.write] at h
  cases hw : s.disk.writeAt (s.segment c.handle).file c.offset frame with
  | mk result d =>
    simp only [hw] at h
    cases result with
    | ok =>
      cases h
      exact ⟨true, d, by rw [← hmodify], rfl⟩
    | error e =>
      cases h
      exact ⟨(s.segment c.handle).unsynced, d, by rw [← hmodify]; rfl, rfl⟩

theorem settings_write {c : Claim} {frame : Bytes} {r : Except DiskError Unit}
    (h : s.write c frame = (r, s')) : s'.settings = s.settings := by
  have hs : s' = (s.write c frame).2 := by rw [h]
  rw [hs]
  rfl

theorem ids_write {c : Claim} {frame : Bytes} {r : Except DiskError Unit}
    (h : s.write c frame = (r, s')) : s'.ids = s.ids := by
  have hs : s' = (s.write c frame).2 := by rw [h]
  rw [hs]
  rfl

theorem Filed.write (hs : s.Filed) {c : Claim} {frame : Bytes} {r : Except DiskError Unit}
    (h : s.write c frame = (r, s')) : s'.Filed := by
  unfold Store.write Segment.write at h
  cases hw : s.disk.writeAt (s.segment c.handle).file c.offset frame with
  | mk result d =>
    rw [hw] at h
    have hframe := Disk.writeFrame_writeAt hw
    have hmodify : ∀ g : Segment, (s.segment c.handle).SameFile g →
        Filed { s.modify c.handle (fun _ => g) with disk := d } := fun g hg =>
      (hs.modify (f := fun _ => g) hg).of_disk (hframe.tree.wellFormed hs.disk)
        (Nat.le_of_eq hframe.size.symm)
    cases result <;> cases h <;> exact hmodify _ ⟨rfl, rfl, rfl, rfl⟩

theorem Housed.write (hs : s.Housed loose) {c : Claim} {frame : Bytes}
    {r : Except DiskError Unit} (h : s.write c frame = (r, s')) (hc : c.handle < s.table.size) :
    s'.Housed loose := by
  obtain ⟨u, d, rfl, hw⟩ := write_cases h hc
  obtain ⟨hframe, -⟩ := Disk.writeAt_cases hw (hs.files _ hc)
  exact hs.modify ⟨rfl, rfl, rfl, rfl⟩ hframe.tree hframe.size

theorem Sound.write (hs : s.Sound loose) {c : Claim} {frame : Bytes}
    {r : Except DiskError Unit} (h : s.write c frame = (r, s')) (hc : c.handle < s.table.size)
    (hfresh : c.handle ∉ s.spare.toList ++ loose) : s'.Sound loose := by
  obtain ⟨u, d, rfl, hw⟩ := write_cases h hc
  obtain ⟨hframe, -⟩ := Disk.writeAt_cases hw (hs.files _ hc)
  exact hs.modify ⟨rfl, rfl, rfl, rfl⟩ (fun hsealed => hsealed) (.inl hfresh) hframe.tree
    hframe.size

/-! ## Appends -/

/-- An append that is over acknowledges its record, after a sync where every append is synced. If
that sync fails, its segment is given up. -/
theorem acknowledge_cases {c : Claim} {r : Except LogError Position}
    (h : s.acknowledge c = (r, s')) :
    (s.settings.sync ≠ .eachAppend ∧ r = .ok (s.positionOf c) ∧ s' = s) ∨
      s.settings.sync = .eachAppend ∧ ∃ synced s₁, s.syncSegment c.handle true = (synced, s₁) ∧
        (synced = .ok () ∧ r = .ok (s₁.positionOf c) ∧ s' = s₁ ∨
          ∃ cause e, synced = .error cause ∧ r = .error e ∧
            s' = (s₁.giveUp c.handle cause).2) := by
  unfold Store.acknowledge at h
  split at h
  · rename_i hsync
    refine .inr ⟨hsync, ?_⟩
    cases hr : s.syncSegment c.handle true with
    | mk synced s₁ =>
      rw [hr] at h
      cases synced with
      | ok =>
        cases h
        exact ⟨_, _, rfl, .inl ⟨rfl, rfl, rfl⟩⟩
      | error cause =>
        cases h
        exact ⟨_, _, rfl, .inr ⟨cause, _, rfl, rfl, rfl⟩⟩
  · rename_i hsync
    cases h
    exact .inl ⟨hsync, rfl, rfl⟩

theorem evolves_acknowledge {c : Claim} {r : Except LogError Position}
    (h : s.acknowledge c = (r, s')) : Evolves s s' := by
  obtain ⟨-, -, rfl⟩ | ⟨-, _, s₁, hr, hcase⟩ := acknowledge_cases h
  · exact .refl s'
  obtain ⟨-, -, rfl⟩ | ⟨cause, _, -, -, rfl⟩ := hcase
  · exact evolves_syncSegment hr
  · exact (evolves_syncSegment hr).trans (evolves_giveUp s₁ c.handle cause)

/-- The end of an append moves no segment, and takes no number. -/
theorem active_acknowledge {c : Claim} {r : Except LogError Position}
    (h : s.acknowledge c = (r, s')) : s'.active = s.active ∧ s'.ids = s.ids := by
  obtain ⟨-, -, rfl⟩ | ⟨-, _, s₁, hr, hcase⟩ := acknowledge_cases h
  · exact ⟨rfl, rfl⟩
  obtain ⟨u, d, rfl, -⟩ := syncSegment_cases hr
  obtain ⟨-, -, rfl⟩ | ⟨cause, _, -, -, rfl⟩ := hcase
  · exact ⟨rfl, rfl⟩
  · exact ⟨rfl, rfl⟩

theorem spare_acknowledge {c : Claim} {r : Except LogError Position}
    (h : s.acknowledge c = (r, s')) : s'.spare = s.spare := by
  obtain ⟨-, -, rfl⟩ | ⟨-, _, s₁, hr, hcase⟩ := acknowledge_cases h
  · rfl
  obtain ⟨u, d, rfl, -⟩ := syncSegment_cases hr
  obtain ⟨-, -, rfl⟩ | ⟨cause, _, -, -, rfl⟩ := hcase
  · rfl
  · rfl

/-- An append claims its range, writes into it, and is over; one that is refused a range only
claims nothing. -/
theorem append_cases {m : Mutation} {r : Except LogError Position} (h : s.append m = (r, s')) :
    (∃ e, m.frame s.maxPayload = .error e ∧ r = .error e ∧ s' = s) ∨
      ∃ frame granted s₁, m.frame s.maxPayload = .ok frame ∧
        s.claim m.partitions frame.length = (granted, s₁) ∧
        ((∃ e, granted = .error e ∧ r = .error e ∧ s' = s₁) ∨
          ∃ c written s₂, granted = .ok c ∧ s₁.write c frame = (written, s₂) ∧
            (written = .ok () ∧ s₂.acknowledge c = (r, s') ∨
              ∃ cause e, written = .error cause ∧ r = .error e ∧
                s' = (s₂.giveUp c.handle cause).2)) := by
  cases hm : m.frame s.maxPayload with
  | error e =>
    rw [append_refused hm] at h
    cases h
    exact .inl ⟨e, rfl, rfl, rfl⟩
  | ok frame =>
    refine .inr ⟨frame, ?_⟩
    unfold Store.append at h
    rw [hm] at h
    dsimp only at h
    cases hc : s.claim m.partitions frame.length with
    | mk granted s₁ =>
      rw [hc] at h
      refine ⟨granted, s₁, rfl, rfl, ?_⟩
      cases granted with
      | error e =>
        cases h
        exact .inl ⟨e, rfl, rfl, rfl⟩
      | ok c =>
        dsimp only at h
        cases hw : s₁.write c frame with
        | mk written s₂ =>
          rw [hw] at h
          refine .inr ⟨c, written, s₂, rfl, hw, ?_⟩
          cases written with
          | ok => exact .inl ⟨rfl, h⟩
          | error cause =>
            cases h
            exact .inr ⟨cause, _, rfl, rfl, rfl⟩

/-! ## What a flush forgets -/

theorem segment_noteFlush (s : Store) (h k : Handle) (p : Partition) (upTo : Position) :
    (s.noteFlush h p upTo).segment k =
      if k = h then (s.segment k).noteFlush p upTo else s.segment k := by
  by_cases hkh : k = h
  · subst hkh
    rw [if_pos rfl]
    by_cases hk : k < s.table.size
    · exact segment_modify_self _ hk
    · -- there is no such segment, and nothing to forget in it
      have hnone : ∀ t : Store, t.table.size = s.table.size → t.segment k = default := by
        intro t ht
        have hle : t.table.size ≤ k := by rw [ht]; exact Nat.le_of_not_lt hk
        rw [segment, Array.getD_eq_getD_getElem?, Array.getElem?_eq_none hle]
        rfl
      rw [hnone s rfl, hnone (s.noteFlush k p upTo) (size_modify s k _)]
      rfl
  · rw [if_neg hkh]
    exact segment_modify_ne _ hkh

/-- A flush changes nothing of any segment but its marks. -/
theorem segment_noteFlush_marks (s : Store) (h k : Handle) (p : Partition) (upTo : Position) :
    ∃ marks, (s.noteFlush h p upTo).segment k = { s.segment k with marks } := by
  rw [segment_noteFlush]
  split
  · obtain ⟨marks, hflush, -⟩ := (s.segment k).noteFlush_eq p upTo
    exact ⟨marks, hflush⟩
  · exact ⟨(s.segment k).marks, rfl⟩

theorem Sound.noteFlush (hs : s.Sound loose) (h : Handle) (p : Partition) (upTo : Position) :
    (s.noteFlush h p upTo).Sound loose := by
  obtain ⟨marks, hflush, hblank⟩ := (s.segment h).noteFlush_eq p upTo
  refine hs.modify (f := fun g => g.noteFlush p upTo) (Segment.sameFile_noteFlush _ p upTo)
    (fun hg => by rw [hflush]; exact hg) ?_ (.refl _) rfl
  by_cases hh : h ∈ s.spare.toList ++ loose
  · have hmarks := (hs.fresh h hh).1.marks
    right
    rw [hflush, hblank hmarks, ← hmarks]
  · exact .inl hh

theorem isSpent_iff {g : Segment} : g.isSpent = true ↔ g.sealed = true ∧ g.marks.entries = [] := by
  rw [Segment.isSpent, Bool.and_eq_true, Marks.isEmpty, List.isEmpty_iff]

/-- A segment is taken out of the active ones, or nothing changes. -/
theorem unlink_cases (s : Store) (h : Handle) :
    s.unlink h = (true, { s with active := s.active.erase h }) ∧ h ∈ s.active ∧
        (s.segment h).sealed = true ∨
      s.unlink h = (false, s) ∧ ¬ (h ∈ s.active ∧ (s.segment h).sealed = true) := by
  rw [unlink]
  split
  · rename_i hc
    exact .inl ⟨rfl, hc⟩
  · rename_i hc
    exact .inr ⟨rfl, hc⟩

theorem Sound.erase (hs : s.Sound loose) (h : Handle) :
    Sound { s with active := s.active.erase h } loose :=
  hs.withdraw List.erase_sublist (List.Sublist.refl _) (List.Sublist.refl _)

end Store

end SegmentLog
