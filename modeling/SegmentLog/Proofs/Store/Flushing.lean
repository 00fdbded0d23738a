import SegmentLog.Proofs.Store.Discarding
import SegmentLog.Proofs.Store.Holding

/-!
# Flushing up to a position that was read before

A caller reads where the next record would go, lets others append, and then discards what a
partition has flushed up to there. The walk of the discard ends at the segment that was the last
when the position was read, so that records in later segments are safe. In that segment itself every
later record begins behind the position, but for the one that begins right at it: a position covers
the record that begins there.

* `Grows`, `Housed.grows_append` — what appends leave as it was;
* `Housed.appendAll` — the records of some appends, and where they are;
* `discard_keeps_later` — what a discard up to an earlier position keeps.
-/

namespace SegmentLog.Store

variable {s s' s'' : Store} {loose : List Handle} {h : Handle} {p : Partition} {r : Position}
  {m : Mutation}

/-! ## What appends leave as it was -/

/-- Whether a store has gone on by nothing but appends: segments were added behind those that were
active, and ranges behind those that were claimed. -/
structure Grows (s s' : Store) : Prop where
  size : s.table.size ≤ s'.table.size
  active : s.active <+: s'.active
  id : ∀ k < s.table.size, (s'.segment k).id = (s.segment k).id
  cursor : ∀ k < s.table.size, (s.segment k).cursor ≤ (s'.segment k).cursor

theorem Grows.refl (s : Store) : Grows s s :=
  ⟨Nat.le_refl _, List.prefix_refl _, fun _ _ => rfl, fun _ _ => Nat.le_refl _⟩

theorem Grows.trans (h : Grows s s') (h' : Grows s' s'') : Grows s s'' where
  size := Nat.le_trans h.size h'.size
  active := h.active.trans h'.active
  id k hk := (h'.id k (Nat.lt_of_lt_of_le hk h.size)).trans (h.id k hk)
  cursor k hk := Nat.le_trans (h.cursor k hk) (h'.cursor k (Nat.lt_of_lt_of_le hk h.size))

theorem Evolves.grows (he : Evolves s s') (hactive : s.active <+: s'.active) : Grows s s' where
  size := he.size
  active := hactive
  id k hk := (he.old k hk).id
  cursor k hk := Nat.le_of_eq (he.old k hk).cursor.symm

/-- A change to a segment that keeps its name and does not move its cursor back. -/
theorem Grows.of_modify {k : Handle} {f : Segment → Segment}
    (htable : s'.table = (s.modify k f).table) (hactive : s'.active = s.active)
    (hf : ∀ g, (f g).name = g.name ∧ g.cursor ≤ (f g).cursor) : Grows s s' := by
  have hsegment : ∀ j < s.table.size, s'.segment j =
      if k = j then f (s.segment j) else s.segment j := by
    intro j hj
    rw [← segment_modify s k j f hj, segment, segment, htable]
  constructor
  case size => exact Nat.le_of_eq (by rw [htable, size_modify])
  case active => exact ⟨[], by rw [hactive, List.append_nil]⟩
  case id =>
    intro j hj
    rw [hsegment j hj]
    split
    · rw [Segment.id, (hf _).1, Segment.id]
    · rfl
  case cursor =>
    intro j hj
    rw [hsegment j hj]
    split
    · exact (hf _).2
    · exact Nat.le_refl _

/-- The last of the active segments was the last before, if it was active before. -/
theorem tail?_of_prefix (hs : s'.active.Nodup) (hactive : s.active <+: s'.active)
    (ht : s'.tail? = some h) (hh : h ∈ s.active) : s.tail? = some h := by
  obtain ⟨later, hlater⟩ := hactive
  rw [← hlater] at hs
  rw [tail?, ← hlater, List.getLast?_append] at ht
  cases hl : later.getLast? with
  | none =>
    rw [hl, Option.none_or] at ht
    exact ht
  | some k =>
    rw [hl, Option.some_or, Option.some.injEq] at ht
    subst ht
    exact absurd rfl ((List.nodup_append.mp hs).2.2 k hh k (List.mem_of_getLast? hl))

/-! ## One append -/

/-- An append that succeeds gives back the position of its claim. -/
theorem acknowledge_ok {c : Claim} (h : s.acknowledge c = (.ok r, s')) : r = s'.positionOf c := by
  obtain ⟨-, hr, rfl⟩ | ⟨-, _, s₁, -, hcase⟩ := acknowledge_cases h
  · exact Except.ok.inj hr
  obtain ⟨-, hr, rfl⟩ | ⟨_, _, -, hr, -⟩ := hcase
  · exact Except.ok.inj hr
  · cases hr

theorem Housed.grows_claim (hs : s.Housed loose) {partitions : List Partition} {length : Nat}
    {c : Except LogError Claim} (h : s.claim partitions length = (c, s')) : Grows s s' := by
  obtain ⟨-, hactive, ⟨e, -, hevolves⟩ | ⟨s₁, c, -, -, hevolves, -, -, -, rfl⟩⟩ := hs.claim h
  · exact hevolves.grows hactive
  · exact (hevolves.grows hactive).trans
      (.of_modify rfl rfl fun g => ⟨rfl, Nat.le_add_right _ _⟩)

/-- What follows the claim of an append leaves everything behind the claims, and the marks. -/
theorem grows_written {c : Claim} {frame : Bytes} {written : Except DiskError Unit}
    (hw : s.write c frame = (written, s')) (hc : c.handle < s.table.size)
    (hevolves : Evolves s' s'') (hactive : s''.active = s'.active) :
    Grows s s'' ∧ s''.active = s.active ∧
      ∀ h < s.table.size, ∀ p r, s.Holds h p r → s''.Holds h p r := by
  obtain ⟨u, d, hs', -⟩ := write_cases hw hc
  have hgrows : Grows s s' := by
    refine .of_modify (k := c.handle) (f := fun g => { g.release c.offset with unsynced := u })
      ?_ ?_ fun g => ⟨rfl, Nat.le_refl _⟩
    · rw [hs']
    · rw [hs']
      rfl
  refine ⟨hgrows.trans (hevolves.grows ⟨[], by rw [hactive, List.append_nil]⟩),
    by rw [hactive, hs']; rfl, fun h hh p r hheld => ?_⟩
  have hheld' : s'.Holds h p r := by
    rw [hs']
    exact hheld.modify hh fun _ => ⟨rfl, hheld.mark⟩
  exact hheld'.evolves hevolves (Nat.lt_of_lt_of_le hh hgrows.size)
    (by rw [hactive]; exact hheld'.active)

/-- An append is a claim, followed by what leaves everything behind the claims and the marks. -/
theorem Housed.append_parts (hs : s.Housed loose) {result : Except LogError Position}
    (h : s.append m = (result, s')) :
    (∃ e, result = .error e ∧ s' = s) ∨
      ∃ length granted s₁, s.claim m.partitions length = (granted, s₁) ∧ Grows s₁ s' ∧
        s'.active = s₁.active ∧ (∀ h < s₁.table.size, ∀ p r, s₁.Holds h p r → s'.Holds h p r) ∧
        ∀ r, result = .ok r → ∃ c, granted = .ok c ∧ r = s₁.positionOf c := by
  obtain ⟨e, -, rfl, rfl⟩ | ⟨frame, granted, s₁, -, hc, hcase⟩ := append_cases h
  · exact .inl ⟨e, rfl, rfl⟩
  refine .inr ⟨frame.length, granted, s₁, hc, ?_⟩
  obtain ⟨e, -, rfl, rfl⟩ | ⟨c, written, s₂, rfl, hw, hcase⟩ := hcase
  · exact ⟨.refl _, rfl, fun _ _ _ _ hheld => hheld, fun _ hr => (nomatch hr)⟩
  have hknown := (hs.claim hc).1.known_active (mem_of_tail? (hs.tail?_claim hc))
  rcases hcase with ⟨-, hack⟩ | ⟨cause, e, -, rfl, rfl⟩
  · obtain ⟨hgrows, hactive, hheld⟩ :=
      grows_written hw hknown (evolves_acknowledge hack) (active_acknowledge hack).1
    refine ⟨hgrows, hactive, hheld, fun r hr => ⟨c, rfl, ?_⟩⟩
    subst hr
    rw [acknowledge_ok hack, positionOf, positionOf, hgrows.id _ hknown]
  · obtain ⟨hgrows, hactive, hheld⟩ :=
      grows_written hw hknown (evolves_giveUp s₂ c.handle cause) rfl
    exact ⟨hgrows, hactive, hheld, fun _ hr => (nomatch hr)⟩

theorem Housed.grows_append (hs : s.Housed loose) {result : Except LogError Position}
    (h : s.append m = (result, s')) : Grows s s' := by
  obtain ⟨e, -, rfl⟩ | ⟨length, granted, s₁, hc, hgrows, -⟩ := hs.append_parts h
  · exact .refl _
  · exact (hs.grows_claim hc).trans hgrows

/-- A record that is held is still held after another append. -/
theorem Housed.holds_append (hs : s.Housed loose) {result : Except LogError Position}
    (happend : s.append m = (result, s')) (hh : s.Holds h p r) : s'.Holds h p r := by
  obtain ⟨e, -, rfl⟩ | ⟨length, granted, s₁, hc, -, -, hheld, -⟩ := hs.append_parts happend
  · exact hh
  · have hh₁ := hs.holds_claim hc hh
    exact hheld h ((hs.claim hc).1.known_active hh₁.active) p r hh₁

/-- The record of an append that succeeds is in the last active segment, behind what was claimed
there before. -/
theorem Housed.append_ok (hs : s.Housed loose) (happend : s.append m = (.ok r, s')) :
    ∃ k, s'.tail? = some k ∧ (k < s.table.size → (s.segment k).cursor ≤ r.offset) ∧
      ∀ p ∈ m.partitions, s'.Holds k p r := by
  obtain ⟨e, hr, -⟩ | ⟨length, granted, s₁, hc, -, hactive, hheld, hok⟩ := hs.append_parts happend
  · cases hr
  obtain ⟨c, rfl, rfl⟩ := hok r rfl
  have ht := hs.tail?_claim hc
  have hknown := (hs.claim hc).1.known_active (mem_of_tail? ht)
  refine ⟨c.handle, ?_, fun hk => ?_, fun p hp => hheld _ hknown p _ (hs.holds_new hc hp)⟩
  · rw [tail?, hactive]
    exact ht
  · obtain ⟨-, -, ⟨_, hr, -⟩ | ⟨s₀, _, hr, -, hevolves, -, -, hoffset, -⟩⟩ := hs.claim hc
    · cases hr
    · cases hr
      refine Nat.le_of_eq (Eq.symm ?_)
      show c.offset = _
      rw [hoffset, (hevolves.old c.handle hk).cursor]

/-! ## Some appends -/

/-- Appends some mutations, and gives the positions of their records if all of them succeed. -/
def appendAll (s : Store) : List Mutation → Option (List Position × Store)
  | [] => some ([], s)
  | m :: rest =>
    match s.append m with
    | (.error _, _) => none
    | (.ok r, s) => (s.appendAll rest).map fun (records, s) => (r :: records, s)

/-- The first of some appends, and the rest of them. -/
theorem appendAll_cons {rest : List Mutation} {records : List Position}
    (h : s.appendAll (m :: rest) = some (records, s')) :
    ∃ r records' s₁, records = r :: records' ∧ s.append m = (.ok r, s₁) ∧
      s₁.appendAll rest = some (records', s') := by
  rw [appendAll] at h
  split at h
  · cases h
  · rename_i r s₁ happend
    obtain ⟨⟨records', _⟩, hrest, he⟩ := Option.map_eq_some_iff.mp h
    cases he
    exact ⟨r, records', s₁, rfl, happend, hrest⟩

theorem Housed.holds_appendAll (hs : s.Housed []) {ms : List Mutation} {records : List Position}
    (hrun : s.appendAll ms = some (records, s')) (hh : s.Holds h p r) : s'.Holds h p r := by
  induction ms generalizing s records with
  | nil =>
    cases hrun
    exact hh
  | cons m rest ih =>
    obtain ⟨r', records', s₁, -, happend, hrest⟩ := appendAll_cons hrun
    have hs₁ := hs.append m
    rw [happend] at hs₁
    exact ih hs₁ hrest (hs.holds_append happend hh)

/-- The records of some appends are held, in the segment that was the last before behind what was
claimed there, and in segments that were not active before. -/
theorem Housed.appendAll (hs : s.Housed []) {ms : List Mutation} {records : List Position}
    (hrun : s.appendAll ms = some (records, s')) :
    s'.Housed [] ∧ Grows s s' ∧ ∀ x ∈ ms.zip records, ∃ k ∈ s'.active,
      (k ∈ s.active → s.tail? = some k ∧ (s.segment k).cursor ≤ x.2.offset) ∧
        ∀ p ∈ x.1.partitions, s'.Holds k p x.2 := by
  induction ms generalizing s records with
  | nil =>
    cases hrun
    exact ⟨hs, .refl _, fun x hx => (List.not_mem_nil hx).elim⟩
  | cons m rest ih =>
    obtain ⟨r, records', s₁, rfl, happend, hrest⟩ := appendAll_cons hrun
    have hs₁ := hs.append m
    rw [happend] at hs₁
    have hgrows₁ := hs.grows_append happend
    obtain ⟨hs', hgrows, hrecords⟩ := ih hs₁ hrest
    -- what was the last segment after the first append was the last before, or not active
    have hlast : ∀ k, s₁.tail? = some k → k ∈ s.active → s.tail? = some k := fun k ht hk =>
      tail?_of_prefix (List.nodup_append.mp hs₁.distinct).1 hgrows₁.active ht hk
    refine ⟨hs', hgrows₁.trans hgrows, fun x hx => ?_⟩
    rw [List.zip_cons_cons, List.mem_cons] at hx
    rcases hx with rfl | hx
    · obtain ⟨k, ht, hbehind, hheld⟩ := hs.append_ok happend
      refine ⟨k, hgrows.active.subset (mem_of_tail? ht), fun hk => ?_, fun p hp => ?_⟩
      · exact ⟨hlast k ht hk, hbehind (hs.known_active hk)⟩
      · exact hs₁.holds_appendAll hrest (hheld p hp)
    · obtain ⟨k, hactive, hbehind, hheld⟩ := hrecords x hx
      refine ⟨k, hactive, fun hk => ?_, hheld⟩
      obtain ⟨ht, hle⟩ := hbehind (hgrows₁.active.subset hk)
      exact ⟨hlast k ht hk, Nat.le_trans (hgrows₁.cursor k (hs.known_active hk)) hle⟩

/-! ## The discard -/

/-- A record stays held through a discard that does not come to its segment. -/
theorem Holds.discard_unvisited (hh : s.Holds h p r) (hs : s.active.Nodup) {q : Partition}
    {upTo : Position} (hout : h ∉ s.visited upTo) : (s.discard q upTo).Holds h p r := by
  have hsegment : (s.discard q upTo).segment h = s.segment h := by
    rw [segment_discard, if_neg hout]
  refine ⟨?_, by rw [hsegment]; exact hh.id, by rw [hsegment]; exact hh.mark⟩
  rw [active_discard hs, List.mem_filter, decide_eq_true hout, Bool.true_or]
  exact ⟨hh.active, rfl⟩

/-- A record stays held through a discard that does not reach it. -/
theorem Holds.discard_before (hh : s.Holds h p r) (hs : s.active.Nodup) {upTo : Position}
    (hlt : upTo < r) : (s.discard p upTo).Holds h p r := by
  obtain ⟨o, ho, hle⟩ := hh.mark
  have hsame := (s.segment h).noteFlush_of_lt ho (hh.lt_mark hle hlt)
  have hsegment : (s.discard p upTo).segment h = s.segment h := by
    rw [segment_discard, hsame, ite_self]
  refine ⟨?_, by rw [hsegment]; exact hh.id, by rw [hsegment]; exact hh.mark⟩
  rw [active_discard hs, List.mem_filter, hsame, Bool.eq_false_iff.mpr hh.not_spent]
  exact ⟨hh.active, Bool.or_true _⟩

/-- A discard comes to no segment behind one that the position lies in. -/
theorem visited_subset_of_prefix {active : List Handle} (hactive : active <+: s.active)
    (hh : h ∈ active) {upTo : Position} (hholds : (s.segment h).holds upTo = true) :
    s.visited upTo ⊆ active := by
  obtain ⟨later, hlater⟩ := hactive
  rw [visited, ← hlater, walked_append hh hholds]
  exact (s.walked_isPrefix upTo active).subset

/-- **What was appended later is kept.** A caller reads the position at which the next record would
go, and some appends succeed after that. A discard for a partition up to that position leaves the
segment of each of their records of the partition active and marked, whatever requests were served
before the position was read: all but the record that begins right at the position, which the
discard takes for flushed. -/
theorem discard_keeps_later {settings : Settings} {now : UInt64} {disk : Disk} {monitor : Monitor}
    {opened : Store} (hopen : onDirectory settings now disk monitor = .ok opened)
    (hdisk : disk.WellFormed) {requests : List Request} (hreach : opened.serveAll requests = s)
    (htail : s.tail?.isSome = true) {ms : List Mutation} {records : List Position}
    (hrun : s.appendAll ms = some (records, s')) (p : Partition) :
    ∀ x ∈ ms.zip records, p ∈ x.1.partitions → x.2 ≠ s.position →
      ∃ h, (s'.discard p s.position).Holds h p x.2 := by
  have hs : s.Housed [] := by
    rw [← hreach]
    exact (housed_onDirectory hopen hdisk).serveAll requests
  obtain ⟨hs', hgrows, hrecords⟩ := hs.appendAll hrun
  have hnodup := (List.nodup_append.mp hs'.distinct).1
  obtain ⟨t, ht⟩ := Option.isSome_iff_exists.mp htail
  have htactive := mem_of_tail? ht
  have hposition : s.position = ⟨(s.segment t).id, (s.segment t).cursor⟩ := by
    rw [position, ht]
    rfl
  intro x hx hp hne
  obtain ⟨k, -, hbehind, hheld⟩ := hrecords x hx
  have hh := hheld p hp
  refine ⟨k, ?_⟩
  by_cases hk : k ∈ s.active
  · -- a record in the segment that was the last begins behind the position
    obtain ⟨htk, hle⟩ := hbehind hk
    obtain rfl : t = k := Option.some.inj (ht.symm.trans htk)
    have hid : x.2.segment = (s.segment t).id := by
      rw [← hh.id, hgrows.id t (hs.known_active hk)]
    have hoffset : (s.segment t).cursor ≠ x.2.offset := by
      intro he
      rw [hposition, he, ← hid] at hne
      exact hne rfl
    refine hh.discard_before hnodup ?_
    rw [hposition, Position.lt_def, hid]
    exact .inr ⟨rfl, Nat.lt_of_le_of_ne hle hoffset⟩
  · -- the discard ends at the segment that was the last
    refine hh.discard_unvisited hnodup fun hvisited => hk ?_
    refine visited_subset_of_prefix hgrows.active htactive ?_ hvisited
    rw [Segment.holds, hgrows.id t (hs.known_active htactive), hposition, beq_self_eq_true]

/-- Of two records that a partition appends after the position was read, the second is kept. -/
theorem discard_keeps_later_second :
    let s := (blank { directory := ⟨[Path.dot]⟩, segmentSize := 64, lookAhead := false } 5).serveAll
      [.append (.raw [⟨1⟩] [1, 2, 3, 4, 5])]
    ∃ s', s.appendAll [.raw [⟨1⟩] [6], .raw [⟨1⟩] [7], .raw [⟨2⟩] (.replicate 20 0)] =
        some ([⟨5, 17⟩, ⟨5, 30⟩, ⟨6, 0⟩], s') ∧
      ∃ h, (s'.discard ⟨1⟩ s.position).Holds h ⟨1⟩ ⟨5, 30⟩ := by
  intro s
  have hsome : (s.appendAll [.raw [⟨1⟩] [6], .raw [⟨1⟩] [7],
      .raw [⟨2⟩] (.replicate 20 0)]).isSome = true := by decide +kernel
  have hrecords : (Option.get _ hsome).1 = [⟨5, 17⟩, ⟨5, 30⟩, ⟨6, 0⟩] := by
    decide +kernel +revert
  have hrun : s.appendAll [.raw [⟨1⟩] [6], .raw [⟨1⟩] [7], .raw [⟨2⟩] (.replicate 20 0)] =
      some ([⟨5, 17⟩, ⟨5, 30⟩, ⟨6, 0⟩], (Option.get _ hsome).2) := by
    rw [← hrecords]
    exact (Option.some_get hsome).symm
  have hreach : (blank _ 5).serveAll [.append (.raw [⟨1⟩] [1, 2, 3, 4, 5])] = s := rfl
  exact ⟨_, hrun, discard_keeps_later (onDirectory_blank rfl 5 {}) (Disk.wellFormed_empty {}) hreach
    (by decide +kernel) hrun ⟨1⟩ (.raw [⟨1⟩] [7], ⟨5, 30⟩) (.tail _ (.head _)) (by decide)
    (by decide +kernel)⟩

/-- The record that begins right at the position is taken for flushed: its segment is deleted once
the log has gone on. -/
theorem discard_forgets_at_position :
    let s := (blank { directory := ⟨[Path.dot]⟩, segmentSize := 64, lookAhead := false } 5).serveAll
      [.append (.raw [⟨1⟩] [1, 2, 3, 4, 5])]
    s.position = ⟨5, 17⟩ ∧
      (s.appendAll [.raw [⟨1⟩] [6, 7, 8, 9, 10, 11], .raw [⟨2⟩] (.replicate 20 0)]).map
          (fun (records, s') => (records, s'.activeSegments.map (·.id),
            (s'.discard ⟨1⟩ s.position).activeSegments.map (·.id))) =
        some ([⟨5, 17⟩, ⟨6, 0⟩], [5, 6], [6]) := by
  decide +kernel

end SegmentLog.Store
