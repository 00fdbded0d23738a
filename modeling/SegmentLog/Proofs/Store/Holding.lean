import SegmentLog.Proofs.Store.Claims

/-!
# Records that are held

A record of a partition is held while its segment is active and marked for the partition at the
offset of the record or further on. Appends only move marks on, and a flush that does not reach the
record leaves the mark alone.

* `Holds.noteFlush` — a flush that does not reach a record;
* `Housed.holds_new`, `Housed.holds_claim` — a record is held from its claim on, whatever is claimed
  after it.
-/

namespace SegmentLog

/-- A flush that does not reach the mark of its partition leaves a segment as it is. -/
theorem Segment.noteFlush_of_lt (g : Segment) {p : Partition} {upTo : Position} {o : Nat}
    (ho : g.marks.offset? p = some o) (hlt : upTo < ⟨g.id, o⟩) : g.noteFlush p upTo = g := by
  have hcovered : ¬ g.isCovered upTo o = true := by
    rw [isCovered, Bool.or_eq_true, Bool.and_eq_true, decide_eq_true_eq, decide_eq_true_eq,
      beq_iff_eq]
    rw [Position.lt_def] at hlt
    rintro (hc | ⟨hc, hoff⟩)
    · rcases hlt with hlt | ⟨heq, -⟩
      · exact UInt64.lt_asymm hc hlt
      · rw [heq] at hc
        exact UInt64.lt_irrefl _ hc
    · rcases hlt with hlt | ⟨-, hlt⟩
      · rw [hc] at hlt
        exact UInt64.lt_irrefl _ hlt
      · exact absurd hlt (Nat.not_lt.mpr hoff)
  simp only [noteFlush, ho, if_neg hcovered]

namespace Store

/-- Whether a segment is active and still marked for a partition that wrote to it at a position. -/
structure Holds (s : Store) (h : Handle) (p : Partition) (r : Position) : Prop where
  active : h ∈ s.active
  id : (s.segment h).id = r.segment
  mark : ∃ o, (s.segment h).marks.offset? p = some o ∧ r.offset ≤ o

variable {s s' : Store} {loose : List Handle} {h : Handle} {p : Partition} {r : Position}

theorem Holds.evolves (hh : s.Holds h p r) (he : Evolves s s') (hknown : h < s.table.size)
    (hactive : h ∈ s'.active) : s'.Holds h p r := by
  have hkeeps := he.old h hknown
  exact ⟨hactive, hkeeps.id.trans hh.id, by rw [hkeeps.marks]; exact hh.mark⟩

/-- A change to a segment that keeps its name and its marks. -/
theorem Holds.modify (hh : s.Holds h p r) (hknown : h < s.table.size) {k : Handle}
    {f : Segment → Segment} {d : Disk}
    (hf : k = h → (f (s.segment h)).name = (s.segment h).name ∧
      ∃ o, (f (s.segment h)).marks.offset? p = some o ∧ r.offset ≤ o) :
    Holds { s.modify k f with disk := d } h p r := by
  have hseg : ({ s.modify k f with disk := d } : Store).segment h = (s.modify k f).segment h := rfl
  by_cases hk : k = h
  · obtain ⟨hname, hmark⟩ := hf hk
    subst hk
    rw [segment_modify_self f hknown] at hseg
    refine ⟨hh.active, ?_, ?_⟩
    · rw [hseg, Segment.id, hname]
      exact hh.id
    · rw [hseg]
      exact hmark
  · rw [segment_modify_ne f (Ne.symm hk)] at hseg
    exact ⟨hh.active, by rw [hseg]; exact hh.id, by rw [hseg]; exact hh.mark⟩

/-- A segment with a mark is not one that nothing depends on. -/
theorem Holds.not_spent (hh : s.Holds h p r) : ¬ (s.segment h).isSpent = true := by
  intro hspent
  obtain ⟨o, ho, -⟩ := hh.mark
  rw [Marks.offset?, (isSpent_iff.mp hspent).2] at ho
  cases ho

/-- What comes before a record that is held comes before its mark. -/
theorem Holds.lt_mark (hh : s.Holds h p r) {o : Nat} (hle : r.offset ≤ o) {upTo : Position}
    (hlt : upTo < r) : upTo < ⟨(s.segment h).id, o⟩ := by
  rw [Position.lt_def] at hlt ⊢
  rw [hh.id]
  exact hlt.imp_right fun hc => ⟨hc.1, Nat.lt_of_lt_of_le hc.2 hle⟩

/-- A flush that does not reach a record leaves its mark alone. -/
theorem Holds.noteFlush (hh : s.Holds h p r) (hknown : h < s.table.size) (k : Handle)
    {q : Partition} {upTo : Position} (hflush : q = p → upTo < r) :
    (s.noteFlush k q upTo).Holds h p r := by
  refine hh.modify (f := fun g => g.noteFlush q upTo) (d := s.disk) hknown fun _ => ?_
  obtain ⟨o, ho, hle⟩ := hh.mark
  by_cases hq : q = p
  · -- the mark of the partition itself lies behind the flush
    subst hq
    rw [(s.segment h).noteFlush_of_lt ho (hh.lt_mark hle (hflush rfl))]
    exact ⟨rfl, o, ho, hle⟩
  · rw [Segment.noteFlush]
    split
    · split
      · refine ⟨rfl, o, ?_, hle⟩
        rw [Segment.forget, Marks.offset?_erase, if_neg (Ne.symm hq), ho]
      · exact ⟨rfl, o, ho, hle⟩
    · exact ⟨rfl, o, ho, hle⟩

/-- Further claims only move a mark on. -/
theorem Housed.holds_claim (hs : s.Housed loose) {partitions : List Partition} {length : Nat}
    {c : Except LogError Claim} (hc : s.claim partitions length = (c, s'))
    (hh : s.Holds h p r) : s'.Holds h p r := by
  have hknown := hs.known_active hh.active
  obtain ⟨-, hlonger, ⟨e, -, hevolves⟩ | ⟨s₁, c, -, hs₁, hevolves, -, -, -, rfl⟩⟩ := hs.claim hc
  · exact hh.evolves hevolves hknown (hlonger.subset hh.active)
  · have hactive : h ∈ s₁.active := hlonger.subset hh.active
    refine (hh.evolves hevolves hknown hactive).modify
      (f := fun g => g.claimed partitions length) (d := s₁.disk) (hs₁.known_active hactive)
      fun _ => ⟨rfl, ?_⟩
    obtain ⟨o, ho, hle⟩ := (hh.evolves hevolves hknown hactive).mark
    obtain ⟨o', ho', hle'⟩ := Marks.le_offset?_markAll ho partitions (s₁.segment h).cursor
    exact ⟨o', ho', Nat.le_trans hle hle'⟩

/-- A record that was just claimed is held for each of its partitions. -/
theorem Housed.holds_new (hs : s.Housed loose) {partitions : List Partition} {length : Nat}
    {c : Claim} (hc : s.claim partitions length = (.ok c, s')) (hp : p ∈ partitions) :
    s'.Holds c.handle p (s'.positionOf c) := by
  obtain ⟨-, -, ⟨_, hr, -⟩ | ⟨s₁, _, hr, hs₁, -, ht, -, hoffset, rfl⟩⟩ := hs.claim hc
  · cases hr
  · cases hr
    have hactive := mem_of_tail? ht
    have hseg : (s₁.modify c.handle fun g => g.claimed partitions length).segment c.handle =
        (s₁.segment c.handle).claimed partitions length :=
      segment_modify_self (fun g => g.claimed partitions length) (hs₁.known_active hactive)
    refine ⟨hactive, rfl, ?_⟩
    rw [hseg]
    simp only [Segment.claimed, Marks.offset?_markAll, if_pos hp, positionOf, hoffset]
    exact ⟨_, rfl, Nat.le_max_right _ _⟩

end Store

end SegmentLog
