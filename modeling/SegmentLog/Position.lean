/-!
# Positions and partitions

A position names a point in the log: a segment, and a byte offset in it. Positions are ordered
by segment, then by offset. A partition is one of the stores whose unflushed writes the log keeps
track of.

* `Position.start_le` — no position comes before `Position.start`;
* `Position.lt_irrefl`, `Position.lt_trans`, `Position.not_lt` — the order is a linear one.
-/

namespace SegmentLog

/-- The number of a segment. -/
abbrev SegmentId := UInt64

/-- A store whose writes are tracked on their own. -/
structure Partition where
  id : UInt64
  deriving DecidableEq, Repr, Inhabited

/-- A partition as text. -/
def Partition.display (p : Partition) : String := s!"partition:{p.id}"

/-- A point in the log. -/
structure Position where
  segment : SegmentId
  offset : Nat
  deriving DecidableEq, Repr, Inhabited

namespace Position

/-- The position before every record. -/
def start : Position := ⟨0, 0⟩

/-- A position as text. -/
def display (p : Position) : String := s!"ReplayPosition({p.segment}, {p.offset})"

instance : LT Position where
  lt p q := p.segment < q.segment ∨ p.segment = q.segment ∧ p.offset < q.offset

instance : LE Position where
  le p q := p.segment < q.segment ∨ p.segment = q.segment ∧ p.offset ≤ q.offset

theorem lt_def {p q : Position} :
    p < q ↔ p.segment < q.segment ∨ p.segment = q.segment ∧ p.offset < q.offset := Iff.rfl

theorem le_def {p q : Position} :
    p ≤ q ↔ p.segment < q.segment ∨ p.segment = q.segment ∧ p.offset ≤ q.offset := Iff.rfl

instance (p q : Position) : Decidable (p < q) := decidable_of_iff _ lt_def.symm

instance (p q : Position) : Decidable (p ≤ q) := decidable_of_iff _ le_def.symm

instance : Max Position := maxOfLe

theorem not_lt {p q : Position} : ¬ p < q ↔ q ≤ p := by
  rw [lt_def, le_def, UInt64.lt_iff_toNat_lt, UInt64.lt_iff_toNat_lt, ← UInt64.toNat_inj,
    ← UInt64.toNat_inj]
  omega

theorem lt_irrefl (p : Position) : ¬ p < p := by
  rw [lt_def, UInt64.lt_iff_toNat_lt]
  omega

theorem lt_trans {p q r : Position} (h : p < q) (h' : q < r) : p < r := by
  rw [lt_def, UInt64.lt_iff_toNat_lt, ← UInt64.toNat_inj] at *
  omega

theorem start_le (p : Position) : start ≤ p := by
  rw [le_def, UInt64.lt_iff_toNat_lt, ← UInt64.toNat_inj]
  simp only [start, UInt64.toNat_zero]
  omega

/-- How two positions compare. -/
def compare (p q : Position) : Ordering :=
  if p < q then .lt else if p = q then .eq else .gt

end Position

end SegmentLog
