import SegmentLog.Position

/-!
# Unflushed partitions

A segment remembers for each partition the offset of the last record in it that the partition
wrote and has not flushed. The marks are kept in ascending order of partition, one for each, so
that the order in which they were made does not show.

* `offset?_mark` — a mark raises the offset of its partition and moves no other;
* `offset?_erase` — an erasure takes one mark away and moves no other.
-/

namespace SegmentLog

/-- Marks are in ascending order of partition, with no partition twice. -/
abbrev Marks.Ascending (l : List (Partition × Nat)) : Prop :=
  l.Pairwise fun a b => a.1.id.toNat < b.1.id.toNat

theorem Marks.ascending_nil : Marks.Ascending [] := List.Pairwise.nil

/-- The unflushed partitions of a segment with the offset of their last record. -/
structure Marks where
  entries : List (Partition × Nat) := []
  ascending : Marks.Ascending entries := by exact Marks.ascending_nil
  deriving DecidableEq

namespace Marks

instance : Inhabited Marks := ⟨{}⟩

/-- The mark of a partition in a list of marks. -/
def find? (p : Partition) : List (Partition × Nat) → Option Nat
  | [] => none
  | (q, offset) :: rest => if p = q then some offset else find? p rest

/-- The offset with which a partition is marked. -/
def offset? (m : Marks) (p : Partition) : Option Nat := find? p m.entries

/-- Whether a partition is marked. -/
def contains (m : Marks) (p : Partition) : Bool := (m.offset? p).isSome

/-- Puts a mark into a list of marks, or raises the one that is there. -/
def raise (p : Partition) (offset : Nat) : List (Partition × Nat) → List (Partition × Nat)
  | [] => [(p, offset)]
  | (q, o) :: rest =>
    if p.id.toNat < q.id.toNat then (p, offset) :: (q, o) :: rest
    else if q.id.toNat < p.id.toNat then (q, o) :: raise p offset rest
    else (q, max o offset) :: rest

theorem mem_raise {p : Partition} {offset : Nat} {l : List (Partition × Nat)}
    {e : Partition × Nat} (h : e ∈ raise p offset l) : e.1 = p ∨ ∃ o, (e.1, o) ∈ l := by
  induction l with
  | nil => simp only [raise, List.mem_singleton] at h; exact .inl (by rw [h])
  | cons a l ih =>
    obtain ⟨q, o⟩ := a
    simp only [raise] at h
    split at h
    · rcases List.mem_cons.mp h with rfl | h
      · exact .inl rfl
      · exact .inr ⟨e.2, h⟩
    · split at h
      · rcases List.mem_cons.mp h with rfl | h
        · exact .inr ⟨o, by simp⟩
        · rcases ih h with h | ⟨o', h⟩
          · exact .inl h
          · exact .inr ⟨o', List.mem_cons_of_mem _ h⟩
      · rcases List.mem_cons.mp h with rfl | h
        · exact .inr ⟨o, by simp⟩
        · exact .inr ⟨e.2, List.mem_cons_of_mem _ h⟩

theorem ascending_raise (p : Partition) (offset : Nat) {l : List (Partition × Nat)}
    (h : Ascending l) : Ascending (raise p offset l) := by
  induction l with
  | nil => simp [raise]
  | cons a l ih =>
    obtain ⟨q, o⟩ := a
    rw [Ascending, List.pairwise_cons] at h
    simp only [raise]
    split
    · rename_i hlt
      refine List.pairwise_cons.mpr ⟨?_, List.pairwise_cons.mpr h⟩
      intro e he
      rcases List.mem_cons.mp he with rfl | he
      · exact hlt
      · exact Nat.lt_trans hlt (h.1 e he)
    · split
      · rename_i hlt
        refine List.pairwise_cons.mpr ⟨?_, ih h.2⟩
        intro e he
        rcases mem_raise he with he | ⟨o', he⟩
        · rw [he]; exact hlt
        · have hlt' := h.1 _ he
          exact hlt'
      · exact List.pairwise_cons.mpr ⟨fun e he => h.1 e he, h.2⟩

/-- A partition has written a record at an offset. The mark stays where it is if it is already
further on. -/
def mark (m : Marks) (p : Partition) (offset : Nat) : Marks :=
  ⟨raise p offset m.entries, ascending_raise p offset m.ascending⟩

/-- Takes the mark of a partition away. -/
def erase (m : Marks) (p : Partition) : Marks :=
  ⟨m.entries.filter fun e => e.1 != p, m.ascending.filter _⟩

/-- Whether no partition is marked. -/
def isEmpty (m : Marks) : Bool := m.entries.isEmpty

theorem find?_raise (p q : Partition) (offset : Nat) {l : List (Partition × Nat)}
    (h : Ascending l) :
    find? q (raise p offset l) =
      if q = p then some (max ((find? p l).getD offset) offset) else find? q l := by
  induction l with
  | nil =>
    by_cases hqp : q = p <;> simp [raise, find?, hqp]
  | cons a l ih =>
    obtain ⟨r, o⟩ := a
    rw [Ascending, List.pairwise_cons] at h
    have habsent : ∀ x : Partition, x.id.toNat < r.id.toNat → find? x l = none := by
      intro x hx
      have hl := h.1
      clear ih h
      induction l with
      | nil => rfl
      | cons b l ih' =>
        have hb := hl b (by simp)
        have hne : x ≠ b.1 := by intro he; rw [he] at hx; simp only at hb; omega
        rw [find?, if_neg hne]
        exact ih' fun e he => hl e (List.mem_cons_of_mem _ he)
    simp only [raise]
    split
    · rename_i hlt
      have hpr : p ≠ r := by intro he; rw [he] at hlt; omega
      by_cases hqp : q = p
      · rw [if_pos hqp, find?, if_pos hqp, find?, if_neg hpr, habsent p hlt]
        simp
      · rw [if_neg hqp, find?, if_neg hqp]
    · split
      · rename_i hlt
        have hpr : p ≠ r := by intro he; rw [he] at hlt; omega
        rw [find?, ih h.2, find?, find?, if_neg hpr]
        by_cases hqr : q = r
        · rw [if_pos hqr, if_neg (by rw [hqr]; exact fun e => hpr e.symm), if_pos hqr]
        · rw [if_neg hqr, if_neg hqr]
      · rename_i h1 h2
        have hpr : p = r := by
          cases p; cases r
          congr 1
          exact UInt64.toNat_inj.mp (by simp only at h1 h2; omega)
        subst hpr
        by_cases hqp : q = p
        · simp [find?, hqp]
        · simp [find?, hqp]

/-- After a mark the partition has the larger of the two offsets, and no other mark moved. -/
theorem offset?_mark (m : Marks) (p q : Partition) (offset : Nat) :
    (m.mark p offset).offset? q =
      if q = p then some (max ((m.offset? p).getD offset) offset) else m.offset? q :=
  find?_raise p q offset m.ascending

/-- After an erasure the partition is not marked, and no other mark moved. -/
theorem offset?_erase (m : Marks) (p q : Partition) :
    (m.erase p).offset? q = if q = p then none else m.offset? q := by
  obtain ⟨l, h⟩ := m
  simp only [offset?, erase]
  clear h
  induction l with
  | nil => simp [find?]
  | cons a l ih =>
    obtain ⟨r, o⟩ := a
    by_cases hrp : r = p
    · subst hrp
      by_cases hqr : q = r
      · simp [hqr] at ih ⊢; exact ih
      · simp [find?, hqr] at ih ⊢; exact ih
    · by_cases hqr : q = r
      · simp [find?, hrp, hqr]
      · simp only [List.filter_cons, bne_iff_ne, ne_eq, hrp, not_false_eq_true, if_true, find?,
          hqr, if_false]
        exact ih

end Marks

end SegmentLog
