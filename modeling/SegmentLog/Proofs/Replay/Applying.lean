import SegmentLog.Proofs.Replay.Offering

/-!
# What a replay applies

What a replay applies from a file is what its target takes in: the records that do not lie before
the floor, one after the other, until one is refused.

* `taken_append` — what a target takes in of the records that follow others;
* `deliver_offer` — a target is offered the records that do not lie before the floor;
* `applied_eq` — what a replay applies, in terms of the records of the file.
-/

namespace SegmentLog

variable {σ : Type}

namespace Target

/-- The records that a target takes in of those that it is offered. -/
def taken (target : Target σ) : List (Position × Bytes) → σ → List (Position × Bytes)
  | [], _ => []
  | r :: more, s =>
    match target.apply r.1 r.2 s with
    | (.error _, _) => []
    | (.ok (), s) => r :: target.taken more s

/-- A target that keeps a list of what another one takes in. -/
def noting (target : Target σ) : Target (σ × List (Position × Bytes)) where
  apply p payload s :=
    match target.apply p payload s.1 with
    | (.error reason, s') => (.error reason, (s', s.2))
    | (.ok (), s') => (.ok (), (s', s.2 ++ [(p, payload)]))
  flush s :=
    let flushed := target.flush s.1
    (flushed.1, (flushed.2, s.2))

variable {target : Target σ}

theorem taken_subset (records : List (Position × Bytes)) (s : σ) :
    target.taken records s ⊆ records := by
  induction records generalizing s with
  | nil => exact List.Subset.refl _
  | cons r more ih =>
    rw [taken]
    split
    · exact List.nil_subset _
    · exact List.cons_subset_cons _ (ih _)

/-- If no record is refused, all are taken in. -/
theorem taken_of_offer_ok {records : List (Position × Bytes)} {s s' : σ}
    (h : target.offer records s = (.ok (), s')) :
    target.taken records s = records ∧ s' = target.feed records s := by
  induction records generalizing s with
  | nil =>
    cases h
    exact ⟨rfl, rfl⟩
  | cons r more ih =>
    rw [offer] at h
    split at h
    · cases h
    · rename_i s₁ happly
      obtain ⟨htaken, hs⟩ := ih h
      refine ⟨by rw [taken, happly]; exact congrArg (r :: ·) htaken, ?_⟩
      rw [hs, feed, feed, List.foldl_cons, happly]

/-- What is taken in of the records that follow others. -/
theorem taken_append (xs ys : List (Position × Bytes)) (s : σ) :
    target.taken (xs ++ ys) s =
      match target.offer xs s with
      | (.error _, _) => target.taken xs s
      | (.ok (), s) => xs ++ target.taken ys s := by
  induction xs generalizing s with
  | nil => rfl
  | cons r more ih =>
    rw [List.cons_append, taken, taken, offer]
    cases happly : target.apply r.1 r.2 s with
    | mk result s₁ =>
      cases result with
      | error reason => rfl
      | ok =>
        dsimp only
        rw [ih]
        split <;> rfl

/-- A target that keeps a list is offered records as the other one is, and notes those that this
one takes in. -/
theorem offer_noting (records noted : List (Position × Bytes)) (s : σ) :
    target.noting.offer records (s, noted) =
      ((target.offer records s).1,
        ((target.offer records s).2, noted ++ target.taken records s)) := by
  induction records generalizing s noted with
  | nil => rw [taken, List.append_nil]; rfl
  | cons r more ih =>
    have hnoting : target.noting.apply r.1 r.2 (s, noted) =
        match target.apply r.1 r.2 s with
        | (.error reason, s') => (.error reason, (s', noted))
        | (.ok (), s') => (.ok (), (s', noted ++ [r])) := rfl
    rw [offer, offer, taken, hnoting]
    cases happly : target.apply r.1 r.2 s with
    | mk result s₁ =>
      cases result with
      | error reason => simp only [List.append_nil]
      | ok =>
        dsimp only
        rw [ih, List.append_assoc, List.singleton_append]

end Target

namespace Replay

variable {r : Replay} {target : Target σ} {d : Disk} {name : SegmentName} {path : Path}

/-- The records of a segment that do not lie before the floor, with their positions. -/
def kept (r : Replay) (segment : SegmentId) (records : List (Nat × Bytes)) :
    List (Position × Bytes) :=
  (positioned segment records).filter fun q => ¬ q.1 < r.floor

theorem kept_append (segment : SegmentId) (xs ys : List (Nat × Bytes)) :
    r.kept segment (xs ++ ys) = r.kept segment xs ++ r.kept segment ys := by
  rw [kept, positioned_append, List.filter_append, kept, kept]

/-- A record that is kept is one of the segment. -/
theorem mem_of_mem_kept {segment : SegmentId} {records : List (Nat × Bytes)}
    {q : Position × Bytes} (h : q ∈ r.kept segment records) :
    q.1.segment = segment ∧ (q.1.offset, q.2) ∈ records := by
  obtain ⟨record, hrecord, rfl⟩ := List.mem_map.mp (List.mem_filter.mp h).1
  exact ⟨rfl, hrecord⟩

/-- A target is offered the records of a segment that do not lie before the floor. -/
theorem deliver_offer (target : Target σ) (segment : SegmentId) (records : List (Nat × Bytes))
    (p : Progress σ) :
    (∃ p', target.offer (r.kept segment records) p.state = (.ok (), p'.state) ∧
      p'.applied = p.applied + (r.kept segment records).length ∧
      p'.applied + p'.passed = p.applied + p.passed + records.length ∧
      r.deliver target segment records p = (.ok (), p')) ∨
    ∃ q reason p', target.offer (r.kept segment records) p.state = (.error (q, reason), p'.state) ∧
      r.deliver target segment records p = (.error (.refused q reason), p') := by
  induction records generalizing p with
  | nil => exact .inl ⟨p, rfl, rfl, rfl, rfl⟩
  | cons record more ih =>
    obtain ⟨offset, payload⟩ := record
    by_cases hfloor : (⟨segment, offset⟩ : Position) < r.floor
    · have hkept : r.kept segment ((offset, payload) :: more) = r.kept segment more :=
        List.filter_cons_of_neg (by simpa using hfloor)
      rw [hkept, deliver_skip r target payload more p hfloor]
      rcases ih { p with passed := p.passed + 1 } with
        ⟨p', hoffer, hcount, htotal, h⟩ | ⟨q, reason, p', hoffer, h⟩
      · refine .inl ⟨p', hoffer, hcount, ?_, h⟩
        rw [htotal, List.length_cons]
        dsimp only
        omega
      · exact .inr ⟨q, reason, p', hoffer, h⟩
    · have hkept : r.kept segment ((offset, payload) :: more) =
          (⟨segment, offset⟩, payload) :: r.kept segment more :=
        List.filter_cons_of_pos (by simpa using hfloor)
      rw [hkept, Target.offer]
      cases happly : target.apply ⟨segment, offset⟩ payload p.state with
      | mk result s =>
        cases result with
        | error reason =>
          exact .inr ⟨_, reason, _, rfl, deliver_refused r target more hfloor happly⟩
        | ok =>
          rw [deliver_applied r target more hfloor happly]
          rcases ih { p with state := s, last := some ⟨segment, offset⟩, applied := p.applied + 1 }
            with ⟨p', hoffer, hcount, htotal, h⟩ | ⟨q, reason, p', hoffer, h⟩
          · refine .inl ⟨p', hoffer, ?_, ?_, h⟩
            · rw [hcount, List.length_cons]
              dsimp only
              omega
            · rw [htotal, List.length_cons]
              dsimp only
              omega
          · exact .inr ⟨q, reason, p', hoffer, h⟩

/-- The records that a replay applies from a file: those that its target has noted in the end. -/
def applied (r : Replay) (target : Target σ) (d : Disk) (name : SegmentName) (path : Path)
    (s : σ) : List (Position × Bytes) :=
  (r.file target.noting d name path { state := (s, []) }).2.state.2

/-- A replay applies what its target takes in of the records that do not lie before the floor. -/
theorem applied_eq {bytes : Bytes} (hd : d.contents path = .ok bytes) (s : σ) :
    r.applied target d name path s =
      target.taken (r.kept name.id (Scan.ofBytes bytes).records) s := by
  have hnoted := @Target.offer_noting _ target (r.kept name.id (Scan.ofBytes bytes).records) [] s
  rw [List.nil_append] at hnoted
  rw [applied, file_of_contents r _ hd]
  rcases deliver_offer (r := r) target.noting name.id (Scan.ofBytes bytes).records
    { state := (s, []) } with ⟨p', hoffer, -, -, h⟩ | ⟨q, reason, p', hoffer, h⟩
  · rw [h]
    exact congrArg (·.2.2) (hoffer.symm.trans hnoted)
  · rw [h]
    exact congrArg (·.2.2) (hoffer.symm.trans hnoted)

end Replay

end SegmentLog
