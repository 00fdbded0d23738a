import SegmentLog.Proofs.Frame.Damage
import SegmentLog.Proofs.Replay.Applying

/-!
# Replays of a damaged file

If the header of a record that a replay applies is damaged, in its length or in its check value,
the replay applies the records in front of it and ends there, without an error.

* `damaged_header_ends_replay` — what is left of a replay when a header is damaged.
-/

namespace SegmentLog

variable {σ : Type}

namespace Replay

variable {r : Replay} {target : Target σ} {d d' : Disk} {name : SegmentName} {path : Path}

/-- **A damaged header never yields a record.** Whatever a file holds, and wherever the floor of a
replay lies: if the length or the check value of a record that the replay applies is altered to
anything else, the replay applies just the records in front of it. It ends without an error, at
the place where the record stood, and calls this the end marker if the length is zero now and
damage otherwise. -/
theorem damaged_header_ends_replay {bytes bytes' : Bytes} {o : Nat} {x : Bytes} {p : Progress σ}
    (hd : d.contents path = .ok bytes) (hd' : d'.contents path = .ok bytes')
    (happlied : (⟨name.id, o⟩, x) ∈ r.applied target d name path p.state)
    (halter : AltersOnly o 4 bytes bytes' ∨ AltersOnly (o + 4) 8 bytes bytes') :
    r.applied target d' name path p.state =
        (r.applied target d name path p.state).filter (fun q => q.1.offset < o) ∧
      ∃ report p', r.file target d' name path p = (.ok report, p') ∧
        report.applied = (r.applied target d' name path p.state).length ∧
        p'.state = target.feed (r.applied target d' name path p.state) p.state ∧
        report.stop = o ∧
        report.tail =
          if (bytes'.drop o).take 4 = [0, 0, 0, 0] then .endMarker else .checksumMismatch := by
  have hrecord : (o, x) ∈ (Scan.ofBytes bytes).records := by
    rw [applied_eq hd] at happlied
    exact (mem_of_mem_kept (Target.taken_subset _ _ happlied)).2
  obtain ⟨before, after, hrecords, hscan⟩ := Scan.ofBytes_altered hrecord halter
  have hascending := Scan.ascending_records bytes
  rw [hrecords, List.pairwise_append] at hascending
  obtain ⟨-, hafter, hbefore⟩ := hascending
  have hlow : ∀ q ∈ r.kept name.id before, q.1.offset < o := fun q hq =>
    hbefore _ (mem_of_mem_kept hq).2 _ (List.mem_cons_self ..)
  have hhigh : ∀ q ∈ r.kept name.id ((o, x) :: after), o ≤ q.1.offset := by
    intro q hq
    rcases List.mem_cons.mp (mem_of_mem_kept hq).2 with he | h
    · exact Nat.le_of_eq (congrArg Prod.fst he).symm
    · exact Nat.le_of_lt ((List.pairwise_cons.mp hafter).1 _ h)
  rw [applied_eq hd, hrecords, kept_append, Target.taken_append] at happlied
  rw [applied_eq hd, applied_eq hd', hrecords, hscan, kept_append, Target.taken_append]
  dsimp only
  -- the record was applied, so none of those in front of it was refused
  rcases deliver_offer (r := r) target name.id before { p with applied := 0, passed := 0 } with
    ⟨p', hoffer, hcount, -, h⟩ | ⟨q, reason, p', hoffer, h⟩
  · have hoffer : target.offer (r.kept name.id before) p.state = (.ok (), p'.state) := hoffer
    obtain ⟨htaken, hfed⟩ := Target.taken_of_offer_ok hoffer
    have hfile : r.file target d' name path p =
        (.ok { name, path, applied := p'.applied, passed := p'.passed,
               tail := Frame.stopAt ((bytes'.drop o).take 4), stop := o }, p') := by
      rw [file_of_contents r target hd', hscan]
      dsimp only
      rw [h]
    rw [hoffer, htaken]
    refine ⟨?_, _, p', hfile, ?_, hfed, rfl, rfl⟩
    · rw [List.filter_append, List.filter_eq_self.mpr, List.filter_eq_nil_iff.mpr, List.append_nil]
      · intro q hq
        have hle := hhigh q (Target.taken_subset _ _ hq)
        rw [decide_eq_true_eq]
        omega
      · exact fun q hq => decide_eq_true (hlow q hq)
    · rw [hcount, Nat.zero_add]
  · have hoffer : target.offer (r.kept name.id before) p.state = (.error (q, reason), p'.state) :=
      hoffer
    rw [hoffer] at happlied
    exact absurd (hlow _ (Target.taken_subset _ _ happlied)) (Nat.lt_irrefl _)

/-- Of two records the length of the second one is altered: the first one is still applied, and
the replay ends behind it. -/
theorem damaged_header_ends_replay_second :
    ∃ report p',
      ({} : Replay).file (Target.total fun q x (s : List (Position × Bytes)) => s ++ [(q, x)])
        (({} : Disk).put (.ofString "CommitLog-3-7.log")
          (Frame.ofPayload [1, 2, 3] ++ ([0, 0, 0, 2] ++ (Frame.ofPayload [4]).drop 4)))
        ⟨7, 3⟩ (.ofString "CommitLog-3-7.log") { state := [] } = (.ok report, p') ∧
      report.applied = 1 ∧ p'.state = [(⟨7, 0⟩, [1, 2, 3])] ∧ report.stop = 15 ∧
      report.tail = .checksumMismatch := by
  have hscan : Scan.ofBytes (Frame.spell [[1, 2, 3], [4]]) =
      ⟨[(0, [1, 2, 3]), (15, [4])], .clean, 28⟩ :=
    Scan.ofBytes_spell_clean (by simp [Frame.Framable, Frame.maxSize])
  have hd : (({} : Disk).put (.ofString "CommitLog-3-7.log")
      (Frame.spell [[1, 2, 3], [4]])).contents (.ofString "CommitLog-3-7.log") =
      .ok (Frame.spell [[1, 2, 3], [4]]) := by rfl
  have hd' : (({} : Disk).put (.ofString "CommitLog-3-7.log")
      (Frame.ofPayload [1, 2, 3] ++ ([0, 0, 0, 2] ++ (Frame.ofPayload [4]).drop 4))).contents
        (.ofString "CommitLog-3-7.log") =
      .ok (Frame.ofPayload [1, 2, 3] ++ ([0, 0, 0, 2] ++ (Frame.ofPayload [4]).drop 4)) := by rfl
  have happlied : ({} : Replay).applied
      (Target.total fun q x (s : List (Position × Bytes)) => s ++ [(q, x)])
      (({} : Disk).put (.ofString "CommitLog-3-7.log") (Frame.spell [[1, 2, 3], [4]]))
      ⟨7, 3⟩ (.ofString "CommitLog-3-7.log") [] = [(⟨7, 0⟩, [1, 2, 3]), (⟨7, 15⟩, [4])] := by
    rw [applied_eq hd, hscan]
    decide +kernel
  have halter : AltersOnly 15 4 (Frame.spell [[1, 2, 3], [4]])
      (Frame.ofPayload [1, 2, 3] ++ ([0, 0, 0, 2] ++ (Frame.ofPayload [4]).drop 4)) :=
    ⟨Frame.ofPayload [1, 2, 3], [0, 0, 0, 1], [0, 0, 0, 2], (Frame.ofPayload [4]).drop 4,
      by decide +kernel, rfl, by decide +kernel, rfl, rfl, by decide⟩
  obtain ⟨hleft, report, p', hfile, hcount, hstate, hstop, htail⟩ :=
    damaged_header_ends_replay (p := { state := [] }) (x := [4]) hd hd' (by rw [happlied]; simp)
      (.inl halter)
  rw [hleft, happlied] at hcount hstate
  exact ⟨report, p', hfile, hcount, hstate, hstop, htail⟩

end Replay

end SegmentLog
