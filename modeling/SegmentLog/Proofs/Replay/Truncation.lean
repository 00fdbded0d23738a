import SegmentLog.Proofs.Frame.Truncation
import SegmentLog.Proofs.Replay.Applying

/-!
# Replays of a file that was cut off

What a replay applies from the front of a file is what it applies from the whole file, as far as
the frames end before the cut. Seen from the other side, a file that grows keeps all that was
applied from it.

* `truncated_replay` — what is left of a replay when a file is cut off.
-/

namespace SegmentLog

variable {σ : Type}

namespace Replay

variable {r : Replay} {target : Target σ} {d d' : Disk} {name : SegmentName} {path : Path}

/-- **Cutting off a file loses just the records that the cut goes through or that lie behind it.**
Whatever a file holds, wherever the floor of a replay lies, whether or not the target refuses
records, and wherever the file is cut off: the replay applies from what is left the records whose
frames end before the cut, at the same positions and with the same payloads; and these are the
first ones of those that it applies from the whole file. -/
theorem truncated_replay {bytes : Bytes} (n : Nat) (hd : d.contents path = .ok bytes)
    (hd' : d'.contents path = .ok (bytes.take n)) (s : σ) :
    r.applied target d' name path s =
        (r.applied target d name path s).filter
          (fun q => q.1.offset + 12 + q.2.length ≤ n) ∧
      r.applied target d' name path s <+: r.applied target d name path s := by
  obtain ⟨later, hrecords, hbefore, hbehind⟩ := Scan.ofBytes_take bytes n
  have hlow : ∀ q ∈ r.kept name.id (Scan.ofBytes (bytes.take n)).records,
      q.1.offset + 12 + q.2.length ≤ n := fun q hq => hbefore _ (mem_of_mem_kept hq).2
  have hhigh : ∀ q ∈ r.kept name.id later, ¬ q.1.offset + 12 + q.2.length ≤ n :=
    fun q hq => Nat.not_le.mpr (hbehind _ (mem_of_mem_kept hq).2)
  rw [applied_eq hd, applied_eq hd', hrecords, kept_append, Target.taken_append]
  split
  · -- a record before the cut is refused, so that none behind it is offered
    exact ⟨(List.filter_eq_self.mpr fun q hq =>
      decide_eq_true (hlow q (Target.taken_subset _ _ hq))).symm, List.prefix_refl _⟩
  · rename_i hoffer
    rw [(Target.taken_of_offer_ok hoffer).1]
    refine ⟨?_, List.prefix_append _ _⟩
    rw [List.filter_append, List.filter_eq_self.mpr, List.filter_eq_nil_iff.mpr, List.append_nil]
    · intro q hq
      rw [decide_eq_true_eq]
      exact hhigh q (Target.taken_subset _ _ hq)
    · exact fun q hq => decide_eq_true (hlow q hq)

/-- A file of two frames is cut off inside the second one: the first record is still applied. -/
theorem truncated_replay_second :
    ({} : Replay).applied (Target.total fun q x (s : List (Position × Bytes)) => s ++ [(q, x)])
      (({} : Disk).put (.ofString "CommitLog-3-7.log")
        ((Frame.spell [[1, 2, 3], [4]]).take 27))
      ⟨7, 3⟩ (.ofString "CommitLog-3-7.log") [] = [(⟨7, 0⟩, [1, 2, 3])] := by
  have hscan : Scan.ofBytes (Frame.spell [[1, 2, 3], [4]]) =
      ⟨[(0, [1, 2, 3]), (15, [4])], .clean, 28⟩ :=
    Scan.ofBytes_spell_clean (by simp [Frame.Framable, Frame.maxSize])
  have hd : (({} : Disk).put (.ofString "CommitLog-3-7.log")
      (Frame.spell [[1, 2, 3], [4]])).contents (.ofString "CommitLog-3-7.log") =
      .ok (Frame.spell [[1, 2, 3], [4]]) := by rfl
  rw [(truncated_replay 27 hd (by rfl) []).1, applied_eq hd, hscan]
  decide +kernel

end Replay

end SegmentLog
