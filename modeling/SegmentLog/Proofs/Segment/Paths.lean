import SegmentLog.Proofs.Disk.Files
import SegmentLog.Proofs.Segment.Names

/-!
# Where segment files lie

The path of a segment file is the directory of the log with the name of the segment under it. The
tag that ends it holds no separator and is long enough to be a name of its own, so wherever such a
path leads, the name of the file ends in the tag: no two segments share a place, whatever the
directory and the stem are.

* `SegmentName.exists_pathIn_eq` — only the end of the path depends on the segment;
* `SegmentName.exists_name_of_locate` — the name in the directory that a segment file has;
* `Disk.follow_append` — a path is followed in two parts.
-/

namespace SegmentLog

namespace Path

/-- What is written behind a path without a separator belongs to its last stretch. -/
theorem exists_stretches_append (base : Bytes) :
    ∃ front last, ∀ s : FileName, separator ∉ s →
      (⟨base ++ s⟩ : Path).stretches = front ++ [last ++ s] := by
  by_cases h : separator ∈ base
  · -- what follows the last separator is the last stretch
    obtain ⟨as, bs, hb, has⟩ := List.eq_append_cons_of_mem (List.mem_reverse.mpr h)
    have hbase : base = bs.reverse ++ separator :: as.reverse := by
      rw [← List.reverse_reverse base, hb]
      simp
    refine ⟨bs.reverse.splitOn separator, as.reverse, fun s hs => ?_⟩
    have hlast : separator ∉ as.reverse ++ s := by
      rw [List.mem_append, List.mem_reverse]
      exact fun hm => hm.elim has hs
    rw [stretches, hbase, List.append_assoc, List.cons_append, List.splitOn_append_cons_self,
      List.splitOn_eq_singleton hlast]
  · refine ⟨[], base, fun s hs => ?_⟩
    rw [stretches, List.splitOn_eq_singleton]
    · rfl
    · rw [List.mem_append]
      exact fun hm => hm.elim h hs

end Path

/-! ## Following a path in two parts -/

namespace Disk

theorem follow_append (d : Disk) (p : Place) (xs ys : List FileName) :
    d.follow p (xs ++ ys) =
      match d.follow p xs with
      | .error e => .error e
      | .ok q => d.follow q ys := by
  induction xs generalizing p with
  | nil => rfl
  | cons s xs ih =>
    simp only [List.cons_append, Disk.follow]
    split
    · rfl
    · split
      · rfl
      · exact ih _

theorem follow_singleton_name {d : Disk} {p q : Place} {s : FileName}
    (hblank : Path.isBlank s = false) (hup : s ≠ [Path.dot, Path.dot])
    (h : d.follow p [s] = .ok q) : q.name = some s ∧ d.enter p = .ok q.way := by
  simp only [Disk.follow] at h
  split at h
  · cases h
  · rename_i way he
    split at h
    · cases h
    · rename_i r hs
      cases h
      simp only [step, hblank, Bool.false_eq_true, if_false, if_neg hup] at hs
      split at hs
      · cases hs
      · cases hs
        exact ⟨rfl, he⟩

end Disk

namespace SegmentName

/-- The path of a segment file. -/
def pathIn (directory : Path) (stem : String) (n : SegmentName) : Path :=
  directory.join (.ofString (n.render stem))

/-- Only the end of the path of a segment file depends on the segment. -/
theorem exists_pathIn_eq (directory : Path) (stem : String) :
    ∃ base : Bytes, ∀ n : SegmentName, n.pathIn directory stem = ⟨base ++ Utf8.encode n.tag⟩ := by
  have hdash : ∀ n : SegmentName, (Utf8.encode n.tag).head? = some 0x2D := by
    intro n
    rw [Utf8.encode_eq_flatMap, toList_tag]
    rfl
  have hhead : ∀ n : SegmentName, (Utf8.encode stem ++ Utf8.encode n.tag).head? =
      (Utf8.encode stem).head?.or (some 0x2D) := by
    intro n
    rw [List.head?_append, hdash]
  obtain ⟨front, hfront⟩ : ∃ front : Bytes, ∀ q : Bytes,
      q.head? = (Utf8.encode stem).head?.or (some 0x2D) → directory.join ⟨q⟩ = ⟨front ++ q⟩ := by
    by_cases habs : (((Utf8.encode stem).head?.or (some 0x2D) == some Path.separator) ||
        directory.bytes.isEmpty) = true
    · refine ⟨[], fun q hq => ?_⟩
      rw [Path.join, Path.isAbsolute, hq, if_pos habs, List.nil_append]
    · by_cases hend : (directory.bytes.getLast? == some Path.separator) = true
      · refine ⟨directory.bytes, fun q hq => ?_⟩
        rw [Path.join, Path.isAbsolute, hq, if_neg habs, if_pos hend]
      · refine ⟨directory.bytes ++ [Path.separator], fun q hq => ?_⟩
        rw [Path.join, Path.isAbsolute, hq, if_neg habs, if_neg hend, List.append_assoc,
          List.singleton_append]
  refine ⟨front ++ Utf8.encode stem, fun n => ?_⟩
  rw [pathIn, Path.ofString, render_eq, Utf8.encode_append, hfront _ (hhead n), List.append_assoc]

theorem isBlank_append_tag (last : Bytes) (n : SegmentName) :
    Path.isBlank (last ++ Utf8.encode n.tag) = false ∧
      last ++ Utf8.encode n.tag ≠ [Path.dot, Path.dot] := by
  have hlen : 3 ≤ (last ++ Utf8.encode n.tag).length := by
    rw [List.length_append]
    exact Nat.le_add_left_of_le n.length_encode_tag
  constructor
  · simp only [Path.isBlank, Bool.or_eq_false_iff, decide_eq_false_iff_not]
    constructor <;> intro h <;> rw [h] at hlen <;> simp at hlen
  · intro h
    rw [h] at hlen
    simp at hlen

/-- Wherever the path of a segment file leads, the name of the file there ends in the tag of the
segment, behind what the directory and the stem leave over. -/
theorem exists_name_of_locate (directory : Path) (stem : String) :
    ∃ last : Bytes, ∀ (d : Disk) (n : SegmentName) (q : Place),
      d.locate (n.pathIn directory stem) = .ok q →
        q.name = some (last ++ Utf8.encode n.tag) := by
  obtain ⟨base, hbase⟩ := exists_pathIn_eq directory stem
  obtain ⟨front, last, hlast⟩ := Path.exists_stretches_append base
  refine ⟨last, fun d n q h => ?_⟩
  obtain ⟨hblank, hup⟩ := isBlank_append_tag last n
  rw [hbase, Disk.locate] at h
  split at h
  · cases h
  · rw [hlast _ n.separator_not_mem_tag, Disk.follow_append] at h
    split at h
    · cases h
    · exact (Disk.follow_singleton_name hblank hup h).1

/-- Two segments of one log never lie at the same place. -/
theorem eq_of_same_place {directory : Path} {stem : String} {d d' : Disk} {m n : SegmentName}
    {q r : Place} (hm : d.locate (m.pathIn directory stem) = .ok q)
    (hn : d'.locate (n.pathIn directory stem) = .ok r) (h : q.name = r.name) : m = n := by
  obtain ⟨last, hlast⟩ := exists_name_of_locate directory stem
  rw [hlast d m q hm, hlast d' n r hn, Option.some.injEq, List.append_cancel_left_eq] at h
  exact encode_tag_injective h

end SegmentName

end SegmentLog
