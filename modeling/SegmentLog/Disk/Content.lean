import SegmentLog.Bytes.BigEndian

/-!
# Content of a file

What a file holds, and what a write at an offset makes of it. A write may begin behind the end;
the gap is filled with zeros.

* `toList_overwrite` — the bytes of a file after a write;
* `toList_overwrite_end` — a write at the end only adds to a file;
* `size_overwrite` — how far a file reaches after a write.
-/

namespace SegmentLog

/-- The bytes that a file holds. -/
abbrev Content := Array UInt8

namespace Content

/-- The content after `bytes` were written at `offset`. -/
def overwrite (c : Content) (offset : Nat) (bytes : Bytes) : Content :=
  if c.size ≤ offset then c ++ Array.replicate (offset - c.size) 0 ++ bytes
  else c.extract 0 offset ++ bytes ++ c.extract (offset + bytes.length) c.size

theorem toList_overwrite (c : Content) (offset : Nat) (bytes : Bytes) :
    (c.overwrite offset bytes).toList =
      c.toList.take offset ++ (List.replicate (offset - c.size) 0 ++
        (bytes ++ c.toList.drop (offset + bytes.length))) := by
  have hsize : c.toList.length = c.size := Array.length_toList
  rw [overwrite]
  split
  · rename_i h
    rw [List.take_of_length_le (by omega), List.drop_of_length_le (by omega)]
    simp
  · rename_i h
    rw [Nat.sub_eq_zero_of_le (by omega)]
    simp [List.take_of_length_le, hsize]

theorem toList_overwrite_end (c : Content) (bytes : Bytes) :
    (c.overwrite c.size bytes).toList = c.toList ++ bytes := by
  simp [overwrite]

theorem size_overwrite (c : Content) (offset : Nat) (bytes : Bytes) :
    (c.overwrite offset bytes).size = max c.size (offset + bytes.length) := by
  rw [← Array.length_toList, toList_overwrite]
  simp only [List.length_append, List.length_take, List.length_replicate, List.length_drop,
    Array.length_toList]
  omega

end Content

end SegmentLog
