import SegmentLog.Bytes.BigEndian

/-!
# CRC-32

The cyclic redundancy check of IEEE 802.3 in its reflected form: the register starts at all
ones, takes in one byte after the other, least significant bit first, and is inverted at the
end.

* `crc32_append` — the register alone carries the bytes seen so far;
* `crc32_check` — the check value that is published with the polynomial.
-/

namespace SegmentLog.Crc32

/-- The reflected generator polynomial. -/
def polynomial : UInt32 := 0xEDB88320

/-- Shifts the register by one bit. -/
def shift (r : UInt32) : UInt32 :=
  if r &&& 1 = 1 then (r >>> 1) ^^^ polynomial else r >>> 1

/-- Takes one byte into the register. -/
def feed (r : UInt32) (b : UInt8) : UInt32 :=
  shift (shift (shift (shift (shift (shift (shift (shift (r ^^^ b.toUInt32))))))))

/-- The register after some bytes. -/
def register (r : UInt32) (bs : Bytes) : UInt32 := bs.foldl feed r

/-- The check value of some bytes. -/
def crc32 (bs : Bytes) : UInt32 := ~~~ register 0xFFFFFFFF bs

theorem register_append (r : UInt32) (bs cs : Bytes) :
    register r (bs ++ cs) = register (register r bs) cs := List.foldl_append

theorem crc32_append (bs cs : Bytes) :
    crc32 (bs ++ cs) = ~~~ register (register 0xFFFFFFFF bs) cs := by
  rw [crc32, register_append]

/-- The check value of the nine ASCII digits from 1 to 9. -/
theorem crc32_check : crc32 [49, 50, 51, 52, 53, 54, 55, 56, 57] = 0xCBF43926 := by
  decide +kernel

end SegmentLog.Crc32
