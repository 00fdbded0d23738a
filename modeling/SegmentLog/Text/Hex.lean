import SegmentLog.Bytes.BigEndian

/-!
# Hexadecimal

Bytes written as two lower-case hexadecimal digits each.

* `length_hexDigits` — there are two digits for each byte.
-/

namespace SegmentLog.Text

/-- One byte as two hexadecimal digits. -/
def hexByte (b : UInt8) : List Char :=
  [Nat.digitChar (b.toNat / 16), Nat.digitChar (b.toNat % 16)]

/-- Bytes as hexadecimal digits, two each. -/
def hexDigits (bs : Bytes) : List Char := bs.flatMap hexByte

/-- Bytes as a hexadecimal text. -/
def hex (bs : Bytes) : String := String.ofList (hexDigits bs)

theorem length_hexDigits (bs : Bytes) : (hexDigits bs).length = 2 * bs.length := by
  induction bs with
  | nil => rfl
  | cons b bs ih =>
    simp only [hexDigits, List.flatMap_cons, List.length_append, hexByte, List.length_cons,
      List.length_nil] at ih ⊢
    omega

end SegmentLog.Text
