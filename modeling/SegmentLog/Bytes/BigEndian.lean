/-!
# Big-endian numbers

Numbers written in a fixed count of bytes, most significant byte first.

* `value_digits`, `digits_value` — writing and reading undo each other, up to the width;
* `word32_bytes32`, `word64_bytes64` — so a word survives the way to its bytes and back.
-/

namespace SegmentLog

/-- A string of bytes: the content of a file, a payload, or the raw spelling of a path. -/
abbrev Bytes := List UInt8

namespace BigEndian

/-- The last `k` base-256 digits of `n`, most significant first. -/
def digits : Nat → Nat → Bytes
  | 0, _ => []
  | k + 1, n => digits k (n / 256) ++ [UInt8.ofNat n]

/-- The number whose base-256 digits are `bs`. -/
def value (bs : Bytes) : Nat := bs.foldl (fun n b => n * 256 + b.toNat) 0

/-- The four bytes of a word. -/
def bytes32 (w : UInt32) : Bytes := digits 4 w.toNat

/-- The eight bytes of a word. -/
def bytes64 (w : UInt64) : Bytes := digits 8 w.toNat

/-- The word spelled by four bytes. -/
def word32 (bs : Bytes) : UInt32 := UInt32.ofNat (value bs)

/-- The word spelled by eight bytes. -/
def word64 (bs : Bytes) : UInt64 := UInt64.ofNat (value bs)

theorem length_digits (k n : Nat) : (digits k n).length = k := by
  induction k generalizing n with
  | zero => rfl
  | succ k ih => simp [digits, ih]

theorem length_bytes32 (w : UInt32) : (bytes32 w).length = 4 := length_digits 4 _

theorem length_bytes64 (w : UInt64) : (bytes64 w).length = 8 := length_digits 8 _

theorem value_append_singleton (bs : Bytes) (b : UInt8) :
    value (bs ++ [b]) = value bs * 256 + b.toNat := by
  simp [value, List.foldl_append]

/-- Reading the digits gives the number back, up to the width. -/
theorem value_digits (k n : Nat) : value (digits k n) = n % Nat.pow 256 k := by
  induction k generalizing n with
  | zero => simp [digits, value, Nat.mod_one]
  | succ k ih =>
    have hpow : Nat.pow 256 (k + 1) = 256 * Nat.pow 256 k := Nat.mul_comm _ _
    rw [digits, value_append_singleton, ih, UInt8.toNat_ofNat', hpow, Nat.mod_mul]
    omega

/-- Writing the number spelled by `k` bytes gives those bytes back. -/
theorem digits_value {k : Nat} {bs : Bytes} (h : bs.length = k) : digits k (value bs) = bs := by
  induction k generalizing bs with
  | zero => rw [List.length_eq_zero_iff.mp h]; rfl
  | succ k ih =>
    have hne : bs ≠ [] := by intro e; simp [e] at h
    obtain ⟨front, b, rfl⟩ : ∃ front b, bs = front ++ [b] :=
      ⟨bs.dropLast, bs.getLast hne, (List.dropLast_concat_getLast hne).symm⟩
    have hb := b.toNat_lt
    rw [digits, value_append_singleton]
    have hq : (value front * 256 + b.toNat) / 256 = value front := by omega
    have hr : UInt8.ofNat (value front * 256 + b.toNat) = b := by
      apply UInt8.toNat_inj.mp
      rw [UInt8.toNat_ofNat']
      omega
    rw [hq, hr, ih (by simpa using h)]

theorem word32_bytes32 (w : UInt32) : word32 (bytes32 w) = w := by
  have h : w.toNat < Nat.pow 256 4 := w.toNat_lt
  simp only [word32, bytes32, value_digits]
  rw [Nat.mod_eq_of_lt h]
  exact UInt32.ofNat_toNat

theorem word64_bytes64 (w : UInt64) : word64 (bytes64 w) = w := by
  have h : w.toNat < Nat.pow 256 8 := w.toNat_lt
  simp only [word64, bytes64, value_digits]
  rw [Nat.mod_eq_of_lt h]
  exact UInt64.ofNat_toNat

end BigEndian

end SegmentLog
