import Mathlib.Algebra.Group.Nat.Defs
import SegmentLog.Bytes.Crc32

/-!
# What a check value tells apart

A shift of the register is linear over exclusive or, and it loses nothing: the bit that falls out
shows in the top bit, which the polynomial sets. As long as no more bytes are taken in than the
register holds, they can therefore be taken in at once, as one word, and shifted afterwards; and
two different words never end in the same register.

* `shift_xor`, `shift_injective` — one shift is linear, and undone by one register only;
* `register_eq` — up to four bytes are taken in as the word they spell, least significant first;
* `crc32_inj` — two byte strings of one length, at most four, have different check values.
-/

namespace SegmentLog.Crc32

/-! ## One shift -/

theorem low_eq_one_iff (r : UInt32) : r &&& 1 = 1 ↔ r.toNat % 2 = 1 := by
  have hlow : (r &&& 1).toNat = r.toNat % 2 := by
    rw [UInt32.toNat_and]
    exact Nat.and_one_is_mod _
  rw [← UInt32.toNat_inj, hlow]
  rfl

theorem toNat_half (r : UInt32) : (r >>> 1).toNat = r.toNat / 2 := by
  rw [UInt32.toNat_shiftRight]
  exact Nat.shiftRight_eq_div_pow _ _

theorem shift_of_set {r : UInt32} (h : r.toNat % 2 = 1) : shift r = (r >>> 1) ^^^ polynomial :=
  if_pos ((low_eq_one_iff r).mpr h)

theorem shift_of_clear {r : UInt32} (h : r.toNat % 2 = 0) : shift r = r >>> 1 :=
  if_neg fun hr => by
    rw [low_eq_one_iff] at hr
    omega

/-- A shift is linear over exclusive or. -/
theorem shift_xor (x y : UInt32) : shift (x ^^^ y) = shift x ^^^ shift y := by
  have hlow : (x ^^^ y).toNat % 2 = 1 ↔ ¬ (x.toNat % 2 = 1 ↔ y.toNat % 2 = 1) := by
    rw [UInt32.toNat_xor, Nat.xor_mod_two_eq_one]
  have hhigh : (x ^^^ y) >>> 1 = (x >>> 1) ^^^ (y >>> 1) := UInt32.shiftRight_xor
  rcases Nat.mod_two_eq_zero_or_one x.toNat with hx | hx <;>
    rcases Nat.mod_two_eq_zero_or_one y.toNat with hy | hy
  · rw [shift_of_clear (by omega), shift_of_clear hx, shift_of_clear hy, hhigh]
  · rw [shift_of_set (by omega), shift_of_clear hx, shift_of_set hy, hhigh, UInt32.xor_assoc]
  · rw [shift_of_set (by omega), shift_of_set hx, shift_of_clear hy, hhigh]
    ac_rfl
  · rw [shift_of_clear (by omega), shift_of_set hx, shift_of_set hy, hhigh]
    calc (x >>> 1) ^^^ (y >>> 1)
        = (x >>> 1) ^^^ (y >>> 1) ^^^ (polynomial ^^^ polynomial) := by
          rw [UInt32.xor_self, UInt32.xor_zero]
      _ = (x >>> 1) ^^^ polynomial ^^^ ((y >>> 1) ^^^ polynomial) := by ac_rfl

/-- Only the empty register is empty after a shift: a set bit that falls out shows in the top
bit. -/
theorem eq_zero_of_shift_eq_zero {r : UInt32} (h : shift r = 0) : r = 0 := by
  have hhalf := toNat_half r
  have hlt := r.toNat_lt
  rcases Nat.mod_two_eq_zero_or_one r.toNat with hr | hr
  · rw [shift_of_clear hr] at h
    rw [h, UInt32.toNat_zero] at hhalf
    rw [← UInt32.toNat_inj, UInt32.toNat_zero]
    omega
  · rw [shift_of_set hr, UInt32.xor_eq_zero_iff] at h
    have htop : polynomial.toNat = 0xEDB88320 := rfl
    rw [h] at hhalf
    omega

theorem shift_injective {x y : UInt32} (h : shift x = shift y) : x = y := by
  rw [← UInt32.xor_eq_zero_iff, ← shift_xor] at h
  exact UInt32.xor_eq_zero_iff.mp (eq_zero_of_shift_eq_zero h)

/-! ## Many shifts -/

/-- Shifts the register by some bits. -/
def shifts : Nat → UInt32 → UInt32
  | 0, r => r
  | n + 1, r => shifts n (shift r)

theorem shifts_add (m n : Nat) (r : UInt32) : shifts (m + n) r = shifts n (shifts m r) := by
  induction m generalizing r with
  | zero => rw [Nat.zero_add, shifts]
  | succ m ih => rw [Nat.succ_add, shifts, shifts, ih]

theorem shifts_xor (n : Nat) (x y : UInt32) : shifts n (x ^^^ y) = shifts n x ^^^ shifts n y := by
  induction n generalizing x y with
  | zero => rfl
  | succ n ih => rw [shifts, shifts, shifts, shift_xor, ih]

theorem shifts_injective {n : Nat} {x y : UInt32} (h : shifts n x = shifts n y) : x = y := by
  induction n generalizing x y with
  | zero => exact h
  | succ n ih => exact shift_injective (ih h)

/-- Bits that are clear fall out without a trace. -/
theorem shifts_of_mul {n q : Nat} {r : UInt32} (h : r.toNat = q * 2 ^ n) :
    (shifts n r).toNat = q := by
  induction n generalizing r with
  | zero => rw [shifts, h, Nat.pow_zero, Nat.mul_one]
  | succ n ih =>
    have hdouble : q * 2 ^ (n + 1) = 2 * (q * 2 ^ n) := by
      rw [Nat.pow_succ, ← Nat.mul_assoc, Nat.mul_comm]
    rw [shifts, shift_of_clear (by omega)]
    exact ih (by rw [toNat_half]; omega)

theorem feed_eq (r : UInt32) (b : UInt8) : feed r b = shifts 8 (r ^^^ b.toUInt32) := rfl

/-! ## Up to four bytes at once -/

/-- The word that some bytes spell, least significant first, as far as they fit. -/
def word : Bytes → UInt32
  | [] => 0
  | b :: bs => b.toUInt32 ^^^ (word bs <<< 8)

theorem toNat_up {w : UInt32} (h : w.toNat < 2 ^ 24) : (w <<< 8).toNat = w.toNat * 2 ^ 8 := by
  have hup : (w <<< 8).toNat = w.toNat <<< 8 % 2 ^ 32 := UInt32.toNat_shiftLeft w 8
  rw [hup, Nat.shiftLeft_eq, Nat.mod_eq_of_lt (by omega)]

theorem word_lt {bs : Bytes} {n : Nat} (hlen : bs.length ≤ n) (hfit : n ≤ 4) :
    (word bs).toNat < 2 ^ (8 * n) := by
  induction bs generalizing n with
  | nil => exact Nat.two_pow_pos _
  | cons b bs ih =>
    obtain ⟨n, rfl⟩ : ∃ m, n = m + 1 := ⟨n - 1, by simp only [List.length_cons] at hlen; omega⟩
    have hw : (word bs).toNat < 2 ^ (8 * n) := ih (Nat.le_of_succ_le_succ hlen) (by omega)
    have h24 : 2 ^ (8 * n) ≤ 2 ^ 24 := Nat.pow_le_pow_right (by omega) (by omega)
    have hb : b.toNat < 2 ^ (8 * (n + 1)) :=
      Nat.lt_of_lt_of_le b.toNat_lt (Nat.pow_le_pow_right (by omega) (by omega))
    rw [word, UInt32.toNat_xor, UInt8.toNat_toUInt32, toNat_up (by omega)]
    refine Nat.xor_lt_two_pow hb ?_
    calc (word bs).toNat * 2 ^ 8
        < 2 ^ (8 * n) * 2 ^ 8 := Nat.mul_lt_mul_of_pos_right hw (by omega)
      _ = 2 ^ (8 * (n + 1)) := (Nat.pow_add ..).symm

/-- Behind the first byte stands the word of the others. -/
theorem word_cons_down {b : UInt8} {bs : Bytes} (hlen : bs.length ≤ 3) :
    word (b :: bs) >>> 8 = word bs := by
  have hw : (word bs).toNat < 2 ^ 24 := word_lt hlen (by omega)
  have hb : b.toUInt32 >>> 8 = 0 := by
    rw [← UInt32.toNat_inj, UInt32.toNat_shiftRight, UInt8.toNat_toUInt32]
    exact Nat.shiftRight_eq_zero _ _ b.toNat_lt
  have hback : (word bs <<< 8) >>> 8 = word bs := by
    rw [← UInt32.toNat_inj, UInt32.toNat_shiftRight, toNat_up hw]
    exact (Nat.shiftRight_eq_div_pow _ 8).trans (Nat.mul_div_cancel _ (by omega))
  rw [word, UInt32.shiftRight_xor, hb, hback, UInt32.zero_xor]

theorem word_inj {bs cs : Bytes} (hlen : bs.length = cs.length) (hfit : bs.length ≤ 4)
    (h : word bs = word cs) : bs = cs := by
  induction bs generalizing cs with
  | nil => exact (List.length_eq_zero_iff.mp hlen.symm).symm
  | cons b bs ih =>
    cases cs with
    | nil => cases hlen
    | cons c cs =>
      have hbs : bs.length ≤ 3 := Nat.le_of_succ_le_succ hfit
      have hlen : bs.length = cs.length := Nat.succ.inj hlen
      have hmore : word bs = word cs := by
        rw [← word_cons_down hbs, h, word_cons_down (hlen ▸ hbs)]
      have hfirst : b = c := by
        rw [word, word, hmore, UInt32.xor_left_inj, ← UInt32.toNat_inj] at h
        exact UInt8.toNat_inj.mp h
      rw [hfirst, ih hlen (by omega) hmore]

/-- Up to four bytes can be taken into the register at once, as the word they spell. -/
theorem register_eq {bs : Bytes} (hfit : bs.length ≤ 4) (r : UInt32) :
    register r bs = shifts (8 * bs.length) (r ^^^ word bs) := by
  induction bs generalizing r with
  | nil => exact (UInt32.xor_zero).symm
  | cons b bs ih =>
    have hbs : bs.length ≤ 3 := Nat.le_of_succ_le_succ hfit
    have hw : (word bs).toNat < 2 ^ 24 := word_lt hbs (by omega)
    have hup : word bs = shifts 8 (word bs <<< 8) :=
      UInt32.toNat_inj.mp (shifts_of_mul (toNat_up hw)).symm
    calc register r (b :: bs)
        = register (feed r b) bs := rfl
      _ = shifts (8 * bs.length) (shifts 8 (r ^^^ b.toUInt32) ^^^ word bs) := by
          rw [ih (by omega), feed_eq]
      _ = shifts (8 * bs.length) (shifts 8 (r ^^^ b.toUInt32 ^^^ (word bs <<< 8))) := by
          rw [shifts_xor 8 (r ^^^ b.toUInt32), ← hup]
      _ = shifts (8 * (b :: bs).length) (r ^^^ word (b :: bs)) := by
          rw [← shifts_add, UInt32.xor_assoc, ← word, List.length_cons, Nat.mul_succ, Nat.add_comm]

/-- Two byte strings of one length have different check values if the register holds them. -/
theorem crc32_inj {bs cs : Bytes} (hlen : bs.length = cs.length) (hfit : bs.length ≤ 4)
    (h : crc32 bs = crc32 cs) : bs = cs := by
  rw [crc32, crc32, UInt32.not_inj, register_eq hfit, register_eq (hlen ▸ hfit), hlen] at h
  exact word_inj hlen hfit ((UInt32.xor_right_inj _).mp (shifts_injective h))

end SegmentLog.Crc32
