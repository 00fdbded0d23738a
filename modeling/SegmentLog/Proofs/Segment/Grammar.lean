import Mathlib.Algebra.Group.Nat.Defs
import Mathlib.Data.List.Basic
import Mathlib.Data.List.Induction
import SegmentLog.LogError

/-!
# The grammar of segment names

The name of a segment file is a stem, a number with a dash in front of it or a version and a number
each with a dash in front, and the extension. Numbers are spelled with decimal digits, as many as
one likes, as long as what they spell is a word of its width. Reading accepts these names and no
others, whatever the stem is; it may hold dashes of its own.

* `decimal?_eq_some_iff` — which digits spell which number;
* `middle?_eq_some_iff` — what stands between the stem and the extension;
* `written_of_parse?`, `parse?_of_written` — what is read was written, and what was written is read.
-/

namespace SegmentLog

/-- Whether some characters are the decimal digits of a number, with or without leading zeros. -/
inductive Numeral : List Char → Nat → Prop where
  | digit {c : Char} : c.isDigit = true → Numeral [c] (c.toNat - '0'.toNat)
  | more {cs : List Char} {n : Nat} {c : Char} : Numeral cs n → c.isDigit = true →
      Numeral (cs ++ [c]) (10 * n + (c.toNat - '0'.toNat))

/-- Whether a text is written as the name of a segment file. -/
inductive SegmentName.Written (stem : String) : String → SegmentName → Prop where
  /-- A name that says no version. -/
  | unversioned {digits : String} {id : Nat} : Numeral digits.toList id → id < 2 ^ 64 →
      Written stem (stem ++ "-" ++ digits ++ ".log") ⟨.ofNat id, 1⟩
  /-- A name that says its version. -/
  | versioned {digits digits' : String} {version id : Nat} : Numeral digits.toList version →
      version < 2 ^ 32 → Numeral digits'.toList id → id < 2 ^ 64 →
      Written stem (stem ++ "-" ++ digits ++ "-" ++ digits' ++ ".log") ⟨.ofNat id, .ofNat version⟩

namespace Numeral

variable {cs : List Char} {n : Nat}

theorem ne_nil (h : Numeral cs n) : cs ≠ [] := by
  cases h <;> simp

theorem all_isDigit (h : Numeral cs n) : cs.all Char.isDigit = true := by
  induction h with
  | digit hc => simp [hc]
  | more _ hc ih => simp [ih, hc]

theorem not_mem {c : Char} (h : Numeral cs n) (hc : c.isDigit = false) : c ∉ cs := by
  intro hmem
  rw [List.all_eq_true.mp h.all_isDigit c hmem] at hc
  cases hc

end Numeral

namespace SegmentName

variable {stem name : String} {n : SegmentName}

/-! ## Numbers -/

/-- Digits are read as the number that they spell, and nothing but digits is. -/
theorem decimal?_eq_some_iff {digits : List Char} {n : Nat} :
    decimal? digits = some n ↔ Numeral digits n := by
  constructor
  · intro h
    unfold decimal? at h
    split at h
    · rename_i hdigits
      obtain ⟨hne, hall⟩ := hdigits
      cases h
      -- one digit after the other, from the first one on
      induction digits using List.reverseRecOn with
      | nil => exact absurd rfl hne
      | append_singleton cs c ih =>
        rw [List.all_append, Bool.and_eq_true] at hall
        have hc : c.isDigit = true := by simpa using hall.2
        rw [List.foldl_append, List.foldl_cons, List.foldl_nil]
        by_cases hcs : cs = []
        · subst hcs
          simpa using Numeral.digit hc
        · rw [Nat.mul_comm]
          exact .more (ih hcs hall.1) hc
    · cases h
  · intro h
    have hvalue : digits.foldl (fun n c => n * 10 + (c.toNat - '0'.toNat)) 0 = n := by
      induction h with
      | digit => simp
      | more _ _ ih => rw [List.foldl_append, ih, List.foldl_cons, List.foldl_nil, Nat.mul_comm]
    unfold decimal?
    rw [if_pos ⟨h.ne_nil, h.all_isDigit⟩, hvalue]

theorem id?_eq_some_iff {digits : List Char} {id : SegmentId} :
    id? digits = some id ↔ ∃ n, Numeral digits n ∧ n < 2 ^ 64 ∧ .ofNat n = id := by
  simp only [id?, Option.bind_eq_some_iff, decimal?_eq_some_iff, Option.ite_none_right_eq_some,
    Option.some.injEq, UInt64.size, Nat.reducePow]

theorem version?_eq_some_iff {digits : List Char} {version : UInt32} :
    version? digits = some version ↔ ∃ n, Numeral digits n ∧ n < 2 ^ 32 ∧ .ofNat n = version := by
  simp only [version?, Option.bind_eq_some_iff, decimal?_eq_some_iff,
    Option.ite_none_right_eq_some, Option.some.injEq, UInt32.size, Nat.reducePow]

/-! ## Names -/

theorem middle?_eq_some_iff {stem name middle : List Char} :
    middle? stem name = some middle ↔
      name = stem ++ '-' :: (middle ++ '.' :: extension.toList) := by
  simp only [middle?, Option.bind_eq_bind, Option.bind_eq_some_iff,
    List.isPrefixOf?_eq_some_iff_append_eq, List.isSuffixOf?_eq_some_iff_append_eq]
  constructor
  · rintro ⟨_, rfl, _, rfl, rfl⟩
    rfl
  · rintro rfl
    exact ⟨_, rfl, _, rfl, rfl⟩

/-- What is read as a name was written as one. -/
theorem written_of_parse? (h : parse? stem name = some n) : Written stem name n := by
  simp only [parse?, Option.bind_eq_bind, Option.bind_eq_some_iff] at h
  obtain ⟨middle, hmiddle, h⟩ := h
  rw [middle?_eq_some_iff] at hmiddle
  have hfields : ['-'].intercalate (middle.splitOn '-') = middle := List.intercalate_splitOn '-'
  split at h
  · rename_i digits hsplit
    simp only [Option.bind_eq_some_iff] at h
    obtain ⟨id, hid, h⟩ := h
    cases h
    obtain ⟨i, hi, hlt, rfl⟩ := id?_eq_some_iff.mp hid
    rw [hsplit] at hfields
    have hname : name = stem ++ "-" ++ String.ofList digits ++ ".log" := by
      apply String.toList_injective
      rw [hmiddle, ← hfields]
      simp [extension]
    rw [hname]
    exact .unversioned (by simpa using hi) hlt
  · rename_i digits digits' hsplit
    simp only [Option.bind_eq_some_iff] at h
    obtain ⟨id, hid, version, hversion, h⟩ := h
    cases h
    obtain ⟨i, hi, hlt, rfl⟩ := id?_eq_some_iff.mp hid
    obtain ⟨v, hv, hlt', rfl⟩ := version?_eq_some_iff.mp hversion
    rw [hsplit] at hfields
    have hname : name =
        stem ++ "-" ++ String.ofList digits ++ "-" ++ String.ofList digits' ++ ".log" := by
      apply String.toList_injective
      rw [hmiddle, ← hfields]
      simp [extension, List.intercalate]
    rw [hname]
    exact .versioned (by simpa using hv) hlt' (by simpa using hi) hlt
  · cases h

/-- What is written as a name is read as one. -/
theorem parse?_of_written (h : Written stem name n) : parse? stem name = some n := by
  have hdash : '-'.isDigit = false := by decide
  cases h with
  | @unversioned digits id hi hlt =>
    have hmiddle : middle? stem.toList (stem ++ "-" ++ digits ++ ".log").toList =
        some digits.toList := by
      rw [middle?_eq_some_iff]
      simp [extension]
    have hid := id?_eq_some_iff.mpr ⟨id, hi, hlt, rfl⟩
    unfold parse?
    simp only [hmiddle, Option.bind_eq_bind, Option.bind_some,
      List.splitOn_eq_singleton (hi.not_mem hdash), hid]
    rfl
  | @versioned digits digits' version id hv hlt' hi hlt =>
    have hmiddle : middle? stem.toList (stem ++ "-" ++ digits ++ "-" ++ digits' ++ ".log").toList =
        some (digits.toList ++ '-' :: digits'.toList) := by
      rw [middle?_eq_some_iff]
      simp [extension]
    have hid := id?_eq_some_iff.mpr ⟨id, hi, hlt, rfl⟩
    have hversion := version?_eq_some_iff.mpr ⟨version, hv, hlt', rfl⟩
    unfold parse?
    simp only [hmiddle, Option.bind_eq_bind, Option.bind_some,
      List.splitOn_append_cons_self_of_not_mem (hv.not_mem hdash),
      List.splitOn_eq_singleton (hi.not_mem hdash), hid, hversion]
    rfl

theorem parse?_eq_some_iff : parse? stem name = some n ↔ Written stem name n :=
  ⟨written_of_parse?, parse?_of_written⟩

end SegmentName

end SegmentLog
