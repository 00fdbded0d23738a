import SegmentLog.Proofs.Segment.Grammar

/-!
# Segment names as they are written

The name of a segment file is its stem followed by a tag, which spells the version and the number
and holds neither a separator nor anything that depends on the stem. Reading gives back what was
written, whatever the stem is; and stems without a dash are not taken for each other.

* `Utf8.separator_mem_encode_iff` — the bytes of a text hold a separator where its characters do;
* `SegmentName.written_render`, `SegmentName.parse?_render` — a written name follows the grammar,
  and is read back;
* `SegmentName.render_injective`, `SegmentName.tag_injective` — different names are written
  differently, and have different tags;
* `SegmentName.stem_eq_of_parse?_render` — names of another stem are no names;
* `SegmentName.follows_grammar` — reading and writing of names against their grammar.
-/

namespace SegmentLog

/-! ## Texts as bytes -/

namespace Utf8

theorem encode_eq_flatMap (s : String) : encode s = s.toList.flatMap String.utf8EncodeChar := by
  rw [encode, ← String.utf8Encode_toList, List.utf8Encode, List.toList_data_toByteArray]

theorem encode_append (s t : String) : encode (s ++ t) = encode s ++ encode t := by
  rw [encode_eq_flatMap, encode_eq_flatMap, encode_eq_flatMap, String.toList_append,
    List.flatMap_append]

theorem encode_injective {s t : String} (h : encode s = encode t) : s = t := by
  have hs := decode?_encode s
  rw [h, decode?_encode] at hs
  exact (Option.some.inj hs).symm

/-- Only the separator itself has a byte that reads as one. -/
theorem separator_mem_utf8EncodeChar_iff (c : Char) :
    Path.separator ∈ String.utf8EncodeChar c ↔ c = '/' := by
  have hc : c = '/' ↔ c.val.toNat = 47 := by
    rw [Char.ext_iff, ← UInt32.toNat_inj]
    rfl
  have hbyte : ∀ n : Nat, Path.separator = UInt8.ofNat n ↔ n % 256 = 47 := by
    intro n
    rw [← UInt8.toNat_inj, UInt8.toNat_ofNat']
    exact eq_comm
  rw [hc, String.utf8EncodeChar]
  split
  · rw [List.mem_singleton, hbyte]
    omega
  split
  · simp only [List.mem_cons, List.not_mem_nil, or_false, hbyte]
    omega
  split
  · simp only [List.mem_cons, List.not_mem_nil, or_false, hbyte]
    omega
  · simp only [List.mem_cons, List.not_mem_nil, or_false, hbyte]
    omega

theorem separator_mem_encode_iff {s : String} : Path.separator ∈ encode s ↔ '/' ∈ s.toList := by
  rw [encode_eq_flatMap, List.mem_flatMap]
  constructor
  · rintro ⟨c, hc, h⟩
    rwa [← (separator_mem_utf8EncodeChar_iff c).mp h]
  · intro h
    exact ⟨'/', h, (separator_mem_utf8EncodeChar_iff _).mpr rfl⟩

end Utf8

namespace SegmentName

/-! ## Decimal numbers -/

theorem toList_toString (n : Nat) : (toString n).toList = Nat.toDigits 10 n := Nat.toList_repr

/-- The digits of a number spell it. -/
theorem decimal?_toDigits (n : Nat) : decimal? (Nat.toDigits 10 n) = some n := by
  have hdigit : (Nat.toDigits 10 n).all Char.isDigit = true := by
    rw [List.all_eq_true]
    exact fun c hc => Nat.isDigit_of_mem_toDigits (by decide) (by decide) hc
  have hvalue : ∀ (cs : List Char) (i : Nat),
      cs.foldl (fun n c => n * 10 + (c.toNat - '0'.toNat)) i = Nat.ofDigitChars 10 cs i := by
    intro cs
    induction cs with
    | nil => intro i; rfl
    | cons c cs ih =>
      intro i
      rw [List.foldl_cons, ih, Nat.ofDigitChars_cons, Nat.mul_comm]
  rw [decimal?, if_pos ⟨Nat.toDigits_ne_nil, hdigit⟩, hvalue, Nat.ofDigitChars_ten_toDigits]

theorem numeral_toString (n : Nat) : Numeral (toString n).toList n := by
  rw [toList_toString]
  exact decimal?_eq_some_iff.mp (decimal?_toDigits n)

theorem not_mem_toString {c : Char} (hc : c.isDigit = false) (n : Nat) :
    c ∉ (toString n).toList := (numeral_toString n).not_mem hc

/-! ## Written names -/

/-- What stands behind the stem in the name of a segment file. -/
def tag (n : SegmentName) : String :=
  "-" ++ toString n.version ++ "-" ++ toString n.id ++ "." ++ extension

theorem render_eq (stem : String) (n : SegmentName) : n.render stem = stem ++ n.tag := by
  simp only [render, tag, String.append_assoc]

theorem toList_tag (n : SegmentName) :
    n.tag.toList = '-' :: ((toString n.version).toList ++ '-' :: (toString n.id).toList) ++
      '.' :: extension.toList := by
  simp only [tag, String.toList_append]
  simp

/-- Names are written as the grammar asks for. -/
theorem written_render (stem : String) (n : SegmentName) : Written stem (n.render stem) n := by
  have h : Written stem (stem ++ "-" ++ toString n.version.toNat ++ "-" ++ toString n.id.toNat ++
      ".log") ⟨.ofNat n.id.toNat, .ofNat n.version.toNat⟩ :=
    .versioned (numeral_toString _) n.version.toNat_lt (numeral_toString _) n.id.toNat_lt
  rw [UInt64.ofNat_toNat, UInt32.ofNat_toNat] at h
  unfold render
  rw [String.append_assoc]
  exact h

/-- A written name is read back, whatever the stem is. -/
theorem parse?_render (stem : String) (n : SegmentName) : parse? stem (n.render stem) = some n :=
  parse?_of_written (written_render stem n)

/-- Different names are written differently. -/
theorem render_injective {stem : String} {m n : SegmentName} (h : m.render stem = n.render stem) :
    m = n := by
  have hm := parse?_render stem m
  rw [h, parse?_render] at hm
  exact (Option.some.inj hm).symm

/-- Different names have different tags. -/
theorem tag_injective {m n : SegmentName} (h : m.tag = n.tag) : m = n := by
  apply @render_injective ""
  rw [render_eq, h, render_eq]

theorem encode_tag_injective {m n : SegmentName} (h : Utf8.encode m.tag = Utf8.encode n.tag) :
    m = n := tag_injective (Utf8.encode_injective h)

theorem separator_not_mem_tag (n : SegmentName) : Path.separator ∉ Utf8.encode n.tag := by
  have hversion : '/' ∉ (toString n.version).toList := not_mem_toString (by decide) n.version.toNat
  have hid : '/' ∉ (toString n.id).toList := not_mem_toString (by decide) n.id.toNat
  rw [Utf8.separator_mem_encode_iff, toList_tag]
  simp only [List.cons_append, List.mem_cons, List.mem_append, hversion, hid, or_false, not_or]
  decide

theorem length_encode_tag (n : SegmentName) : 3 ≤ (Utf8.encode n.tag).length := by
  have hend : n.tag = ("-" ++ toString n.version ++ "-" ++ toString n.id ++ ".") ++ extension := rfl
  rw [hend, Utf8.encode_append, List.length_append,
    show (Utf8.encode extension).length = 3 from by decide]
  omega

/-! ## Reading what was written -/

/-- Stems without dashes are told from each other by the names that are written with them. -/
theorem stem_eq_of_parse?_render {stem other : String} {m n : SegmentName}
    (hstem : '-' ∉ stem.toList) (hother : '-' ∉ other.toList)
    (h : parse? stem (n.render other) = some m) : stem = other := by
  simp only [parse?, Option.bind_eq_bind, Option.bind_eq_some_iff] at h
  obtain ⟨middle, hmiddle, -⟩ := h
  rw [middle?_eq_some_iff, render_eq, String.toList_append, toList_tag, List.cons_append] at hmiddle
  -- both stems are what stands before the first dash
  have hfirst := congrArg (List.splitOn '-') hmiddle
  rw [List.splitOn_append_cons_self_of_not_mem hother,
    List.splitOn_append_cons_self_of_not_mem hstem, List.cons.injEq] at hfirst
  exact String.toList_injective hfirst.1.symm

theorem parse_eq_ok_iff {stem name : String} {n : SegmentName} :
    parse stem name = .ok n ↔ Written stem name n := by
  rw [← parse?_eq_some_iff]
  unfold parse
  cases parse? stem name <;> simp

theorem parse_eq_error_iff {stem name : String} {e : LogError} :
    parse stem name = .error e ↔ e = .invalidName name ∧ ∀ n, ¬ Written stem name n := by
  simp only [← parse?_eq_some_iff]
  unfold parse
  cases parse? stem name <;> simp [eq_comm]

/-- **Names follow their grammar exactly.** Whatever the stem is, a text is read as the name of a
segment file if it is written as one, and is refused with the text itself otherwise. Names that are
rendered are read back, and different names are rendered differently. With stems that hold no dash,
a name that is rendered with one is not read with another. -/
theorem follows_grammar (stem : String) :
    (∀ name n, parse stem name = .ok n ↔ Written stem name n) ∧
    (∀ name e, parse stem name = .error e ↔
      e = .invalidName name ∧ ∀ n, ¬ Written stem name n) ∧
    (∀ n : SegmentName, parse stem (n.render stem) = .ok n) ∧
    (∀ m n : SegmentName, m ≠ n → m.render stem ≠ n.render stem) ∧
    ∀ other, stem ≠ other → '-' ∉ stem.toList → '-' ∉ other.toList →
      ∀ m n : SegmentName, parse stem (n.render other) ≠ .ok m := by
  refine ⟨fun _ _ => parse_eq_ok_iff, fun _ _ => parse_eq_error_iff, ?_, ?_, ?_⟩
  · intro n
    exact parse_eq_ok_iff.mpr (written_render stem n)
  · intro m n hne heq
    exact hne (render_injective heq)
  · intro other hne hstem hother m n h
    exact hne (stem_eq_of_parse?_render hstem hother
      (parse?_of_written (parse_eq_ok_iff.mp h)))

/-- A number with leading zeros behind a stem with a dash; and two stems, one of which begins with
the other. -/
theorem follows_grammar_zeros :
    parse "a-b" "a-b-007.log" = .ok ⟨7, 1⟩ ∧
      ∀ m n : SegmentName, parse "CommitLog" (n.render "Commit") ≠ .ok m := by
  have hseven : Numeral "007".toList 7 := decimal?_eq_some_iff.mp (by decide)
  have hwritten : Written "a-b" "a-b-007.log" ⟨7, 1⟩ := .unversioned hseven (by decide)
  exact ⟨((follows_grammar "a-b").1 _ _).mpr hwritten,
    (follows_grammar "CommitLog").2.2.2.2 "Commit" (by decide) (by decide) (by decide)⟩

end SegmentName

end SegmentLog
