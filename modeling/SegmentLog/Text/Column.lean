/-!
# Columns

Text filled up with spaces to the width of a column.

* `alignRight_of_le`, `alignLeft_of_le` — a text that is as wide already is left as it is.
-/

namespace SegmentLog.Text

/-- As many spaces as bring a text up to `width` characters. -/
def filler (width : Nat) (s : String) : String :=
  String.ofList (List.replicate (width - s.length) ' ')

/-- A text at the right end of a column. -/
def alignRight (width : Nat) (s : String) : String := filler width s ++ s

/-- A text at the left end of a column. -/
def alignLeft (width : Nat) (s : String) : String := s ++ filler width s

theorem filler_of_le {width : Nat} {s : String} (h : width ≤ s.length) : filler width s = "" := by
  simp [filler, Nat.sub_eq_zero_of_le h]

theorem alignRight_of_le {width : Nat} {s : String} (h : width ≤ s.length) :
    alignRight width s = s := by
  simp [alignRight, filler_of_le h]

theorem alignLeft_of_le {width : Nat} {s : String} (h : width ≤ s.length) :
    alignLeft width s = s := by
  simp [alignLeft, filler_of_le h]

end SegmentLog.Text
