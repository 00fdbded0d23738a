import SegmentLog.Inspection.Report

/-!
# The lines that the inspection tool prints

What stands in each line of the tool, spelled character by character: numbers in decimal, at the
right end of a column or just as long as they are, bytes as two of the sixteen digits each, and one
word for each way in which a file can end.

* `fileLine_eq`, `recordLine_eq`, `stopLine_eq` — the lines about a file and its records;
* `outcomeLines_eq` — the lines about a replay.
-/

namespace SegmentLog.Inspection

/-- The word for the way in which a file ends. -/
def tailWord : Tail → String
  | .clean => "Clean"
  | .endMarker => "EndMarker"
  | .truncated => "Truncated"
  | .checksumMismatch => "ChecksumMismatch"
  | .invalidSize => "InvalidSize"

/-- A number at the right end of a column. -/
def column (width n : Nat) : String :=
  String.ofList (List.replicate (width - (toString n).length) ' ') ++ toString n

/-- The two digits of a byte, the higher one first. -/
def twoDigits (b : UInt8) : List Char :=
  let digits := "0123456789abcdef".toList
  [digits.getD (b.toNat / 16) ' ', digits.getD (b.toNat % 16) ' ']

/-- What is printed of a file above its records: where it is, and what its name says. -/
def fileText (name : SegmentName) (path : Path) : String :=
  path.display ++ " (id " ++ toString name.id ++ ", version " ++ toString name.version ++ ")"

/-- What is printed of a record: the offset of its frame, the length of its payload, and the first
sixteen bytes of it. -/
def recordText (offset : Nat) (payload : Bytes) : String :=
  "  " ++ column 10 offset ++ "  " ++ column 8 payload.length ++ " bytes  " ++
    String.ofList ((payload.take 16).flatMap twoDigits)

/-- What is printed of a file below its records: how many they are, and where and why they stop. -/
def stopText (count stop : Nat) (tail : Tail) : String :=
  "  " ++ toString count ++ " records, stopped at offset " ++ toString stop ++ " (" ++
    tailWord tail ++ ")"

/-- What is printed of a file that ended in a damaged or unfinished frame. -/
def damageText (path : Path) (stop : Nat) (tail : Tail) : String :=
  "  " ++ path.display ++ " at offset " ++ toString stop ++ " (" ++ tailWord tail ++ ")"

/-- What is printed of the last record of a replay. -/
def positionText : Option Position → String
  | none => "none"
  | some p => "ReplayPosition(" ++ toString p.segment ++ ", " ++ toString p.offset ++ ")"

theorem display_eq_tailWord (tail : Tail) : tail.display = tailWord tail := by
  cases tail <;> rfl

/-- The sixteen digits are those of numbers below sixteen. -/
theorem digitChar_eq : ∀ n < 16, Nat.digitChar n = "0123456789abcdef".toList.getD n ' ' := by
  decide

theorem hexByte_eq (b : UInt8) : Text.hexByte b = twoDigits b := by
  have hlt := b.toNat_lt
  rw [Text.hexByte, digitChar_eq _ (by omega), digitChar_eq _ (by omega)]
  rfl

theorem hex_eq (bytes : Bytes) : Text.hex bytes = String.ofList (bytes.flatMap twoDigits) := by
  rw [Text.hex, Text.hexDigits, funext hexByte_eq]

theorem fileLine_eq (name : SegmentName) (path : Path) :
    fileLine name path = fileText name path := by
  simp only [fileLine, fileText, ← String.append_assoc]
  rfl

theorem recordLine_eq (p : Position) (payload : Bytes) :
    recordLine p payload = recordText p.offset payload := by
  rw [recordLine, hex_eq]
  rfl

theorem stopLine_eq (f : FileReport) : stopLine f = stopText f.applied f.stop f.tail := by
  simp only [stopLine, stopText, display_eq_tailWord]
  rfl

theorem incompleteLine_eq (f : FileReport) :
    incompleteLine f = damageText f.path f.stop f.tail := by
  simp only [incompleteLine, damageText, display_eq_tailWord, ← String.append_assoc]
  rfl

/-- The outcome of a replay is printed number by number, then file by file. -/
theorem outcomeLines_eq (r : ReplayReport) (bytes : Nat) :
    outcomeLines r bytes =
      ["segments:          " ++ toString r.fileCount,
       "records:           " ++ toString r.applied,
       "payload bytes:     " ++ toString bytes,
       "incomplete tails:  " ++ toString r.cutShort] ++
      ((r.files.filter fun f => f.tail.isCutShort).map fun f => damageText f.path f.stop f.tail) ++
      ["last position:     " ++ positionText r.last] := by
  rw [outcomeLines, funext incompleteLine_eq]
  cases r.last <;> rfl

end SegmentLog.Inspection
