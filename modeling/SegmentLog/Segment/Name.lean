import SegmentLog.Position

/-!
# Segment names

A segment file carries its number and the version of its format in its name:

    stem-version-number.log
    stem-number.log            (as in the first version, which named none)

`SegmentName.render` writes the first form, and `SegmentName.parse?` reads both. Numbers are
plain decimal digits, with leading zeros allowed; a number that is no word of its width is no
number here.
-/

namespace SegmentLog

/-- What the name of a segment file says. -/
structure SegmentName where
  id : SegmentId
  version : UInt32
  deriving DecidableEq, Repr, Inhabited

/-- The stem of segment files where none is chosen. -/
def defaultStem : String := "CommitLog"

namespace SegmentName

/-- What follows the last dot of a segment file. -/
def extension : String := "log"

/-- The version of a name that says none. -/
def unnamedVersion : UInt32 := 1

/-- The version of the segments written here, and the highest that can be replayed. -/
def currentVersion : UInt32 := 3

/-- The name of a new segment. -/
def ofId (id : SegmentId) : SegmentName := ⟨id, currentVersion⟩

/-- The number that some decimal digits spell. -/
def decimal? (digits : List Char) : Option Nat :=
  if digits ≠ [] ∧ digits.all Char.isDigit then
    some (digits.foldl (fun n c => n * 10 + (c.toNat - '0'.toNat)) 0)
  else none

/-- The number of a segment, if the digits spell one. -/
def id? (digits : List Char) : Option SegmentId :=
  (decimal? digits).bind fun n => if n < UInt64.size then some (UInt64.ofNat n) else none

/-- The version of a format, if the digits spell one. -/
def version? (digits : List Char) : Option UInt32 :=
  (decimal? digits).bind fun n => if n < UInt32.size then some (UInt32.ofNat n) else none

/-- What stands between the stem with its dash and the dot with the extension. -/
def middle? (stem name : List Char) : Option (List Char) := do
  let rest ← stem.isPrefixOf? name
  let rest ← ['-'].isPrefixOf? rest
  ('.' :: extension.toList).isSuffixOf? rest

/-- Reads the name of a segment file. -/
def parse? (stem name : String) : Option SegmentName := do
  let middle ← middle? stem.toList name.toList
  match middle.splitOn '-' with
  | [id] => return ⟨← id? id, unnamedVersion⟩
  | [version, id] => return ⟨← id? id, ← version? version⟩
  | _ => none

/-- Writes the name of a segment file. -/
def render (stem : String) (n : SegmentName) : String :=
  stem ++ "-" ++ toString n.version ++ "-" ++ toString n.id ++ "." ++ extension

/-- Whether segments of this version can be replayed. -/
def isSupported (n : SegmentName) : Bool := n.version ≤ currentVersion

/-- Whether one segment comes before another, or is the same: by number, then by version. -/
def precedes (m n : SegmentName) : Bool :=
  m.id < n.id || (m.id == n.id && m.version ≤ n.version)

end SegmentName

/-- Hands out segment numbers in ascending order. -/
structure IdSource where
  /-- The number that is handed out next. -/
  next : SegmentId
  deriving DecidableEq, Repr, Inhabited

namespace IdSource

/-- A source whose first number is the time, in milliseconds, at which it was made; numbers
start above zero. -/
def ofClock (now : UInt64) : IdSource := ⟨max now 1⟩

/-- Hands out a number. After the largest one the source starts over at zero. -/
def take (s : IdSource) : SegmentId × IdSource := (s.next, ⟨s.next + 1⟩)

/-- Keeps every later number above `id`, as far as there is a larger number. -/
def keepAbove (s : IdSource) (id : SegmentId) : IdSource :=
  ⟨max s.next (if id = 0xFFFFFFFFFFFFFFFF then id else id + 1)⟩

end IdSource

end SegmentLog
