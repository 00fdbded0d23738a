import SegmentLog.Text.Quoted

/-!
# Paths

A path is a byte string with `/` between its parts; it need not spell text. `Path.join` puts a
file under a directory, `Path.fileName?` takes the last part off again, and `Path.parts` is what
two spellings of one path have in common: doubled and trailing separators, and a `.` after the
first part, make no difference. `Path.ancestors` are the directories on the way to a path.

* `same_iff` — two paths are the same if they have the same parts.
-/

namespace SegmentLog

/-- The name of one file or directory inside its parent. -/
abbrev FileName := Bytes

/-- A path, as it is spelled. -/
structure Path where
  bytes : Bytes
  deriving DecidableEq, Repr, Inhabited

/-- One part of a path. -/
inductive PathPart where
  /-- The directory at the top. -/
  | root
  /-- The directory where the path starts. -/
  | here
  /-- The directory above. -/
  | up
  /-- A file or directory by its name. -/
  | name (name : FileName)
  deriving DecidableEq, Repr

namespace Path

/-- The byte between the parts of a path. -/
def separator : UInt8 := 0x2F

/-- The byte of a full stop. -/
def dot : UInt8 := 0x2E

/-- The path that a text spells. -/
def ofString (s : String) : Path := ⟨Utf8.encode s⟩

/-- Whether a path starts at the top. -/
def isAbsolute (p : Path) : Bool := p.bytes.head? == some separator

/-- What stands between the separators, empty stretches included. -/
def stretches (p : Path) : List FileName := p.bytes.splitOn separator

/-- Puts `q` under `p`: an absolute `q` stands for itself, and a separator is added where `p`
does not end in one. -/
def join (p q : Path) : Path :=
  if q.isAbsolute || p.bytes.isEmpty then q
  else if p.bytes.getLast? == some separator then ⟨p.bytes ++ q.bytes⟩
  else ⟨p.bytes ++ separator :: q.bytes⟩

/-- Whether a stretch between separators stands for no part of its own. -/
def isBlank (stretch : FileName) : Bool := stretch = [] || stretch = [dot]

/-- The part that a stretch between separators stands for, if it stands for one. -/
def part? (stretch : FileName) : Option PathPart :=
  if isBlank stretch then none
  else if stretch = [dot, dot] then some .up
  else some (.name stretch)

/-- The parts of a path. A full stop counts only at the very start. -/
def parts (p : Path) : List PathPart :=
  let front : List PathPart :=
    if p.isAbsolute then [.root] else if p.stretches.head? = some [dot] then [.here] else []
  front ++ p.stretches.filterMap part?

/-- The path that some stretches spell. -/
def ofStretches (stretches : List FileName) : Path :=
  ⟨(stretches.intersperse [separator]).flatten⟩

/-- Where a path starts, if it says so. -/
def origin? (p : Path) : Option Path :=
  if p.isAbsolute then some ⟨[separator]⟩
  else if p.stretches.head? = some [dot] then some ⟨[dot]⟩ else none

/-- The paths to the parts of a path whose stretches are given last first: to the last part, the
part before it, and so on. -/
def leading : List FileName → List Path
  | [] => []
  | s :: front =>
    if isBlank s then leading front else ofStretches (s :: front).reverse :: leading front

/-- A path and the directories above it, nearest first, as far as the path names them. -/
def ancestors (p : Path) : List Path :=
  if p.bytes.isEmpty then []
  else p :: (leading p.stretches.reverse ++ p.origin?.toList).drop 1

/-- The directory that a path lies in, if the path names it. -/
def parent? (p : Path) : Option Path := p.ancestors[1]?

/-- The name of the file a path leads to. -/
def fileName? (p : Path) : Option FileName :=
  match p.parts.getLast? with
  | some (.name n) => some n
  | _ => none

/-- Whether two paths have the same parts. -/
def same (p q : Path) : Bool := p.parts == q.parts

/-- A path as text. -/
def display (p : Path) : String := Utf8.lossy p.bytes

/-- A path between quotes. -/
def quoted (p : Path) : String := Text.quotedBytes p.bytes

theorem same_iff (p q : Path) : p.same q = true ↔ p.parts = q.parts := by
  simp [same]

end Path

end SegmentLog
