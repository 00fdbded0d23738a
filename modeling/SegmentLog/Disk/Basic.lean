import SegmentLog.Disk.Content
import SegmentLog.Disk.Fault
import SegmentLog.Disk.Path
import SegmentLog.Disk.Reader

/-!
# Disk

A disk is a tree of directories and files. A directory knows its entries by name. Directories and
files have an identity of their own, so a file that was removed while it was open can still be
written and synced through its identity. Beside the content of a file the disk keeps what was on
stable storage at the last sync.

The main operations are `createNew`, `writeAt`, `sync`, `remove`, `opened`, `contents`, `entries`
and `makeDirectories`. Those that change the disk take a fault that hits them from `Disk.faults`; a
file that cannot be read says so itself.

* `follow_nil`, `follow_cons` — how a path is followed, one stretch after the other.
-/

namespace SegmentLog

/-- The identity of a file: its number in the order of creation. -/
abbrev FileId := Nat

/-- The identity of a directory: its number in the order of creation. -/
abbrev DirectoryId := Nat

/-- What a name in a directory stands for. -/
inductive Node where
  | directory (id : DirectoryId)
  | file (id : FileId)
  deriving DecidableEq, Repr

/-- What a file holds, what of it is on stable storage, and why it cannot be read, if it cannot. -/
structure FileData where
  content : Content := #[]
  durable : Content := #[]
  fault : Option ReadFault := none
  deriving DecidableEq, Repr, Inhabited

/-- Opens a file for reading. Where the reading is to fail behind the end of the file, it fails
there, and the end is never told. -/
def FileData.reader (file : FileData) : Except DiskError Reader :=
  match file.fault with
  | none => .ok (.ofBytes file.content.toList)
  | some (.opening cause) => .error cause
  | some (.reading count cause) => .ok (.broken (file.content.toList.take count) cause)

/-- The directories on the way down from the top, innermost first. The top itself is left out. -/
abbrev Way := List DirectoryId

/-- The directory that a way ends in. The directory at the top is number zero. -/
def Way.here (w : Way) : DirectoryId := w.headD 0

/-- A place on a disk: a name in the directory that a way ends in, whether or not it stands for
anything, or that directory itself. -/
structure Place where
  way : Way
  name : Option FileName := none
  deriving DecidableEq, Repr

/-- A disk, with the directory that relative paths start at. -/
structure Disk where
  workingDirectory : Way := []
  /-- The entries of every directory ever made, by its identity, the newest entry first. -/
  directories : Array (List (FileName × Node)) := #[[]]
  /-- Every file ever created, by its identity. -/
  files : Array FileData := #[]
  faults : Faults := {}
  deriving Repr, Inhabited

namespace Disk

/-- The longest name a directory holds. -/
def maxName : Nat := 255

/-- The length from which a path is too long. -/
def maxPath : Nat := 4096

/-- The size that no file can reach. -/
def sizeLimit : Nat := 0x8000000000000000

/-- The entries of a directory. -/
def entriesOf (d : Disk) (id : DirectoryId) : List (FileName × Node) := d.directories.getD id []

/-- Changes the entries of a directory. -/
def modifyEntries (d : Disk) (id : DirectoryId)
    (f : List (FileName × Node) → List (FileName × Node)) : Disk :=
  { d with directories := d.directories.modify id f }

/-- What lies at a place. -/
def node? (d : Disk) (p : Place) : Option Node :=
  match p.name with
  | none => some (.directory p.way.here)
  | some name => (d.entriesOf p.way.here).lookup name

/-- Puts a node at a place where nothing lies yet. -/
def attach (d : Disk) (p : Place) (n : Node) : Disk :=
  match p.name with
  | none => d
  | some name => d.modifyEntries p.way.here ((name, n) :: ·)

/-- Takes away what lies at a place. -/
def detach (d : Disk) (p : Place) : Disk :=
  match p.name with
  | none => d.modifyEntries (Way.here p.way.tail) (·.filter fun e => e.2 != .directory p.way.here)
  | some name => d.modifyEntries p.way.here (·.filter fun e => e.1 != name)

/-! ## Following paths -/

/-- The way into the directory at a place. -/
def enter (d : Disk) (p : Place) : Except DiskError Way :=
  match p.name with
  | none => .ok p.way
  | some name =>
    match (d.entriesOf p.way.here).lookup name with
    | none => .error .notFound
    | some (.file _) => .error .notADirectory
    | some (.directory id) => .ok (id :: p.way)

/-- The place that a stretch of a path leads to from inside a directory. -/
def step (way : Way) (s : FileName) : Except DiskError Place :=
  if Path.isBlank s then .ok { way }
  else if s = [Path.dot, Path.dot] then .ok { way := way.tail }
  else if maxName < s.length then .error .invalidFilename
  else .ok { way, name := some s }

/-- Follows the stretches of a path. Whatever is followed further must be a directory; what the
last name stands for is left open. -/
def follow (d : Disk) (p : Place) : List FileName → Except DiskError Place
  | [] => .ok p
  | s :: rest =>
    match d.enter p with
    | .error e => .error e
    | .ok way =>
      match step way s with
      | .error e => .error e
      | .ok q => d.follow q rest

/-- The place where a path starts. -/
def start (d : Disk) (p : Path) : Place :=
  { way := if p.isAbsolute then [] else d.workingDirectory }

/-- Why a path is refused whatever lies on the disk, if it is. -/
def refusal? (p : Path) : Option DiskError :=
  if p.bytes.contains 0 then some .invalidInput
  else if p.bytes.isEmpty then some .notFound
  else if maxPath ≤ p.bytes.length then some .invalidFilename
  else none

/-- The place that a path names, whether or not anything lies there. -/
def locate (d : Disk) (p : Path) : Except DiskError Place :=
  match refusal? p with
  | some e => .error e
  | none => d.follow (d.start p) p.stretches

/-- The place that a path names for a directory to be made there: separators at the end of the
path make no difference. -/
def locateNew (d : Disk) (p : Path) : Except DiskError Place :=
  match refusal? p with
  | some e => .error e
  | none => d.follow (d.start p) (p.stretches.reverse.dropWhile (·.isEmpty)).reverse

/-- What a path leads to. -/
def find (d : Disk) (p : Path) : Except DiskError (Place × Node) :=
  match d.locate p with
  | .error e => .error e
  | .ok q =>
    match d.node? q with
    | none => .error .notFound
    | some n => .ok (q, n)

/-- Whether a path leads to a directory. -/
def isDirectory (d : Disk) (p : Path) : Bool :=
  match d.find p with
  | .ok (_, .directory _) => true
  | _ => false

/-- Whether a path leads to a file. -/
def isFile (d : Disk) (p : Path) : Bool :=
  match d.find p with
  | .ok (_, .file _) => true
  | _ => false

/-- Makes the directory that a path leads to, if it leads to one, the one where relative paths
start. -/
def moveTo (d : Disk) (p : Path) : Disk :=
  match d.locate p with
  | .error _ => d
  | .ok q =>
    match d.enter q with
    | .error _ => d
    | .ok way => { d with workingDirectory := way }

/-- What a file holds. -/
def content (d : Disk) (id : FileId) : Bytes := (d.files.getD id {}).content.toList

/-- What of a file is on stable storage. -/
def durable (d : Disk) (id : FileId) : Bytes := (d.files.getD id {}).durable.toList

/-- Why a file cannot be read, if it cannot. -/
def fault? (d : Disk) (id : FileId) : Option ReadFault := (d.files.getD id {}).fault

/-! ## Reading -/

/-- The size that a directory reports. -/
def directorySize : Nat := 4096

/-- The size of what a path leads to. -/
def size (d : Disk) (p : Path) : Except DiskError Nat :=
  match d.find p with
  | .error e => .error e
  | .ok (_, .directory _) => .ok directorySize
  | .ok (_, .file id) => .ok (d.files.getD id {}).content.size

/-- Opens what a path leads to for reading. A directory opens, but cannot be read. -/
def reader (d : Disk) (p : Path) : Except DiskError Reader :=
  match d.find p with
  | .error e => .error e
  | .ok (_, .directory _) => .ok [.failed .isADirectory]
  | .ok (_, .file id) => (d.files.getD id {}).reader

/-- Opens what a path leads to for reading, and asks for its size. -/
def opened (d : Disk) (p : Path) : Except DiskError (Nat × Reader) :=
  match d.reader p with
  | .error cause => .error cause
  | .ok reader =>
    match d.size p with
    | .error cause => .error cause
    | .ok size => .ok (size, reader)

/-- Everything that the file at a path holds, if it can be read to its end. -/
def contents (d : Disk) (p : Path) : Except DiskError Bytes := do
  let (size, reader) ← d.opened p
  let (bytes, _) ← Reader.readAtMost (size + 1) reader
  return bytes

/-- The names in a directory, the newest first. -/
def entries (d : Disk) (p : Path) : Except DiskError (List FileName) :=
  match d.find p with
  | .error e => .error e
  | .ok (_, .file _) => .error .notADirectory
  | .ok (_, .directory id) => .ok ((d.entriesOf id).map (·.1))

/-! ## Writing -/

/-- Puts a new file at a place where nothing lies yet. -/
def attachFile (d : Disk) (p : Place) (file : FileData) : Disk :=
  { d.attach p (.file d.files.size) with files := d.files.push file }

/-- Puts a new, empty directory at a place where nothing lies yet. -/
def attachDirectory (d : Disk) (p : Place) : Disk :=
  let d' := d.attach p (.directory d.directories.size)
  { d' with directories := d'.directories.push [] }

/-- Creates an empty file where nothing lies yet. -/
def createNew (d : Disk) (p : Path) : Except DiskError FileId × Disk :=
  let fault := Faults.next? d.faults.create
  let d := { d with faults.create := d.faults.create.tail }
  match fault with
  | some e => (.error e, d)
  | none =>
    match d.locate p with
    | .error e => (.error e, d)
    | .ok q =>
      match d.node? q with
      | some _ => (.error .alreadyExists, d)
      | none => (.ok d.files.size, d.attachFile q {})

/-- Changes the content of a file. -/
def modifyContent (d : Disk) (id : FileId) (f : Content → Content) : Disk :=
  { d with files := d.files.modify id fun file => { file with content := f file.content } }

/-- Writes into a file at an offset. Writing nothing always succeeds, and a write that would bring
a file to the limit of its size changes nothing. A fault may leave a beginning of the bytes
behind, but never all of them. -/
def writeAt (d : Disk) (id : FileId) (offset : Nat) (bytes : Bytes) :
    Except DiskError Unit × Disk :=
  if bytes.isEmpty then (.ok (), d)
  else
    let fault := Faults.next? d.faults.write
    let d := { d with faults.write := d.faults.write.tail }
    if sizeLimit ≤ offset + bytes.length then (.error .invalidInput, d)
    else
      match fault with
      | none => (.ok (), d.modifyContent id (·.overwrite offset bytes))
      | some (count, e) =>
        let torn := bytes.dropLast.take count
        (.error e, if torn.isEmpty then d else d.modifyContent id (·.overwrite offset torn))

/-- Brings a file to stable storage. -/
def sync (d : Disk) (id : FileId) : Except DiskError Unit × Disk :=
  let fault := Faults.next? d.faults.sync
  let d := { d with faults.sync := d.faults.sync.tail }
  match fault with
  | some e => (.error e, d)
  | none => (.ok (), { d with files := d.files.modify id fun f => { f with durable := f.content } })

/-- Removes the file at a path. -/
def remove (d : Disk) (p : Path) : Except DiskError Unit × Disk :=
  let fault := Faults.next? d.faults.remove
  let d := { d with faults.remove := d.faults.remove.tail }
  match fault with
  | some e => (.error e, d)
  | none =>
    match d.find p with
    | .error e => (.error e, d)
    | .ok (_, .directory _) => (.error .isADirectory, d)
    | .ok (q, .file _) => (.ok (), d.detach q)

/-- Makes one directory where nothing lies yet. -/
def makeNew (d : Disk) (p : Path) : Except DiskError Unit × Disk :=
  match d.locateNew p with
  | .error e => (.error e, d)
  | .ok q =>
    match d.node? q with
    | some _ => (.error .alreadyExists, d)
    | none => (.ok (), d.attachDirectory q)

/-- Makes one directory, unless it is there already. -/
def makeDirectory (d : Disk) (p : Path) : Except DiskError Unit × Disk :=
  match d.makeNew p with
  | (.ok (), d) => (.ok (), d)
  | (.error e, d) => if d.isDirectory p then (.ok (), d) else (.error e, d)

/-- Makes the first of some directories, each of which lies in the next. Where it has no place to
be made, the others are made before it. -/
def makeInside (d : Disk) : List Path → Except DiskError Unit × Disk
  | [] => (.ok (), d)
  | p :: above =>
    match d.makeDirectory p with
    | (.error .notFound, d) =>
      match d.makeInside above with
      | (.ok (), d) => d.makeDirectory p
      | (.error e, d) => (.error e, d)
    | (r, d) => (r, d)

/-- Makes a directory and those above it, as far as they are missing. -/
def makeDirectories (d : Disk) (p : Path) : Except DiskError Unit × Disk :=
  d.makeInside p.ancestors

/-! ## Changes from outside -/

/-- Gives the file at a path a new content, and creates it first if it is missing. -/
def put (d : Disk) (p : Path) (content : Bytes) : Disk :=
  match d.locate p with
  | .error _ => d
  | .ok q =>
    match d.node? q with
    | some (.directory _) => d
    | some (.file id) => d.modifyContent id fun _ => content.toArray
    | none => d.attachFile q { content := content.toArray }

/-- Makes the file at a path one that cannot be read any more, or lets it be read again. -/
def spoil (d : Disk) (p : Path) (fault : Option ReadFault) : Disk :=
  match d.find p with
  | .ok (_, .file id) =>
    { d with files := d.files.modify id fun file => { file with fault } }
  | _ => d

/-- Takes away what a path leads to, with everything below it. -/
def removeTree (d : Disk) (p : Path) : Disk :=
  match d.find p with
  | .error _ => d
  | .ok (q, _) => d.detach q

theorem follow_nil (d : Disk) (p : Place) : d.follow p [] = .ok p := rfl

theorem follow_cons {d : Disk} {p q : Place} {way : Way} {s : FileName} (rest : List FileName)
    (he : d.enter p = .ok way) (hs : step way s = .ok q) :
    d.follow p (s :: rest) = d.follow q rest := by
  simp only [follow, he, hs]

end Disk

end SegmentLog
