import SegmentLog.Inspection.Report

/-!
# The inspection tool

Reads from the file system what the arguments name, and prints the report on it.
-/

namespace SegmentLog.Inspection

/-- Puts a file of the file system onto a disk. -/
def loadFile (d : Disk) (path : String) : IO Disk := do
  let bytes ← IO.FS.readBinFile path
  return d.put (.ofString path) bytes.data.toList

/-- Puts what lies at a path of the file system onto a disk, with the segment files of a stem if
it is a directory. -/
def load (stem : String) (d : Disk) (path : Path) : IO Disk := do
  let text := path.display
  try
    let real ← IO.FS.realPath text
    if ← real.isDir then
      let d := (d.makeDirectories path).2
      let entries ← real.readDir
      entries.foldlM (fun d e => do
        let entry := path.join (.ofString e.fileName)
        if ← e.path.isDir then return (d.makeDirectories entry).2
        else if (SegmentName.parse? stem e.fileName).isSome then loadFile d entry.display
        else return d) d
    else
      let d := match path.parent? with
        | some directory => (d.makeDirectories directory).2
        | none => d
      loadFile d text
  catch _ => return d

/-- The disk that a request is carried out on. -/
def loadAll : Request → IO Disk
  | .run stem (.list directory) => load stem {} directory
  | .run stem (.verify directory) => load stem {} directory
  | .run stem (.dump files) => files.foldlM (load stem) {}
  | _ => return {}

end SegmentLog.Inspection

open SegmentLog in
/-- Carries out a call of the inspection tool. -/
def main (args : List String) : IO UInt32 := do
  let disk ← match Inspection.read args with
    | .ok request => Inspection.loadAll request
    | .error _ => pure {}
  let ending := Inspection.run args disk
  for line in ending.lines do IO.println line
  if let some complaint := ending.complaint then IO.eprintln ("error: " ++ complaint)
  return ending.status.toUInt32
