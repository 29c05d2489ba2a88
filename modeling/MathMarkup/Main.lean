import MathMarkup.CommandLine.Run
import MathMarkup.History.Saved
import MathMarkup.Text.Digest
import Std.Time.DateTime.Timestamp

/-!
# The program

What stands between the commands and the system. The files below the working directory are read, the
command runs on them, its output is printed, and what it changed among the files is written back.
There is no network: a server is configured but cannot listen, and a watcher stops after the sources
that are there.
-/

namespace MathMarkup

/-- The bytes of a text. -/
def Text.bytes (t : Text) : ByteArray := ⟨t.toArray⟩

/-- The text of some bytes. -/
def Text.ofBytes (b : ByteArray) : Text := b.data.toList

/-- The string of a path. -/
def pathString (path : Text) : String := path.toString?.getD ""

/-- What a file with some contents is. -/
def Entry.ofText (t : Text) : Entry :=
  match History.Database.ofText? t with
  | some d => .database d
  | none => .text t

/-- What stands in the file of an entry; a directory has nothing. -/
def Entry.fileText? : Entry → Option Text
  | directory => none
  | text t => some t
  | database d => some d.text

/-- Whether two entries are the same on disk. -/
def Entry.isSame (a b : Entry) : Bool := a.fileText? == b.fileText?

/-- A random name: a digest of a seed and a number in the usual groups of hexadecimal digits. -/
def randomName (seed : Text) (n : Nat) : Text :=
  let d := Text.Digest.sha256 (seed ++ Text.ofNat n)
  d.slice 0 8 ++ "-" ++ d.slice 8 12 ++ "-4" ++ d.slice 13 16 ++ "-8" ++ d.slice 17 20 ++ "-"
    ++ d.slice 20 32

/-- The entries below a directory whose path as entries have it is `inside`. -/
partial def entriesBelow (directory inside : String) : IO (List (Text × Entry)) := do
  let mut found := []
  for e in ← (← IO.FS.realPath directory).readDir do
    let path := if inside.isEmpty then e.fileName else inside ++ "/" ++ e.fileName
    if ← e.path.isDir then
      found := (Text.ofString path, Entry.directory) :: found
      found := (← entriesBelow path path) ++ found
    else
      let bytes ← try IO.FS.readBinFile e.path catch _ => pure .empty
      found := (Text.ofString path, Entry.ofText (Text.ofBytes bytes)) :: found
  return found

/-- The variables of the environment. -/
def environmentNow : IO (List (Text × Text)) := do
  let bytes ← IO.FS.readBinFile "/proc/self/environ"
  return (Text.splitByte 0 (Text.ofBytes bytes)).filterMap (Text.cutByte? (Text.byte '='))

/-- Writes what differs between files before and after a command. -/
def writeBack (before after : Files) : IO Unit := do
  for (path, e) in after.entries do
    match e, before.entry? path with
    | .directory, none => IO.FS.createDirAll (pathString path)
    | e, old =>
      if !(old.any e.isSame) then
        if let some t := e.fileText? then IO.FS.writeBinFile (pathString path) t.bytes
  for (path, e) in before.entries do
    if (after.entry? path).isNone then
      match e with
      | .directory => IO.FS.removeDirAll (pathString path)
      | _ => IO.FS.removeFile (pathString path)

/-- The world of this process. -/
def theWorld (args : List String) : IO CommandLine.World := do
  let seed := Text.ofBytes (← IO.getRandomBytes 32)
  let now ← Std.Time.Timestamp.now
  let start : Time.Instant := ⟨now.toNanosecondsSinceUnixEpoch.val⟩
  let input ←
    if args.any (·.startsWith "--stdin") then (← IO.getStdin).readBinToEnd else pure .empty
  return {
    release := { compiler := "unknown", platform := "unknown" }
    input := Text.ofBytes input
    environment := ← environmentNow
    name := randomName seed
    clock := fun n => ⟨start.add n, 0⟩ }

end MathMarkup

/-- Runs the program. -/
def main (args : List String) : IO UInt32 := do
  let before : MathMarkup.Files := ⟨← MathMarkup.entriesBelow "." ""⟩
  let world ← MathMarkup.theWorld args
  let ending :=
    MathMarkup.CommandLine.run world (MathMarkup.Text.ofStrings args) { files := before }
  (← IO.getStdout).write ending.session.out.bytes
  (← IO.getStderr).write ending.session.err.bytes
  MathMarkup.writeBack before ending.session.files
  return ending.exitCode.toUInt32
