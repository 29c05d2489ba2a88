import MathMarkup.Files.Path
import MathMarkup.History.Table

/-!
# Files

The files below the working directory: texts, databases and directories under cleaned paths. The
working directory itself is always there. Operations fail as the operating system lets them fail.
-/

namespace MathMarkup

/-- What a path leads to. -/
inductive Entry where
  | directory
  | text (t : Text)
  | database (d : History.Database)

/-- The entries under their cleaned paths. -/
structure Files where
  entries : List (Text × Entry) := []

namespace Files

/-- The entry at a cleaned path. -/
def entry? (fs : Files) (path : Text) : Option Entry :=
  if path == Text.ofString "." then some .directory else fs.entries.lookup path

/-- Whether a cleaned path leads to a directory. -/
def isDirectory (fs : Files) (path : Text) : Bool :=
  match fs.entry? path with
  | some .directory => true
  | _ => false

/-- The cleaned paths of the directories that a path runs through, the outermost first. -/
def ancestors (path : Text) : List Text :=
  let ns := Path.names path
  (List.range (ns.length - 1)).map fun k => Path.ofNames (Path.isRooted path) (ns.take (k + 1))

/-- What a path leads to, or what is wrong on the way there. -/
def resolve (fs : Files) (path : Text) : Except FileFault Entry :=
  let wrong? := (ancestors path).findSome? fun a =>
    match fs.entry? a with
    | some .directory => none
    | some _ => some FileFault.notDirectory
    | none => some FileFault.notExist
  match wrong? with
  | some f => .error f
  | none =>
    match fs.entry? (Path.clean path) with
    | some e => .ok e
    | none => .error .notExist

/-- The files with an entry put at a cleaned path. -/
def put (fs : Files) (path : Text) (e : Entry) : Files :=
  if fs.entries.any (·.1 == path) then
    ⟨fs.entries.map fun (p, old) => if p == path then (p, e) else (p, old)⟩
  else ⟨fs.entries ++ [(path, e)]⟩

/-- The files without the entry at a cleaned path and without what lies below it. -/
def erase (fs : Files) (path : Text) : Files :=
  ⟨fs.entries.filter fun (p, _) => p != path && !Text.startsWith p (path ++ "/")⟩

/-- The contents of a file as a reader of texts sees them. -/
def contents (fs : Files) (path : Text) : Except Fault Text :=
  if path.isEmpty then .error [.file "open" path .notExist]
  else
    match fs.resolve path with
    | .ok (.text t) => .ok t
    | .ok (.database _) => .ok "SQLite format 3"
    | .ok .directory => .error [.file "read" path .isDirectory]
    | .error f => .error [.file "open" path f]

/-- Writes a text to a file, which is made if it is not there; its directory has to be. -/
def write (fs : Files) (path : Text) (t : Text) : Except Fault Files :=
  if path.isEmpty then .error [.file "open" path .notExist]
  else
    match fs.resolve path with
    | .ok .directory => .error [.file "open" path .isDirectory]
    | .ok _ => .ok (fs.put (Path.clean path) (.text t))
    | .error .notDirectory => .error [.file "open" path .notDirectory]
    | .error f =>
      if fs.isDirectory (Path.dir (Path.clean path)) then .ok (fs.put (Path.clean path) (.text t))
      else .error [.file "open" path f]

/-- Makes one directory of a chain of them, unless it is there. -/
def makeDirectory (fs : Files) (path : Text) : Except Fault Files :=
  match fs.entry? path with
  | some .directory => .ok fs
  | some _ => .error [.file "mkdir" path .notDirectory]
  | none => .ok (fs.put path .directory)

/-- Makes a directory and all directories on the way to it. -/
def makeDirectories (fs : Files) (path : Text) : Except Fault Files :=
  (ancestors path ++ [Path.clean path]).foldlM makeDirectory fs

/-- Writes a text to a file after making the directories on the way to it. -/
def writeDeep (fs : Files) (path : Text) (t : Text) : Except Fault Files := do
  let fs ← fs.makeDirectories (Path.dir path)
  fs.write path t

/-- Removes a file or an empty directory. -/
def remove (fs : Files) (path : Text) : Except Fault Files :=
  match fs.resolve path with
  | .error f => .error [.file "remove" path f]
  | .ok .directory =>
    if fs.entries.any fun (p, _) => Text.startsWith p (Path.clean path ++ "/") then
      .error [.file "remove" path .notEmpty]
    else .ok (fs.erase (Path.clean path))
  | .ok _ => .ok (fs.erase (Path.clean path))

/-! ## Listing -/

/-- The names in a directory, in byte-wise order. -/
def namesIn (fs : Files) (path : Text) : List Text :=
  let inside := fs.entries.filterMap fun (p, _) =>
    if Path.dir p == path && p != path then some (Path.base p) else none
  inside.mergeSort fun a b => !decide (b < a)

/-- A path reached on a walk, and whether it is a directory. -/
structure Visit where
  path : Text
  isDirectory : Bool

/-- The path of a name in a directory as a walk writes it. -/
def child (path name : Text) : Text := Path.inside path name

/-- What lies at and below a path in the order of a walk: a directory before what is in it, names in
order. Directories that `enter` refuses are left out with all that is in them. The first argument
bounds the depth. -/
def walkTo (fs : Files) (enter : Text → Bool) : Nat → Text → List Visit
  | 0, _ => []
  | depth + 1, path =>
    match fs.entry? (Path.clean path) with
    | some .directory =>
      if enter path then
        ⟨path, true⟩ :: (fs.namesIn (Path.clean path)).flatMap fun n =>
          walkTo fs enter depth (child path n)
      else []
    | some _ => [⟨path, false⟩]
    | none => []

/-- What lies at and below a path in the order of a walk. -/
def walk (fs : Files) (enter : Text → Bool) (path : Text) : List Visit :=
  fs.walkTo enter (fs.entries.length + 2) path

end Files

end MathMarkup
