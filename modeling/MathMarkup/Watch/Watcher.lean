import MathMarkup.Engine.Service
import MathMarkup.Files.Basic
import MathMarkup.Text.Case
import MathMarkup.Text.Space
import MathMarkup.Watch.Debouncer

/-!
# The watcher

The watcher converts the markup files of a directory tree. What comes out of a file is written
beside it: the output under one suffix, or the report of a failure under another, never both.
-/

namespace MathMarkup.Watch

open Engine (Service Surroundings)
open Telemetry (LogEntry noting)

/-! ## Which files are sources -/

/-- Whether the extension of a path is one of those of markup, in any case of letters. -/
def hasExtension (c : WatchConfig) (path : Text) : Bool :=
  let e := Text.toLower (Path.extension path)
  c.extensions.any fun x => e == Text.toLower x

/-- Whether a path is that of a source: it is not hidden and has an extension of markup. -/
def isSource (c : WatchConfig) (path : Text) : Bool := !Path.isHidden path && hasExtension c path

/-! ## What comes out of a source -/

/-- What a conversion puts beside its source: an output or a report. -/
structure Product where
  isReport : Bool
  content : Text
deriving DecidableEq, Repr

/-- The product of a conversion. -/
def productOf (output : Text) (f : Fault) : Product :=
  if f.isEmpty then ⟨false, output ++ "\n"⟩ else ⟨true, f.printed ++ "\n"⟩

/-- The path of the output, or of the report, of a source. -/
def productPath (c : WatchConfig) (path : Text) (report : Bool) : Text :=
  Path.stem path ++ (if report then c.errorSuffix else c.suffix)

/-- What became of a source. -/
structure Result where
  source : Text
  /-- The file that was written. -/
  output : Text := []
  requestId : Text := []
  /-- Why the conversion failed. -/
  failure : Fault := []
  /-- Why the source or its product could not be handled. -/
  fault : Fault := []
  /-- Whether the source was handled to the end. -/
  handled : Bool := false
  /-- What was logged up to the end of it. -/
  log : List (Text × LogEntry) := []

/-- What a watcher works with. -/
structure Workplace (σ : Type) where
  service : Service σ
  files : Files

variable {σ : Type}

/-- A workplace after an entry in the log. -/
def Workplace.logged (x : Workplace σ) (e : LogEntry) : Workplace σ :=
  { x with service := x.service.logged "watch" e }

/-- Puts a file in place of another, which may not be a directory. -/
def replaceFile (fs : Files) (path t : Text) : Except Fault Files :=
  if fs.isDirectory (Path.clean path) then .error [.file "rename" path .alreadyThere]
  else fs.write path t

/-- Removes a file that need not be there. -/
def removeStale (fs : Files) (path : Text) : Except Fault Files :=
  match fs.remove path with
  | .ok fs => .ok fs
  | .error f => if f.isNotExist then .ok fs else .error f

/-- The entry for a source that was handled. -/
def handledEntry (r : Result) : LogEntry :=
  if r.failure.isEmpty then
    ⟨.info, "converted", noting "path" (.text r.source) ++ noting "output" (.text r.output)
      ++ noting "request_id" (.text r.requestId)⟩
  else
    ⟨.warn, "conversion failed", noting "path" (.text r.source)
      ++ noting "request_id" (.text r.requestId)
      ++ noting "error_type" (.text r.failure.typeName)⟩

/-- Reads a source and converts it: what is to be put in place, if the work is not cancelled; also
what is left of asking whether it is. -/
def convertSource (st : History.Storage σ) (w : Surroundings) (cancel : Cancellation) (path : Text)
    (x : Workplace σ) : Workplace σ × Result × Option Product × Cancellation :=
  match x.files.contents path with
  | .error f => (x, { source := path, fault := f }, none, cancel)
  | .ok text =>
    let (service, reply) := x.service.convert st w cancel
      { input := text.trimSpace, origin := Engine.originWatch }
    let x := { x with service }
    let r : Result :=
      { source := path, requestId := reply.outcome.requestId, failure := reply.fault }
    let p := productOf reply.outcome.output reply.fault
    if reply.fault.isEmpty then (x, r, some p, reply.left)
    else
      match reply.left.check? with
      | none => (x, { r with fault := [.cancelled] }, none, some 0)
      | some left => (x, r, some p, left)

/-- Puts the product of a source in place and removes what is stale. -/
def place (c : WatchConfig) (p : Product) (r : Result) (x : Workplace σ) : Workplace σ × Result :=
  let r := { r with output := productPath c r.source p.isReport }
  match replaceFile x.files r.output p.content with
  | .error f => (x, { r with fault := f })
  | .ok files =>
    match removeStale files (productPath c r.source !p.isReport) with
    | .error f => ({ x with files }, { r with fault := f })
    | .ok files => ({ x with files }.logged (handledEntry r), { r with handled := true })

/-- Handles a source from reading it to removing what is stale. -/
def processFile (st : History.Storage σ) (w : Surroundings) (c : WatchConfig)
    (cancel : Cancellation) (path : Text) (x : Workplace σ) : Workplace σ × Result × Cancellation :=
  match convertSource st w cancel path x with
  | (x, r, none, left) => (x, r, left)
  | (x, r, some p, left) =>
    let (x, r) := place c p r x
    (x, r, left)

/-! ## Whole trees -/

/-- The sources in a tree, in the order of a walk; hidden files and directories are left out. -/
def sources (c : WatchConfig) (fs : Files) : Except Fault (List Text) :=
  match fs.resolve c.dir with
  | .error f => .error [.file "lstat" c.dir f]
  | .ok _ =>
    let visits := fs.walk (fun p => p == c.dir || !Path.isHidden p) c.dir
    .ok ((visits.filter fun v =>
      !v.isDirectory && (v.path == c.dir || !Path.isHidden v.path) && hasExtension c v.path).map
        (·.path))

/-- Converts sources one after the other, each in its own surroundings, until one cannot be handled:
the results of those that were, and the fault. -/
def convertEach (st : History.Storage σ) (w : Nat → Surroundings) (c : WatchConfig) :
    Nat → Cancellation → List Text → Workplace σ → Workplace σ × List Result × Fault
  | _, _, [], x => (x, [], [])
  | i, cancel, path :: rest, x =>
    match cancel.check? with
    | none => (x, [], [.cancelled])
    | some cancel =>
      let (x, r, cancel) := processFile st (w i) c cancel path x
      if r.fault.isEmpty then
        let (log, service) := x.service.takeLog
        let (x, rs, f) := convertEach st w c (i + 1) cancel rest { x with service }
        (x, { r with log } :: rs, f)
      else (x, [], r.fault)

/-- Converts all sources of the tree. -/
def convertAll (st : History.Storage σ) (w : Nat → Surroundings) (c : WatchConfig)
    (cancel : Cancellation) (x : Workplace σ) : Workplace σ × List Result × Fault :=
  match sources c x.files with
  | .error f => (x, [], f)
  | .ok paths => convertEach st w c 0 cancel paths x

/-! ## Watching -/

/-- Whether changes in a directory are noticed: it lies in the tree and nothing on the way to it is
hidden. -/
def isWatched (c : WatchConfig) (directory : Text) : Bool :=
  let top := Path.names c.dir
  let names := Path.names directory
  top.isPrefixOf names && (names.drop top.length).all fun n => !Path.isHidden n

/-- A watcher that runs, has run, or has not been started. -/
structure Watcher (σ : Type) where
  workplace : Workplace σ
  /-- What delays the callbacks for files that change, under their paths. -/
  debouncer : Debouncer := {}
  /-- Whether it has ever been started. -/
  entered : Bool := false
  /-- Why it is not running any more. -/
  ended : Option Fault := none

namespace Watcher

/-- The directories of a tree that are watched. -/
def directories (c : WatchConfig) (fs : Files) : List Text :=
  ((fs.walk (fun p => p == c.dir || !Path.isHidden p) c.dir).filter (·.isDirectory)).map (·.path)

/-- The entry when watching begins. -/
def watching (c : WatchConfig) : LogEntry :=
  ⟨.info, "watching for changes", noting "dir" (.text c.dir)
    ++ noting "extensions" (.texts c.extensions)
    ++ noting "debounce_ms" (.int (Int.tdiv c.debounce 1000000))⟩

/-- Starts a watcher: all sources are converted, and changes are noticed from then on. A watcher is
started once. -/
def start (st : History.Storage σ) (w : Nat → Surroundings) (c : WatchConfig)
    (cancel : Cancellation) (x : Watcher σ) : Watcher σ × List Result × Fault :=
  if x.entered then (x, [], [.plain "watcher already running"])
  else
    let x := { x with entered := true }
    match x.workplace.files.resolve c.dir with
    | .error f =>
      let f : Fault := [.note ("failed to watch " ++ c.dir), .file "lstat" c.dir f]
      ({ x with ended := some f }, [], f)
    | .ok _ =>
      let place := (directories c x.workplace.files).foldl
        (fun p d => p.logged ⟨.debug, "watching directory", noting "path" (.text d)⟩) x.workplace
      let (place, rs, f) := convertAll st w c cancel place
      if f.isEmpty then ({ x with workplace := place.logged (watching c) }, rs, [])
      else ({ x with workplace := place, ended := some f }, rs, f)

/-- Whether a watcher notices changes. -/
def isRunning (x : Watcher σ) : Bool := x.entered && x.ended.isNone

/-- Whether a watcher handles a file that has appeared or changed. -/
def handles (c : WatchConfig) (path : Text) (x : Watcher σ) : Bool :=
  x.isRunning && isWatched c (Path.dir path) && isSource c path

/-- A watcher after a file has appeared or changed. If it handles the file, a callback will process
it. -/
def noticed (c : WatchConfig) (path : Text) (x : Watcher σ) : Watcher σ :=
  if x.handles c path then { x with debouncer := x.debouncer.after (.trigger path) } else x

/-- Stops a watcher: callbacks that wait are dropped. -/
def stop (x : Watcher σ) : Watcher σ :=
  if x.isRunning then
    { x with
      workplace := x.workplace.logged ⟨.info, "watcher stopped", []⟩
      debouncer := x.debouncer.after .stop
      ended := some [] }
  else x

end Watcher

end MathMarkup.Watch
