import MathMarkup.Files.Basic
import MathMarkup.History.Memory
import MathMarkup.History.Retention

/-!
# Opening a store

The configuration names the kind of store. Records in memory start empty; a database lives in a
file, which is made together with its directory when it is not there.
-/

namespace MathMarkup.History

/-- A store of either kind; a database knows the path of its file. -/
inductive Store where
  | memory (m : Memory)
  | table (path : Text) (c : Connection)

namespace Store

/-- A result of an operation on the connection as one on the store. -/
def overTable (path : Text) : Except Fault Connection → Except Fault Store
  | .ok c => .ok (.table path c)
  | .error f => .error f

/-- The operations of a store of either kind. -/
def storage : Storage Store where
  backend := []
  store s r :=
    match s with
    | memory m =>
      match Memory.storage.store m r with
      | .ok m => .ok (memory m)
      | .error f => .error f
    | table p c => overTable p (Connection.storage.store c r)
  get s id :=
    match s with
    | memory m => Memory.storage.get m id
    | table _ c => Connection.storage.get c id
  query s q :=
    match s with
    | memory m => Memory.storage.query m q
    | table _ c => Connection.storage.query c q
  count s q :=
    match s with
    | memory m => Memory.storage.count m q
    | table _ c => Connection.storage.count c q
  delete s q :=
    match s with
    | memory m =>
      match Memory.storage.delete m q with
      | .ok (n, m) => .ok (n, memory m)
      | .error f => .error f
    | table p c =>
      match Connection.storage.delete c q with
      | .ok (n, c) => .ok (n, table p c)
      | .error f => .error f
  ping s :=
    match s with
    | memory m => Memory.storage.ping m
    | table _ c => Connection.storage.ping c
  close s :=
    match s with
    | memory m => memory (Memory.storage.close m)
    | table p c => table p (Connection.storage.close c)

/-- The name of the kind of a store. -/
def backend : Store → Text
  | memory _ => Memory.storage.backend
  | table _ _ => Connection.storage.backend

/-- The name of a database that is kept in no file. -/
def volatilePath : Text := ":memory:"

/-- Whether a database at a path is kept in a file. -/
def isKept (path : Text) : Bool := !path.isEmpty && path != volatilePath

/-- The fault of opening a kind of store that there is not. -/
def unsupported (backend detail : Text) : Fault :=
  [.storage backend "open", .note "unsupported history backend", .plain detail]

/-- The database in a file, which may be new. -/
def databaseAt (fs : Files) (path : Text) : Except Fault Database :=
  match fs.resolve path with
  | .ok (.database d) => .ok d
  | .ok (.text t) =>
    if t.isEmpty then .ok {}
    else .error [.storage Database.backend "create_schema", .plain "file is not a database (26)"]
  | .ok .directory =>
    .error [.storage Database.backend "create_schema", .plain "unable to open database file (14)"]
  | .error _ => .ok {}

/-- Opens a database, making its file and directory. -/
def openTable (fs : Files) (path : Text) : Except Fault (Store × Files) :=
  if isKept path then
    match fs.makeDirectories (Path.dir path) with
    | .error f => .error (.storage Database.backend "mkdir" :: f)
    | .ok fs => do
      let d ← databaseAt fs path
      let d ← d.prepare
      pure (.table path { database := d }, fs.put (Path.clean path) (.database d))
  else do
    let d ← Database.prepare {}
    pure (.table path { database := d }, fs)

/-- Opens the store that the configuration names. -/
def openWith (c : HistoryConfig) (fs : Files) : Except Fault (Store × Files) :=
  if c.backend == Text.ofString "memory" then .ok (.memory .empty, fs)
  else if c.backend == Text.ofString "sqlite" || c.backend.isEmpty then openTable fs c.sqlite.path
  else if c.backend == Text.ofString "sqlite3" then
    .error (unsupported "sqlite3" "sqlite3 requires cgo, use backend \"sqlite\"")
  else .error (unsupported c.backend c.backend.quote)

/-- The files after everything in a store has been written to them. -/
def save (s : Store) (fs : Files) : Files :=
  match s with
  | memory _ => fs
  | table path c => if isKept path then fs.put (Path.clean path) (.database c.database) else fs

end Store

end MathMarkup.History
