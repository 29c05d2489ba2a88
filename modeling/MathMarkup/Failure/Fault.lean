import MathMarkup.Conversion

/-!
# Faults

Around the stages, failures are passed on with more and more said about them: what was being done,
which record or file was concerned. A fault is the list of these layers, the outermost first; the
empty list is no failure. What kind of failure it is, how it is reported and how a command exits are
decided by looking for a layer in the list.
-/

namespace MathMarkup

/-- A field of a configuration and what is wrong with it. -/
structure FieldError where
  field : Text
  message : Text
deriving DecidableEq, Repr

/-- What can be wrong with a file or directory. -/
inductive FileFault where
  | notExist
  | isDirectory
  | notDirectory
  | alreadyThere
  | notEmpty
deriving DecidableEq, Repr

/-- The wording of a fault of a file. -/
def FileFault.message : FileFault → Text
  | notExist => "no such file or directory"
  | isDirectory => "is a directory"
  | notDirectory => "not a directory"
  | alreadyThere => "file exists"
  | notEmpty => "directory not empty"

/-- One layer of a fault. -/
inductive Layer where
  | delimiter (e : DelimiterError)
  | missingArgument (e : MissingArgument)
  | cleaning (position : Int) (context : Text)
  | markup (e : SyntaxError)
  | rendering (e : RenderError)
  | limit (e : LimitError)
  /-- The bare cause that a failure is traced back to. -/
  | reason (r : Reason)
  /-- The report of a failed conversion. -/
  | report (category message : Text) (position : Int) (node : Option Node)
  /-- A note in front of what it concerns. -/
  | note (message : Text)
  /-- A message beside another failure. -/
  | beside (message : Text)
  /-- Nothing but a message. -/
  | plain (message : Text)
  | cancelled
  | deadline
  | tooLarge (size limit : Int)
  | usage (message : Text)
  | configField (field message : Text)
  | command (name : Text)
  /-- A failure whose details have been printed. -/
  | printed
  | validation (fields : List FieldError)
  | notFound
  | storage (backend operation : Text)
  | query
  | recorder (id : Text)
  | recorderClosed
  | retention (days : Int)
  | exporting (format : Text) (count : Int)
  /-- A page of records that would start before the first one. -/
  | pageBeforeStart
  /-- What the operating system says about a file. -/
  | file (operation path : Text) (fault : FileFault)

/-- A fault: its layers, the outermost first. -/
abbrev Fault := List Layer

namespace Fault

/-- The wording of several faults of a configuration. -/
def validationMessage (fields : List FieldError) : Text :=
  match fields with
  | [] => "configuration validation failed"
  | [e] => "configuration validation failed: " ++ e.field ++ ": " ++ e.message
  | es =>
    "configuration validation failed with " ++ Text.ofNat es.length ++ " errors:\n"
      ++ es.flatMap fun e => "  - " ++ e.field ++ ": " ++ e.message ++ "\n"

/-- The wording of a layer, given that of the layers inside it, if there are any. -/
def layerMessage (layer : Layer) (inside : Option Text) : Text :=
  let inner : Text := inside.getD "<nil>"
  match layer with
  | .delimiter e => e.message
  | .missingArgument e => e.message
  | .cleaning _ context => "Missing arguments:" ++ context
  | .markup e => e.message
  | .rendering e => e.message
  | .limit e => e.message
  | .reason r => r.message
  | .report _ message _ _ => message
  | .note message => message ++ ": " ++ inside.getD "%!w(<nil>)"
  | .beside message => message ++ (inside.map fun (t : Text) => "\n" ++ t).getD []
  | .plain message => message
  | .cancelled => "context canceled"
  | .deadline => "context deadline exceeded"
  | .tooLarge size limit =>
    "input is " ++ Text.ofInt size ++ " bytes, limit is " ++ Text.ofInt limit
  | .usage message => message
  | .configField field message => "config error in " ++ field ++ ": " ++ message
  | .command name => "command " ++ name ++ " failed: " ++ inner
  | .printed => inner
  | .validation fields => validationMessage fields
  | .notFound => "history record not found"
  | .storage backend operation =>
    "storage error [backend=" ++ backend ++ ", operation=" ++ operation ++ "]: " ++ inner
  | .query => "query error: " ++ inner
  | .recorder id =>
    if id.isEmpty then "recorder error: " ++ inner
    else "recorder error [record_id=" ++ id ++ "]: " ++ inner
  | .recorderClosed => "history recorder closed"
  | .retention days => "retention error [retention_days=" ++ Text.ofInt days ++ "]: " ++ inner
  | .exporting format count =>
    "export error [format=" ++ format ++ ", record_count=" ++ Text.ofInt count ++ "]: " ++ inner
  | .pageBeforeStart => "page starts before the first record"
  | .file operation path fault => operation ++ " " ++ path ++ ": " ++ fault.message

/-- The wording of a fault; no failure has none. -/
def message? : Fault → Option Text
  | [] => none
  | layer :: inside => some (layerMessage layer (message? inside))

/-- The wording of a fault. -/
def message (f : Fault) : Text := (message? f).getD []

/-- The fault inside the outermost layer, where it is the only one there. -/
def inner? : Fault → Option Fault
  | [] | [_] => none
  | .beside _ :: _ => none
  | _ :: inside => some inside

/-! ## Stage failures as faults -/

/-- The layer of a cause, if there is one. -/
def ofReason? (r : Option Reason) : Fault := (r.map Layer.reason).toList

/-- A failed bracket scan as a fault. -/
def ofDelimiter (e : DelimiterError) : Fault := .delimiter e :: ofReason? e.reason

/-- A missing argument as a fault. -/
def ofMissing (e : MissingArgument) : Fault := [.missingArgument e, .reason .missingArgument]

/-- A rendering failure as a fault. -/
def ofRendering (e : RenderError) : Fault := .rendering e :: ofReason? e.reason

/-- A limit that was reached as a fault. -/
def ofLimit (e : LimitError) : Fault := .limit e :: ofReason? e.reason

/-- A stage failure as a fault. -/
def ofStage : StageError → Fault
  | .delimiter e => ofDelimiter e
  | .cleaning e => .cleaning e.position e.context :: ofMissing e.missing
  | .markup e => [.markup e]
  | .rendering e => ofRendering e
  | .limit e => ofLimit e

/-- A report as a fault. -/
def ofReport (r : Report) : Fault :=
  .report r.category.name r.message r.position r.node :: ofStage r.cause

/-- An interrupted conversion as a fault; `why` is what is said when it was cancelled. -/
def ofInterrupted (i : Interrupted) (why : Fault := [.cancelled]) : Fault :=
  match i with
  | .cancelled => why
  | .failed r => ofReport r

/-! ## What kind of failure a fault is -/

/-- The category that a layer gives the fault. -/
def layerCategory? : Layer → Option Category
  | .cleaning _ _ | .missingArgument _ => some .cleaning
  | .delimiter _ => some .delimiter
  | .markup _ => some .markup
  | .rendering _ => some .rendering
  | .limit _ => some .limit
  | _ => none

/-- The category of a fault: of several, cleaning counts first, then brackets, syntax, rendering and
limits. -/
def category (f : Fault) : Category :=
  ([Category.cleaning, .delimiter, .markup, .rendering, .limit].find? fun c =>
    f.any (layerCategory? · == some c)).getD .unknown

/-- Whether a cause is in the fault. -/
def hasReason (f : Fault) (r : Reason) : Bool :=
  f.any fun
    | .reason r' => r' == r
    | _ => false

/-- The first of the listed causes that is in the fault. -/
def reason? (f : Fault) : Option Reason := Reason.all.find? f.hasReason

/-- The fault from its first report on. -/
def fromReport? : Fault → Option Fault
  | [] => none
  | .report c m p n :: inside => some (.report c m p n :: inside)
  | _ :: inside => fromReport? inside

/-- Whether the work was cancelled. -/
def isCancelled (f : Fault) : Bool :=
  f.any fun
    | .cancelled => true
    | _ => false

/-- Whether the time for the work was over. -/
def isDeadline (f : Fault) : Bool :=
  f.any fun
    | .deadline => true
    | _ => false

/-- Whether a record was not found. -/
def isNotFound (f : Fault) : Bool :=
  f.any fun
    | .notFound => true
    | _ => false

/-- Whether a recorder had been closed. -/
def isRecorderClosed (f : Fault) : Bool :=
  f.any fun
    | .recorderClosed => true
    | _ => false

/-- Whether a file does not exist. -/
def isNotExist (f : Fault) : Bool :=
  f.any fun
    | .file _ _ .notExist => true
    | _ => false

/-- Whether the input was too large. -/
def isTooLarge (f : Fault) : Bool :=
  f.any fun
    | .tooLarge _ _ => true
    | _ => false

/-- Whether a fault is about how the program was called or configured. -/
def isUsage (f : Fault) : Bool :=
  f.any fun
    | .usage _ | .configField _ _ | .validation _ => true
    | _ => false

/-- Whether the details of a fault have been printed. -/
def isPrinted (f : Fault) : Bool :=
  f.any fun
    | .printed => true
    | _ => false

/-! ## Reporting -/

/-- The place a report gives for a fault of a category, and the node. -/
def place (f : Fault) (c : Category) : Int × Option Node :=
  let found := f.findSome? fun
    | .cleaning p _ => if c == .cleaning then some (p, none) else none
    | .delimiter e => if c == .delimiter then some (e.position, none) else none
    | .markup e => if c == .markup then some (e.start, none) else none
    | .rendering e => if c == .rendering then some (e.position, e.node) else none
    | _ => none
  found.getD (-1, none)

/-- The wording a report gives to a fault of a category; `t` is the text of the failing stage. -/
def reportMessage (f : Fault) (c : Category) (t : Text) : Text :=
  match c with
  | .cleaning | .delimiter | .rendering => "Error: " ++ f.message
  | .markup =>
    (f.findSome? fun
      | .markup e => some (e.reportMessage t)
      | _ => none).getD []
  | .limit | .unknown => genericMessage

/-- A fault as a report: a fault that holds a report is that report. -/
def normalize (f : Fault) (t : Text) : Fault :=
  match f with
  | [] => []
  | _ =>
    match f.fromReport? with
    | some r => r
    | none =>
      let c := f.category
      let (position, node) := f.place c
      .report c.name (f.reportMessage c t) position node :: f

/-- The name of the kind of failure for metrics, records and answers. -/
def typeName (f : Fault) : Text :=
  match f with
  | [] => []
  | _ =>
    match f.fromReport? with
    | some (.report c _ _ _ :: _) => c
    | _ =>
      if f.isTooLarge then "input_too_large"
      else if f.isCancelled || f.isDeadline then "canceled"
      else f.category.name

/-- The exit code of a command that ends with a fault. -/
def exitCode (f : Fault) : Nat :=
  match f with
  | [] => 0
  | _ => if f.isUsage then 2 else 1

/-- What a command prints for a fault. -/
def printed (f : Fault) : Text :=
  match f.fromReport? with
  | some (.report _ m _ _ :: _) => m
  | _ => "Error: " ++ f.message

end Fault

end MathMarkup
