import MathMarkup.CommandLine.Recording
import MathMarkup.History.Export
import MathMarkup.Output.Format

/-!
# Inspecting the history

The commands that list, show, export and prune records.
-/

namespace MathMarkup.CommandLine

open History (Store Record Query ExportFormat)
open Output (Format Data Table)
open Telemetry (noting)

/-! ## Queries -/

/-- A fault as one of how the command was called. -/
def asUsage {α : Type} : Except Fault α → Except Fault α
  | .ok a => .ok a
  | .error f => .error [.usage f.message]

/-- The parameters of a query and the options that give them. -/
def queryOptionNames : List (Text × Text) :=
  [("since", "since"), ("until", "until"), ("status", "status"), ("error_type", "error-type"),
    ("origin", "origin"), ("input_hash", "input-hash"), ("sort_by", "sort-by"),
    ("sort_order", "sort-order")]

/-- The parameters that the options of a command give, with a limit. Empty texts and zeros ask for
nothing. -/
def queryValues (g : Given) (limit : Int) : Query.Values :=
  let texts := queryOptionNames.filterMap fun (name, option) =>
    match g.text option [] with
    | [] => none
    | v => some (name, [v])
  let number (name : Text) (n : Int) : Query.Values :=
    if n = 0 then [] else [(name, [Text.ofInt n])]
  texts ++ number "limit" limit ++ number "offset" (g.int "offset")
    ++ [(Text.ofString "id", g.texts "id")]

/-- The query that the options of a command ask for. -/
def Setup.query (s : Setup) (limit : Int) : Action Query := do
  let now ← s.world.now
  Action.attempt (asUsage
    ((Query.ofValues (queryValues s.given limit) now.instant).bind
      fun q => q.prepared s.config.history.query))

/-! ## Listing -/

/-- The longest part of an input that stands in a list. -/
def listedInput : Int := 40

/-- Records as a table with a row for each. -/
def recordTable (rs : List Record) : Table where
  headers :=
    Text.ofStrings ["id", "created_at", "origin", "status", "error_type", "duration", "input"]
  rows := rs.map fun r =>
    [r.id, r.createdAt.secondsText, r.origin, r.status, r.errorType, Time.Duration.text r.duration,
      History.shorten r.input listedInput]

/-- Lists records. -/
def runList (s : Setup) : Action Unit := do
  let format ← Action.attempt (Format.read (s.given.text "format" Format.text.name) [])
  let q ← s.query (s.given.int "limit")
  s.withStore fun x => do
    let layer : Layer := .command "history list"
    let rs ← Action.attemptFor layer (Store.storage.query x q)
    if format == Format.json.name then
      let total ← Action.attemptFor layer (Store.storage.count x q)
      Action.print ((Json.object [("records", .array (rs.map Record.json)),
        ("total", .int total)]).indented ++ "\n")
    else
      Action.print
        (← Action.attempt ((Data.table (recordTable rs)).write (Format.ofName format) false))
    return (x, [])

/-! ## Showing -/

/-- A line with a name and a value. -/
def namedValue (name value : Text) : List Text := [name ++ ":", value]

/-- A record as lines of names and values. -/
def recordLines (r : Record) : Table where
  rows :=
    [namedValue "id" r.id, namedValue "request_id" r.requestId,
      namedValue "created_at" r.createdAt.text, namedValue "origin" r.origin,
      namedValue "status" r.status]
    ++ (if r.failed then [namedValue "error_type" r.errorType, namedValue "error" r.errorMessage]
      else [])
    ++ [namedValue "duration" (Time.Duration.text r.duration),
      namedValue "clean_passes" (Text.ofInt r.cleanPasses), namedValue "input_hash" r.inputHash,
      namedValue "input" r.input, namedValue "cleaned" r.cleaned, namedValue "output" r.output]

/-- Shows a record. -/
def runShow (s : Setup) : Action Unit := do
  let format ← Action.attempt (Format.read (s.given.text "format" Format.text.name)
    [Format.text.name, Format.json.name])
  let id := s.given.arguments.headD []
  s.withStore fun x => do
    match Store.storage.get x id with
    | .error f =>
      return (x, if f.isNotFound then [.plain ("no history record with id " ++ id.quote)]
        else .command "history show" :: f)
    | .ok r =>
      Action.print (if format == Format.json.name then r.json.indented ++ "\n"
        else (recordLines r).text)
      return (x, [])

/-! ## Exporting -/

/-- Exports records to the standard output or to a file. -/
def runExport (s : Setup) : Action Unit := do
  let format ← Action.attempt (asUsage
    (ExportFormat.ofName (s.given.text "format" "json") (s.given.isOn "pretty")))
  let limit := s.given.int "limit"
  let q ← s.query (if limit = 0 then s.config.history.query.maxLimit else limit)
  s.withStore fun x => do
    let layer : Layer := .command "history export"
    let rs ← Action.attemptFor layer (Store.storage.query x q)
    let path := s.given.text "output" []
    let put (t : Text) : Action Unit := do
      Action.setFiles (← Action.attemptFor layer ((← Action.files).write path t))
    if !path.isEmpty then put []
    let sink ← Action.attemptFor layer (History.Export.write format none rs {})
    if path.isEmpty then Action.print sink.written
    else
      put sink.written
      Action.warn ("✓ Exported " ++ Text.ofNat rs.length ++ " records to " ++ path ++ "\n")
    return (x, [])

/-! ## Pruning -/

/-- The policy of the configuration with the limits that the command is given. -/
def policyGiven (g : Given) (p : RetentionConfig) : RetentionConfig :=
  { p with
    days := if g.has "days" then g.int "days" else p.days
    maxRecords := if g.has "max-records" then g.int "max-records" else p.maxRecords }

/-- The name of the component that prunes. -/
def retentionComponent : Text := "history.retention"

/-- Removes the records that the policy does not keep. -/
def runPrune (s : Setup) : Action Unit := do
  if s.given.int "days" < 0 || s.given.int "max-records" < 0 then
    throw [.usage "--days and --max-records must be >= 0"]
  let p := policyGiven s.given s.config.history.retention
  if p.days = 0 && p.maxRecords = 0 then
    throw [.usage "no retention limit: set --days or --max-records"]
  s.withStore fun x => do
    let now ← s.world.now
    let prune (p : RetentionConfig) :=
      History.Retention.prune s.world.calendar Store.storage p now.instant x
    let done := prune p
    if !done.fault.isEmpty then return (done.state, .command "history prune" :: done.fault)
    let aged := (prune { p with maxRecords := 0 }).deleted
    if p.days > 0 then
      s.log retentionComponent ⟨.debug, "pruned records by age",
        noting "deleted_count" (.int aged)
          ++ noting "cutoff_time" (.text (Time.Stamp.millisText
            { now with instant := History.Retention.cutoff s.world.calendar p now.instant }))⟩
    if done.deleted > aged then
      s.log retentionComponent ⟨.debug, "pruned records by count",
        noting "deleted_count" (.int (done.deleted - aged))
          ++ noting "max_records" (.int p.maxRecords)⟩
    if done.deleted > 0 then
      s.log retentionComponent ⟨.info, "history pruning completed",
        noting "total_deleted" (.int done.deleted) ++ noting "retention_days" (.int p.days)
          ++ noting "max_records" (.int p.maxRecords)⟩
    Action.print ("✓ Pruned " ++ Text.ofNat done.deleted ++ " records\n")
    return (done.state, [])

end MathMarkup.CommandLine
