import MathMarkup.Failure.Fault
import MathMarkup.Json.Value
import MathMarkup.Text.Space
import MathMarkup.Time.Duration

/-!
# Log lines

A log line is a message with a level and attributes, written as `key=value` text or as a JSON
object. Attributes are given as a list in which texts name the values that follow them.
-/

namespace MathMarkup.Telemetry

/-- The levels of messages. -/
inductive Level where
  | debug
  | info
  | warn
  | error
deriving DecidableEq, Repr

namespace Level

/-- The name of a level. -/
def name : Level → Text
  | debug => "DEBUG"
  | info => "INFO"
  | warn => "WARN"
  | error => "ERROR"

/-- The rank of a level. -/
def rank : Level → Nat
  | debug => 0
  | info => 1
  | warn => 2
  | error => 3

/-- Reads a level: its name in small or in capital letters; nothing is `info`. -/
def read (t : Text) : Except Fault Level :=
  if (Text.ofStrings ["debug", "DEBUG"]).contains t then .ok debug
  else if (Text.ofStrings ["info", "INFO", ""]).contains t then .ok info
  else if (Text.ofStrings ["warn", "WARN", "warning", "WARNING"]).contains t then .ok warn
  else if (Text.ofStrings ["error", "ERROR"]).contains t then .ok error
  else .error [.note "invalid log level", .plain ("unknown log level: " ++ t)]

end Level

/-- The formats of log lines. -/
inductive LogFormat where
  | json
  | text
deriving DecidableEq, Repr

/-- Reads a format: its name in small or in capital letters; nothing is JSON. -/
def LogFormat.read (t : Text) : Except Fault LogFormat :=
  if (Text.ofStrings ["json", "JSON", ""]).contains t then .ok json
  else if (Text.ofStrings ["text", "TEXT", "console", "CONSOLE"]).contains t then .ok text
  else .error [.note "invalid log format", .plain ("unknown log format: " ++ t)]

/-- The value of an attribute. -/
inductive LogValue where
  | null
  | bool (b : Bool)
  | int (n : Int)
  | text (t : Text)
  | texts (ts : List Text)
  | duration (d : Time.Duration)

/-- A named value. -/
abbrev Attribute := Text × LogValue

/-- The name of a value that was given without one. -/
def missingKey : Text := "!BADKEY"

/-- The values of a list in which texts name the values after them. A value without a name, and a
name without a value, stand under `missingKey`. -/
def named : List LogValue → List Attribute
  | [] => []
  | [v] => [(missingKey, v)]
  | .text k :: v :: rest => (k, v) :: named rest
  | v :: w :: rest => (missingKey, v) :: named (w :: rest)

/-- Whether an attribute says nothing: it has neither a name nor a value. -/
def isVoid : Attribute → Bool
  | ([], .null) => true
  | _ => false

/-- The attributes of a list in which texts name the values after them. -/
def attributes (vs : List LogValue) : List Attribute := (named vs).filter (!isVoid ·)

/-- One attribute. -/
def noting (key : Text) (v : LogValue) : List Attribute := [(key, v)]

/-- Something to be logged. -/
structure LogEntry where
  level : Level
  message : Text
  attributes : List Attribute := []

/-- An entry about something that failed. -/
def LogEntry.failure (level : Level) (message : Text) (as : List Attribute) (f : Fault) :
    LogEntry :=
  ⟨level, message, as ++ noting "error" (.text f.message)⟩

/-! ## Text lines -/

/-- Whether a character of a text makes quotes necessary. -/
def needsQuote (c : Char) : Bool :=
  if c.toNat < 0x80 then c == ' ' || c == '=' || c == '"' || c.toNat < 0x20
  else c == Text.replacementChar || Text.isSpaceChar c || !Text.isPrintable c

/-- A text as it stands in a line, between quotes if it has to be. -/
def lineText (t : Text) : Text := if t.isEmpty || t.chars.any needsQuote then t.quote else t

/-- A value in a text line. -/
def LogValue.line : LogValue → Text
  | null => "<nil>"
  | bool b => Json.boolText b
  | int n => Text.ofInt n
  | text t => lineText t
  | texts ts => lineText ("[" ++ Text.join " " ts ++ "]")
  | duration d => lineText (Time.Duration.text d)

/-! ## JSON lines -/

/-- A character in a string of a JSON line, where only what has to be is escaped. -/
def jsonChar (c : Char) : Text :=
  if c == '"' || c == '\\' then Text.byte '\\' :: Text.ofChar c
  else if c.toNat == 10 then "\\n"
  else if c.toNat == 13 then "\\r"
  else if c.toNat == 9 then "\\t"
  else if c.toNat < 0x20 || c.toNat == 0x2028 || c.toNat == 0x2029 then
    "\\u" ++ Text.hexFixed 4 c.toNat
  else Text.ofChar c

/-- A string of a JSON line; a byte that encodes nothing is the escape of the replacement
character. -/
def jsonString (t : Text) : Text :=
  "\""
    ++ (t.runes.flatMap fun r =>
      if r.isInvalid then Text.ofString "\\ufffd" else jsonChar r.char)
    ++ "\""

/-- A value in a JSON line. -/
def LogValue.json : LogValue → Text
  | null => "null"
  | bool b => Json.boolText b
  | int n => Text.ofInt n
  | text t => jsonString t
  | texts ts => (Json.array (ts.map Json.text)).compact
  | duration d => Text.ofInt d

/-! ## Loggers -/

/-- A logger: what it lets through, how it writes, and attributes that stand in every line. -/
structure Logger where
  level : Level
  format : LogFormat
  addSource : Bool := false
  context : List Attribute := []

namespace Logger

/-- The logger of a configuration. -/
def ofConfig (level format : Text) (addSource : Bool) : Except Fault Logger := do
  let level ← Level.read level
  let format ← LogFormat.read format
  pure { level, format, addSource }

/-- A logger with further attributes. -/
def withAttributes (l : Logger) (as : List Attribute) : Logger :=
  { l with context := l.context ++ as }

/-- The logger of a component. -/
def component (l : Logger) (name : Text) : Logger := l.withAttributes [("component", .text name)]

/-- A line with a time, the place of the call, a message and attributes; nothing if the level is not
let through. -/
def line (l : Logger) (level : Level) (time : Option Text) (source : Text) (message : Text)
    (as : List Attribute) : Text :=
  let all : List Attribute :=
    (time.map fun t => (Text.ofString "time", LogValue.text t)).toList
      ++ [(Text.ofString "level", .text level.name)]
      ++ (if l.addSource then [(Text.ofString "source", .text source)] else [])
      ++ [(Text.ofString "msg", .text message)] ++ l.context ++ as
  if level.rank < l.level.rank then []
  else
    match l.format with
    | .text => Text.join " " (all.map fun (k, v) => lineText k ++ "=" ++ v.line) ++ "\n"
    | .json =>
      "\x7b" ++ Text.join "," (all.map fun (k, v) => jsonString k ++ ":" ++ v.json) ++ "\x7d\n"

/-- The line of an entry. -/
def entryLine (l : Logger) (time : Option Text) (e : LogEntry) : Text :=
  l.line e.level time [] e.message e.attributes

end Logger

/-! ## Fields of a request -/

/-- What is known of the request that is worked on. -/
structure RequestContext where
  requestId : Text := []
  origin : Text := []
  traceId : Text := []
deriving DecidableEq, Repr

/-- The attributes of a request; what is not known is left out. -/
def RequestContext.attributes (c : RequestContext) : List Attribute :=
  ([("request_id", c.requestId), ("origin", c.origin), ("trace_id", c.traceId)].filter
    fun (_, v) => !v.isEmpty).map fun (k, v) => (Text.ofString k, .text v)

end MathMarkup.Telemetry
