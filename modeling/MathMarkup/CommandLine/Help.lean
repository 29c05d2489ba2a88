import MathMarkup.CommandLine.Command
import MathMarkup.Text.Space

/-!
# Help

What the program says about its commands: what each is for, how it is called, the commands under it
and its options, in aligned columns and in the order of their names.
-/

namespace MathMarkup.CommandLine

namespace CommandOption

/-- The word for the value of an option. -/
def valueWord : OptionKind → Text
  | .switch => []
  | .text => " string"
  | .int => " int"
  | .texts => " stringArray"

/-- How an option is written. -/
def written (o : CommandOption) : Text :=
  (match o.letter with
    | some b => "  -" ++ [b] ++ ", --"
    | none => "      --") ++ o.name ++ valueWord o.kind

/-- The lines about options, in the order of their names. -/
def lines (os : List CommandOption) : Text :=
  let os := os.mergeSort fun a b => !decide (b.name < a.name)
  let width := (os.map fun o => o.written.length).foldl max 0
  os.flatMap fun o =>
    o.written.padRight (width + 3) ++ o.about
      ++ Text.when (!o.standard.isEmpty) (" (default " ++ o.standard.quote ++ ")") ++ "\n"

end CommandOption

namespace Command

/-- What a command is for, in a line. -/
def short : Command → Text
  | program => "Convert LaTeX-style math markup to solver syntax"
  | convert => "Convert markup to solver syntax"
  | clean => "Run only the cleaning stage"
  | serve => "Start the HTTP conversion API"
  | watch => "Convert markup files as they change"
  | history => "Inspect the conversion history"
  | list => "List recorded conversions"
  | showOne => "Show one recorded conversion"
  | exportAll => "Export recorded conversions"
  | prune => "Delete records outside the retention policy"
  | version => "Print version information"
  | help => "Help about any command"
  | completion => "Generate the autocompletion script for the specified shell"

/-- What a command is for, at length. -/
def about : Command → List String
  | program => [
    "texsolve converts LaTeX-style math markup into the plain syntax accepted by",
    "the solver.",
    "",
    "Conversion runs in three stages: the markup is cleaned of presentation-only",
    "commands, parsed into an expression tree and translated. Failures are",
    "reported as delimiter, cleaning, syntax or translation errors.",
    "",
    "Conversions run from the command line, through the HTTP API (serve) or on",
    "file changes (watch), and are recorded in the conversion history."]
  | convert => [
    "Convert LaTeX-style markup to solver syntax.",
    "",
    "Each argument, file and standard input is converted separately. Failed",
    "conversions print their error message and make the command exit with",
    "status 1.",
    "",
    "Examples:",
    "  # Convert an expression",
    "  texsolve convert '\\frac\x7b2\x7d\x7b3\x7d'",
    "",
    "  # Convert files, showing progress",
    "  texsolve convert --file a.tex --file b.tex --progress",
    "",
    "  # Convert standard input and print JSON with the cleaned markup",
    "  echo '\\textcolor\x7bred\x7d\x7bx^2\x7d' | texsolve convert --stdin --format json"
      ++ " --show-cleaned"]
  | clean => [
    "Strip presentation-only commands (colors, spacing, text boxes) from markup",
    "and print the cleaned text without parsing it.",
    "",
    "Examples:",
    "  texsolve clean '\\textcolor\x7bprimary\x7d\x7b2x+3\x7d'",
    "  texsolve clean --file problem.tex --format json"]
  | serve => [
    "Start the HTTP API.",
    "",
    "Endpoints:",
    "  POST /v1/convert        convert \x7b\"input\": \"...\"\x7d",
    "  POST /v1/clean          run only the cleaning stage",
    "  GET  /v1/history        query recorded conversions",
    "  GET  /v1/history/\x7bid\x7d   fetch one recorded conversion",
    "  GET  /healthz, /readyz  liveness and readiness probes",
    "  GET  /metrics           Prometheus metrics",
    "",
    "The server shuts down gracefully on SIGINT or SIGTERM.",
    "",
    "Examples:",
    "  # Start with default config",
    "  texsolve serve",
    "",
    "  # Override listen address",
    "  texsolve serve --listen 0.0.0.0:8080",
    "",
    "  # Validate config without starting server",
    "  texsolve serve --dry-run"]
  | watch => [
    "Watch a directory tree and convert markup files whenever they are written.",
    "",
    "Each <name>.tex is converted to <name>.solver next to it. When a conversion",
    "fails, <name>.err holds the error message instead. Existing files are",
    "converted once at startup.",
    "",
    "Examples:",
    "  # Watch the configured directory",
    "  texsolve watch",
    "",
    "  # Convert everything under ./problems once and exit",
    "  texsolve watch ./problems --once"]
  | history => [
    "Query, export and prune recorded conversions.",
    "",
    "Subcommands:",
    "  list    - List records matching filters",
    "  show    - Show one record",
    "  export  - Export records as JSON, JSON Lines or CSV",
    "  prune   - Apply the retention policy now",
    "",
    "Examples:",
    "  # Failed conversions of the last day",
    "  texsolve history list --status error --since 24h",
    "",
    "  # Export syntax errors to CSV",
    "  texsolve history export --error-type syntax --format csv -o syntax.csv"]
  | exportAll => [
    "Export records matching the filters. Without --limit, up to the",
    "configured maximum are exported."]
  | prune => [
    "Delete records older than the retention period and the oldest records",
    "beyond the record limit. Flags override the configured policy."]
  | version => ["Print detailed version information including Git commit and build date."]
  | help => [
    "Help provides help for any command in the application.",
    "Simply type texsolve help [path to command] for full details."]
  | completion => [
    "Generate the autocompletion script for texsolve for the specified shell.",
    "See each sub-command's help for details on how to use the generated script."]
  | list | showOne => []

/-- The description in front of the help for a command: what it is for, at length if there is more
to say than a line. -/
def description (c : Command) : Text :=
  match c.about with
  | [] => c.short
  | ls => Text.join "\n" (Text.ofStrings ls)

/-- The arguments in the line that shows how a command is called. -/
def argumentWords : Command → Text
  | convert | clean => " [markup...]"
  | watch => " [dir]"
  | showOne => " <id>"
  | help => " [command]"
  | _ => []

/-- The commands under a command that its help lists, with what they are for. -/
def listed (c : Command) : List (Text × Text) :=
  let entries : List (Text × Text) := match c with
    | completion => (Text.ofStrings ["bash", "fish", "powershell", "zsh"]).map fun shell =>
      (shell, "Generate the autocompletion script for " ++ shell)
    | _ => c.under.map fun d => (d.word, d.short)
  entries.mergeSort fun a b => !decide (b.1 < a.1)

/-- The least width of the column of commands. -/
def listedWidth : Nat := 11

/-- The lines about the commands under a command. -/
def listedLines (c : Command) : Text :=
  let width := (c.listed.map fun e => e.1.length).foldl max listedWidth
  c.listed.flatMap fun (w, about) => "  " ++ w.padRight width ++ " " ++ about ++ "\n"

/-- How a command is used. -/
def usage (c : Command) : Text :=
  let hasUnder := !c.listed.isEmpty
  let own := if c = program then c.options else c.ownOptions ++ c.questionOptions
  "Usage:\n"
    ++ Text.when c.isRunnable ("  " ++ c.path ++ c.argumentWords ++ " [flags]\n")
    ++ Text.when hasUnder ("  " ++ c.path ++ " [command]\n\nAvailable Commands:\n" ++ c.listedLines)
    ++ "\nFlags:\n" ++ CommandOption.lines own
    ++ Text.when (c ≠ program) ("\nGlobal Flags:\n" ++ CommandOption.lines commonOptions)
    ++ Text.when hasUnder
      ("\nUse \"" ++ c.path ++ " [command] --help\" for more information about a command.\n")

/-- The help for a command. -/
def helpText (c : Command) : Text := c.description ++ "\n\n" ++ c.usage

/-- The help for the command that words lead to. -/
def helpFor (words : List Text) : Text :=
  match find words with
  | .ok (c, _) => c.helpText
  | .error _ =>
    "Unknown help topic [" ++ Text.join " " (words.map fun w => "`" ++ w ++ "`") ++ "]\n"
      ++ program.usage

end Command

end MathMarkup.CommandLine
