import MathMarkup.CommandLine.Options
import MathMarkup.Failure.Fault
import MathMarkup.Text.Distance

/-!
# Commands

The commands form a tree under the name of the program. A command is found by the words among the
arguments before the options are read; each command has options of its own beside those of all.
-/

namespace MathMarkup.CommandLine

/-- The commands. -/
inductive Command where
  | program
  | convert
  | clean
  | serve
  | watch
  | history
  | list
  | showOne
  | exportAll
  | prune
  | version
  | help
  | completion
deriving DecidableEq, Repr

namespace Command

/-- The word for a command. -/
def word : Command → Text
  | program => "texsolve"
  | convert => "convert"
  | clean => "clean"
  | serve => "serve"
  | watch => "watch"
  | history => "history"
  | list => "list"
  | showOne => "show"
  | exportAll => "export"
  | prune => "prune"
  | version => "version"
  | help => "help"
  | completion => "completion"

/-- The commands under a command. -/
def under : Command → List Command
  | program => [convert, clean, serve, watch, history, version, help, completion]
  | history => [list, showOne, exportAll, prune]
  | _ => []

/-- The words on the way to a command. -/
def path (c : Command) : Text :=
  match c with
  | program => c.word
  | list | showOne | exportAll | prune => program.word ++ " " ++ history.word ++ " " ++ c.word
  | _ => program.word ++ " " ++ c.word

/-- A switch. -/
def switch (name about : Text) : CommandOption := { name, about, kind := .switch }

/-- An option with a text. -/
def worded (name about : Text) (standard : Text := []) : CommandOption := { name, about, standard }

/-- An option with a number. -/
def numbered (name about : Text) : CommandOption := { name, about, kind := .int }

/-- An option that may be given several times. -/
def repeated (name about : Text) : CommandOption := { name, about, kind := .texts }

/-- An option that a letter stands for as well. -/
def lettered (letter : Char) (o : CommandOption) : CommandOption :=
  { o with letter := some (Text.byte letter) }

/-- The options of all commands. -/
def commonOptions : List CommandOption :=
  [lettered 'c' (worded "config" "config file path (defaults apply when missing)" "texsolve.yaml"),
    lettered 'v' (switch "verbose" "verbose output")]

/-- The options that say where markup is read from. -/
def inputOptions : List CommandOption :=
  [lettered 'f' (repeated "file" "read markup from file (repeatable)"),
    switch "stdin" "read markup from standard input"]

/-- The options that select records. -/
def queryOptions : List CommandOption :=
  [worded "since" "only records at or after this time (RFC 3339 or a duration such as 24h)",
    worded "until" "only records at or before this time (RFC 3339 or a duration)",
    repeated "id" "filter by record ID (repeatable)", worded "status" "filter by status: ok, error",
    worded "error-type" "filter by error type (delimiter, cleaning, syntax, translation, ...)",
    worded "origin" "filter by origin: cli, http, watch",
    worded "input-hash" "filter by SHA-256 of the input",
    numbered "limit" "max results (default from config)", numbered "offset" "pagination offset",
    worded "sort-by" "sort field: created_at, duration",
    worded "sort-order" "sort order: asc, desc"]

/-- The options of a command alone. -/
def ownOptions : Command → List CommandOption
  | convert => inputOptions ++ [worded "format" "output format: text, json" "text",
      switch "show-cleaned" "also print the cleaned markup",
      switch "progress" "report progress on stderr when converting several inputs"]
  | clean => inputOptions ++ [worded "format" "output format: text, json" "text"]
  | serve => [lettered 'l' (worded "listen" "override listen address"),
      switch "dry-run" "validate config without starting server"]
  | watch => [switch "once" "convert existing files and exit",
      worded "suffix" "override the output file suffix"]
  | list => queryOptions ++ [worded "format" "output format: text, json, csv" "text"]
  | showOne => [worded "format" "output format: text, json" "text"]
  | exportAll =>
    queryOptions ++ [worded "format" "export format: json, jsonl, csv" "json",
      switch "pretty" "indent JSON output",
      lettered 'o' (worded "output" "output file (default: stdout)")]
  | prune => [numbered "days" "delete records older than this many days",
      numbered "max-records" "keep at most this many records"]
  | _ => []

/-- The options that are known while the command is looked for. -/
def searchOptions (c : Command) : List CommandOption := c.ownOptions ++ commonOptions

/-- The options that ask about a command instead of running it. -/
def questionOptions (c : Command) : List CommandOption :=
  lettered 'h' (switch "help" ("help for " ++ c.word))
    :: (if c = program then [switch "version" ("version for " ++ c.word)] else [])

/-- The options that a command reads. -/
def options (c : Command) : List CommandOption := c.searchOptions ++ c.questionOptions

/-- Whether a command does something itself. -/
def isRunnable : Command → Bool
  | program | history | completion => false
  | _ => true

/-- What is wrong with the number of arguments of a command. -/
def argumentFault? (c : Command) (args : List Text) : Option Text :=
  let received := Text.ofNat args.length
  match c with
  | serve | list | exportAll | prune | version =>
    args.head?.map fun a => "unknown command " ++ a.quote ++ " for " ++ c.path.quote
  | showOne =>
    if args.length = 1 then none else some ("accepts 1 arg(s), received " ++ received)
  | watch =>
    if args.length ≤ 1 then none else some ("accepts at most 1 arg(s), received " ++ received)
  | _ => none

/-! ## Finding -/

/-- The command that arguments ask for, and the arguments without its words; `depth` bounds the
length of the way to it. -/
def findWithin : Nat → Command → List Text → Command × List Text
  | 0, c, args => (c, args)
  | depth + 1, c, args =>
    match plainWords c.searchOptions false args with
    | [] => (c, args)
    | w :: _ =>
      match c.under.find? fun d => d.word == w with
      | some d => findWithin depth d (withoutWord c.searchOptions w false args)
      | none => (c, args)

/-- How far a word may be from a command to be taken for a misspelling. -/
def misspelling : Nat := 2

/-- A word as it is compared to commands. -/
def spelling (t : Text) : List Char := t.toLower.map fun b => Char.ofNat b.toNat

/-- The commands that a word may have been meant for. -/
def meant (w : Text) : List Command :=
  (program.under.filter (· ≠ help)).filter fun c =>
    Text.editDistance (spelling w) (spelling c.word) ≤ misspelling
      || (spelling w).isPrefixOf (spelling c.word)

/-- The question that lists commands that may have been meant. -/
def didYouMean (w : Text) : Text :=
  match meant w with
  | [] => []
  | cs => "\n\nDid you mean this?\n" ++ cs.flatMap fun c => "\t" ++ c.word ++ "\n"

/-- The command that arguments ask for and the arguments for it. -/
def find (args : List Text) : Except Fault (Command × List Text) :=
  let (c, rest) := findWithin 3 program args
  match c, plainWords c.searchOptions false rest with
  | program, w :: _ =>
    .error [.plain ("unknown command " ++ w.quote ++ " for " ++ program.path.quote ++ didYouMean w)]
  | c, _ => .ok (c, rest)

end Command

end MathMarkup.CommandLine
