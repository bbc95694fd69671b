import TodoTracker.Cli.Arguments

/-!
# The options of the program

The program has two commands, each with options of its own; further options stand in front of the
command.
-/

set_option autoImplicit false

namespace TodoTracker

inductive OutputFormat
  | text
  | json
  deriving DecidableEq, Repr

structure ScanArguments where
  paths : List Text := []
  create : Bool := false
  reanchor : Bool := false
  dryRun : Bool := false
  included : List Text := []
  excluded : List Text := []
  modifiedOnly : Bool := false
  stripAttributes : Option Bool := none
  noMentions : Bool := false
  radius : Option Int := none
  project : Text := []
  format : OutputFormat := .text
  /-- How much of each section of the text output is shown. -/
  maxSample : Int := 50
  deriving DecidableEq, Repr

structure AnchorsArguments where
  /-- The task to be shown; the empty text stands for all tasks. -/
  key : Text := []
  format : OutputFormat := .text
  deriving DecidableEq, Repr

inductive Command
  | scan (arguments : ScanArguments)
  | anchors (arguments : AnchorsArguments)
  deriving DecidableEq, Repr

structure ProgramArguments where
  repo : Text := ['.']
  tasksFile : Text := []
  quiet : Bool := false
  command : Option Command := none
  deriving DecidableEq, Repr

namespace Cli

variable {α : Type}

def names (given : List String) : List Text := given.map String.toList

def helpOption : OptionSpec α := ⟨names ["-h", "--help"], .help⟩

/-- An option without a value. -/
def switch (name : String) (set : α → α) : OptionSpec α := ⟨names [name], .switch fun _ => set⟩

def textOption (name : String) (set : Text → α → α) : OptionSpec α :=
  ⟨names [name], .value fun value result => .ok (set value result)⟩

def integerOption (name : String) (set : Int → α → α) : OptionSpec α :=
  ⟨names [name], .value fun value result =>
    match Text.readInt? value with
    | some n => .ok (set n result)
    | none => .error (.notInteger value)⟩

def formatOption (set : OutputFormat → α → α) : OptionSpec α :=
  ⟨names ["--format"], .value fun value result =>
    if value = "json".toList then .ok (set .json result)
    else if value = "text".toList then .ok (set .text result)
    else .error (.notAmong value (names ["json", "text"]))⟩

def lines (given : List String) : Text := given.flatMap fun line => line.toList ++ ['\n']

def programHelp : Text := lines
  ["usage: anchorscan [-h] [--repo REPO] [--tasks-file TASKS_FILE] [--quiet]",
   "                  \x7bscan,anchors\x7d ...",
   "",
   "Source TODO scanner and code anchor tracker",
   "",
   "positional arguments:",
   "  \x7bscan,anchors\x7d",
   "    scan                Scan comments, create tasks and update anchors",
   "    anchors             List recorded code anchors",
   "",
   "options:",
   "  -h, --help            show this help message and exit",
   "  --repo REPO           Repo root (default: .)",
   "  --tasks-file TASKS_FILE",
   "                        Task store JSON (default: <repo>/.tasks/tasks.json)",
   "  --quiet               Suppress progress output on stderr"]

def scanHelp : Text := lines
  ["usage: anchorscan scan [-h] [--create] [--reanchor] [--dry-run]",
   "                       [--include INCLUDE] [--exclude EXCLUDE]",
   "                       [--modified-only]",
   "                       [--strip-attributes | --no-strip-attributes]",
   "                       [--no-mentions] [--radius RADIUS] [--project PROJECT]",
   "                       [--workers WORKERS] [--format \x7bjson,text\x7d]",
   "                       [--max-sample MAX_SAMPLE]",
   "                       [paths ...]",
   "",
   "positional arguments:",
   "  paths                 Scan roots (default: repo root)",
   "",
   "options:",
   "  -h, --help            show this help message and exit",
   "  --create              Create tasks for markers without a key",
   "  --reanchor            Keep only the most recently confirmed anchor per task,",
   "                        across files",
   "  --dry-run             Report actions without writing files or tasks",
   "  --include INCLUDE     Only scan these extensions (comma list, repeatable)",
   "  --exclude EXCLUDE     Skip these extensions (comma list, repeatable; wins",
   "                        over --include)",
   "  --modified-only       Only scan files git reports as changed or untracked",
   "  --strip-attributes, --no-strip-attributes",
   "                        Remove [key=value] blocks once absorbed, and stale",
   "                        keys (default: from config)",
   "  --no-mentions         Do not anchor existing keys found in comments",
   "  --radius RADIUS       Nearby-window search radius in lines",
   "  --project PROJECT     Project prefix for new task keys",
   "  --workers WORKERS     Parallel file workers (default: CPU count capped at 8)",
   "  --format \x7bjson,text\x7d",
   "  --max-sample MAX_SAMPLE",
   "                        Text output cap per section"]

def anchorsHelp : Text := lines
  ["usage: anchorscan anchors [-h] [--format \x7bjson,text\x7d] [key]",
   "",
   "positional arguments:",
   "  key                   Task key (default: all tasks)",
   "",
   "options:",
   "  -h, --help            show this help message and exit",
   "  --format \x7bjson,text\x7d"]

def scanLine : CommandLine ScanArguments where
  program := "anchorscan scan".toList
  help := scanHelp
  options := [
    helpOption,
    switch "--create" fun r => { r with create := true },
    switch "--reanchor" fun r => { r with reanchor := true },
    switch "--dry-run" fun r => { r with dryRun := true },
    textOption "--include" fun v r => { r with included := r.included ++ [v] },
    textOption "--exclude" fun v r => { r with excluded := r.excluded ++ [v] },
    switch "--modified-only" fun r => { r with modifiedOnly := true },
    ⟨names ["--strip-attributes", "--no-strip-attributes"], .switch fun name r =>
      { r with stripAttributes := some (name = "--strip-attributes".toList) }⟩,
    switch "--no-mentions" fun r => { r with noMentions := true },
    integerOption "--radius" fun n r => { r with radius := some n },
    textOption "--project" fun v r => { r with project := v },
    integerOption "--workers" fun _ r => r,
    formatOption fun format r => { r with format },
    integerOption "--max-sample" fun n r => { r with maxSample := n }]
  operands := .many fun paths r => { r with paths }

def anchorsLine : CommandLine AnchorsArguments where
  program := "anchorscan anchors".toList
  help := anchorsHelp
  options := [helpOption, formatOption fun format r => { r with format }]
  operands := .atMostOne fun key r => { r with key }

def programName : Text := "anchorscan".toList

/-- Read the arguments of a command. -/
def readCommand (name : Text) (arguments : List Text) (result : ProgramArguments) :
    Except Stop (ProgramArguments × List Text) :=
  if name = "scan".toList then do
    let (scan, unrecognized) ← scanLine.parse {} arguments
    return ({ result with command := some (.scan scan) }, unrecognized)
  else if name = "anchors".toList then do
    let (anchors, unrecognized) ← anchorsLine.parse {} arguments
    return ({ result with command := some (.anchors anchors) }, unrecognized)
  else
    let usage := programHelp.take (((Text.indexOf? ['\n', '\n'] programHelp).getD 0) + 1)
    let flaw := ArgumentFlaw.value (.notAmong name (names ["scan", "anchors"]))
    .error (.misuse programName usage (.argument "command".toList flaw))

def programLine : CommandLine ProgramArguments where
  program := programName
  help := programHelp
  options := [
    helpOption,
    textOption "--repo" fun v r => { r with repo := v },
    textOption "--tasks-file" fun v r => { r with tasksFile := v },
    switch "--quiet" fun r => { r with quiet := true }]
  operands := .command readCommand

/-- What the arguments of the program say. Arguments that no command recognizes are refused. -/
def readArguments (arguments : List Text) : Except Stop ProgramArguments := do
  let (result, unrecognized) ← programLine.parse {} arguments
  if unrecognized.isEmpty then return result
  programLine.misuse (.unrecognized unrecognized)

end Cli

end TodoTracker
