import TodoTracker.Cli.Options
import TodoTracker.Cli.Output
import TodoTracker.Settings.Load

/-!
# The commands

Both commands take the settings of the repository and its task store; what is wrong with these is
reported in one line. A scan prints its report; the other command lists the anchors of one task or
of all. The exit status is 2 after a failure and after arguments that are not understood, and 1
when no command is given.
-/

set_option autoImplicit false

namespace TodoTracker.Cli

/-- What a command prints, and its exit status. -/
structure CommandResult where
  status : Nat
  output : Text := []
  errors : Text := []
  deriving DecidableEq, Repr

/-- A failure that is reported in one line. -/
def failed (message : Text) : CommandResult where
  status := 2
  errors := (Json.object [("error".toList, .str message)]).printLine ++ ['\n']

def ofStop : Stop → CommandResult
  | .help text => { status := 0, output := text }
  | .misuse program usage error =>
    { status := 2
      errors := usage ++ program ++ ": error: ".toList ++ error.message ++ ['\n'] }

/-- Settings with those that are given as arguments. -/
def override (settings : Settings) (arguments : ScanArguments) : Settings :=
  { settings with
    stripAttributes := arguments.stripAttributes.getD settings.stripAttributes
    searchRadius := arguments.radius.getD settings.searchRadius
    project :=
      if arguments.project.isEmpty then settings.project
      else Text.upper (Text.trim arguments.project)
    mentions := settings.mentions && !arguments.noMentions }

def defaultTasksFile : Text := ".tasks/tasks.json".toList

/-- The file of the task store: the one that is given, from the working directory, or else the usual
one in the repository. -/
def tasksPath (tree : FileTree) (cwd : Location) (repo : Path) (given : Text) :
    Except Failure Path :=
  let path := Path.ofText given
  if given.isEmpty then .ofLocation <$> tree.resolve (repo.join (.ofText defaultTasksFile))
  else if path.isAbsolute then .ok path
  else .ofLocation <$> tree.resolve ((Path.ofLocation cwd).join path)

/-- Whether a failure to prepare a command is reported in one line. -/
def isSetupError : Failure → Bool
  | .settings _ | .store _ => true
  | _ => false

/-- Do some work, some of whose failures are answered as messages. -/
def attemptWhere {α : Type} (handled : Failure → Bool) (work : Work α) :
    Work (Except Text α) :=
  tryCatch (Except.ok <$> work) fun failure =>
    if handled failure then pure (.error failure.message) else throw failure

/-- Open the task store of a repository with its settings; the answer is the settings with their
warnings. -/
def setUp (cwd repo : Location) (program : ProgramArguments) (adapt : Settings → Settings) :
    Work (Settings × List Text) := do
  let (settings, warnings) ← Work.look (Settings.load · (.ofLocation repo))
  let settings := adapt settings
  let path ← Work.look (tasksPath · cwd (.ofLocation repo) program.tasksFile)
  let w ← get
  let store ← Work.ofExcept (StoredTasks.load w.disk.tree (some path) settings.project w.now)
  set { w with store }
  return (settings, warnings)

/-- The location of a path that is given as an argument. -/
def locate (cwd : Location) (given : Text) : Work Location :=
  Work.look (·.resolve ((Path.ofLocation cwd).join (.ofText given)))

def scanCommand (cwd : Location) (program : ProgramArguments) (arguments : ScanArguments) :
    Work CommandResult := do
  let repo ← locate cwd program.repo
  if !(← Work.look (·.isDirectory (.ofLocation repo))) then
    return failed ("Repo not found: ".toList ++ Location.text repo)
  match ← attemptWhere isSetupError (setUp cwd repo program (override · arguments)) with
  | .error message => return failed message
  | .ok (settings, warnings) => do
    let roots ← arguments.paths.mapM (locate cwd)
    let options : ScanRequest := {
      roots := roots.map .ofLocation
      createTasks := arguments.create
      reanchor := arguments.reanchor
      dryRun := arguments.dryRun
      included := Selection.readExtensions arguments.included
      excluded := Selection.readExtensions arguments.excluded
      modifiedOnly := arguments.modifiedOnly
      showProgress := !program.quiet }
    match ← attemptWhere Failure.isBadValue (scanRepository repo settings options) with
    | .error message => return failed message
    | .ok report =>
      let report := { report with warnings := warnings ++ report.warnings }
      let output := match arguments.format with
        | .json => report.toJson.print
        | .text => report.showText (max 1 arguments.maxSample).toNat
      return { status := 0, output := output ++ ['\n'] }

/-- The anchors of a task as they are listed. -/
def showAnchors (key : Text) (codes : List Text) : Text :=
  let shown := if codes.isEmpty then ["(none)".toList] else codes
  key ++ ":\n".toList ++ shown.flatMap fun code => "  ".toList ++ code ++ ['\n']

/-- The codes of the anchors of each key. -/
def listAnchors (keys : List Text) : Work (Fields (List Text)) :=
  keys.mapM fun key => do return (key, (← Tasks.anchors key).map Anchor.code)

def anchorsCommand (cwd : Location) (program : ProgramArguments) (arguments : AnchorsArguments) :
    Work CommandResult := do
  let repo ← locate cwd program.repo
  match ← attemptWhere isSetupError (setUp cwd repo program id) with
  | .error message => return failed message
  | .ok _ => do
    let key := arguments.key
    if !key.isEmpty && !(← Tasks.document).tasks.has key then
      return failed ("Task not found: ".toList ++ key)
    let keys ← if key.isEmpty then Tasks.anchored else pure [key]
    let listing ← listAnchors keys
    let output := match arguments.format with
      | .json =>
        (Json.object (listing.map fun entry => (entry.1, .list (entry.2.map .str)))).print ++
          ['\n']
      | .text => listing.flatMap fun entry => showAnchors entry.1 entry.2
    return { status := 0, output }

/-- Run the program in a working directory. -/
def run (cwd : Location) (arguments : List Text) : Work CommandResult :=
  match readArguments arguments with
  | .error stop => return ofStop stop
  | .ok program =>
    match program.command with
    | none => return { status := 1, output := programHelp }
    | some (.scan scan) => scanCommand cwd program scan
    | some (.anchors anchors) => anchorsCommand cwd program anchors

end TodoTracker.Cli
