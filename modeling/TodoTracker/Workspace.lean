import TodoTracker.Files.Change
import TodoTracker.Git.Query
import TodoTracker.Task.Load

/-!
# Workspaces

A workspace is all that the program works on: the files, the task store, the time, what the status
program answers, what has been sighted so far, and what was said about the progress. It also says
how others interfere: which calls of the store are refused, and what they change whenever a task has
been created. A piece of work takes a workspace to the next one, also when it fails.
-/

set_option autoImplicit false

namespace TodoTracker

/-- The calls of the task store that can be refused. -/
inductive StoreCall
  | create
  | lookUp
  | append
  | remove
  deriving DecidableEq, Repr

/-- What a scan has found out about anchors. -/
structure Sightings where
  /-- Keys with the files in which they were sighted. -/
  confirmed : List (Text × Text) := []
  /-- The last sighting of each key. -/
  latest : Fields Anchor := []
  warnings : List Text := []

structure Workspace where
  disk : Disk
  store : StoredTasks
  now : Text
  git : Option Git.Answer
  sightings : Sightings
  /-- The lines that were written about the progress. -/
  progress : List Text
  /-- How many calls of the store there were. -/
  calls : Nat
  /-- Why the call with a number is refused. -/
  refusals : Nat → StoreCall → Option Text
  /-- What others change after every task that is created. -/
  afterCreate : List Change

/-- The directories that there are, and those that come to be when the store is saved and others
change files. -/
def Workspace.directories (w : Workspace) : List Location :=
  let tree := w.disk.tree
  let saved := match w.store.path.map fun path => tree.makeDirectories path.parent with
    | some (.ok made) => made
    | _ => tree
  let once := (saved.applyAll w.afterCreate).2
  let twice := (once.applyAll w.afterCreate).2
  [tree, saved, once, twice].flatMap FileTree.directories

abbrev Work := ExceptT Failure (StateM Workspace)

namespace Work

variable {α : Type}

/-- An answer that was found without touching the workspace. -/
def ofExcept : Except Failure α → Work α
  | .ok a => pure a
  | .error e => throw e

/-- Look at the files. -/
def look (f : FileTree → Except Failure α) : Work α := do ofExcept (f (← get).disk.tree)

/-- Change the disk. -/
def onDisk (f : Disk → Except Failure α × Disk) : Work α := do
  let (outcome, disk) := f (← get).disk
  modify fun w => { w with disk }
  ofExcept outcome

/-- Do some work that the store may refuse. -/
def attempt (work : Work α) : Work (Except StoreError α) :=
  tryCatch (Except.ok <$> work) fun failure => match failure with
    | .store error => pure (.error error)
    | failure => throw failure

/-- Do some work for which a file must be read or written, and be text. What is wrong with the file
is answered as a message. -/
def attemptFile (work : Work α) : Work (Except Text α) :=
  tryCatch (Except.ok <$> work) fun failure => match failure with
    | .file _ | .source _ _ => pure (.error failure.message)
    | failure => throw failure

def report (line : Text) : Work Unit := modify fun w => { w with progress := w.progress ++ [line] }

end Work

end TodoTracker
