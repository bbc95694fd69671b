import TodoTracker.Files.Access
import TodoTracker.Git.Status
import TodoTracker.Text.Blank

/-!
# Asking for the status

The repository of a directory is the nearest directory from there upwards that has an entry for it.
Asking for its status can fail, because the program is missing or reports an error; then there are
no renames, and every file counts as changed. A missing program is reported once.
-/

set_option autoImplicit false

namespace TodoTracker.Git

/-- What the status program answers. -/
structure Answer where
  output : Text
  errors : Text
  code : Int
  deriving DecidableEq, Repr

/-- What is known from asking so far. -/
structure Inquiry where
  /-- The status program was found to be missing. -/
  missing : Bool
  warnings : List Text

namespace Inquiry

def start : Inquiry := ⟨false, []⟩

def warn (inquiry : Inquiry) (warning : Text) : Inquiry :=
  { inquiry with warnings := inquiry.warnings ++ [warning] }

/-- The first line of an error report, or else the code. -/
def failureDetail (answer : Answer) : Text :=
  (Text.breakLines (Text.trim answer.errors)).head?.getD (Text.ofInt answer.code)

/-- The status report, if the program gives one. -/
def report (inquiry : Inquiry) (git : Option Answer) : Option Text × Inquiry :=
  if inquiry.missing then (none, inquiry)
  else match git with
    | none => (none, { inquiry.warn "Missing tool: git".toList with missing := true })
    | some answer =>
      if answer.code = 0 then (some answer.output, inquiry)
      else (none, inquiry.warn ("git status failed: ".toList ++ failureDetail answer))

/-- Old and new paths of renamed files, from the root of the repository. -/
def renames (inquiry : Inquiry) (git : Option Answer) (repo : Option Location) :
    Except Failure (Fields Text) × Inquiry :=
  match repo with
  | none => (.ok [], inquiry)
  | some _ =>
    match inquiry.report git with
    | (none, inquiry) => (.ok [], inquiry)
    | (some report, inquiry) => ((Git.renames report).mapError .quotedPath, inquiry)

/-- Where the files of a report are. -/
def locate (tree : FileTree) (repo : Location) (report : Text) :
    Except Failure (List Location) := do
  let root ← tree.resolve (.ofLocation repo)
  let paths ← (Git.paths report).mapError .quotedPath
  paths.mapM fun path => tree.resolve ((Path.ofLocation root).join (.ofText path))

/-- The files that have changed, if that can be found out. -/
def changed (inquiry : Inquiry) (git : Option Answer) (tree : FileTree)
    (repo : Option Location) : Except Failure (Option (List Location)) × Inquiry :=
  match repo with
  | none =>
    (.ok none, inquiry.warn
      "Modified-only scan needs a git repository; scanning everything".toList)
  | some repo =>
    match inquiry.report git with
    | (none, inquiry) => (.ok none, inquiry)
    | (some report, inquiry) => (some <$> locate tree repo report, inquiry)

end Inquiry

def entryName : Text := ".git".toList

/-- The nearest of the directories, given from the innermost, that is a repository. -/
def rootAmong (tree : FileTree) : List Text → Except Failure (Option Location)
  | [] => do
    return if ← tree.existsAt ⟨1, [entryName]⟩ then some [] else none
  | name :: above => do
    let here := (name :: above).reverse
    if ← tree.existsAt (.ofLocation (here ++ [entryName])) then return some here
    rootAmong tree above

/-- The repository that a file or directory is in. -/
def findRoot (tree : FileTree) (start : Path) : Except Failure (Option Location) := do
  let location ← tree.resolve start
  let directory := if ← tree.isFile (.ofLocation location) then location.dropLast else location
  rootAmong tree directory.reverse

end TodoTracker.Git
