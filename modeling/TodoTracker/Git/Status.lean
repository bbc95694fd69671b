import TodoTracker.Git.Quoted
import TodoTracker.Json.Value

/-!
# Status reports

Each line of a report has a status of two letters, a blank and a path; for a renamed or copied file
the old path, an arrow and the new path. The renames of a report map old paths to new ones; its
paths are those that files have now.
-/

set_option autoImplicit false

namespace TodoTracker.Git

/-- The status and the rest of a line, if the line is long enough to have both. -/
def readEntry? (line : Text) : Option (Text × Text) :=
  if line.length < 4 then none else some (line.take 2, line.drop 3)

def arrow : Text := " -> ".toList

def entries (report : Text) : List (Text × Text) := (Text.breakLines report).filterMap readEntry?

/-- Add the rename that an entry reports, if it reports one. -/
def addRename (renames : Fields Text) (entry : Text × Text) :
    Except QuoteError (Fields Text) :=
  if entry.1.contains 'R' then
    match Text.cut? arrow entry.2 with
    | none => .ok renames
    | some (old, new) => do
      let old ← readQuoted old
      let new ← readQuoted new
      return if old.isEmpty || new.isEmpty then renames else renames.set old new
  else .ok renames

/-- Old and new paths of renamed files; for one old path the last entry counts. -/
def renames (report : Text) : Except QuoteError (Fields Text) :=
  (entries report).foldlM addRename []

/-- Add the path that an entry reports for a file that is not ignored and not deleted. -/
def addPath (paths : List Text) (entry : Text × Text) : Except QuoteError (List Text) :=
  if entry.1 == "!!".toList || entry.1.contains 'D' then .ok paths
  else do
    let path ← readQuoted (((Text.cut? arrow entry.2).map (·.2)).getD entry.2)
    return if path.isEmpty || paths.contains path then paths else paths ++ [path]

/-- The current paths of all files that a report names. -/
def paths (report : Text) : Except QuoteError (List Text) := (entries report).foldlM addPath []

end TodoTracker.Git
