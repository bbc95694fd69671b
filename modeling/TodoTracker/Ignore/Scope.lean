import TodoTracker.Files.Access
import TodoTracker.Ignore.Rule
import TodoTracker.Text.Blank

/-!
# What is ignored below a directory

The ignore files of one directory make a level, which applies to everything below the directory.
What its lines ignore is a matter of their syntax. In that of rules later ones win, so that a rule
can take back what an earlier one ignores; a path is ignored when any level ignores it.
-/

set_option autoImplicit false

namespace TodoTracker

/-- How the lines of ignore files are read. -/
class IgnoreSyntax where
  /-- Which paths the lines of the ignore files in a directory ignore. A path is written from there,
  that of a directory with a slash at its end. -/
  read (base : Path) (lines : List Text) : Except Failure (Text → Bool)

/-- Every line is a rule. -/
instance IgnoreSyntax.rules : IgnoreSyntax where
  read _ lines := do
    let rules ← (lines.filter (! ·.isEmpty)).mapM IgnoreRule.read
    return IgnoreRule.ignored (rules.filterMap id)

structure IgnoreLevel where
  base : Path
  /-- Whether a path below is ignored. -/
  ignored : Text → Bool
  /-- The ignore files that were read. -/
  sources : List Text

structure IgnoreScope where
  root : Path
  levels : List IgnoreLevel

namespace IgnoreLevel

/-- The names of ignore files, those of later files winning. -/
def fileNames : List Text := [".gitignore", ".lotarignore"].map String.toList

/-- How a path is written from a directory above it. -/
def relativeTo? (path base : Path) : Option Text :=
  if path.slashes = base.slashes ∧ base.names.isPrefixOf path.names then
    some (Text.joinWith ['/'] (path.names.drop base.names.length))
  else none

def ignores (level : IgnoreLevel) (path : Path) (isDirectory : Bool) : Bool :=
  match relativeTo? path level.base with
  | none => false
  | some text =>
    if text.isEmpty then false
    else level.ignored (if isDirectory then text ++ ['/'] else text)

/-- The lines of the ignore files in a directory, and the files. -/
def readLines (tree : FileTree) (base : Path) :
    List Text → Except Failure (List Text × List Text)
  | [] => .ok ([], [])
  | name :: rest => do
    let path := base.join ⟨0, [name]⟩
    let (lines, sources) ← readLines tree base rest
    match ← tree.entry? path with
    | some (.file bytes) =>
      return (Text.breakLines (Utf8.decodeReplacing bytes) ++ lines, path.text :: sources)
    | _ => return (lines, sources)

/-- The level of a directory, if it has ignore lines or further ones are given. -/
def read? [IgnoreSyntax] (tree : FileTree) (base : Path) (extra : List Text) :
    Except Failure (Option IgnoreLevel) := do
  let (lines, sources) ← readLines tree base fileNames
  let lines := lines ++ extra
  if lines.isEmpty then return none
  return some ⟨base, ← IgnoreSyntax.read base lines, sources⟩

end IgnoreLevel

namespace IgnoreScope

/-- The scope of a directory: its own level, and in front of it that of the repository when the
directory lies below it. -/
def ofRoot [IgnoreSyntax] (tree : FileTree) (root : Path) (repo : Option Path) (extra : List Text) :
    Except Failure IgnoreScope := do
  let root ← tree.resolve root
  let above ← match repo with
    | none => pure []
    | some repo => do
      let repo ← tree.resolve repo
      pure (if repo ≠ root ∧ root.within repo then [repo] else [])
  let outer ← above.mapM fun base => IgnoreLevel.read? tree (.ofLocation base) []
  let own ← IgnoreLevel.read? tree (.ofLocation root) extra
  return ⟨.ofLocation root, (outer ++ [own]).filterMap id⟩

/-- The scope for a directory below, with the ignore files that are found there. -/
def enter [IgnoreSyntax] (scope : IgnoreScope) (tree : FileTree) (directory : Path) :
    Except Failure IgnoreScope := do
  match ← IgnoreLevel.read? tree directory [] with
  | none => return scope
  | some level => return { scope with levels := scope.levels ++ [level] }

def sources (scope : IgnoreScope) : List Text := scope.levels.flatMap IgnoreLevel.sources

def ignores (scope : IgnoreScope) (path : Path) (isDirectory : Bool) : Bool :=
  let path := scope.root.join path
  scope.levels.any (·.ignores path isDirectory)

end IgnoreScope

end TodoTracker
