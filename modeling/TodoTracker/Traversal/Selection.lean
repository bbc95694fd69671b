import TodoTracker.Comment.Grammar

/-!
# Which files are looked at

Files that tools generate are never looked at. Extensions can be included and excluded; exclusion
wins. A file without an extension is selected by its name.
-/

set_option autoImplicit false

namespace TodoTracker.Selection

/-- Directories that are never entered. -/
def excludedDirectories : List Text :=
  [".git", ".hg", ".svn", ".tasks", ".beads", ".code-state", ".mypy_cache", ".pytest_cache",
    ".ruff_cache", ".tox", ".venv", "__pycache__", "node_modules"].map String.toList

def noiseNames : List Text :=
  [".coverage", ".dmypy.json", ".pnp.cjs", ".pnp.js", "coverage.xml", "next-env.d.ts",
    "package-lock.json", "pnpm-lock.yaml", "yarn.lock"].map String.toList

def noiseSuffixes : List Text :=
  [".min.js", ".min.css", ".map", ".pyc", ".pyd", ".pyo", ".so", ".tsbuildinfo"].map String.toList

/-- Whether a file is known to be generated, by its path as it is written. -/
def isNoise (path : Text) : Bool :=
  let lower := Text.lower path
  noiseNames.contains (Text.lower (Path.ofText path).name) ||
    noiseSuffixes.any (·.isSuffixOf lower) || Text.includes lower ".egg-info/".toList

/-- What include and exclude lists are compared with. -/
def fileExtension (path : Path) : Text :=
  if path.suffix.isEmpty then Text.lower path.name else Grammar.bareExtension path.suffix

def admits (path : Path) (included excluded : List Text) : Bool :=
  let key := fileExtension path
  if (excluded.map Grammar.bareExtension).contains key then false
  else included.isEmpty || (included.map Grammar.bareExtension).contains key

/-- Extensions that commas separate, as they are given on a command line. -/
def readExtensions (values : List Text) : List Text :=
  (values.flatMap (Text.splitOn ',')).filterMap fun part =>
    let trimmed := Text.trim part
    if trimmed.isEmpty then none else some (Grammar.bareExtension trimmed)

end TodoTracker.Selection
