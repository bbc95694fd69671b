import TodoTracker.Traversal.Selection
import TodoTracker.Ignore.Scope

/-!
# Walking directories

A walk yields the files below its roots: those of a directory before those of its subdirectories,
names in order. Links are followed, but every real directory is entered at most once, and no two
files that are yielded are the same real file. The tree may change between two files; a walk looks
at a directory when it comes to it. What remains to be done is a list, and the directories that may
still be entered are a list that only gets shorter, so every walk ends.
-/

set_option autoImplicit false

namespace TodoTracker

/-- What a walk is asked for. -/
structure WalkRequest where
  repo : Option Path
  included : List Text
  excluded : List Text
  /-- When given, no other files are yielded. -/
  only : Option (List Location)

/-- One thing that remains to be done. -/
inductive Visit
  | root (path : Path)
  | directory (path : Path) (scope : IgnoreScope)
  | file (path : Path) (scope : IgnoreScope)

/-- A root may become a directory to visit, everything else is done in one step. -/
def Visit.weight : Visit → Nat
  | .root _ => 2
  | _ => 1

/-- The weight of all that remains to be done. -/
def Visit.total : List Visit → Nat
  | [] => 0
  | visit :: rest => visit.weight + Visit.total rest

structure Walker where
  todo : List Visit
  /-- The real directories that may still be entered. -/
  unentered : List Location
  /-- The real files that have been yielded. -/
  yielded : List Location
  /-- The scopes of the roots that have been visited. -/
  scopes : List (Location × IgnoreScope)
  warnings : List Text

namespace Walker

def start (roots : List Path) (unentered : List Location) : Walker :=
  ⟨roots.map .root, unentered, [], [], []⟩

/-- Directories first, then the work left. -/
def measure (walker : Walker) : Nat × Nat :=
  (walker.unentered.length, Visit.total walker.todo)

/-- Whether a file is looked at, apart from whether it has been already. -/
def selects (tree : FileTree) (request : WalkRequest) (path : Path) (scope : IgnoreScope) :
    Except Failure Bool := do
  if Selection.isNoise path.text then return false
  if !Selection.admits path request.included request.excluded then return false
  if scope.ignores path false then return false
  match request.only with
  | none => return true
  | some only => return only.contains (← tree.resolve path)

/-- The real location of a file that is to be yielded. -/
def accept? (tree : FileTree) (request : WalkRequest) (walker : Walker) (path : Path)
    (scope : IgnoreScope) : Except Failure (Option Location) := do
  if ← selects tree request path scope then
    let real ← tree.realPath path
    return if walker.yielded.contains real then none else some real
  else return none

/-- The scope of a root: that of an earlier root at the same place, or a new one. -/
def rootScope [IgnoreSyntax] (tree : FileTree) (request : WalkRequest) (walker : Walker)
    (root : Location) : Except Failure IgnoreScope :=
  match walker.scopes.lookup root with
  | some scope => .ok scope
  | none => do
    let path := Path.ofLocation root
    let base := if ← tree.isDirectory path then path else path.parent
    IgnoreScope.ofRoot tree base request.repo []

/-- Where a root is, its scope, and whether it is a file. -/
def openRoot [IgnoreSyntax] (tree : FileTree) (request : WalkRequest) (walker : Walker)
    (path : Path) : Except Failure (Location × IgnoreScope × Bool) := do
  let root ← tree.resolve path
  let scope ← rootScope tree request walker root
  return (root, scope, ← tree.isFile (.ofLocation root))

/-- What there is to do in a directory: its files, then its subdirectories. -/
def visitDirectory [IgnoreSyntax] (tree : FileTree) (path : Path) (scope : IgnoreScope)
    (names : List (Text × Bool)) : Except Failure (List Visit) := do
  let below := fun (name : Text) => path.join ⟨0, [name]⟩
  let directories := Text.sort ((names.filter (·.2)).map (·.1))
  let files := Text.sort ((names.filter (!·.2)).map (·.1))
  let entered := directories.filter fun name =>
    !Selection.excludedDirectories.contains name && !scope.ignores (below name) true
  let subdirectories ← entered.mapM fun name => do
    return Visit.directory (below name) (← scope.enter tree (below name))
  return (files.map fun name => Visit.file (below name) scope) ++ subdirectories

/-- What one step leads to: a file that is yielded, if there is one, and the walk that remains. -/
structure Step (before : Walker) where
  yield : Option Path
  after : Walker
  decreases : Prod.Lex (· < ·) (· < ·) after.measure before.measure

theorem lex_of_total_lt {a b : Walker} (hu : a.unentered = b.unentered)
    (hw : Visit.total a.todo < Visit.total b.todo) :
    Prod.Lex (· < ·) (· < ·) a.measure b.measure := by
  unfold measure
  rw [hu]
  exact Prod.Lex.right _ hw

theorem lex_of_length_lt {a b : Walker} (hu : a.unentered.length < b.unentered.length) :
    Prod.Lex (· < ·) (· < ·) a.measure b.measure := Prod.Lex.left _ _ hu

theorem length_filter_ne_lt {α : Type} [BEq α] [LawfulBEq α] {a : α} {l : List α} (h : a ∈ l) :
    (l.filter (· != a)).length < l.length := by
  refine Nat.lt_of_le_of_ne (List.length_filter_le _ _) fun he => ?_
  have := List.length_filter_eq_length_iff.1 he a h
  simp at this

/-- Do the first thing that remains to be done. -/
def step? [IgnoreSyntax] (tree : FileTree) (request : WalkRequest) (walker : Walker) :
    Option (Except Failure (Step walker)) :=
  match h : walker.todo with
  | [] => none
  | .root path :: rest => some do
    let (root, scope, isFile) ← openRoot tree request walker path
    let next := if isFile then Visit.file (.ofLocation root) scope
      else .directory (.ofLocation root) scope
    have hw : next.weight = 1 := by cases isFile <;> rfl
    return ⟨none,
      { walker with todo := next :: rest, scopes := (root, scope) :: walker.scopes },
      lex_of_total_lt rfl (by
        rw [h, Visit.total, Visit.total, hw]
        exact Nat.add_lt_add_right (Nat.lt_succ_self 1) _)⟩
  | .directory path scope :: rest =>
    let dropped : Step walker := ⟨none, { walker with todo := rest }, lex_of_total_lt rfl (by
      simp [h, Visit.total, Visit.weight])⟩
    match tree.list path with
    | .error e =>
      let warning := "Skipped ".toList ++ e.path ++ ": ".toList ++ e.flaw.text
      some (.ok ⟨none, { walker with todo := rest, warnings := walker.warnings ++ [warning] },
        lex_of_total_lt rfl (by simp [h, Visit.total, Visit.weight])⟩)
    | .ok names =>
      let real := tree.real path
      if hr : real ∈ walker.unentered then some do
        let visits ← visitDirectory tree path scope names
        return ⟨none, { walker with
          todo := visits ++ rest
          unentered := walker.unentered.filter (· != real) },
          lex_of_length_lt (length_filter_ne_lt hr)⟩
      else some (.ok dropped)
  | .file path scope :: rest => some do
    let dropped : Step walker := ⟨none, { walker with todo := rest }, lex_of_total_lt rfl (by
      simp [h, Visit.total, Visit.weight])⟩
    if !(← tree.isFile path) then return dropped
    match ← accept? tree request walker path scope with
    | none => return dropped
    | some real =>
      return ⟨some path, { walker with todo := rest, yielded := real :: walker.yielded },
        lex_of_total_lt rfl (by simp [h, Visit.total, Visit.weight])⟩

/-- Go on until nothing remains to be done. The state has the tree that the walk looks at; `visit`
gets every file that is yielded and says whether the walk goes on. The answer has the walk as far
as it went. -/
def run [IgnoreSyntax] {State : Type} (request : WalkRequest) (tree : State → FileTree)
    (visit : Path → State → Bool × State) (walker : Walker) (state : State) :
    Except Failure Unit × Walker × State :=
  match step? (tree state) request walker with
  | none => (.ok (), walker, state)
  | some (.error e) => (.error e, walker, state)
  | some (.ok step) =>
    match step.yield with
    | none => run request tree visit step.after state
    | some path =>
      match visit path state with
      | (true, state) => run request tree visit step.after state
      | (false, state) => (.ok (), step.after, state)
termination_by walker.measure
decreasing_by all_goals exact step.decreases

/-- The files of a tree that does not change, and the warnings. -/
def files [IgnoreSyntax] (tree : FileTree) (request : WalkRequest) (roots : List Path) :
    Except Failure (List Path × List Text) :=
  let (outcome, walker, found) := run request (fun _ => tree)
    (fun path found => (true, path :: found)) (start roots tree.directories) []
  outcome.map fun _ => (found.reverse, walker.warnings)

end Walker

end TodoTracker
