import Mathlib
import TodoTracker.Proofs.Traversal.Run

/-!
# The course of a walk

In a tree that does not change a walk comes from one walker to the next. Every step is one of six
moves. What each move keeps holds at the end of the course.
-/

set_option autoImplicit false

namespace TodoTracker.Walker

variable [IgnoreSyntax] {tree : FileTree} {request : WalkRequest} {walker next : Walker}
  {yield : Option Path} {path : Path} {place : Location} {scope : IgnoreScope}
  {names : List (Text × Bool)} {visits : List Visit}

/-- What one step of a walk does. -/
inductive Move (tree : FileTree) (request : WalkRequest) :
    Walker → Option Path → Walker → Prop
  | opened {walker : Walker} {path : Path} {rest : List Visit} {root : Location}
      {scope : IgnoreScope} {isFile : Bool} (htodo : walker.todo = .root path :: rest)
      (hroot : openRoot tree request walker path = .ok (root, scope, isFile)) :
      Move tree request walker none { walker with
        todo := (if isFile then .file (.ofLocation root) scope
          else .directory (.ofLocation root) scope) :: rest
        scopes := (root, scope) :: walker.scopes }
  | unlisted {walker : Walker} {path : Path} {scope : IgnoreScope} {rest : List Visit}
      {error : FileError} (htodo : walker.todo = .directory path scope :: rest)
      (hlist : tree.list path = .error error) (warnings : List Text) :
      Move tree request walker none { walker with todo := rest, warnings }
  | passed {walker : Walker} {path : Path} {scope : IgnoreScope} {rest : List Visit}
      {names : List (Text × Bool)} (htodo : walker.todo = .directory path scope :: rest)
      (hlist : tree.list path = .ok names) (hreal : tree.real path ∉ walker.unentered) :
      Move tree request walker none { walker with todo := rest }
  | entered {walker : Walker} {path : Path} {scope : IgnoreScope} {rest visits : List Visit}
      {names : List (Text × Bool)} (htodo : walker.todo = .directory path scope :: rest)
      (hlist : tree.list path = .ok names) (hreal : tree.real path ∈ walker.unentered)
      (hvisits : visitDirectory tree path scope names = .ok visits) :
      Move tree request walker none { walker with
        todo := visits ++ rest
        unentered := walker.unentered.filter (· != tree.real path) }
  | refused {walker : Walker} {path : Path} {scope : IgnoreScope} {rest : List Visit}
      (htodo : walker.todo = .file path scope :: rest)
      (h : tree.isFile path = .ok false ∨ accept? tree request walker path scope = .ok none) :
      Move tree request walker none { walker with todo := rest }
  | yielded {walker : Walker} {path : Path} {scope : IgnoreScope} {rest : List Visit}
      {real : Location} (htodo : walker.todo = .file path scope :: rest)
      (hfile : tree.isFile path = .ok true)
      (haccept : accept? tree request walker path scope = .ok (some real)) :
      Move tree request walker (some path)
        { walker with todo := rest, yielded := real :: walker.yielded }

theorem move_of_next? (h : next? tree request walker = some (.ok (yield, next))) :
    Move tree request walker yield next := by
  rw [next?, Option.map_eq_some_iff] at h
  obtain ⟨outcome, hstep, h⟩ := h
  cases outcome with
  | error e => cases h
  | ok step =>
    obtain ⟨rfl, rfl⟩ := Prod.mk.inj (Except.ok.inj h)
    rw [step?.eq_def] at hstep
    split at hstep
    · cases hstep
    · rename_i path rest htodo
      obtain ⟨⟨root, scope, isFile⟩, hroot, hstep⟩ := bind_eq_ok (Option.some.inj hstep)
      cases hstep
      exact .opened htodo hroot
    · rename_i path scope rest htodo
      split at hstep
      · rename_i hlist
        cases hstep
        exact .unlisted htodo hlist _
      · rename_i names hlist
        dsimp only at hstep
        split at hstep
        · rename_i hreal
          obtain ⟨visits, hvisits, hstep⟩ := bind_eq_ok (Option.some.inj hstep)
          cases hstep
          exact .entered htodo hlist hreal hvisits
        · rename_i hreal
          cases hstep
          exact .passed htodo hlist hreal
    · rename_i path scope rest htodo
      obtain ⟨isFile, hfile, hstep⟩ := bind_eq_ok (Option.some.inj hstep)
      cases isFile with
      | false =>
        cases hstep
        exact .refused htodo (.inl hfile)
      | true =>
        obtain ⟨accepted, haccept, hstep⟩ := bind_eq_ok hstep
        cases accepted with
        | none =>
          cases hstep
          exact .refused htodo (.inr haccept)
        | some real =>
          cases hstep
          exact .yielded htodo hfile haccept

omit [IgnoreSyntax] in
/-- A file that is accepted is selected and was not yielded before. -/
theorem accept?_eq_some {path : Path} {scope : IgnoreScope} {real : Location} :
    accept? tree request walker path scope = .ok (some real) ↔
      selects tree request path scope = .ok true ∧ tree.realPath path = .ok real ∧
        real ∉ walker.yielded := by
  rw [accept?]
  cases hselects : selects tree request path scope with
  | error e => simp [bind, Except.bind]
  | ok selected =>
    cases selected with
    | false => simp [bind, Except.bind, pure, Except.pure]
    | true =>
      cases hreal : tree.realPath path with
      | error e => simp [bind, Except.bind]
      | ok found =>
        simp only [bind, Except.bind, pure, Except.pure]
        by_cases hyielded : found ∈ walker.yielded
        · simp only [hyielded, List.contains_eq_mem, decide_true, if_true, Except.ok.injEq,
            reduceCtorEq, true_and, false_iff, not_and]
          rintro rfl
          exact not_not_intro hyielded
        · simp only [hyielded, List.contains_eq_mem, decide_false, Bool.false_eq_true, if_false,
            if_true, Except.ok.injEq, Option.some.injEq, true_and, iff_self_and]
          rintro rfl
          exact hyielded

/-! ### What a step looks at -/

theorem openRoot_eq_ok {isFile : Bool}
    (h : openRoot tree request walker path = .ok (place, scope, isFile)) :
    tree.resolve path = .ok place ∧ rootScope tree request walker place = .ok scope ∧
      tree.isFile (.ofLocation place) = .ok isFile := by
  obtain ⟨found, hplace, h⟩ := bind_eq_ok h
  obtain ⟨outer, hscope, h⟩ := bind_eq_ok h
  obtain ⟨kind, hkind, h⟩ := bind_eq_ok h
  cases h
  exact ⟨hplace, hscope, hkind⟩

/-- The names of the directories among the given, in the order in which they are entered. -/
def entered (path : Path) (scope : IgnoreScope) (names : List (Text × Bool)) : List Text :=
  (Text.sort ((names.filter (·.2)).map (·.1))).filter fun name =>
    !Selection.excludedDirectories.contains name && !scope.ignores (path.join ⟨0, [name]⟩) true

/-- The names of the files among the given, in the order in which they are visited. -/
def visited (names : List (Text × Bool)) : List Text :=
  Text.sort ((names.filter (!·.2)).map (·.1))

/-- The files of a directory are visited before its subdirectories. -/
theorem visitDirectory_eq_ok (h : visitDirectory tree path scope names = .ok visits) :
    ∃ inner : Text → IgnoreScope,
      (∀ name ∈ entered path scope names,
        scope.enter tree (path.join ⟨0, [name]⟩) = .ok (inner name)) ∧
      visits = (visited names).map (fun name => .file (path.join ⟨0, [name]⟩) scope) ++
        (entered path scope names).map fun name =>
          .directory (path.join ⟨0, [name]⟩) (inner name) := by
  obtain ⟨below, hbelow, hvisits⟩ := bind_eq_ok h
  cases hvisits
  suffices hmap : ∃ inner : Text → IgnoreScope,
      (∀ name ∈ entered path scope names,
        scope.enter tree (path.join ⟨0, [name]⟩) = .ok (inner name)) ∧
      below = (entered path scope names).map fun name =>
        .directory (path.join ⟨0, [name]⟩) (inner name) by
    obtain ⟨inner, hinner, rfl⟩ := hmap
    exact ⟨inner, hinner, rfl⟩
  refine ⟨fun name => (scope.enter tree (path.join ⟨0, [name]⟩)).toOption.getD scope, ?_⟩
  change List.mapM (m := Except Failure) _ (entered path scope names) = .ok below at hbelow
  clear h
  generalize entered path scope names = dirs at hbelow ⊢
  induction dirs generalizing below with
  | nil =>
    cases hbelow
    simp
  | cons name dirs ih =>
    rw [List.mapM_cons] at hbelow
    obtain ⟨visit, hvisit, hbelow⟩ := bind_eq_ok hbelow
    obtain ⟨rest, hrest, hbelow⟩ := bind_eq_ok hbelow
    cases hbelow
    obtain ⟨inner, hinner, hvisit⟩ := bind_eq_ok hvisit
    cases hvisit
    obtain ⟨hall, rfl⟩ := ih _ hrest
    have hinner : scope.enter tree (path.join ⟨0, [name]⟩) = .ok inner := hinner
    refine ⟨List.forall_mem_cons.2 ⟨by simp [hinner, Except.toOption], hall⟩, ?_⟩
    simp [hinner, Except.toOption]

theorem mem_visits (h : visitDirectory tree path scope names = .ok visits) {visit : Visit}
    (hmem : visit ∈ visits) :
    (∃ name, (name, false) ∈ names ∧ visit = .file (path.join ⟨0, [name]⟩) scope) ∨
      ∃ name inner, (name, true) ∈ names ∧
        scope.enter tree (path.join ⟨0, [name]⟩) = .ok inner ∧
        visit = .directory (path.join ⟨0, [name]⟩) inner := by
  obtain ⟨inner, hinner, rfl⟩ := visitDirectory_eq_ok h
  rcases List.mem_append.1 hmem with hmem | hmem
  · obtain ⟨name, hname, rfl⟩ := List.mem_map.1 hmem
    rw [visited, Text.sort, List.mem_mergeSort] at hname
    exact .inl ⟨name, by simpa using hname, rfl⟩
  · obtain ⟨name, hname, rfl⟩ := List.mem_map.1 hmem
    have hlisted := (List.mem_filter.1 hname).1
    rw [Text.sort, List.mem_mergeSort] at hlisted
    exact .inr ⟨name, inner name, by simpa using hlisted, hinner name hname, rfl⟩

/-! ### Courses -/

/-- The walkers from which a walk goes on. -/
def course (tree : FileTree) (request : WalkRequest) (walker : Walker) : List Walker :=
  match step? tree request walker with
  | some (.ok step) => walker :: course tree request step.after
  | _ => []
termination_by walker.measure
decreasing_by exact step.decreases

/-- The walker at which a walk ends. -/
def goal (tree : FileTree) (request : WalkRequest) (walker : Walker) : Walker :=
  match step? tree request walker with
  | some (.ok step) => goal tree request step.after
  | _ => walker
termination_by walker.measure
decreasing_by exact step.decreases

/-- The directory whose entries the next step looks at. -/
def entering? (tree : FileTree) (walker : Walker) : Option Path :=
  match walker.todo with
  | .directory path _ :: _ =>
    if (tree.list path).toOption.isSome && walker.unentered.contains (tree.real path) then some path
    else none
  | _ => none

/-- The file that the next step yields. -/
def yielding? (tree : FileTree) (request : WalkRequest) (walker : Walker) : Option Path :=
  match next? tree request walker with
  | some (.ok (yield, _)) => yield
  | _ => none

/-- The directories whose entries a walk looks at. -/
def entries (tree : FileTree) (request : WalkRequest) (walker : Walker) : List Path :=
  (course tree request walker).filterMap (entering? tree)

/-- The files that a walk yields. -/
def yields (tree : FileTree) (request : WalkRequest) (walker : Walker) : List Path :=
  (course tree request walker).filterMap (yielding? tree request)

theorem course_of_next? (h : next? tree request walker = some (.ok (yield, next))) :
    course tree request walker = walker :: course tree request next ∧
      goal tree request walker = goal tree request next := by
  rw [next?, Option.map_eq_some_iff] at h
  obtain ⟨outcome, hstep, h⟩ := h
  cases outcome with
  | error e => cases h
  | ok step =>
    cases h
    constructor
    · rw [course.eq_def, hstep]
    · rw [goal.eq_def, hstep]

theorem course_of_end (h : ∀ outcome, next? tree request walker ≠ some (.ok outcome)) :
    course tree request walker = [] ∧ goal tree request walker = walker := by
  have hnone : ∀ step, step? tree request walker ≠ some (.ok step) := by
    intro step hstep
    refine h (step.yield, step.after) ?_
    rw [next?, hstep]
    rfl
  constructor
  · rw [course.eq_def]
    split
    · rename_i step hstep
      exact absurd hstep (hnone step)
    · rfl
  · rw [goal.eq_def]
    split
    · rename_i step hstep
      exact absurd hstep (hnone step)
    · rfl

theorem next?_goal (tree : FileTree) (request : WalkRequest) (walker : Walker)
    (outcome : Option Path × Walker) :
    next? tree request (goal tree request walker) ≠ some (.ok outcome) := by
  fun_induction goal tree request walker with
  | case1 walker step hstep ih => exact ih
  | case2 walker hnone =>
    intro h
    rw [next?, Option.map_eq_some_iff] at h
    obtain ⟨answer, hstep, h⟩ := h
    cases answer with
    | error e => cases h
    | ok step => exact hnone step hstep

/-- What every step keeps, a walk keeps. -/
theorem course_keeps {P : List Walker → Walker → Prop}
    (hstep : ∀ done walker yield next, P done walker →
      next? tree request walker = some (.ok (yield, next)) → P (done ++ [walker]) next)
    (done : List Walker) (h : P done walker) :
    P (done ++ course tree request walker) (goal tree request walker) := by
  fun_induction course tree request walker generalizing done with
  | case1 walker step hnext ih =>
    rw [goal, hnext]
    have hfirst := hstep done walker step.yield step.after h (by rw [next?, hnext]; rfl)
    simpa using ih _ hfirst
  | case2 walker hnone =>
    rw [goal]
    split
    · rename_i step hnext
      exact absurd hnext (hnone step)
    · simpa using h

/-- A walk that collects its files ends at its goal with the files that it yields. -/
theorem run_collecting (tree : FileTree) (request : WalkRequest) (walker : Walker)
    (found : List Path) :
    run request (fun _ => tree) (fun path found => (true, path :: found)) walker found =
      ((next? tree request (goal tree request walker)).elim (.ok ()) (·.map fun _ => ()),
        goal tree request walker, (yields tree request walker).reverse ++ found) := by
  rw [yields]
  fun_induction course tree request walker generalizing found with
  | case1 walker step hstep ih =>
    have hyield : yielding? tree request walker = step.yield := by
      rw [yielding?, next?, hstep]
      rfl
    rw [goal, hstep, run.eq_def, hstep]
    dsimp only
    cases hfile : step.yield with
    | none =>
      dsimp only
      rw [ih, List.filterMap_cons_none (hyield.trans hfile)]
    | some path =>
      dsimp only
      rw [ih, List.filterMap_cons_some (hyield.trans hfile)]
      simp
  | case2 walker hnone =>
    have hgoal : goal tree request walker = walker := by
      rw [goal]
      split
      · rename_i step hstep
        exact absurd hstep (hnone step)
      · rfl
    rw [hgoal, run.eq_def, next?]
    cases hstep : step? tree request walker with
    | none => rfl
    | some outcome =>
      cases outcome with
      | error e => rfl
      | ok step => exact absurd hstep (hnone step)

/-- The files of a tree are those that the walk yields, unless it fails at its goal. -/
theorem files_eq (tree : FileTree) (request : WalkRequest) (roots : List Path) :
    files tree request roots =
      ((next? tree request (goal tree request (start roots tree.directories))).elim (.ok ())
        (·.map fun _ => ())).map fun _ =>
          (yields tree request (start roots tree.directories),
            (goal tree request (start roots tree.directories)).warnings) := by
  rw [files, run_collecting]
  simp

end TodoTracker.Walker
