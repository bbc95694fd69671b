import TodoTracker.Traversal.Walk

/-!
# Runs of a walk

The visits of a run are the files that it comes to, each with the state in which it comes there. A
property of visits and states that every visit keeps holds of all visits of a run at its end.
-/

set_option autoImplicit false

namespace TodoTracker.Walker

variable [IgnoreSyntax] {State : Type}

/-- The files that a run visits, each with the state that the visit starts from. -/
def visits (request : WalkRequest) (tree : State → FileTree)
    (visit : Path → State → Bool × State) (walker : Walker) (state : State) :
    List (Path × State) :=
  match step? (tree state) request walker with
  | none => []
  | some (.error _) => []
  | some (.ok step) =>
    match step.yield with
    | none => visits request tree visit step.after state
    | some path =>
      match visit path state with
      | (true, next) => (path, state) :: visits request tree visit step.after next
      | (false, _) => [(path, state)]
termination_by walker.measure
decreasing_by all_goals exact step.decreases

variable {request : WalkRequest} {tree : State → FileTree} {visit : Path → State → Bool × State}

/-- What every visit keeps, a run keeps. -/
theorem run_keeps {P : List (Path × State) → State → Prop}
    (hvisit : ∀ done path s, P done s → P (done ++ [(path, s)]) (visit path s).2)
    (walker : Walker) {done : List (Path × State)} {s : State} (hs : P done s) :
    P (done ++ visits request tree visit walker s) (run request tree visit walker s).2.2 := by
  induction walker, s using run.induct request tree visit generalizing done with
  | case1 walker s hstep =>
    rw [run.eq_def, visits, hstep]
    simpa using hs
  | case2 walker s e hstep =>
    rw [run.eq_def, visits, hstep]
    simpa using hs
  | case3 walker s step hstep hyield ih =>
    rw [run.eq_def, visits, hstep]
    dsimp only
    rw [hyield]
    exact ih hs
  | case4 walker s step hstep path hyield next hnext ih =>
    have hgo := ih (hnext ▸ hvisit done path s hs)
    rw [run.eq_def, visits, hstep]
    dsimp only
    rw [hyield]
    dsimp only
    rw [hnext]
    simpa using hgo
  | case5 walker s step hstep path hyield next hnext =>
    have hstop := hvisit done path s hs
    rw [run.eq_def, visits, hstep]
    dsimp only
    rw [hyield]
    dsimp only
    rw [hnext] at hstop ⊢
    exact hstop

/-- Visit files in turn, until a visit says that it is enough. -/
def inTurn (visit : Path → State → Bool × State) : List Path → State → State
  | [], state => state
  | path :: rest, state =>
    match visit path state with
    | (true, next) => inTurn visit rest next
    | (false, last) => last

/-- A run leads where visiting its files in turn does. -/
theorem run_state (walker : Walker) (s : State) :
    (run request tree visit walker s).2.2 =
      inTurn visit ((visits request tree visit walker s).map Prod.fst) s := by
  induction walker, s using run.induct request tree visit with
  | case1 walker s hstep =>
    rw [run.eq_def, visits, hstep]
    rfl
  | case2 walker s e hstep =>
    rw [run.eq_def, visits, hstep]
    rfl
  | case3 walker s step hstep hyield ih =>
    rw [run.eq_def, visits, hstep]
    dsimp only
    rw [hyield]
    exact ih
  | case4 walker s step hstep path hyield next hnext ih =>
    rw [run.eq_def, visits, hstep]
    dsimp only
    rw [hyield]
    dsimp only
    rw [hnext]
    dsimp only
    rw [List.map_cons, inTurn, hnext]
    exact ih
  | case5 walker s step hstep path hyield next hnext =>
    rw [run.eq_def, visits, hstep]
    dsimp only
    rw [hyield]
    dsimp only
    rw [hnext]
    dsimp only
    rw [List.map_cons, inTurn, hnext]

section Steps

variable {walker next : Walker} {s s' : State} {path : Path}

/-- What the next step of a walk leads to, if there is one: a file that is yielded, and the walk that
remains. -/
def next? (tree : FileTree) (request : WalkRequest) (walker : Walker) :
    Option (Except Failure (Option Path × Walker)) :=
  (step? tree request walker).map (·.map fun step => (step.yield, step.after))

/-- A file that is selected for the first time is yielded. -/
theorem next?_file {tree : FileTree} {scope : IgnoreScope} {rest : List Visit} {real : Location}
    {unentered yielded : List Location} {scopes : List (Location × IgnoreScope)}
    {warnings : List Text} (hfile : tree.isFile path = .ok true)
    (hselects : selects tree request path scope = .ok true)
    (hreal : tree.realPath path = .ok real) (hnew : real ∉ yielded) :
    next? tree request ⟨.file path scope :: rest, unentered, yielded, scopes, warnings⟩ =
      some (.ok (some path, ⟨rest, unentered, real :: yielded, scopes, warnings⟩)) := by
  have haccept : accept? tree request ⟨.file path scope :: rest, unentered, yielded, scopes,
      warnings⟩ path scope = .ok (some real) := by
    rw [accept?, hselects]
    change (tree.realPath path >>= _) = _
    rw [hreal]
    change Except.ok (if yielded.contains real = true then none else some real) = _
    rw [if_neg (by simpa using hnew)]
  rw [next?, step?]
  dsimp only
  rw [hfile, haccept]
  rfl

end Steps

end TodoTracker.Walker
