import TodoTracker.Proofs.Traversal.Run

/-!
# Steady walks

A walk looks at the tree as it is when the walk comes somewhere. It is steady when it nevertheless
goes the way that it would go in the tree of its start. Another walk, whose tree stays that one,
then visits the same files.
-/

set_option autoImplicit false

namespace TodoTracker.Walker

variable {State : Type} {request : WalkRequest} {tree : State → FileTree}
  {visit : Path → State → Bool × State} {walker next : Walker} {s s' : State} {path : Path}

/-- Every step of a run is the one that its walk would do in a given tree. -/
inductive Steady (request : WalkRequest) (tree : State → FileTree)
    (visit : Path → State → Bool × State) (given : FileTree) : Walker → State → Prop
  | ended {walker : Walker} {s : State}
      (hsame : next? given request walker = next? (tree s) request walker)
      (hend : ∀ outcome, next? (tree s) request walker ≠ some (.ok outcome)) :
      Steady request tree visit given walker s
  | passed {walker next : Walker} {s : State}
      (hsame : next? given request walker = next? (tree s) request walker)
      (hnext : next? (tree s) request walker = some (.ok (none, next)))
      (hrest : Steady request tree visit given next s) : Steady request tree visit given walker s
  | visited {walker next : Walker} {s : State} {path : Path}
      (hsame : next? given request walker = next? (tree s) request walker)
      (hnext : next? (tree s) request walker = some (.ok (some path, next)))
      (hrest : (visit path s).1 = true → Steady request tree visit given next (visit path s).2) :
      Steady request tree visit given walker s

variable {Other : Type} {tree' : Other → FileTree} {visit' : Path → Other → Bool × Other}
  {given : FileTree} {R : State → Other → Prop} {t : Other}

end TodoTracker.Walker
