import TodoTracker.Files.Tree

/-!
# Following links

Two ways of making sense of a path. `follow` goes along the names as the system does: every name
but the last must be a directory, links are followed up to a limit, and what is missing is an
error. `real` always answers with a location: a name that is missing or no link stands for itself,
and where links lead in a circle the rest of the path is kept as it is written.
-/

set_option autoImplicit false

namespace TodoTracker

namespace FileTree

/-- How many links may be followed on one path. -/
def linkLimit : Nat := 40

/-- How many bytes a name may have. -/
def nameLimit : Nat := 255

def upName : Text := ['.', '.']

/-- A name that asks for nothing but that what comes before is a directory. -/
def hereName : Text := ['.']

/-- The names of a link's target; a slash at the end asks for a directory. -/
def targetNames (target : Text) : List Text :=
  (Path.ofText target).names ++ (if target.getLast? = some '/' then [hereName] else [])

/-- Where the target of a link in the directory `here` starts. -/
def targetBase (here : Location) (target : Text) : Location :=
  if target.head? = some '/' then [] else here

/-- Go along names from a directory. -/
def follow (tree : FileTree) (links : Nat) (here : Location) (names : List Text) :
    Except FileFlaw Location :=
  match names with
  | [] => .ok here
  | name :: rest =>
    if name = upName then tree.follow links here.dropLast rest
    else if name = hereName then tree.follow links here rest
    else if nameLimit < (Utf8.encode name).length then .error .nameTooLong
    else
      let next := here ++ [name]
      match tree.lookup? next with
      | none => .error .notFound
      | some (.file _) => if rest.isEmpty then .ok next else .error .notDirectory
      | some .directory => tree.follow links next rest
      | some (.link target) =>
        match links with
        | 0 => .error .linkLoop
        | links + 1 =>
          tree.follow links (targetBase here target) (targetNames target ++ rest)
termination_by (links, names.length)

/-- The entry that a path leads to, and where it is. -/
def find (tree : FileTree) (path : Path) : Except FileFlaw (Location × Entry) :=
  match tree.follow linkLimit [] path.names with
  | .ok location =>
    match tree.lookup? location with
    | some entry => .ok (location, entry)
    | none => .error .notFound
  | .error flaw => .error flaw

theorem length_filter_lt {α : Type} {p q : α → Bool} {l : List α} {a : α} (ha : a ∈ l)
    (hpq : ∀ x, p x = true → q x = true) (hp : p a = false) (hq : q a = true) :
    (l.filter p).length < (l.filter q).length := by
  have hle : ∀ l : List α, (l.filter p).length ≤ (l.filter q).length := by
    intro l
    induction l with
    | nil => simp
    | cons b l ih =>
      by_cases hb : p b = true
      · simp [hb, hpq b hb, ih]
      · by_cases hc : q b = true <;> simp [hb, hc] <;> omega
  induction l with
  | nil => simp at ha
  | cons b l ih =>
    rcases List.mem_cons.1 ha with rfl | h
    · have := hle l
      simp [hp, hq]
      omega
    · have := ih h
      by_cases hb : p b = true
      · simp [hb, hpq b hb, this]
      · by_cases hc : q b = true <;> simp [hb, hc] <;> omega

/-- Replace links along names from a location, while the links in `pending` are being resolved. The
error has the location where a link led back to itself, with the names that were left. -/
def realFrom (tree : FileTree) (pending : List Location) (here : Location) (names : List Text) :
    Except Location Location :=
  match names with
  | [] => .ok here
  | name :: rest =>
    if name = upName then tree.realFrom pending here.dropLast rest
    else
      match _h : tree.lookup? (here ++ [name]) with
      | some (.link target) =>
        if _hp : pending.contains (here ++ [name]) then .error (here ++ [name] ++ rest)
        else
          match tree.realFrom ((here ++ [name]) :: pending) (targetBase here target)
              (Path.ofText target).names with
          | .ok found => tree.realFrom pending found rest
          | .error stuck => .error (stuck ++ rest)
      | _ => tree.realFrom pending (here ++ [name]) rest
termination_by ((tree.entries.filter fun entry => !pending.contains entry.1).length, names.length)
decreasing_by
  · exact Prod.Lex.right _ (by simp)
  · refine Prod.Lex.left _ _ (length_filter_lt (mem_of_lookup? (by simp) _h) ?_ ?_ ?_)
    · intro x hx
      simp only [List.contains_cons, Bool.not_or, Bool.and_eq_true] at hx
      exact hx.2
    · simp
    · simpa using _hp
  · exact Prod.Lex.right _ (by simp)
  · exact Prod.Lex.right _ (by simp)

/-- Take double dots off as they are written. -/
def flatten (names : List Text) : Location :=
  names.foldl (fun acc name => if name = upName then acc.dropLast else acc ++ [name]) []

/-- The location that an absolute path stands for once links are replaced. -/
def real (tree : FileTree) (path : Path) : Location :=
  match tree.realFrom [] [] path.names with
  | .ok location => location
  | .error stuck => flatten stuck

end FileTree

end TodoTracker
