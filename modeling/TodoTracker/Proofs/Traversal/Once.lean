import TodoTracker.Proofs.Files.Regular
import TodoTracker.Proofs.Traversal.Course

/-!
# Every directory once

Links lead a walk to the same directories and files again and again. It enters each directory once
and yields each file once. What a walk may still come to gets less with every step: the work left,
and the entries of the directories that were not entered.
-/

set_option autoImplicit false

namespace TodoTracker

open FileTree (hereName)

/-- Every line is the path of what it ignores. -/
@[reducible] def IgnoreSyntax.literal : IgnoreSyntax := ⟨fun _ lines => .ok lines.contains⟩

namespace Visit

/-- What a visit looks at. -/
def path : Visit → Path
  | .root path | .directory path _ | .file path _ => path

@[simp] theorem weight_root (path : Path) : (root path).weight = 2 := rfl

@[simp] theorem weight_directory (path : Path) (scope : IgnoreScope) :
    (directory path scope).weight = 1 := rfl

@[simp] theorem weight_file (path : Path) (scope : IgnoreScope) : (file path scope).weight = 1 := rfl

theorem total_append (visits rest : List Visit) :
    total (visits ++ rest) = total visits + total rest := by
  induction visits with
  | nil => simp [total]
  | cons visit visits ih => rw [List.cons_append, total, total, ih, Nat.add_assoc]

theorem total_eq_length {visits : List Visit} (h : ∀ visit ∈ visits, visit.weight = 1) :
    total visits = visits.length := by
  induction visits with
  | nil => rfl
  | cons visit visits ih =>
    rw [List.forall_mem_cons] at h
    rw [total, h.1, ih h.2, List.length_cons, Nat.add_comm]

theorem total_roots (roots : List Path) : total (roots.map .root) = 2 * roots.length := by
  induction roots with
  | nil => rfl
  | cons root roots ih =>
    rw [List.map_cons, total, ih, weight_root, List.length_cons]
    omega

end Visit

namespace Walker

section Steps

variable [IgnoreSyntax] {tree : FileTree} {request : WalkRequest} {walker next : Walker}
  {yield : Option Path} {path : Path} {place : Location} {scope : IgnoreScope}
  {names : List (Text × Bool)} {visits : List Visit}

/-! ### What is left -/

theorem total_visits_le (h : visitDirectory tree path scope names = .ok visits) :
    Visit.total visits ≤ names.length := by
  have hweight : ∀ visit ∈ visits, visit.weight = 1 := by
    intro visit hmem
    rcases mem_visits h hmem with ⟨name, -, rfl⟩ | ⟨name, inner, -, -, rfl⟩ <;> rfl
  have hsplit := List.length_eq_length_filter_add (l := names) (·.2)
  obtain ⟨inner, -, rfl⟩ := visitDirectory_eq_ok h
  have hentered := List.length_filter_le (fun name =>
    !Selection.excludedDirectories.contains name && !scope.ignores (path.join ⟨0, [name]⟩) true)
    (Text.sort ((names.filter (·.2)).map (·.1)))
  rw [Visit.total_eq_length hweight, List.length_append, List.length_map, List.length_map]
  simp only [entered, visited, Text.sort, List.length_mergeSort, List.length_map] at hentered ⊢
  omega

/-- No path that remains is written with single dots. -/
def Dotless (walker : Walker) : Prop := ∀ visit ∈ walker.todo, hereName ∉ visit.path.names

/-- The work left, and the entries of the directories that may still be entered. -/
def due (tree : FileTree) (walker : Walker) : Nat :=
  Visit.total walker.todo + (walker.unentered.map fun place => (tree.children place).length).sum

omit [IgnoreSyntax] in
theorem list_eq_ok (h : tree.list path = .ok names) : ∃ place,
    tree.find path = .ok (place, .directory) ∧
      names.map Prod.fst = (tree.children place).map Prod.fst := by
  rw [FileTree.list] at h
  split at h
  · rename_i place hfind
    cases h
    exact ⟨place, hfind, by simp⟩
  · cases h
  · cases h

omit [IgnoreSyntax] in
theorem isName_of_list (hregular : tree.Regular) (h : tree.list path = .ok names) {name : Text}
    {isDirectory : Bool} (hmem : (name, isDirectory) ∈ names) : IsName name := by
  obtain ⟨place, -, hnames⟩ := list_eq_ok h
  have hchild : name ∈ (tree.children place).map Prod.fst := hnames ▸ List.mem_map_of_mem hmem
  obtain ⟨⟨_, entry⟩, hentry, rfl⟩ := List.mem_map.1 hchild
  exact hregular.names _ (FileTree.mem_children.1 hentry) _ (by simp)

theorem Move.dotless (hregular : tree.Regular) (hmove : Move tree request walker yield next)
    (h : walker.Dotless) : next.Dotless := by
  cases hmove with
  | opened htodo hroot =>
    intro visit hmem
    rcases List.mem_cons.1 hmem with rfl | hmem
    · have hdots : hereName ∉ tree.real _ :=
        FileTree.hereName_not_mem_real (h _ (htodo ▸ List.mem_cons_self))
      rw [Visit.path, FileTree.resolve_eq_ok (openRoot_eq_ok hroot).1] at hdots
      split <;> exact hdots
    · exact h _ (htodo ▸ List.mem_cons_of_mem _ hmem)
  | entered htodo hlist hreal hvisits =>
    intro visit hmem
    rcases List.mem_append.1 hmem with hmem | hmem
    · have hpath := h _ (htodo ▸ List.mem_cons_self)
      rcases mem_visits hvisits hmem with ⟨name, hname, rfl⟩ | ⟨name, inner, hname, -, rfl⟩
      · have hhere := (isName_of_list hregular hlist hname).here.symm
        simpa [Visit.path, Path.join, Path.isAbsolute] using ⟨hpath, hhere⟩
      · have hhere := (isName_of_list hregular hlist hname).here.symm
        simpa [Visit.path, Path.join, Path.isAbsolute] using ⟨hpath, hhere⟩
    · exact h _ (htodo ▸ List.mem_cons_of_mem _ hmem)
  | unlisted htodo | passed htodo | refused htodo | yielded htodo =>
    exact fun visit hmem => h visit (htodo ▸ List.mem_cons_of_mem _ hmem)

omit [IgnoreSyntax] in
/-- A directory that is listed is at its real location. -/
theorem Dotless.find_real (h : walker.Dotless) {rest : List Visit}
    (htodo : walker.todo = .directory path scope :: rest) (hlist : tree.list path = .ok names) :
    tree.find path = .ok (tree.real path, .directory) ∧
      names.length = (tree.children (tree.real path)).length := by
  obtain ⟨place, hfind, hnames⟩ := list_eq_ok hlist
  have hlength := congrArg List.length hnames
  rw [List.length_map, List.length_map] at hlength
  have hdots := h _ (htodo ▸ List.mem_cons_self)
  rw [Visit.path] at hdots
  rw [FileTree.real_of_find hdots hfind]
  exact ⟨hfind, hlength⟩

omit [IgnoreSyntax] in
theorem due_cons {visit : Visit} {rest : List Visit} (htodo : walker.todo = visit :: rest) :
    due tree walker = visit.weight + Visit.total rest +
      (walker.unentered.map fun place => (tree.children place).length).sum := by
  rw [due, htodo, Visit.total]

omit [IgnoreSyntax] in
theorem sum_filter_ne_add_le {places : List Location} (size : Location → Nat)
    (h : place ∈ places) :
    ((places.filter (· != place)).map size).sum + size place ≤ (places.map size).sum := by
  induction places with
  | nil => cases h
  | cons other places ih =>
    rw [List.map_cons, List.sum_cons, List.filter_cons]
    by_cases hother : other = place
    · subst hother
      have hsub := (List.filter_sublist (p := (· != other)) (l := places)).map size
      have hle := hsub.sum_le_sum fun _ _ => Nat.zero_le _
      simp only [bne_self_eq_false, Bool.false_eq_true, if_false]
      omega
    · have hmem : place ∈ places := by simpa [Ne.symm hother] using h
      simp only [bne_iff_ne, ne_eq, hother, not_false_eq_true, if_true, List.map_cons,
        List.sum_cons]
      have hle := ih hmem
      omega

theorem Move.due_lt (hmove : Move tree request walker yield next) (h : walker.Dotless) :
    due tree next < due tree walker := by
  cases hmove with
  | @opened path rest root scope isFile htodo hroot =>
    have hweight : (if isFile then Visit.file (.ofLocation root) scope
        else .directory (.ofLocation root) scope).weight = 1 := by cases isFile <;> rfl
    rw [due_cons htodo, due, Visit.total, hweight, Visit.weight_root]
    dsimp only
    omega
  | entered htodo hlist hreal hvisits =>
    have hlength := (h.find_real htodo hlist).2
    have htotal := total_visits_le hvisits
    have hsum := sum_filter_ne_add_le (fun place => (tree.children place).length) hreal
    rw [due_cons htodo, due, Visit.total_append, Visit.weight_directory]
    dsimp only at hsum ⊢
    omega
  | unlisted htodo | passed htodo =>
    rw [due_cons htodo, due, Visit.weight_directory]
    dsimp only
    omega
  | refused htodo | yielded htodo =>
    rw [due_cons htodo, due, Visit.weight_file]
    dsimp only
    omega

/-- A walk has no more steps than there are things that it may come to. -/
theorem length_course_le (hregular : tree.Regular) (h : walker.Dotless) :
    (course tree request walker).length ≤ due tree walker := by
  fun_induction course tree request walker with
  | case1 walker step hstep ih =>
    have hmove : Move tree request walker step.yield step.after :=
      move_of_next? (by rw [next?, hstep]; rfl)
    have hless := hmove.due_lt h
    have hrest := ih (hmove.dotless hregular h)
    rw [List.length_cons]
    omega
  | case2 => exact Nat.zero_le _

omit [IgnoreSyntax] in
theorem due_start_le (hregular : tree.Regular) (roots : List Path)
    (scopes : List (Location × IgnoreScope)) :
    due tree { start roots tree.directories with scopes } ≤
      2 * roots.length + tree.entries.length := by
  rw [due, start, Visit.total_roots]
  exact Nat.add_le_add_left (tree.sum_children_le hregular.nodup_directories) _

/-! ### What was entered and yielded -/

/-- A step enters the directory that comes up, or none. -/
theorem Move.entering (hmove : Move tree request walker yield next) :
    (entering? tree walker = none ∧ next.unentered = walker.unentered) ∨
      ∃ path scope rest names, walker.todo = .directory path scope :: rest ∧
        tree.list path = .ok names ∧ entering? tree walker = some path ∧
        tree.real path ∈ walker.unentered ∧
        next.unentered = walker.unentered.filter (· != tree.real path) := by
  cases hmove with
  | entered htodo hlist hreal hvisits =>
    refine .inr ⟨_, _, _, _, htodo, hlist, ?_, hreal, rfl⟩
    simp [entering?, htodo, hlist, hreal, Except.toOption]
  | opened htodo => exact .inl ⟨by simp [entering?, htodo], rfl⟩
  | unlisted htodo hlist => exact .inl ⟨by simp [entering?, htodo, hlist, Except.toOption], rfl⟩
  | passed htodo hlist hreal => exact .inl ⟨by simp [entering?, htodo, hreal], rfl⟩
  | refused htodo | yielded htodo => exact .inl ⟨by simp [entering?, htodo], rfl⟩

/-- A step yields a file whose real location was not yielded before, or none. -/
theorem Move.yielding (hmove : Move tree request walker yield next) :
    (yield = none ∧ next.yielded = walker.yielded) ∨
      ∃ path, yield = some path ∧ tree.real path ∉ walker.yielded ∧
        next.yielded = tree.real path :: walker.yielded := by
  cases hmove with
  | yielded htodo hfile haccept =>
    obtain ⟨-, hreal, hnew⟩ := accept?_eq_some.1 haccept
    rw [FileTree.realPath] at hreal
    split at hreal
    · cases hreal
    · cases hreal
      exact .inr ⟨_, rfl, hnew, rfl⟩
  | opened | unlisted | passed | entered | refused => exact .inl ⟨rfl, rfl⟩

/-- What a walk that came through the walkers `done` has entered. -/
structure Entered (tree : FileTree) (done : List Walker) (walker : Walker) : Prop where
  dotless : walker.Dotless
  /-- The directories that may still be entered are those that were not. -/
  unentered : ∀ place ∈ tree.directories,
    place ∈ walker.unentered ↔ place ∉ (done.filterMap (entering? tree)).map tree.real
  nodup : ((done.filterMap (entering? tree)).map tree.real).Nodup
  /-- The directories that came up were entered. -/
  listed : ∀ before ∈ done, ∀ path scope rest names, before.todo = .directory path scope :: rest →
    tree.list path = .ok names →
      tree.real path ∈ (done.filterMap (entering? tree)).map tree.real

/-- What a walk that came through the walkers `done` has yielded. -/
structure Yielded (tree : FileTree) (request : WalkRequest) (done : List Walker)
    (walker : Walker) : Prop where
  eq : walker.yielded = ((done.filterMap (yielding? tree request)).map tree.real).reverse
  nodup : walker.yielded.Nodup

variable {done : List Walker}

omit [IgnoreSyntax] in
theorem entered_start (tree : FileTree) {roots : List Path}
    (hroots : ∀ root ∈ roots, hereName ∉ root.names) (scopes : List (Location × IgnoreScope)) :
    Entered tree [] { start roots tree.directories with scopes } where
  dotless := by
    intro visit hmem
    obtain ⟨root, hroot, rfl⟩ := List.mem_map.1 hmem
    exact hroots root hroot
  unentered := by simp [start]
  nodup := List.nodup_nil
  listed := by simp

theorem Entered.step (hregular : tree.Regular) (h : Entered tree done walker)
    (hmove : Move tree request walker yield next) : Entered tree (done ++ [walker]) next := by
  have hdotless := hmove.dotless hregular h.dotless
  rcases hmove.entering with ⟨hnone, hsame⟩ | ⟨path, scope, rest, names, htodo, hlist, hsome, hreal,
    hless⟩
  · have hentered : (done ++ [walker]).filterMap (entering? tree) =
        done.filterMap (entering? tree) := by simp [hnone]
    refine ⟨hdotless, ?_, ?_, ?_⟩ <;> rw [hentered]
    · rw [hsame]
      exact h.unentered
    · exact h.nodup
    · intro before hbefore path scope rest names htodo hlist
      rcases List.mem_append.1 hbefore with hbefore | hbefore
      · exact h.listed before hbefore path scope rest names htodo hlist
      · cases List.mem_singleton.1 hbefore
        -- The directory was passed, so it is none of those that may still be entered.
        have hfound := (h.dotless.find_real htodo hlist).1
        have hplace := FileTree.mem_directories_of_lookup? (FileTree.lookup?_of_find hfound)
        have hpassed : tree.real path ∉ walker.unentered := by
          simpa [entering?, htodo, hlist, Except.toOption] using hnone
        by_contra hnew
        exact hpassed ((h.unentered _ hplace).2 hnew)
  · have hfound := (h.dotless.find_real htodo hlist).1
    have hplace := FileTree.mem_directories_of_lookup? (FileTree.lookup?_of_find hfound)
    have hentered : ((done ++ [walker]).filterMap (entering? tree)).map tree.real =
        (done.filterMap (entering? tree)).map tree.real ++ [tree.real path] := by simp [hsome]
    refine ⟨hdotless, ?_, ?_, ?_⟩ <;> rw [hentered]
    · intro place hmem
      rw [hless, List.mem_filter, h.unentered place hmem]
      simp
    · rw [List.nodup_append]
      refine ⟨h.nodup, List.nodup_singleton _, ?_⟩
      rintro place hmem _ hlast rfl
      rw [List.mem_singleton.1 hlast] at hmem
      exact (h.unentered _ hplace).1 hreal hmem
    · intro before hbefore path' scope rest names htodo' hlist
      rcases List.mem_append.1 hbefore with hbefore | hbefore
      · exact List.mem_append_left _ (h.listed before hbefore path' scope rest names htodo' hlist)
      · cases List.mem_singleton.1 hbefore
        cases htodo.symm.trans htodo'
        simp

theorem Yielded.step (h : Yielded tree request done walker)
    (hnext : next? tree request walker = some (.ok (yield, next))) :
    Yielded tree request (done ++ [walker]) next := by
  have hyields : (done ++ [walker]).filterMap (yielding? tree request) =
      done.filterMap (yielding? tree request) ++ yield.toList := by
    rw [List.filterMap_append, List.filterMap_cons, yielding?, hnext]
    cases yield <;> rfl
  refine ⟨?_, ?_⟩
  · rw [hyields]
    rcases (move_of_next? hnext).yielding with ⟨rfl, hsame⟩ | ⟨path, rfl, hnew, hmore⟩
    · simpa [hsame] using h.eq
    · simp [hmore, h.eq]
  · rcases (move_of_next? hnext).yielding with ⟨rfl, hsame⟩ | ⟨path, rfl, hnew, hmore⟩
    · exact hsame ▸ h.nodup
    · exact hmore ▸ List.nodup_cons.2 ⟨hnew, h.nodup⟩

/-! ### Walks that do not fail -/

section Readable

open FileTree (Written ShortLinks)

/-- What a walk needs so as not to fail: whatever the lines of ignore files are, they can be read,
and no name that a link writes is too long. -/
structure Readable (tree : FileTree) : Prop where
  regular : tree.Regular
  links : tree.ShortLinks
  lines : ∀ base lines, ∃ ignored, IgnoreSyntax.read base lines = .ok ignored

variable (h : Readable tree)
include h

theorem Readable.readLines {files : List Text} (hpath : ∀ name ∈ path.names, Written name)
    (hfiles : ∀ name ∈ files, Written name) :
    ∃ answer, IgnoreLevel.readLines tree path files = .ok answer := by
  induction files with
  | nil => exact ⟨_, rfl⟩
  | cons name files ih =>
    rw [List.forall_mem_cons] at hfiles
    refine exists_bind_eq_ok (ih hfiles.2) fun answer _ => ?_
    refine exists_bind_eq_ok (h.links.exists_entry ?_) fun entry _ => ?_
    · exact List.forall_mem_append.2 ⟨hpath, List.forall_mem_singleton.2 hfiles.1⟩
    · split <;> exact ⟨_, rfl⟩

omit [IgnoreSyntax] h in
theorem written_of_mem_fileNames {name : Text} (hmem : name ∈ IgnoreLevel.fileNames) :
    Written name := by
  have hname : IsName ".gitignore".toList ∧ IsName ".lotarignore".toList := by
    constructor <;> constructor <;> decide
  rcases List.mem_pair.1 hmem with rfl | rfl
  · exact .inr (.inr hname.1)
  · exact .inr (.inr hname.2)

theorem Readable.read? (hpath : ∀ name ∈ path.names, Written name) :
    ∃ level, IgnoreLevel.read? tree path [] = .ok level := by
  refine exists_bind_eq_ok (h.readLines hpath fun _ => written_of_mem_fileNames) fun _ _ => ?_
  dsimp only
  split
  · exact ⟨_, rfl⟩
  · exact exists_bind_eq_ok (h.lines _ _) fun _ _ => ⟨_, rfl⟩

theorem Readable.enter (hpath : ∀ name ∈ path.names, Written name) (scope : IgnoreScope) :
    ∃ inner, scope.enter tree path = .ok inner :=
  exists_bind_eq_ok (h.read? hpath) fun level _ => by cases level <;> exact ⟨_, rfl⟩

/-- The names of what is in a directory that is found can be part of a path. -/
theorem Readable.written (hlist : tree.list path = .ok names) {name : Text} {isDirectory : Bool}
    (hmem : (name, isDirectory) ∈ names) :
    ∀ part ∈ (path.join ⟨0, [name]⟩).names, Written part := by
  obtain ⟨place, hfind, -⟩ := list_eq_ok hlist
  have hpath := h.regular.written_of_follow (FileTree.find_eq_ok_iff.1 hfind).1
  exact List.forall_mem_append.2
    ⟨hpath, List.forall_mem_singleton.2 (.inr (.inr (isName_of_list h.regular hlist hmem)))⟩

theorem Readable.visitDirectory (scope : IgnoreScope) (hlist : tree.list path = .ok names) :
    ∃ visits, Walker.visitDirectory tree path scope names = .ok visits := by
  refine exists_bind_eq_ok (exists_mapM_eq_ok fun name hmem => ?_) fun _ _ => ⟨_, rfl⟩
  have hname := List.mem_of_mem_filter hmem
  rw [Text.sort, List.mem_mergeSort, List.mem_map] at hname
  obtain ⟨⟨name, isDirectory⟩, hlisted, rfl⟩ := hname
  exact exists_bind_eq_ok (h.enter (h.written hlist (List.mem_of_mem_filter hlisted)) scope)
    fun _ _ => ⟨_, rfl⟩

/-- A file that is there is accepted or not, without a failure. -/
theorem Readable.accept? (hdots : hereName ∉ path.names) (hfile : tree.isFile path = .ok true)
    (scope : IgnoreScope) :
    ∃ answer, Walker.accept? tree request walker path scope = .ok answer := by
  obtain ⟨location, bytes, hnull, hfind⟩ := FileTree.isFile_eq_ok_true hfile
  have hreal : tree.realPath path = .ok location := by
    rw [FileTree.realPath, hnull, if_neg Bool.false_ne_true, FileTree.real_of_find hdots hfind]
  have hresolve : tree.resolve path = .ok location := by
    rw [FileTree.resolve, hreal]
    dsimp only [bind, Except.bind]
    rw [h.regular.find (FileTree.lookup?_of_find hfind) fun _ heq => by cases heq]
    rfl
  refine exists_bind_eq_ok ?_ fun selected _ => ?_
  · rw [selects]
    split
    · exact ⟨_, rfl⟩
    · split
      · exact ⟨_, rfl⟩
      · split
        · exact ⟨_, rfl⟩
        · split
          · exact ⟨_, rfl⟩
          · exact exists_bind_eq_ok ⟨location, hresolve⟩ fun _ _ => ⟨_, rfl⟩
  · split
    · exact exists_bind_eq_ok ⟨location, hreal⟩ fun _ _ => ⟨_, rfl⟩
    · exact ⟨_, rfl⟩

/-- A walk that can go on without a failure: every root can be opened, and what is to be visited as
a file can be looked up. -/
structure Ready (tree : FileTree) (request : WalkRequest) (walker : Walker) : Prop where
  dotless : walker.Dotless
  roots : ∀ path, .root path ∈ walker.todo →
    ∃ answer, openRoot tree request walker path = .ok answer
  files : ∀ path scope, .file path scope ∈ walker.todo → ∃ answer, tree.isFile path = .ok answer

omit h in
/-- A root that can be opened can still be opened when another one was. -/
theorem exists_openRoot_cons {todo : List Visit} {found : Location × IgnoreScope}
    (hroot : ∃ answer, openRoot tree request walker path = .ok answer) :
    ∃ answer, openRoot tree request { walker with todo, scopes := found :: walker.scopes } path =
      .ok answer := by
  obtain ⟨⟨root, scope, isFile⟩, hroot⟩ := hroot
  obtain ⟨hplace, hscope, hfile⟩ := openRoot_eq_ok hroot
  refine exists_bind_eq_ok ⟨root, hplace⟩ fun place heq => ?_
  cases hplace.symm.trans heq
  refine exists_bind_eq_ok ?_ fun _ _ => exists_bind_eq_ok ⟨isFile, hfile⟩ fun _ _ => ⟨_, rfl⟩
  rw [rootScope, List.lookup_cons]
  cases root == found.1 with
  | true => exact ⟨_, rfl⟩
  | false => exact ⟨scope, hscope⟩

theorem Move.ready (hmove : Move tree request walker yield next)
    (hready : Ready tree request walker) : Ready tree request next := by
  have hdotless := hmove.dotless h.regular hready.dotless
  cases hmove with
  | @opened path rest root scope isFile htodo hroot =>
    refine ⟨hdotless, fun path hmem => ?_, fun path scope hmem => ?_⟩
    · have hmem : .root path ∈ rest := by
        rcases List.mem_cons.1 hmem with heq | hmem
        · cases isFile <;> cases heq
        · exact hmem
      exact exists_openRoot_cons (hready.roots path (htodo ▸ List.mem_cons_of_mem _ hmem))
    · rcases List.mem_cons.1 hmem with heq | hmem
      · cases isFile <;> cases heq
        exact ⟨true, (openRoot_eq_ok hroot).2.2⟩
      · exact hready.files path scope (htodo ▸ List.mem_cons_of_mem _ hmem)
  | entered htodo hlist hreal hvisits =>
    refine ⟨hdotless, fun path hmem => ?_, fun path scope hmem => ?_⟩
    · rcases List.mem_append.1 hmem with hmem | hmem
      · rcases mem_visits hvisits hmem with ⟨name, -, heq⟩ | ⟨name, inner, -, -, heq⟩ <;> cases heq
      · exact hready.roots path (htodo ▸ List.mem_cons_of_mem _ hmem)
    · rcases List.mem_append.1 hmem with hmem | hmem
      · rcases mem_visits hvisits hmem with ⟨name, hname, heq⟩ | ⟨name, inner, -, -, heq⟩
        · cases heq
          refine exists_bind_eq_ok (h.links.exists_entry (h.written hlist hname)) fun entry _ => ?_
          split <;> exact ⟨_, rfl⟩
        · cases heq
      · exact hready.files path scope (htodo ▸ List.mem_cons_of_mem _ hmem)
  | unlisted htodo | passed htodo | refused htodo | yielded htodo =>
    exact ⟨hdotless, fun path hmem => hready.roots path (htodo ▸ List.mem_cons_of_mem _ hmem),
      fun path scope hmem => hready.files path scope (htodo ▸ List.mem_cons_of_mem _ hmem)⟩

theorem Ready.next?_ne_error (hready : Ready tree request walker) (e : Failure) :
    next? tree request walker ≠ some (.error e) := by
  suffices hok : ∀ outcome, step? tree request walker = some outcome → ∃ step, outcome = .ok step by
    intro hnext
    rw [next?, Option.map_eq_some_iff] at hnext
    obtain ⟨outcome, hstep, hnext⟩ := hnext
    obtain ⟨step, rfl⟩ := hok outcome hstep
    cases hnext
  intro outcome hstep
  rw [step?.eq_def] at hstep
  split at hstep
  · cases hstep
  · rename_i path rest htodo
    cases hstep
    exact exists_bind_eq_ok (hready.roots path (htodo ▸ List.mem_cons_self)) fun _ _ => ⟨_, rfl⟩
  · rename_i path scope rest htodo
    split at hstep
    · cases hstep
      exact ⟨_, rfl⟩
    · rename_i names hlist
      dsimp only at hstep
      split at hstep
      · cases hstep
        exact exists_bind_eq_ok (h.visitDirectory scope hlist) fun _ _ => ⟨_, rfl⟩
      · cases hstep
        exact ⟨_, rfl⟩
  · rename_i path scope rest htodo
    cases hstep
    have hlooked := hready.files path scope (htodo ▸ List.mem_cons_self)
    refine exists_bind_eq_ok hlooked fun isFile hfile => ?_
    cases isFile with
    | false => exact ⟨_, rfl⟩
    | true =>
      have hdots := hready.dotless _ (htodo ▸ List.mem_cons_self)
      refine exists_bind_eq_ok (h.accept? hdots hfile scope) fun accepted _ => ?_
      cases accepted <;> exact ⟨_, rfl⟩

end Readable

/-! ### Every walk -/

/-- Whatever links there are, and whatever is ignored, a walk ends. Every directory that it comes to
is entered once, and no two files that it yields are the same. When every root can be opened and
every ignore file read, it does not fail. -/
theorem walk_ends_entering_once (hregular : tree.Regular) (request : WalkRequest)
    {roots : List Path} (hroots : ∀ root ∈ roots, hereName ∉ root.names)
    (scopes : List (Location × IgnoreScope)) :
    let walker : Walker := { start roots tree.directories with scopes }
    let outcome := run request (fun _ => tree) (fun path found => (true, path :: found)) walker []
    ((course tree request walker).length ≤ 2 * roots.length + tree.entries.length ∧
      ∀ answer, next? tree request (goal tree request walker) ≠ some (.ok answer)) ∧
    (((entries tree request walker).map tree.real).Nodup ∧
      ∀ before ∈ course tree request walker, ∀ path scope rest names,
        before.todo = .directory path scope :: rest → tree.list path = .ok names →
          tree.real path ∈ (entries tree request walker).map tree.real) ∧
    (outcome.2.2.map tree.real).Nodup ∧
    (Readable tree → (∀ root ∈ roots, ∃ answer, openRoot tree request walker root = .ok answer) →
      outcome.1 = .ok ()) := by
  intro walker outcome
  have hstart : Entered tree [] walker := entered_start tree hroots scopes
  have houtcome := run_collecting tree request walker []
  have hentered : Entered tree (course tree request walker) (goal tree request walker) :=
    course_keeps (P := Entered tree)
      (fun _ _ _ _ h hnext => h.step hregular (move_of_next? hnext)) [] hstart
  have hyielded : Yielded tree request (course tree request walker) (goal tree request walker) :=
    course_keeps (P := Yielded tree request) (fun _ _ _ _ h hnext => h.step hnext) []
      ⟨rfl, List.nodup_nil⟩
  refine ⟨⟨?_, next?_goal tree request walker⟩, ⟨hentered.nodup, hentered.listed⟩, ?_, ?_⟩
  · exact (length_course_le hregular hstart.dotless).trans (due_start_le hregular roots scopes)
  · have hfound : outcome.2.2 = (yields tree request walker).reverse := by
      simpa using congrArg (·.2.2) houtcome
    rw [hfound, List.map_reverse]
    exact hyielded.eq ▸ hyielded.nodup
  · intro hreadable hopen
    have hready : Ready tree request walker := by
      refine ⟨hstart.dotless, fun path hmem => ?_, fun path scope hmem => ?_⟩
      · obtain ⟨root, hroot, heq⟩ := List.mem_map.1 hmem
        cases heq
        exact hopen _ hroot
      · obtain ⟨root, -, heq⟩ := List.mem_map.1 hmem
        cases heq
    have hgoal : Ready tree request (goal tree request walker) :=
      course_keeps (P := fun _ => Ready tree request)
        (fun _ _ _ _ h hnext => (move_of_next? hnext).ready hreadable h) [] hready
    have hend : next? tree request (goal tree request walker) = none := by
      cases hnext : next? tree request (goal tree request walker) with
      | none => rfl
      | some answer =>
        cases answer with
        | ok answer => exact absurd hnext (next?_goal tree request walker answer)
        | error e => exact absurd hnext (hgoal.next?_ne_error hreadable e)
    have hanswer := congrArg Prod.fst houtcome
    rw [hend] at hanswer
    exact hanswer

end Steps

/-- A directory with a file, a link to the file and a link to the directory in it. -/
def loopedTree : FileTree where
  entries := [(["r".toList], .directory), (["r".toList, "x.py".toList], .file []),
    (["r".toList, "y.py".toList], .link "x.py".toList),
    (["r".toList, "z".toList], .link "../r".toList)]
  nodup := by decide

section Literal

local instance : IgnoreSyntax := .literal

theorem walk_of_looped_tree_ends :
    let roots : List Path := [⟨1, ["r".toList, "y.py".toList]⟩, ⟨1, ["r".toList, "z".toList]⟩]
    (loopedTree.Regular ∧ ∀ root ∈ roots, hereName ∉ root.names) ∧
      (course loopedTree ⟨none, [], [], none⟩ (start roots loopedTree.directories)).length ≤ 8 ∧
      (run ⟨none, [], [], none⟩ (fun _ => loopedTree) (fun path found => (true, path :: found))
        (start roots loopedTree.directories) ([] : List Path)).1 = .ok () := by
  intro roots
  have hregular : loopedTree.Regular := by decide
  have hroots : ∀ root ∈ roots, hereName ∉ root.names := by decide
  have hreadable : Readable loopedTree := by
    refine ⟨hregular, fun location target hlink => ?_, fun _ lines => ⟨lines.contains, rfl⟩⟩
    have hmem := FileTree.mem_of_lookup? (by rintro rfl; cases hlink) hlink
    obtain ⟨-, rfl⟩ | ⟨-, rfl⟩ : (_ ∧ target = "x.py".toList) ∨ (_ ∧ target = "../r".toList) := by
      simpa [loopedTree] using hmem
    · decide
    · decide
  obtain ⟨⟨hlength, -⟩, -, -, hends⟩ :=
    walk_ends_entering_once hregular ⟨none, [], [], none⟩ hroots []
  refine ⟨⟨hregular, hroots⟩, hlength, hends hreadable fun root hroot => ?_⟩
  rcases List.mem_pair.1 hroot with rfl | rfl
  · exact ⟨_, by cbv⟩
  · exact ⟨_, by cbv⟩

end Literal

end Walker

end TodoTracker
