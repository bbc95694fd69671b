import TodoTracker.Proofs.Traversal.Once
import TodoTracker.Proofs.Traversal.Selected

/-!
# What a walk finds

A walk that comes to a directory of a tree without links yields the files that are selected there
and comes out with what was to be done after it.
-/

set_option autoImplicit false

namespace TodoTracker.Walker

section Walks

variable [IgnoreSyntax] {tree : FileTree} {request : WalkRequest} {walker next last : Walker}
  {yield : Option Path} {entered found : List Path} {outer : List IgnoreLevel} {place : Location}
  {scope : IgnoreScope} {rest : List Visit} {unentered yielded : List Location}
  {scopes : List (Location × IgnoreScope)} {warnings : List Text}

/-- A walk comes from one walker to another; in between it enters directories and yields files. -/
inductive Comes (tree : FileTree) (request : WalkRequest) :
    Walker → List Path → List Path → Walker → Prop
  | here (walker : Walker) : Comes tree request walker [] [] walker
  | step {walker next last : Walker} {yield : Option Path} {entered found : List Path}
    (hnext : next? tree request walker = some (.ok (yield, next)))
    (h : Comes tree request next entered found last) :
    Comes tree request walker ((entering? tree walker).toList ++ entered) (yield.toList ++ found)
      last

namespace Comes

theorem trans {entered' found' : List Path} (h : Comes tree request walker entered found next)
    (h' : Comes tree request next entered' found' last) :
    Comes tree request walker (entered ++ entered') (found ++ found') last := by
  induction h with
  | here => exact h'
  | step hnext _ ih =>
    rw [List.append_assoc, List.append_assoc]
    exact .step hnext (ih h')

/-- When a walk cannot go on, it has entered and yielded all that it does. -/
theorem ends (h : Comes tree request walker entered found last)
    (hlast : ∀ outcome, next? tree request last ≠ some (.ok outcome)) :
    entries tree request walker = entered ∧ yields tree request walker = found ∧
      goal tree request walker = last := by
  induction h with
  | here walker =>
    obtain ⟨hcourse, hgoal⟩ := course_of_end hlast
    simp [entries, yields, hcourse, hgoal]
  | @step _ _ _ yield _ _ hnext _ ih =>
    obtain ⟨hcourse, hgoal⟩ := course_of_next? hnext
    obtain ⟨hentries, hyields, hlast⟩ := ih hlast
    rw [entries] at hentries ⊢
    rw [yields] at hyields ⊢
    refine ⟨?_, ?_, hgoal.trans hlast⟩
    · rw [hcourse, List.filterMap_cons, hentries]
      cases entering? tree _ <;> rfl
    · rw [hcourse, List.filterMap_cons, hyields, yielding?, hnext]
      cases yield <;> rfl

end Comes

/-! ### Files -/

omit [IgnoreSyntax] in
theorem selects_eq {file : Location} (hresolve : tree.resolve (.ofLocation file) = .ok file)
    (scope : IgnoreScope) :
    selects tree request (.ofLocation file) scope = .ok (passes request scope.levels file) := by
  have hnoise : Selection.isNoise (Path.ofLocation file).text = Selection.isNoise file.text := rfl
  have hides : scope.ignores (.ofLocation file) false = hides scope.levels file false := rfl
  rw [selects, passes, hnoise, hides, hresolve]
  cases Selection.isNoise file.text with
  | true => rfl
  | false =>
    cases Selection.admits (.ofLocation file) request.included request.excluded with
    | false => rfl
    | true =>
      cases Walker.hides scope.levels file false with
      | true => rfl
      | false =>
        cases request.only with
        | none => rfl
        | some only => rfl

theorem next?_refused {path : Path} (hfile : tree.isFile path = .ok true)
    (hselects : selects tree request path scope = .ok false) :
    next? tree request ⟨.file path scope :: rest, unentered, yielded, scopes, warnings⟩ =
      some (.ok (none, ⟨rest, unentered, yielded, scopes, warnings⟩)) := by
  have haccept : accept? tree request ⟨.file path scope :: rest, unentered, yielded, scopes,
      warnings⟩ path scope = .ok none := by
    rw [accept?, hselects]
    rfl
  rw [next?, step?]
  dsimp only
  rw [hfile, haccept]
  rfl

/-- Files that were not yielded before are yielded when they pass. -/
theorem comes_files (hregular : tree.Regular) {files : List Text} (hnodup : files.Nodup)
    (hfiles : ∀ name ∈ files, ∃ bytes, tree.lookup? (place ++ [name]) = some (.file bytes))
    (hnew : ∀ name ∈ files, place ++ [name] ∉ yielded) :
    let passed := files.filter fun name => passes request scope.levels (place ++ [name])
    Comes tree request
      ⟨files.map (fun name => .file (.ofLocation (place ++ [name])) scope) ++ rest, unentered,
        yielded, scopes, warnings⟩
      [] (passed.map fun name => .ofLocation (place ++ [name]))
      ⟨rest, unentered, (passed.map fun name => place ++ [name]).reverse ++ yielded, scopes,
        warnings⟩ := by
  induction files generalizing yielded with
  | nil => exact .here _
  | cons name files ih =>
    rw [List.forall_mem_cons] at hfiles hnew
    obtain ⟨⟨bytes, hfile⟩, hfiles⟩ := hfiles
    obtain ⟨hfresh, hnodup⟩ := List.nodup_cons.1 hnodup
    have hisFile : tree.isFile (.ofLocation (place ++ [name])) = .ok true :=
      hregular.isFile hfile nofun
    have hselects : selects tree request (.ofLocation (place ++ [name])) scope = .ok _ :=
      selects_eq (hregular.resolve hfile nofun) scope
    intro passed
    cases hpasses : passes request scope.levels (place ++ [name]) with
    | true =>
      have hrest := @ih ((place ++ [name]) :: yielded) hnodup hfiles fun other hother => by
        have hne : other ≠ name := fun heq => hfresh (heq ▸ hother)
        simpa [hne] using hnew.2 other hother
      have hcomes := Comes.step (next?_file hisFile (hselects.trans (congrArg _ hpasses))
        (hregular.realPath hfile nofun) hnew.1) hrest
      simpa [passed, hpasses, entering?] using hcomes
    | false =>
      have hcomes := Comes.step (next?_refused hisFile (hselects.trans (congrArg _ hpasses)))
        (ih hnodup hfiles hnew.2)
      simpa [passed, hpasses, entering?] using hcomes

/-! ### Directories -/

/-- The scope of a directory: the levels from above it and its own. -/
def HasLevels (tree : FileTree) (outer : List IgnoreLevel) (place : Location)
    (scope : IgnoreScope) : Prop := scope.levels = outer ++ levelAt tree place

theorem enter_eq (h : ∃ level, IgnoreLevel.read? tree (.ofLocation place) [] = .ok level)
    (scope : IgnoreScope) : scope.enter tree (.ofLocation place) =
      .ok { scope with levels := scope.levels ++ levelAt tree place } := by
  obtain ⟨level, hlevel⟩ := h
  rw [IgnoreScope.enter, levelAt, hlevel]
  cases level with
  | none =>
    rw [List.append_nil]
    rfl
  | some level => rfl

theorem visitDirectory_eq (hlegible : Legible tree) (place : Location)
    (scope : IgnoreScope) :
    visitDirectory tree (.ofLocation place) scope (listed tree place) =
      .ok ((filesIn tree place).map (fun name => .file (.ofLocation (place ++ [name])) scope) ++
        (directoriesIn tree scope.levels place).map fun name =>
          .directory (.ofLocation (place ++ [name]))
            { scope with levels := scope.levels ++ levelAt tree (place ++ [name]) }) := by
  have hmap : (directoriesIn tree scope.levels place).mapM (fun name => do
        return Visit.directory (.ofLocation (place ++ [name]))
          (← scope.enter tree (.ofLocation (place ++ [name])))) =
      .ok ((directoriesIn tree scope.levels place).map fun name =>
        .directory (.ofLocation (place ++ [name]))
          { scope with levels := scope.levels ++ levelAt tree (place ++ [name]) }) := by
    refine mapM_eq_ok fun name hmem => ?_
    rw [enter_eq (hlegible _ (mem_directoriesIn.1 hmem).1)]
    rfl
  exact congrArg (fun below => below >>= fun directories => Except.ok
    ((filesIn tree place).map (fun name => .file (.ofLocation (place ++ [name])) scope) ++
      directories)) hmap

theorem Comes.directory {path : Path} {names : List (Text × Bool)} {visits : List Visit}
    (hlist : tree.list path = .ok names) (hreal : tree.real path ∈ unentered)
    (hvisits : visitDirectory tree path scope names = .ok visits)
    (h : Comes tree request ⟨visits ++ rest, unentered.filter (· != tree.real path), yielded, scopes,
      warnings⟩ entered found last) :
    Comes tree request ⟨.directory path scope :: rest, unentered, yielded, scopes, warnings⟩
      (path :: entered) found last := by
  have hentering : entering? tree ⟨.directory path scope :: rest, unentered, yielded, scopes,
      warnings⟩ = some path := by
    simp [entering?, hlist, hreal, Except.toOption]
  have hnext : next? tree request ⟨.directory path scope :: rest, unentered, yielded, scopes,
      warnings⟩ = some (.ok (none, ⟨visits ++ rest, unentered.filter (· != tree.real path), yielded,
        scopes, warnings⟩)) := by
    rw [next?, step?]
    dsimp only
    rw [hlist]
    dsimp only
    rw [dif_pos hreal, hvisits]
    rfl
  simpa [hentering] using Comes.step hnext h

omit [IgnoreSyntax] in
theorem within_iff {location : Location} :
    location.within place ↔ ∃ way, location = place ++ way := by
  rw [Location.within, List.isPrefixOf_iff_prefix]
  exact ⟨fun ⟨way, h⟩ => ⟨way, h.symm⟩, fun ⟨way, h⟩ => ⟨way, h.symm⟩⟩

omit [IgnoreSyntax] in
theorem within_self (location : Location) : location.within location :=
  within_iff.2 ⟨[], (List.append_nil _).symm⟩

omit [IgnoreSyntax] in
theorem within_of_child {location : Location} {name : Text} (h : location.within (place ++ [name])) :
    location.within place := by
  obtain ⟨way, rfl⟩ := within_iff.1 h
  exact within_iff.2 ⟨name :: way, by simp⟩

omit [IgnoreSyntax] in
theorem name_eq_of_within {location : Location} {name other : Text}
    (h : location.within (place ++ [name])) (h' : location.within (place ++ [other])) :
    name = other := by
  obtain ⟨way, rfl⟩ := within_iff.1 h
  obtain ⟨way', heq⟩ := within_iff.1 h'
  simp only [List.append_assoc, List.append_cancel_left_eq, List.singleton_append] at heq
  exact (List.cons.inj heq).1

/-- A walk that comes to a directory from which everything is still to be entered and yielded goes
all open ways and yields the files at the selected ones. -/
def Covers (tree : FileTree) (request : WalkRequest) (depth : Nat) (outer : List IgnoreLevel)
    (place : Location) : Prop :=
  ∀ (scope : IgnoreScope) (rest : List Visit) (unentered yielded : List Location)
    (scopes : List (Location × IgnoreScope)) (warnings : List Text),
    scope.levels = outer ++ levelAt tree place →
    (∀ other ∈ tree.directories, other.within place → other ∈ unentered) →
    (∀ file ∈ yielded, ¬file.within place) →
    ∃ left, (∀ other ∈ unentered, ¬other.within place → other ∈ left) ∧
      Comes tree request
        ⟨.directory (.ofLocation place) scope :: rest, unentered, yielded, scopes, warnings⟩
        ((openWays tree depth outer place).map fun way => .ofLocation (place ++ way))
        ((ways tree request depth outer place).map fun way => .ofLocation (place ++ way))
        ⟨rest, left, ((ways tree request depth outer place).map (place ++ ·)).reverse ++ yielded,
          scopes, warnings⟩

/-- What is covered from every one of some subdirectories is covered from all of them. -/
theorem comes_subdirectories {depth : Nat} {levels : List IgnoreLevel} {names : List Text}
    (hnames : names.Nodup)
    (hcovers : ∀ name ∈ names, Covers tree request depth levels (place ++ [name]))
    (hscope : scope.levels = levels)
    (hunentered : ∀ name ∈ names, ∀ other ∈ tree.directories, other.within (place ++ [name]) →
      other ∈ unentered)
    (hyielded : ∀ name ∈ names, ∀ file ∈ yielded, ¬file.within (place ++ [name]))
    (rest : List Visit) (scopes : List (Location × IgnoreScope)) (warnings : List Text) :
    let below := names.flatMap fun name =>
      (ways tree request depth levels (place ++ [name])).map (name :: ·)
    ∃ left, (∀ other ∈ unentered, ¬other.within place → other ∈ left) ∧
      Comes tree request
        ⟨names.map (fun name => .directory (.ofLocation (place ++ [name]))
            { scope with levels := scope.levels ++ levelAt tree (place ++ [name]) }) ++ rest,
          unentered, yielded, scopes, warnings⟩
        ((names.flatMap fun name => (openWays tree depth levels (place ++ [name])).map
          (name :: ·)).map fun way => .ofLocation (place ++ way))
        (below.map fun way => .ofLocation (place ++ way))
        ⟨rest, left, (below.map (place ++ ·)).reverse ++ yielded, scopes, warnings⟩ := by
  induction names generalizing unentered yielded with
  | nil => exact ⟨unentered, fun _ hmem _ => hmem, .here _⟩
  | cons name names ih =>
    rw [List.forall_mem_cons] at hcovers hunentered hyielded
    obtain ⟨hfresh, hnames⟩ := List.nodup_cons.1 hnames
    have hapart : ∀ other ∈ names, ∀ location : Location, location.within (place ++ [other]) →
        ¬location.within (place ++ [name]) :=
      fun other hother location h h' => hfresh (name_eq_of_within h h' ▸ hother)
    obtain ⟨left, hleft, hcomes⟩ := hcovers.1
      { scope with levels := scope.levels ++ levelAt tree (place ++ [name]) } _ unentered yielded
      scopes warnings (by rw [hscope]) hunentered.1 hyielded.1
    have hfiles : ∀ other ∈ names, ∀ file ∈ ((ways tree request depth levels
        (place ++ [name])).map (place ++ [name] ++ ·)).reverse ++ yielded,
        ¬file.within (place ++ [other]) := by
      intro other hother file hmem hwithin
      rcases List.mem_append.1 hmem with hmem | hmem
      · obtain ⟨way, -, rfl⟩ := List.mem_map.1 (List.mem_reverse.1 hmem)
        exact hapart other hother _ hwithin (within_iff.2 ⟨way, rfl⟩)
      · exact hyielded.2 other hother file hmem hwithin
    obtain ⟨left', hleft', hcomes'⟩ := ih hnames hcovers.2
      (fun other hother location hmem hwithin =>
        hleft location (hunentered.2 other hother location hmem hwithin)
          (hapart other hother location hwithin)) hfiles
    refine ⟨left', fun other hmem hother => hleft' other (hleft other hmem fun hwithin =>
      hother (within_of_child hwithin)) hother, ?_⟩
    have htrans := hcomes.trans hcomes'
    simpa [List.map_flatMap, Function.comp_def] using htrans

theorem covers_of_subdirectories (hregular : tree.Regular) (hlinks : tree.Linkfree)
    (hlegible : Legible tree) {depth : Nat}
    (hplace : tree.lookup? place = some .directory)
    (hcovers : ∀ name ∈ directoriesIn tree (outer ++ levelAt tree place) place,
      Covers tree request depth (outer ++ levelAt tree place) (place ++ [name])) :
    Covers tree request (depth + 1) outer place := by
  intro scope rest unentered yielded scopes warnings hscope hunentered hyielded
  have hreal : tree.real (.ofLocation place) = place := hregular.real hplace nofun
  have hmem : tree.real (.ofLocation place) ∈ unentered := by
    rw [hreal]
    exact hunentered place (FileTree.mem_directories_of_lookup? hplace) (within_self place)
  have hnew : ∀ name ∈ filesIn tree place, place ++ [name] ∉ yielded := fun name _ hmem =>
    hyielded _ hmem (within_iff.2 ⟨[name], rfl⟩)
  have hdirectories := strict_directoriesIn tree (outer ++ levelAt tree place) place
  have hbelow : ∀ name ∈ directoriesIn tree (outer ++ levelAt tree place) place,
      ∀ other ∈ tree.directories, other.within (place ++ [name]) →
        other ∈ unentered.filter (· != tree.real (.ofLocation place)) := by
    intro name hname other hmem hwithin
    refine List.mem_filter.2 ⟨hunentered other hmem (within_of_child hwithin), ?_⟩
    obtain ⟨way, rfl⟩ := within_iff.1 hwithin
    simp [hreal]
  have hothers : ∀ name ∈ directoriesIn tree (outer ++ levelAt tree place) place,
      ∀ file ∈ (((filesIn tree place).filter fun name =>
        passes request scope.levels (place ++ [name])).map fun name => place ++ [name]).reverse ++
          yielded, ¬file.within (place ++ [name]) := by
    intro name hname file hmem hwithin
    rcases List.mem_append.1 hmem with hmem | hmem
    · obtain ⟨other, hother, rfl⟩ := List.mem_map.1 (List.mem_reverse.1 hmem)
      obtain ⟨bytes, hfile⟩ := (mem_filesIn hlinks).1 (List.mem_filter.1 hother).1
      obtain rfl : other = name := name_eq_of_within (within_self _) hwithin
      cases hfile.symm.trans (mem_directoriesIn.1 hname).1
    · exact hyielded file hmem (within_of_child hwithin)
  obtain ⟨left, hleft, hcomes⟩ := comes_subdirectories (hdirectories.imp And.right) hcovers hscope
    hbelow hothers rest scopes warnings
  refine ⟨left, fun other hmem hother => hleft other (List.mem_filter.2 ⟨hmem, ?_⟩) hother, ?_⟩
  · have hne : other ≠ place := fun heq => hother (heq ▸ within_self place)
    simpa [hreal] using hne
  · have hfiles := (comes_files hregular ((strict_filesIn tree place).imp And.right)
      (fun name => (mem_filesIn hlinks).1) hnew).trans hcomes
    rw [← hscope] at hfiles
    have hdirectory := Comes.directory (hregular.list hlinks hplace) hmem
      (visitDirectory_eq hlegible place scope) (List.append_assoc .. ▸ hfiles)
    simpa [openWays, ways, ← hscope, Function.comp_def] using hdirectory

/-- Every directory of a tree without links is covered. -/
theorem covers (hregular : tree.Regular) (hlinks : tree.Linkfree)
    (hlegible : Legible tree) {depth : Nat}
    (hdepth : ∀ entry ∈ tree.entries, entry.1.length ≤ place.length + depth)
    (hplace : tree.lookup? place = some .directory) (outer : List IgnoreLevel) :
    Covers tree request (depth + 1) outer place := by
  induction depth generalizing place outer with
  | zero =>
    refine covers_of_subdirectories hregular hlinks hlegible hplace fun name hname => ?_
    have hmem := FileTree.mem_of_lookup? (by simp) (mem_directoriesIn.1 hname).1
    have hlength := hdepth _ hmem
    simp only [List.length_append, List.length_singleton] at hlength
    omega
  | succ depth ih =>
    refine covers_of_subdirectories hregular hlinks hlegible hplace fun name hname => ?_
    refine ih (fun entry hmem => ?_) (mem_directoriesIn.1 hname).1 _
    have hlength := hdepth entry hmem
    simp only [List.length_append, List.length_singleton]
    omega

/-! ### Roots -/

theorem Readable.legible (h : Readable tree) : Legible tree := fun _ hplace =>
  h.read? fun name hmem => .inr (.inr (h.regular.isName hplace name hmem))

theorem levelAt_eq {level : Option IgnoreLevel}
    (h : IgnoreLevel.read? tree (.ofLocation place) [] = .ok level) :
    levelAt tree place = level.toList := by
  rw [levelAt, h]
  cases level <;> rfl

/-- The levels of a root: that of the repository, if the root lies below it, and the root's own. -/
theorem ofRoot_eq (hregular : tree.Regular) (hlegible : Legible tree)
    (hrepo : ∀ repo, request.repo = some repo → ∃ location, tree.resolve repo = .ok location)
    (hplace : tree.lookup? place = some .directory) :
    IgnoreScope.ofRoot tree (.ofLocation place) request.repo [] =
      .ok ⟨.ofLocation place, repositoryLevel tree request place ++ levelAt tree place⟩ := by
  obtain ⟨own, hown⟩ := hlegible place hplace
  have hresolve : tree.resolve (.ofLocation place) = .ok place := hregular.resolve hplace nofun
  rw [IgnoreScope.ofRoot, hresolve, repositoryLevel, levelAt_eq hown]
  dsimp only [bind, Except.bind, pure, Except.pure]
  cases hrequest : request.repo with
  | none =>
    dsimp only [Option.map]
    rw [hown]
    cases own <;> rfl
  | some repo =>
    obtain ⟨location, hlocation⟩ := hrepo repo hrequest
    dsimp only [Option.map]
    rw [hlocation]
    dsimp only
    by_cases hwithin : location ≠ place ∧ place.within location
    · obtain ⟨way, rfl⟩ := within_iff.1 hwithin.2
      have hne : way ≠ [] := by
        rintro rfl
        simp at hwithin
      obtain ⟨above, habove⟩ := hlegible location (hregular.lookup?_above hne hplace)
      rw [if_pos hwithin, if_pos hwithin, List.mapM_cons, List.mapM_nil, habove,
        levelAt_eq habove]
      dsimp only [bind, Except.bind, pure, Except.pure]
      rw [hown]
      cases own <;> cases above <;> rfl
    · rw [if_neg hwithin, if_neg hwithin, List.mapM_nil]
      dsimp only [pure, Except.pure]
      rw [hown]
      cases own <;> rfl

theorem next?_root (hregular : tree.Regular) (hlegible : Legible tree) {root : Path}
    (hrepo : ∀ repo, request.repo = some repo → ∃ location, tree.resolve repo = .ok location)
    (hroot : tree.resolve root = .ok place) (hplace : tree.lookup? place = some .directory)
    (unentered : List Location) :
    ∃ scope : IgnoreScope,
      scope.levels = repositoryLevel tree request place ++ levelAt tree place ∧
      next? tree request (start [root] unentered) = some (.ok (none,
        ⟨[.directory (.ofLocation place) scope], unentered, [], [(place, scope)], []⟩)) := by
  have hdirectory : tree.isDirectory (.ofLocation place) = .ok true :=
    hregular.isDirectory hplace nofun
  have hfile : tree.isFile (.ofLocation place) = .ok false := hregular.isFile hplace nofun
  have hscope : rootScope tree request (start [root] unentered) place = .ok
      ⟨.ofLocation place, repositoryLevel tree request place ++ levelAt tree place⟩ := by
    change (tree.isDirectory (.ofLocation place) >>= fun isDirectory => IgnoreScope.ofRoot tree
      (if isDirectory then .ofLocation place else (Path.ofLocation place).parent) request.repo []) = _
    rw [hdirectory]
    exact ofRoot_eq hregular hlegible hrepo hplace
  have hopen : openRoot tree request (start [root] unentered) root = .ok (place,
      ⟨.ofLocation place, repositoryLevel tree request place ++ levelAt tree place⟩, false) := by
    rw [openRoot, hroot]
    dsimp only [bind, Except.bind]
    rw [hscope]
    dsimp only
    rw [hfile]
    rfl
  refine ⟨⟨.ofLocation place, repositoryLevel tree request place ++ levelAt tree place⟩, rfl, ?_⟩
  rw [next?, step?.eq_def]
  dsimp only [start, List.map]
  rw [start, List.map, List.map] at hopen
  rw [hopen]
  rfl

/-- What a walk of one directory comes to. -/
theorem comes_root (request : WalkRequest) (hregular : tree.Regular) (hlinks : tree.Linkfree)
    (hlegible : Legible tree) {root : Path}
    (hrepo : ∀ repo, request.repo = some repo → ∃ location, tree.resolve repo = .ok location)
    (hroot : tree.resolve root = .ok place) (hplace : tree.lookup? place = some .directory) :
    ∃ depth last, last.todo = [] ∧ last.warnings = [] ∧
      (∀ entry ∈ tree.entries, entry.1.length ≤ depth) ∧
      Comes tree request (start [root] tree.directories)
        ((openWays tree (depth + 1) (repositoryLevel tree request place) place).map fun way =>
          .ofLocation (place ++ way))
        ((ways tree request (depth + 1) (repositoryLevel tree request place) place).map fun way =>
          .ofLocation (place ++ way)) last := by
  have hdepth : ∀ entry ∈ tree.entries, entry.1.length ≤ (tree.entries.map (·.1.length)).sum :=
    fun entry hmem => List.single_le_sum (by simp) _ (List.mem_map_of_mem hmem)
  obtain ⟨scope, hscope, hnext⟩ :=
    next?_root hregular hlegible hrepo hroot hplace tree.directories
  have hcovers : Covers tree request _ (repositoryLevel tree request place) place :=
    covers hregular hlinks hlegible
      (fun entry hmem => (hdepth entry hmem).trans (Nat.le_add_left ..)) hplace _
  obtain ⟨left, -, hcomes⟩ := hcovers scope [] tree.directories [] [(place, scope)] [] hscope
    (fun _ hmem _ => hmem) (by simp)
  exact ⟨_, _, rfl, rfl, hdepth, .step hnext hcomes⟩

theorem next?_done (h : walker.todo = []) : next? tree request walker = none := by
  rw [next?, step?.eq_def]
  split <;> simp_all

/-- What a walk of one directory enters and yields: the open ways and the selected ones, in order. -/
theorem exists_found (request : WalkRequest) (hregular : tree.Regular) (hlinks : tree.Linkfree)
    (hlegible : Legible tree) {root : Path}
    (hrepo : ∀ repo, request.repo = some repo → ∃ location, tree.resolve repo = .ok location)
    (hroot : tree.resolve root = .ok place) (hplace : tree.lookup? place = some .directory) :
    ∃ opened found : List (List Text),
      files tree request [root] = .ok (found.map fun way => .ofLocation (place ++ way), []) ∧
      entries tree request (start [root] tree.directories) =
        opened.map (fun way => .ofLocation (place ++ way)) ∧
      found.Pairwise Precedes ∧
      (∀ way, way ∈ found ↔
        Selected tree request (repositoryLevel tree request place) place way) ∧
      ∀ way, way ∈ opened ↔ IsOpen tree (repositoryLevel tree request place) place way ∧
        tree.lookup? (place ++ way) = some .directory := by
  obtain ⟨depth, last, htodo, hwarnings, hdepth, hcomes⟩ :=
    comes_root request hregular hlinks hlegible hrepo hroot hplace
  have hlast : next? tree request last = none := next?_done htodo
  obtain ⟨hentries, hyields, hgoal⟩ := hcomes.ends fun outcome h => by
    rw [hlast] at h
    cases h
  -- No way is longer than the location to which it leads.
  have hshort : ∀ way entry, tree.lookup? (place ++ way) = some entry → way.length ≤ depth := by
    intro way entry hentry
    by_cases hne : place ++ way = []
    · simp [(List.append_eq_nil_iff.1 hne).2]
    · have hlength := hdepth _ (FileTree.mem_of_lookup? hne hentry)
      rw [List.length_append] at hlength
      omega
  refine ⟨_, ways tree request (depth + 1) (repositoryLevel tree request place) place, ?_, hentries,
    pairwise_ways _ _ _ _ _, fun way => ?_, fun way => ?_⟩
  · rw [files_eq, hgoal, hlast, hyields, hwarnings]
    rfl
  · rw [mem_ways hregular hlinks hplace]
    refine and_iff_left_of_imp fun hselected => ?_
    obtain ⟨bytes, hfile⟩ := hselected.file
    exact (hshort way _ hfile).trans (Nat.le_succ depth)
  · rw [mem_openWays hregular hplace]
    exact and_iff_left_of_imp fun hopen => Nat.lt_succ_of_le (hshort way _ hopen.2)

omit [IgnoreSyntax] in
theorem Precedes.irrefl (way : List Text) : ¬Precedes way way := by
  intro h
  induction way with
  | nil => cases h
  | cons name way ih =>
    cases h with
    | file _ hne | directory _ hne => exact hne rfl
    | within h => exact ih h

/-- A walk of a directory in a tree without links yields the files that are selected there, each
once, those of a directory before those of its subdirectories and names in order. -/
theorem files_eq_selected (request : WalkRequest) (hregular : tree.Regular)
    (hlinks : tree.Linkfree) (hlegible : Legible tree) {root : Path}
    (hrepo : ∀ repo, request.repo = some repo → ∃ location, tree.resolve repo = .ok location)
    (hroot : tree.resolve root = .ok place) (hplace : tree.lookup? place = some .directory) :
    ∃ found : List (List Text),
      files tree request [root] = .ok (found.map fun way => .ofLocation (place ++ way), []) ∧
      found.Nodup ∧ found.Pairwise Precedes ∧
      ∀ way, way ∈ found ↔
        Selected tree request (repositoryLevel tree request place) place way := by
  obtain ⟨opened, found, hfiles, -, hordered, hselected, -⟩ :=
    exists_found request hregular hlinks hlegible hrepo hroot hplace
  refine ⟨found, hfiles, hordered.imp fun {way other} h => ?_, hordered, hselected⟩
  rintro rfl
  exact Precedes.irrefl way h

end Walks

section Literal

local instance : IgnoreSyntax := .literal

/-- A repository with a directory in a directory. The middle one has an ignore file. -/
def nestedTree : FileTree where
  entries := [(["r".toList], .directory), (["r".toList, "a".toList], .directory),
    (["r".toList, "a".toList, ".gitignore".toList], .file (Utf8.encode "b/x.py".toList)),
    (["r".toList, "a".toList, "b".toList], .directory),
    (["r".toList, "a".toList, "b".toList, "x.py".toList], .file []),
    (["r".toList, "a".toList, "b".toList, "y.py".toList], .file [])]
  nodup := by decide

theorem linkfree_nestedTree : nestedTree.Linkfree := FileTree.linkfree_of_entries (by decide)

theorem readable_nestedTree : Readable nestedTree :=
  ⟨by decide, linkfree_nestedTree.shortLinks, fun _ lines => ⟨lines.contains, rfl⟩⟩

theorem files_of_nested_tree :
    let request : WalkRequest := ⟨some (.ofLocation ["r".toList]), [], [".md".toList], none⟩
    let place : Location := ["r".toList, "a".toList]
    (nestedTree.Regular ∧ nestedTree.Linkfree ∧ Legible nestedTree) ∧
    ∃ found : List (List Text),
      files nestedTree request [.ofLocation place] =
        .ok (found.map fun way => .ofLocation (place ++ way), []) ∧
      found.Nodup ∧ found.Pairwise Precedes ∧
      ∀ way, way ∈ found ↔
        Selected nestedTree request (repositoryLevel nestedTree request place) place way := by
  intro request place
  have hregular : nestedTree.Regular := readable_nestedTree.regular
  have hrepo : nestedTree.lookup? ["r".toList] = some .directory := by decide
  have hplace : nestedTree.lookup? place = some .directory := by decide
  refine ⟨⟨hregular, linkfree_nestedTree, readable_nestedTree.legible⟩, ?_⟩
  refine files_eq_selected request hregular linkfree_nestedTree readable_nestedTree.legible
    (fun repo hrequest => ?_) (hregular.resolve hplace nofun) hplace
  cases hrequest
  exact ⟨_, hregular.resolve hrepo nofun⟩

end Literal

end TodoTracker.Walker
