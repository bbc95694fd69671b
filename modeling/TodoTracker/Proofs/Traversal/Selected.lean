import TodoTracker.Proofs.Files.Regular
import TodoTracker.Proofs.Scan.Listing
import TodoTracker.Proofs.Traversal.Course

/-!
# The files that are selected

In a tree without links every file has one way from a directory above it. A walk yields the files
whose ways are open and that nothing ignores, those of a directory before those of its
subdirectories. The ignore files on a way are gathered from its start, and each applies to
everything that is left of the way.
-/

set_option autoImplicit false

namespace TodoTracker

namespace Walker

/-! ### What is selected -/

section Selection

variable [IgnoreSyntax]

/-- The ignore level of a directory, if it has one. -/
def levelAt (tree : FileTree) (place : Location) : List IgnoreLevel :=
  match IgnoreLevel.read? tree (.ofLocation place) [] with
  | .ok (some level) => [level]
  | _ => []

/-- The ignore files of every directory can be read. -/
def Legible (tree : FileTree) : Prop :=
  ∀ place, tree.lookup? place = some .directory →
    ∃ level, IgnoreLevel.read? tree (.ofLocation place) [] = .ok level

/-- The levels that apply at the end of a way down from a directory, with those from above it. -/
def gathered (tree : FileTree) (outer : List IgnoreLevel) (place : Location) (way : List Text) :
    List IgnoreLevel :=
  outer ++ way.inits.flatMap fun before => levelAt tree (place ++ before)

/-- Whether some level ignores what is at a location. -/
def hides (levels : List IgnoreLevel) (location : Location) (isDirectory : Bool) : Bool :=
  levels.any (·.ignores (.ofLocation location) isDirectory)

/-- Whether every directory on a way down may be entered: its name is not one of those that never
are, and the levels gathered above it do not ignore it. -/
def IsOpen (tree : FileTree) (outer : List IgnoreLevel) (place : Location) (way : List Text) :
    Prop :=
  ∀ before name after, way = before ++ name :: after →
    name ∉ Selection.excludedDirectories ∧
      hides (gathered tree outer place before) (place ++ before ++ [name]) true = false

/-- Whether a way down leads to a file that is to be yielded. -/
structure Selected (tree : FileTree) (request : WalkRequest) (outer : List IgnoreLevel)
    (place : Location) (way : List Text) : Prop where
  file : ∃ bytes, tree.lookup? (place ++ way) = some (.file bytes)
  isOpen : IsOpen tree outer place way.dropLast
  kept : hides (gathered tree outer place way.dropLast) (place ++ way) false = false
  plain : Selection.isNoise (Location.text (place ++ way)) = false
  notExcluded : Selection.fileExtension (.ofLocation (place ++ way)) ∉
    request.excluded.map Grammar.bareExtension
  included : request.included = [] ∨ Selection.fileExtension (.ofLocation (place ++ way)) ∈
    request.included.map Grammar.bareExtension
  only : ∀ only, request.only = some only → place ++ way ∈ only

/-- Whether a file comes before another below the same directory: names in order, and a file before
everything in subdirectories. -/
inductive Precedes : List Text → List Text → Prop
  | file {name other : Text} (hle : Text.le name other = true) (hne : name ≠ other) :
    Precedes [name] [other]
  | fileFirst {name other next : Text} {rest : List Text} : Precedes [name] (other :: next :: rest)
  | directory {name other next next' : Text} {rest rest' : List Text}
    (hle : Text.le name other = true) (hne : name ≠ other) :
    Precedes (name :: next :: rest) (other :: next' :: rest')
  | within {name : Text} {way other : List Text} (h : Precedes way other) :
    Precedes (name :: way) (name :: other)

/-- The level of the repository, when a root lies strictly below it. -/
def repositoryLevel (tree : FileTree) (request : WalkRequest) (root : Location) :
    List IgnoreLevel :=
  match request.repo.map tree.resolve with
  | some (.ok repo) => if repo ≠ root ∧ root.within repo then levelAt tree repo else []
  | _ => []

end Selection

/-! ### One directory -/

section Directory

variable [IgnoreSyntax] {tree : FileTree} {request : WalkRequest} {outer levels : List IgnoreLevel}
  {place : Location} {name : Text} {way rest : List Text}

/-- What a directory without links lists. -/
def listed (tree : FileTree) (place : Location) : List (Text × Bool) :=
  (tree.children place).map fun child => (child.1, child.2 == .directory)

/-- The names of the files in a directory, in order. -/
def filesIn (tree : FileTree) (place : Location) : List Text := visited (listed tree place)

/-- The names of the directories in a directory that may be entered, in order. -/
def directoriesIn (tree : FileTree) (levels : List IgnoreLevel) (place : Location) : List Text :=
  (Text.sort (((listed tree place).filter (·.2)).map (·.1))).filter fun name =>
    !Selection.excludedDirectories.contains name && !hides levels (place ++ [name]) true

/-- Whether a file is yielded, unless it was before. -/
def passes (request : WalkRequest) (levels : List IgnoreLevel) (file : Location) : Bool :=
  !Selection.isNoise file.text && Selection.admits (.ofLocation file) request.included
    request.excluded && !hides levels file false && request.only.all (·.contains file)

omit [IgnoreSyntax] in
theorem strict_sort {names : List Text} (h : names.Nodup) :
    (Text.sort names).Pairwise fun a b => Text.le a b = true ∧ a ≠ b := by
  have hsorted : (Text.sort names).Pairwise fun a b => Text.le a b = true :=
    @List.pairwise_mergeSort _ Text.le (fun _ _ _ => Text.le_trans) Text.le_total names
  have hnodup := (List.mergeSort_perm names Text.le).nodup_iff.2 h
  exact hsorted.and hnodup

omit [IgnoreSyntax] in
theorem nodup_listed (tree : FileTree) (place : Location) (p : Text × Bool → Bool) :
    (((listed tree place).filter p).map Prod.fst).Nodup := by
  have hnames : (listed tree place).map Prod.fst = (tree.children place).map Prod.fst := by
    simp [listed]
  exact (hnames ▸ tree.nodup_children place).sublist (List.filter_sublist.map _)

omit [IgnoreSyntax] in
theorem strict_filesIn (tree : FileTree) (place : Location) :
    (filesIn tree place).Pairwise fun a b => Text.le a b = true ∧ a ≠ b :=
  strict_sort (nodup_listed tree place _)

omit [IgnoreSyntax] in
theorem strict_directoriesIn (tree : FileTree) (levels : List IgnoreLevel) (place : Location) :
    (directoriesIn tree levels place).Pairwise fun a b => Text.le a b = true ∧ a ≠ b :=
  (strict_sort (nodup_listed tree place _)).filter _

omit [IgnoreSyntax] in
theorem mem_listed {isDirectory : Bool} : (name, isDirectory) ∈ listed tree place ↔
    ∃ entry, tree.lookup? (place ++ [name]) = some entry ∧
      (entry == .directory) = isDirectory := by
  rw [listed, List.mem_map]
  constructor
  · rintro ⟨⟨name, entry⟩, hmem, heq⟩
    cases heq
    exact ⟨entry, (FileTree.lookup?_eq_some_iff (by simp)).2 (FileTree.mem_children.1 hmem), rfl⟩
  · rintro ⟨entry, hentry, rfl⟩
    exact ⟨(name, entry), FileTree.mem_children.2 (FileTree.mem_of_lookup? (by simp) hentry), rfl⟩

omit [IgnoreSyntax] in
theorem mem_filesIn (hlinks : tree.Linkfree) : name ∈ filesIn tree place ↔
    ∃ bytes, tree.lookup? (place ++ [name]) = some (.file bytes) := by
  have hmem : name ∈ filesIn tree place ↔ (name, false) ∈ listed tree place := by
    simp [filesIn, visited, Text.sort]
  rw [hmem, mem_listed]
  constructor
  · rintro ⟨entry, hentry, hother⟩
    cases entry with
    | file bytes => exact ⟨bytes, hentry⟩
    | link target => exact absurd hentry (hlinks _ _)
    | directory => cases hother
  · rintro ⟨bytes, hentry⟩
    exact ⟨_, hentry, rfl⟩

omit [IgnoreSyntax] in
theorem mem_directoriesIn : name ∈ directoriesIn tree levels place ↔
    tree.lookup? (place ++ [name]) = some .directory ∧
      name ∉ Selection.excludedDirectories ∧ hides levels (place ++ [name]) true = false := by
  have hmem : name ∈ directoriesIn tree levels place ↔ (name, true) ∈ listed tree place ∧
      name ∉ Selection.excludedDirectories ∧ hides levels (place ++ [name]) true = false := by
    simp [directoriesIn, Text.sort]
  rw [hmem, mem_listed]
  refine and_congr_left fun _ => ⟨?_, fun h => ⟨_, h, rfl⟩⟩
  rintro ⟨entry, hentry, hdirectory⟩
  rwa [← eq_of_beq hdirectory]

/-! ### Ways -/

theorem gathered_nil (tree : FileTree) (outer : List IgnoreLevel) (place : Location) :
    gathered tree outer place [] = outer ++ levelAt tree place := by
  simp [gathered]

theorem gathered_cons (tree : FileTree) (outer : List IgnoreLevel) (place : Location) (name : Text)
    (way : List Text) : gathered tree outer place (name :: way) =
      gathered tree (outer ++ levelAt tree place) (place ++ [name]) way := by
  simp [gathered, List.flatMap_map]

theorem isOpen_nil (tree : FileTree) (outer : List IgnoreLevel) (place : Location) :
    IsOpen tree outer place [] := by
  rintro (_ | _) _ _ ⟨⟩

theorem isOpen_cons : IsOpen tree outer place (name :: way) ↔
    (name ∉ Selection.excludedDirectories ∧
      hides (outer ++ levelAt tree place) (place ++ [name]) true = false) ∧
    IsOpen tree (outer ++ levelAt tree place) (place ++ [name]) way := by
  constructor
  · intro h
    refine ⟨by simpa [gathered_nil] using h [] name way rfl, fun before other after heq => ?_⟩
    simpa [gathered_cons] using h (name :: before) other after (by rw [heq, List.cons_append])
  · rintro ⟨hname, h⟩ before other after heq
    cases before with
    | nil =>
      cases heq
      simpa [gathered_nil] using hname
    | cons first before =>
      obtain ⟨rfl, hway⟩ := List.cons.inj heq
      simpa [gathered_cons] using h before other after hway

omit [IgnoreSyntax] in
theorem passes_eq_true {file : Location} : passes request levels file = true ↔
    hides levels file false = false ∧ Selection.isNoise file.text = false ∧
      Selection.fileExtension (.ofLocation file) ∉ request.excluded.map Grammar.bareExtension ∧
      (request.included = [] ∨ Selection.fileExtension (.ofLocation file) ∈
        request.included.map Grammar.bareExtension) ∧
      ∀ only, request.only = some only → file ∈ only := by
  have hadmits : Selection.admits (.ofLocation file) request.included request.excluded = true ↔
      Selection.fileExtension (.ofLocation file) ∉ request.excluded.map Grammar.bareExtension ∧
        (request.included = [] ∨ Selection.fileExtension (.ofLocation file) ∈
          request.included.map Grammar.bareExtension) := by
    rw [Selection.admits]
    simp only [List.contains_eq_mem]
    split <;> simp_all
  have honly : request.only.all (·.contains file) = true ↔
      ∀ only, request.only = some only → file ∈ only := by
    cases request.only <;> simp
  rw [passes]
  simp only [Bool.and_eq_true, Bool.not_eq_true', hadmits, honly]
  tauto

theorem Selected.lookup?_ne (h : Selected tree request outer place way) :
    tree.lookup? (place ++ way) ≠ some .directory := by
  obtain ⟨bytes, hfile⟩ := h.file
  rw [hfile]
  nofun

theorem selected_singleton : Selected tree request outer place [name] ↔
    (∃ bytes, tree.lookup? (place ++ [name]) = some (.file bytes)) ∧
      passes request (outer ++ levelAt tree place) (place ++ [name]) = true := by
  rw [passes_eq_true, ← gathered_nil]
  constructor
  · rintro ⟨hfile, -, hkept, hplain, hnot, hincluded, honly⟩
    exact ⟨hfile, hkept, hplain, hnot, hincluded, honly⟩
  · rintro ⟨hfile, hkept, hplain, hnot, hincluded, honly⟩
    exact ⟨hfile, isOpen_nil _ _ _, hkept, hplain, hnot, hincluded, honly⟩

theorem selected_cons (hne : way ≠ []) : Selected tree request outer place (name :: way) ↔
    (name ∉ Selection.excludedDirectories ∧
      hides (outer ++ levelAt tree place) (place ++ [name]) true = false) ∧
    Selected tree request (outer ++ levelAt tree place) (place ++ [name]) way := by
  have hplace : place ++ name :: way = place ++ [name] ++ way := by simp
  have hlast : (name :: way).dropLast = name :: way.dropLast := List.dropLast_cons_of_ne_nil hne
  constructor
  · rintro ⟨hfile, hopen, hkept, hplain, hnot, hincluded, honly⟩
    rw [hlast, isOpen_cons] at hopen
    rw [hlast, gathered_cons] at hkept
    rw [hplace] at hfile hkept hplain hnot hincluded honly
    exact ⟨hopen.1, hfile, hopen.2, hkept, hplain, hnot, hincluded, honly⟩
  · rintro ⟨hname, hfile, hopen, hkept, hplain, hnot, hincluded, honly⟩
    rw [← hplace] at hfile hkept hplain hnot hincluded honly
    refine ⟨hfile, ?_, ?_, hplain, hnot, hincluded, honly⟩
    · rw [hlast, isOpen_cons]
      exact ⟨hname, hopen⟩
    · rw [hlast, gathered_cons]
      exact hkept

/-! ### All ways to a depth -/

/-- The selected ways of at most so many names, in order. -/
def ways (tree : FileTree) (request : WalkRequest) :
    Nat → List IgnoreLevel → Location → List (List Text)
  | 0, _, _ => []
  | depth + 1, outer, place =>
    let levels := outer ++ levelAt tree place
    ((filesIn tree place).filter fun name => passes request levels (place ++ [name])).map ([·]) ++
      (directoriesIn tree levels place).flatMap fun name =>
        (ways tree request depth levels (place ++ [name])).map (name :: ·)

/-- The open ways of fewer names, in order. -/
def openWays (tree : FileTree) : Nat → List IgnoreLevel → Location → List (List Text)
  | 0, _, _ => []
  | depth + 1, outer, place =>
    let levels := outer ++ levelAt tree place
    [] :: (directoriesIn tree levels place).flatMap fun name =>
      (openWays tree depth levels (place ++ [name])).map (name :: ·)

theorem nil_not_mem_ways (depth : Nat) : [] ∉ ways tree request depth outer place := by
  cases depth <;> simp [ways]

theorem exists_cons_of_mem_ways {depth : Nat} (h : way ∈ ways tree request depth outer place) :
    ∃ next rest, way = next :: rest :=
  List.exists_cons_of_ne_nil fun heq => nil_not_mem_ways depth (heq ▸ h)

/-- Ways come in order. -/
theorem pairwise_ways (tree : FileTree) (request : WalkRequest) (depth : Nat)
    (outer : List IgnoreLevel) (place : Location) :
    (ways tree request depth outer place).Pairwise Precedes := by
  induction depth generalizing outer place with
  | zero => exact List.Pairwise.nil
  | succ depth ih =>
    rw [ways, List.pairwise_append]
    refine ⟨?_, ?_, ?_⟩
    · exact List.pairwise_map.2 (((strict_filesIn tree place).filter _).imp fun h => .file h.1 h.2)
    · refine List.pairwise_flatMap.2 ⟨fun name _ => ?_, ?_⟩
      · exact List.pairwise_map.2 ((ih _ _).imp .within)
      · refine (strict_directoriesIn tree _ place).imp fun h way hway other hother => ?_
        obtain ⟨way, hway, rfl⟩ := List.mem_map.1 hway
        obtain ⟨other, hother, rfl⟩ := List.mem_map.1 hother
        obtain ⟨next, rest, rfl⟩ := exists_cons_of_mem_ways ‹way ∈ _›
        obtain ⟨next', rest', rfl⟩ := exists_cons_of_mem_ways ‹other ∈ _›
        exact .directory h.1 h.2
    · intro way hway other hother
      obtain ⟨name, -, rfl⟩ := List.mem_map.1 hway
      obtain ⟨name', -, hother⟩ := List.mem_flatMap.1 hother
      obtain ⟨other, hother, rfl⟩ := List.mem_map.1 hother
      obtain ⟨next, rest, rfl⟩ := exists_cons_of_mem_ways ‹other ∈ _›
      exact .fileFirst

theorem mem_ways (hregular : tree.Regular) (hlinks : tree.Linkfree)
    (hplace : tree.lookup? place = some .directory) {depth : Nat} :
    way ∈ ways tree request depth outer place ↔
      Selected tree request outer place way ∧ way.length ≤ depth := by
  induction depth generalizing outer place way with
  | zero =>
    refine iff_of_false List.not_mem_nil ?_
    rintro ⟨hselected, hlength⟩
    obtain rfl := List.eq_nil_of_length_eq_zero (Nat.le_zero.1 hlength)
    exact hselected.lookup?_ne (by simpa using hplace)
  | succ depth ih =>
    rw [ways, List.mem_append, List.mem_map, List.mem_flatMap]
    match way with
    | [] =>
      refine iff_of_false (by simp) ?_
      rintro ⟨hselected, -⟩
      exact hselected.lookup?_ne (by simpa using hplace)
    | [name] =>
      rw [selected_singleton, ← mem_filesIn hlinks]
      have hnone : ∀ levels place, [] ∉ ways tree request depth levels place :=
        fun _ _ => nil_not_mem_ways depth
      simp [hnone]
    | name :: next :: rest =>
      rw [selected_cons (List.cons_ne_nil _ _)]
      constructor
      · rintro (⟨_, -, ⟨⟩⟩ | ⟨name, hname, hway⟩)
        obtain ⟨way, hway, heq⟩ := List.mem_map.1 hway
        cases heq
        obtain ⟨hdirectory, hopen⟩ := mem_directoriesIn.1 hname
        obtain ⟨hselected, hlength⟩ := (ih hdirectory).1 hway
        exact ⟨⟨hopen, hselected⟩, Nat.succ_le_succ hlength⟩
      · rintro ⟨⟨hopen, hselected⟩, hlength⟩
        obtain ⟨bytes, hfile⟩ := hselected.file
        have hdirectory := hregular.lookup?_above (List.cons_ne_nil _ _) hfile
        exact .inr ⟨name, mem_directoriesIn.2 ⟨hdirectory, hopen⟩, List.mem_map.2
          ⟨_, (ih hdirectory).2 ⟨hselected, Nat.le_of_succ_le_succ hlength⟩, rfl⟩⟩

theorem mem_openWays (hregular : tree.Regular) (hplace : tree.lookup? place = some .directory)
    {depth : Nat} : way ∈ openWays tree depth outer place ↔
      (IsOpen tree outer place way ∧ tree.lookup? (place ++ way) = some .directory) ∧
        way.length < depth := by
  induction depth generalizing outer place way with
  | zero => simp [openWays]
  | succ depth ih =>
    rw [openWays]
    cases way with
    | nil => simp [hplace, IsOpen]
    | cons name way =>
      have hpath : place ++ name :: way = place ++ [name] ++ way := by simp
      rw [isOpen_cons, hpath, List.mem_cons, List.mem_flatMap]
      constructor
      · rintro (⟨⟨⟩⟩ | ⟨name, hname, hway⟩)
        obtain ⟨way, hway, heq⟩ := List.mem_map.1 hway
        cases heq
        obtain ⟨hdirectory, hopen⟩ := mem_directoriesIn.1 hname
        obtain ⟨⟨hrest, hfound⟩, hlength⟩ := (ih hdirectory).1 hway
        exact ⟨⟨⟨hopen, hrest⟩, hfound⟩, Nat.succ_lt_succ hlength⟩
      · rintro ⟨⟨⟨hopen, hrest⟩, hfound⟩, hlength⟩
        have hdirectory : tree.lookup? (place ++ [name]) = some .directory := by
          rcases List.eq_nil_or_concat way with rfl | ⟨_, _, rfl⟩
          · simpa using hfound
          · exact hregular.lookup?_above (by simp) hfound
        exact .inr ⟨name, mem_directoriesIn.2 ⟨hdirectory, hopen⟩, List.mem_map.2
          ⟨way, (ih hdirectory).2 ⟨⟨hrest, hfound⟩, Nat.lt_of_succ_lt_succ hlength⟩, rfl⟩⟩

end Directory

end Walker

end TodoTracker
