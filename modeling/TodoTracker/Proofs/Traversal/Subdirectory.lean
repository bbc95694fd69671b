import TodoTracker.Proofs.Traversal.Found

/-!
# Walking a subdirectory

A walk that starts at a directory inside the repository has the ignore files of the repository and
those from the directory down. Those strictly between the two it does not look at. So it yields what
a walk of the whole repository yields there, and besides what they hide.
-/

set_option autoImplicit false

namespace TodoTracker.Walker

/-! ### Levels between two directories -/

/-- The directories strictly between one directory and what is below it. -/
def strictlyBetween (above below : Location) : List Location :=
  below.inits.filter fun place => place.within above && place != above && place != below

section Between

variable [IgnoreSyntax] {tree : FileTree} {request : WalkRequest} {outer levels : List IgnoreLevel}
  {place location : Location} {way rest : List Text} {level : IgnoreLevel}

/-- The ignore levels of the directories strictly between two. -/
def levelsBetween (tree : FileTree) (above below : Location) : List IgnoreLevel :=
  (strictlyBetween above below).flatMap (levelAt tree)

/-- Whether some level ignores a file, or a directory on the way down to it. -/
def hidesBelow (levels : List IgnoreLevel) (place file : Location) : Bool :=
  hides levels file false || (strictlyBetween place file).any (hides levels · true)

omit [IgnoreSyntax] in
theorem mem_strictlyBetween : location ∈ strictlyBetween place (place ++ way) ↔
    ∃ before, before <+: way ∧ before ≠ [] ∧ before ≠ way ∧ location = place ++ before := by
  rw [strictlyBetween, List.mem_filter, List.mem_inits]
  simp only [Bool.and_eq_true, bne_iff_ne, ne_eq]
  constructor
  · rintro ⟨hinitial, ⟨hwithin, hne⟩, hne'⟩
    obtain ⟨before, rfl⟩ := within_iff.1 hwithin
    refine ⟨before, (List.prefix_append_right_inj place).1 hinitial, ?_, ?_, rfl⟩
    · rintro rfl
      simp at hne
    · rintro rfl
      exact hne' rfl
  · rintro ⟨before, hinitial, hne, hne', rfl⟩
    refine ⟨(List.prefix_append_right_inj place).2 hinitial, ⟨within_iff.2 ⟨before, rfl⟩, ?_⟩, ?_⟩
    · simpa using hne
    · simpa using hne'

omit [IgnoreSyntax] in
theorem proper_prefix_iff (hne : rest ≠ []) {before : List Text} :
    (before <+: rest ∧ before ≠ [] ∧ before ≠ rest) ↔
      ∃ above name after, rest.dropLast = above ++ name :: after ∧ before = above ++ [name] := by
  constructor
  · rintro ⟨⟨further, rfl⟩, hbefore, hproper⟩
    obtain ⟨above, name, rfl⟩ := (List.eq_nil_or_concat before).resolve_left hbefore
    have hfurther : further ≠ [] := by
      rintro rfl
      simp at hproper
    refine ⟨above, name, further.dropLast, ?_, by simp⟩
    rw [List.dropLast_append_of_ne_nil hfurther]
    simp
  · rintro ⟨above, name, after, heq, rfl⟩
    have hrest : rest = above ++ [name] ++ (after ++ [rest.getLast hne]) := by
      have hwhole := List.dropLast_concat_getLast hne
      rw [heq] at hwhole
      simpa using hwhole.symm
    refine ⟨⟨_, hrest.symm⟩, by simp, fun hwhole => ?_⟩
    have hlength := congrArg List.length (hwhole.trans hrest)
    simp at hlength

theorem mem_gathered : level ∈ gathered tree outer place way ↔
    level ∈ outer ∨ ∃ before, before <+: way ∧ level ∈ levelAt tree (place ++ before) := by
  simp [gathered]

theorem mem_levelsBetween : level ∈ levelsBetween tree place (place ++ way) ↔
    ∃ before, (before <+: way ∧ before ≠ [] ∧ before ≠ way) ∧
      level ∈ levelAt tree (place ++ before) := by
  rw [levelsBetween, List.mem_flatMap]
  constructor
  · rintro ⟨location, hmem, hlevel⟩
    obtain ⟨before, hinitial, hne, hne', rfl⟩ := mem_strictlyBetween.1 hmem
    exact ⟨before, ⟨hinitial, hne, hne'⟩, hlevel⟩
  · rintro ⟨before, ⟨hinitial, hne, hne'⟩, hlevel⟩
    exact ⟨_, mem_strictlyBetween.2 ⟨before, hinitial, hne, hne', rfl⟩, hlevel⟩

omit [IgnoreSyntax] in
theorem hides_of_mem_iff {levels' levels'' : List IgnoreLevel}
    (h : ∀ level, level ∈ levels ↔ level ∈ levels' ∨ level ∈ levels'') (location : Location)
    (isDirectory : Bool) : hides levels location isDirectory =
      (hides levels' location isDirectory || hides levels'' location isDirectory) := by
  rw [Bool.eq_iff_iff, Bool.or_eq_true]
  simp only [hides, List.any_eq_true, h, or_and_right, exists_or]

theorem repositoryLevel_eq {repo : Path} (hrequest : request.repo = some repo)
    (hrepo : tree.resolve repo = .ok place) (way : List Text) :
    repositoryLevel tree request (place ++ way) = if way = [] then [] else levelAt tree place := by
  rw [repositoryLevel, hrequest, Option.map_some, hrepo]
  dsimp only
  have hwithin : (place ++ way).within place := within_iff.2 ⟨way, rfl⟩
  by_cases hway : way = []
  · simp [hway]
  · simp [hway, hwithin]

/-- What the levels of the whole repository hide is what those of the directory or those between
hide. -/
theorem hides_gathered {repo : Path} (hrequest : request.repo = some repo)
    (hrepo : tree.resolve repo = .ok place) (way rest : List Text) (location : Location)
    (isDirectory : Bool) :
    hides (gathered tree [] place (way ++ rest)) location isDirectory =
      (hides (gathered tree (repositoryLevel tree request (place ++ way)) (place ++ way) rest)
        location isDirectory ||
      hides (levelsBetween tree place (place ++ way)) location isDirectory) := by
  refine hides_of_mem_iff (fun level => ?_) location isDirectory
  rw [mem_gathered, mem_gathered, mem_levelsBetween, repositoryLevel_eq hrequest hrepo]
  constructor
  · rintro (hnone | ⟨before, ⟨after, heq⟩, hlevel⟩)
    · cases hnone
    · rcases List.append_eq_append_iff.1 heq with ⟨more, rfl, -⟩ | ⟨further, rfl, rfl⟩
      · -- Above the directory, at it, or in the repository itself.
        by_cases hmore : more = []
        · subst hmore
          exact .inl (.inr ⟨[], List.nil_prefix, by simpa using hlevel⟩)
        · by_cases hbefore : before = []
          · subst hbefore
            exact .inl (.inl (by simpa [hmore] using hlevel))
          · exact .inr ⟨before, ⟨List.prefix_append _ _, hbefore, by simpa using hmore⟩, hlevel⟩
      · exact .inl (.inr ⟨further, List.prefix_append _ _, by simpa using hlevel⟩)
  · rintro ((hlevel | ⟨before, hinitial, hlevel⟩) | ⟨before, ⟨hinitial, -, -⟩, hlevel⟩)
    · split at hlevel
      · cases hlevel
      · exact .inr ⟨[], List.nil_prefix, by simpa using hlevel⟩
    · exact .inr ⟨way ++ before, (List.prefix_append_right_inj way).2 hinitial, by simpa using hlevel⟩
    · exact .inr ⟨before, hinitial.trans (List.prefix_append _ _), hlevel⟩

theorem isOpen_append : IsOpen tree [] place (way ++ rest) ↔ IsOpen tree [] place way ∧
    ∀ before name after, rest = before ++ name :: after →
      name ∉ Selection.excludedDirectories ∧
        hides (gathered tree [] place (way ++ before)) (place ++ way ++ before ++ [name]) true =
          false := by
  constructor
  · intro h
    refine ⟨fun before name after heq => ?_, fun before name after heq => ?_⟩
    · exact h before name (after ++ rest) (by simp [heq])
    · simpa using h (way ++ before) name after (by simp [heq])
  · rintro ⟨hway, hrest⟩ before name after heq
    rcases List.append_eq_append_iff.1 heq with ⟨more, rfl, hrest'⟩ | ⟨further, rfl, hcons⟩
    · simpa using hrest more name after hrest'
    · cases further with
      | nil =>
        have hthere := hrest [] name after (by simpa using hcons.symm)
        simpa using hthere
      | cons first further =>
        obtain ⟨rfl, rfl⟩ := List.cons.inj hcons
        exact hway before name further rfl

/-- What is selected below a directory of the repository is what is selected from there, unless
some level between hides it. -/
theorem selected_append {repo : Path} (hrequest : request.repo = some repo)
    (hrepo : tree.resolve repo = .ok place) (hway : IsOpen tree [] place way) (hne : rest ≠ []) :
    Selected tree request [] place (way ++ rest) ↔
      Selected tree request (repositoryLevel tree request (place ++ way)) (place ++ way) rest ∧
      hidesBelow (levelsBetween tree place (place ++ way)) (place ++ way) (place ++ way ++ rest) =
        false := by
  have hplace : place ++ (way ++ rest) = place ++ way ++ rest := (List.append_assoc ..).symm
  have hlast : (way ++ rest).dropLast = way ++ rest.dropLast := List.dropLast_append_of_ne_nil hne
  have hfile := hides_gathered hrequest hrepo way rest.dropLast (place ++ way ++ rest) false
  constructor
  · rintro ⟨hexists, hopen, hkept, hplain, hnot, hincluded, honly⟩
    rw [hplace] at hexists hkept hplain hnot hincluded honly
    rw [hlast, hfile, Bool.or_eq_false_iff] at hkept
    rw [hlast, isOpen_append] at hopen
    have hbelow : ∀ before name after, rest.dropLast = before ++ name :: after →
        name ∉ Selection.excludedDirectories ∧
          hides (gathered tree (repositoryLevel tree request (place ++ way)) (place ++ way) before)
            (place ++ way ++ before ++ [name]) true = false ∧
          hides (levelsBetween tree place (place ++ way)) (place ++ way ++ before ++ [name]) true =
            false := by
      intro before name after heq
      have hname := hopen.2 before name after heq
      rwa [hides_gathered hrequest hrepo, Bool.or_eq_false_iff] at hname
    refine ⟨⟨hexists, ?_, hkept.1, hplain, hnot, hincluded, honly⟩, ?_⟩
    · exact fun before name after heq =>
        ⟨(hbelow before name after heq).1, (hbelow before name after heq).2.1⟩
    · rw [hidesBelow, Bool.or_eq_false_iff, List.any_eq_false]
      refine ⟨hkept.2, fun location hmem => ?_⟩
      obtain ⟨before, hinitial, hne', hne'', rfl⟩ := mem_strictlyBetween.1 hmem
      obtain ⟨before, name, after, heq, rfl⟩ := (proper_prefix_iff hne).1 ⟨hinitial, hne', hne''⟩
      simpa using (hbelow before name after heq).2.2
  · rintro ⟨⟨hexists, hopen, hkept, hplain, hnot, hincluded, honly⟩, hhidden⟩
    rw [hidesBelow, Bool.or_eq_false_iff, List.any_eq_false] at hhidden
    rw [← hplace] at hexists hplain hnot hincluded honly
    refine ⟨hexists, ?_, ?_, hplain, hnot, hincluded, honly⟩
    · rw [hlast, isOpen_append]
      refine ⟨hway, fun before name after heq => ?_⟩
      obtain ⟨hname, hopened⟩ := hopen before name after heq
      refine ⟨hname, ?_⟩
      rw [hides_gathered hrequest hrepo, hopened, Bool.false_or]
      obtain ⟨hinitial, hne', hne''⟩ := (proper_prefix_iff hne).2 ⟨before, name, after, heq, rfl⟩
      have hlocation := hhidden.2 _ (mem_strictlyBetween.2 ⟨_, hinitial, hne', hne'', rfl⟩)
      simpa using hlocation
    · rw [hlast, hplace, hfile, hkept, hhidden.1, Bool.or_false]

omit [IgnoreSyntax] in
theorem Precedes.append {other : List Text} (h : Precedes rest other) (way : List Text) :
    Precedes (way ++ rest) (way ++ other) := by
  induction way with
  | nil => exact h
  | cons name way ih => exact .within ih

omit [IgnoreSyntax] in
theorem Precedes.asymm {other : List Text} (h : Precedes way other) : ¬Precedes other way := by
  induction h with
  | file hle hne =>
    intro h'
    cases h' with
    | file hle' => exact hne (Text.le_antisymm hle hle')
    | within h' => cases h'
  | fileFirst =>
    intro h'
    cases h' with
    | within h' => cases h'
  | directory hle hne =>
    intro h'
    cases h' with
    | directory hle' => exact hne (Text.le_antisymm hle hle')
    | within => exact hne rfl
  | within h ih =>
    intro h'
    cases h' with
    | file _ hne => exact hne rfl
    | fileFirst => cases h
    | directory _ hne => exact hne rfl
    | within h' => exact ih h'

omit [IgnoreSyntax] in
instance : Std.Irrefl Precedes := ⟨Precedes.irrefl⟩

omit [IgnoreSyntax] in
instance : Std.Antisymm Precedes := ⟨fun _ _ h h' => absurd h' h.asymm⟩

/-- What a walk of the whole repository yields below a directory that it enters is what a walk of
the directory yields, without what the ignore files strictly between the two hide. -/
theorem files_below_directory (request : WalkRequest) (hregular : tree.Regular)
    (hlinks : tree.Linkfree) (hlegible : Legible tree) {repo directory : Path}
    (hrequest : request.repo = some repo) (hrepo : tree.resolve repo = .ok place)
    (hplace : tree.lookup? place = some .directory)
    (hentered : directory ∈ entries tree request (start [repo] tree.directories)) :
    ∃ (below : Location) (whole part : List Location), directory = .ofLocation below ∧
      files tree request [repo] = .ok (whole.map .ofLocation, []) ∧
      files tree request [directory] = .ok (part.map .ofLocation, []) ∧
      whole.filter (·.within below) =
        part.filter fun file => !hidesBelow (levelsBetween tree place below) below file := by
  have hresolves : ∀ repo, request.repo = some repo →
      ∃ location, tree.resolve repo = .ok location := by
    intro other hother
    cases hrequest.symm.trans hother
    exact ⟨place, hrepo⟩
  obtain ⟨opened, found, hfiles, hentries, hordered, hselected, hopened⟩ :=
    exists_found request hregular hlinks hlegible hresolves hrepo hplace
  rw [hentries] at hentered
  obtain ⟨way, hway, rfl⟩ := List.mem_map.1 hentered
  obtain ⟨hopen, hbelow⟩ := (hopened way).1 hway
  obtain ⟨-, found', hfiles', -, hordered', hselected', -⟩ := exists_found request hregular hlinks
    hlegible hresolves (hregular.resolve hbelow nofun) hbelow
  have htop : repositoryLevel tree request place = [] := by
    have hlevel := repositoryLevel_eq hrequest hrepo []
    simpa using hlevel
  rw [htop] at hopen hselected
  have hnonempty : ∀ rest, Selected tree request [] place (way ++ rest) → rest ≠ [] := by
    rintro rest hrest rfl
    exact hrest.lookup?_ne (by simpa using hbelow)
  refine ⟨place ++ way, found.map (place ++ ·), found'.map (place ++ way ++ ·), rfl, ?_, ?_, ?_⟩
  · rw [hfiles, List.map_map]
    rfl
  · rw [hfiles', List.map_map]
    rfl
  · have hsame : (found.filter fun other => Location.within (place ++ other) (place ++ way)) =
        (found'.filter fun rest => !hidesBelow (levelsBetween tree place (place ++ way))
          (place ++ way) (place ++ way ++ rest)).map (way ++ ·) := by
      refine (hordered.filter _).eq_of_mem_iff
        (List.pairwise_map.2 ((hordered'.filter _).imp fun h => h.append way)) fun other => ?_
      rw [List.mem_filter, hselected, List.mem_map]
      constructor
      · rintro ⟨hother, hwithin⟩
        obtain ⟨rest, heq⟩ := within_iff.1 hwithin
        obtain rfl : other = way ++ rest := by simpa using heq
        obtain ⟨hrest, hhidden⟩ :=
          (selected_append hrequest hrepo hopen (hnonempty rest hother)).1 hother
        exact ⟨rest, List.mem_filter.2 ⟨(hselected' rest).2 hrest, by simpa using hhidden⟩, rfl⟩
      · rintro ⟨rest, hrest, rfl⟩
        rw [List.mem_filter, hselected', Bool.not_eq_true'] at hrest
        have hne : rest ≠ [] := by
          rintro rfl
          exact hrest.1.lookup?_ne (by simpa using hbelow)
        exact ⟨(selected_append hrequest hrepo hopen hne).2 hrest,
          within_iff.2 ⟨rest, (List.append_assoc ..).symm⟩⟩
    have hmap := congrArg (List.map (place ++ ·)) hsame
    rw [List.map_map] at hmap
    rw [List.filter_map, List.filter_map]
    simpa [Function.comp_def] using hmap

end Between

section Literal

local instance : IgnoreSyntax := .literal

/-- A request for the whole of the nested tree. -/
def nestedRequest : WalkRequest := ⟨some (.ofLocation ["r".toList]), [], [], none⟩

theorem levelAt_nestedTree :
    levelAt nestedTree ["r".toList] = [] ∧
      levelAt nestedTree ["r".toList, "a".toList] = [⟨.ofLocation ["r".toList, "a".toList],
        ["b/x.py".toList].contains, ["/r/a/.gitignore".toList]⟩] ∧
      levelAt nestedTree ["r".toList, "a".toList, "b".toList] = [] := by
  refine ⟨by cbv, ?_, by cbv⟩
  cbv

/-- What a walk of the nested tree from one of its directories comes to. -/
theorem found_nestedTree {place : Location}
    (hplace : nestedTree.lookup? place = some .directory) :
    ∃ opened found : List (List Text),
      files nestedTree nestedRequest [.ofLocation place] =
        .ok (found.map fun way => .ofLocation (place ++ way), []) ∧
      entries nestedTree nestedRequest (start [.ofLocation place] nestedTree.directories) =
        opened.map (fun way => .ofLocation (place ++ way)) ∧
      (∀ way, way ∈ found ↔ Selected nestedTree nestedRequest
        (repositoryLevel nestedTree nestedRequest place) place way) ∧
      ∀ way, way ∈ opened ↔
        IsOpen nestedTree (repositoryLevel nestedTree nestedRequest place) place way ∧
          nestedTree.lookup? (place ++ way) = some .directory := by
  have hregular : nestedTree.Regular := readable_nestedTree.regular
  have hrepo : nestedTree.lookup? ["r".toList] = some .directory := by decide
  obtain ⟨opened, found, hfiles, hentries, -, hselected, hopened⟩ := exists_found nestedRequest
    hregular linkfree_nestedTree readable_nestedTree.legible
    (fun repo hrequest => by cases hrequest; exact ⟨_, hregular.resolve hrepo nofun⟩)
    (hregular.resolve hplace nofun) hplace
  exact ⟨opened, found, hfiles, hentries, hselected, hopened⟩

theorem mem_entries_nestedTree : .ofLocation ["r".toList, "a".toList, "b".toList] ∈
    entries nestedTree nestedRequest
      (start [.ofLocation ["r".toList]] nestedTree.directories) := by
  obtain ⟨opened, -, -, hentries, -, hopened⟩ :=
    found_nestedTree (show nestedTree.lookup? ["r".toList] = some .directory by decide)
  rw [hentries]
  refine List.mem_map.2 ⟨["a".toList, "b".toList], (hopened _).2 ⟨?_, by decide⟩, rfl⟩
  have hlevel : repositoryLevel nestedTree nestedRequest ["r".toList] = [] := by cbv
  obtain ⟨hr, ha, -⟩ := levelAt_nestedTree
  rw [hlevel, isOpen_cons, isOpen_cons]
  refine ⟨⟨by decide, ?_⟩, ⟨by decide, ?_⟩, isOpen_nil _ _ _⟩
  · rw [hr]
    rfl
  · rw [hr, List.singleton_append, ha]
    decide

/-- A file that an ignore file strictly between the repository and a directory hides is yielded
from the directory only. -/
theorem nested_directory_yields_hidden_file :
    ∃ whole part : List Location,
      files nestedTree nestedRequest [.ofLocation ["r".toList]] =
        .ok (whole.map .ofLocation, []) ∧
      files nestedTree nestedRequest [.ofLocation ["r".toList, "a".toList, "b".toList]] =
        .ok (part.map .ofLocation, []) ∧
      (nestedTree.Linkfree ∧ .ofLocation ["r".toList, "a".toList, "b".toList] ∈
        entries nestedTree nestedRequest
          (start [.ofLocation ["r".toList]] nestedTree.directories)) ∧
      whole.filter (·.within ["r".toList, "a".toList, "b".toList]) ≠ part := by
  obtain ⟨-, found, hfiles, -, hselected, -⟩ :=
    found_nestedTree (show nestedTree.lookup? ["r".toList] = some .directory by decide)
  obtain ⟨-, found', hfiles', -, hselected', -⟩ := found_nestedTree
    (show nestedTree.lookup? ["r".toList, "a".toList, "b".toList] = some .directory by decide)
  obtain ⟨hr, ha, hb⟩ := levelAt_nestedTree
  refine ⟨found.map (["r".toList] ++ ·), found'.map (["r".toList, "a".toList, "b".toList] ++ ·),
    ?_, ?_, ⟨linkfree_nestedTree, mem_entries_nestedTree⟩, fun hsame => ?_⟩
  · rw [hfiles, List.map_map]
    rfl
  · rw [hfiles', List.map_map]
    rfl
  · have hpart : ["x.py".toList] ∈ found' := by
      have hlevel : repositoryLevel nestedTree nestedRequest ["r".toList, "a".toList, "b".toList] =
          [] := by cbv
      rw [hselected', hlevel, selected_singleton]
      refine ⟨⟨[], by decide⟩, ?_⟩
      rw [hb]
      decide
    have hwhole : ["a".toList, "b".toList, "x.py".toList] ∉ found := by
      rw [hselected]
      intro h
      have hkept := h.kept
      have hlevel : repositoryLevel nestedTree nestedRequest ["r".toList] = [] := by cbv
      change hides (gathered nestedTree _ _ ["a".toList, "b".toList]) _ _ = false at hkept
      rw [hlevel, gathered_cons, gathered_cons, gathered_nil, hr, List.singleton_append, ha,
        List.cons_append, List.singleton_append, hb] at hkept
      revert hkept
      decide
    have hmem := List.mem_map_of_mem (f := (["r".toList, "a".toList, "b".toList] ++ ·)) hpart
    rw [← hsame, List.mem_filter, List.mem_map] at hmem
    obtain ⟨⟨way, hway, heq⟩, -⟩ := hmem
    exact hwhole (List.append_cancel_left heq ▸ hway)

theorem files_below_nested_directory :
    ∃ (below : Location) (whole part : List Location),
      .ofLocation ["r".toList, "a".toList, "b".toList] = Path.ofLocation below ∧
      files nestedTree nestedRequest [.ofLocation ["r".toList]] =
        .ok (whole.map .ofLocation, []) ∧
      files nestedTree nestedRequest [.ofLocation ["r".toList, "a".toList, "b".toList]] =
        .ok (part.map .ofLocation, []) ∧
      whole.filter (·.within below) = part.filter fun file =>
        !hidesBelow (levelsBetween nestedTree ["r".toList] below) below file := by
  have hregular : nestedTree.Regular := readable_nestedTree.regular
  have hplace : nestedTree.lookup? ["r".toList] = some .directory := by decide
  exact files_below_directory nestedRequest hregular linkfree_nestedTree readable_nestedTree.legible
    rfl (hregular.resolve hplace nofun) hplace mem_entries_nestedTree

end Literal

end TodoTracker.Walker
