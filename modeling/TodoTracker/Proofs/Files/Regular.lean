import Mathlib
import TodoTracker.Proofs.Files.Rewrite

/-!
# Regular trees

In a tree as a file system has it, every name can be one of a file and everything is in a directory.
What is at a location, unless it is a link, is then found by the path of the location, and a
directory lists what is in it.
-/

set_option autoImplicit false

namespace TodoTracker

/-- Names that a file can have. -/
structure IsName (name : Text) : Prop where
  nonempty : name ≠ []
  slash : '/' ∉ name
  null : Char.ofNat 0 ∉ name
  up : name ≠ FileTree.upName
  here : name ≠ FileTree.hereName
  short : (Utf8.encode name).length ≤ FileTree.nameLimit

instance (name : Text) : Decidable (IsName name) :=
  decidable_of_iff (name ≠ [] ∧ '/' ∉ name ∧ Char.ofNat 0 ∉ name ∧ name ≠ FileTree.upName ∧
      name ≠ FileTree.hereName ∧ (Utf8.encode name).length ≤ FileTree.nameLimit)
    ⟨fun ⟨nonempty, slash, null, up, here, short⟩ => ⟨nonempty, slash, null, up, here, short⟩,
      fun ⟨nonempty, slash, null, up, here, short⟩ => ⟨nonempty, slash, null, up, here, short⟩⟩

namespace FileTree

variable {tree : FileTree} {location place : Location} {name : Text} {entry : Entry} {path : Path}

/-- Every name can be one of a file, and everything is in a directory. -/
structure Regular (tree : FileTree) : Prop where
  names : ∀ entry ∈ tree.entries, ∀ name ∈ entry.1, IsName name
  below : ∀ entry ∈ tree.entries, entry.1 ≠ []
  parents : ∀ entry ∈ tree.entries, tree.lookup? entry.1.dropLast = some .directory

instance (tree : FileTree) : Decidable tree.Regular :=
  decidable_of_iff ((∀ entry ∈ tree.entries, ∀ name ∈ entry.1, IsName name) ∧
      (∀ entry ∈ tree.entries, entry.1 ≠ []) ∧
      ∀ entry ∈ tree.entries, tree.lookup? entry.1.dropLast = some .directory)
    ⟨fun ⟨names, below, parents⟩ => ⟨names, below, parents⟩,
      fun ⟨names, below, parents⟩ => ⟨names, below, parents⟩⟩

/-- There is no link in the tree. -/
def Linkfree (tree : FileTree) : Prop :=
  ∀ location target, tree.lookup? location ≠ some (.link target)

theorem linkfree_of_entries (h : ∀ entry ∈ tree.entries, !(entry.2 matches .link _)) :
    tree.Linkfree := by
  intro location target hlink
  have hne : location ≠ [] := by
    rintro rfl
    cases hlink
  simpa using h _ (mem_of_lookup? hne hlink)

theorem lookup?_eq_some_iff (hne : location ≠ []) :
    tree.lookup? location = some entry ↔ (location, entry) ∈ tree.entries := by
  refine ⟨mem_of_lookup? hne, fun hmem => ?_⟩
  rw [lookup?, if_neg hne]
  cases hfind : tree.entries.find? fun entry => entry.1 == location with
  | none => simpa using List.find?_eq_none.1 hfind _ hmem
  | some found =>
    have hplace : found.1 = location := by simpa using List.find?_some hfind
    have hsame := List.inj_on_of_nodup_map tree.nodup (List.mem_of_find?_eq_some hfind) hmem hplace
    rw [hsame]
    rfl

/-! ### What a directory has in it -/

theorem mem_children : (name, entry) ∈ tree.children place ↔
    (place ++ [name], entry) ∈ tree.entries := by
  rw [children, List.mem_filterMap]
  constructor
  · rintro ⟨⟨location, entry'⟩, hmem, h⟩
    simp only [Option.ite_none_right_eq_some, Bool.and_eq_true, bne_iff_ne, ne_eq, beq_iff_eq,
      Option.some.injEq, Prod.mk.injEq] at h
    obtain ⟨⟨hne, rfl⟩, rfl, rfl⟩ := h
    rw [List.getLast?_eq_some_getLast hne, Option.getD_some, List.dropLast_concat_getLast]
    exact hmem
  · intro hmem
    exact ⟨_, hmem, by simp⟩

theorem nodup_children (tree : FileTree) (place : Location) :
    ((tree.children place).map Prod.fst).Nodup := by
  have hnames : (tree.children place).map Prod.fst =
      (tree.entries.map Prod.fst).filterMap fun location =>
        if location != [] && location.dropLast == place then some (location.getLast?.getD [])
        else none := by
    rw [children, List.map_filterMap, List.filterMap_map]
    refine List.filterMap_congr fun entry _ => ?_
    dsimp only [Function.comp]
    split <;> rfl
  rw [hnames]
  refine List.Nodup.filterMap (fun location location' name h h' => ?_) tree.nodup
  simp only [Option.mem_def, Option.ite_none_right_eq_some, Bool.and_eq_true, bne_iff_ne, ne_eq,
    beq_iff_eq, Option.some.injEq] at h h'
  obtain ⟨⟨hne, rfl⟩, rfl⟩ := h
  obtain ⟨⟨hne', hplace⟩, hlast⟩ := h'
  rw [List.getLast?_eq_some_getLast hne, List.getLast?_eq_some_getLast hne', Option.getD_some,
    Option.getD_some] at hlast
  rw [← List.dropLast_concat_getLast hne, ← List.dropLast_concat_getLast hne', hlast, hplace]

/-! ### What is found in a regular tree -/

namespace Regular

variable (h : tree.Regular)
include h

theorem isName (hentry : tree.lookup? location = some entry) : ∀ name ∈ location, IsName name := by
  by_cases hne : location = []
  · subst hne
    simp
  · exact h.names _ (mem_of_lookup? hne hentry)

theorem lookup?_parent (hentry : tree.lookup? (location ++ [name]) = some entry) :
    tree.lookup? location = some .directory := by
  simpa using h.parents _ (mem_of_lookup? (by simp) hentry)

/-- What is above something is a directory. -/
theorem lookup?_above {rest : Location} (hne : rest ≠ [])
    (hentry : tree.lookup? (place ++ rest) = some entry) : tree.lookup? place = some .directory := by
  induction rest using List.reverseRecOn generalizing entry with
  | nil => contradiction
  | append_singleton rest name ih =>
    have hparent := h.lookup?_parent (List.append_assoc .. ▸ hentry)
    rcases List.eq_nil_or_concat rest with rfl | ⟨_, _, rfl⟩
    · simpa using hparent
    · exact ih (by simp) hparent

theorem grounded (hdirectory : tree.lookup? location = some .directory) :
    Grounded tree location := by
  induction location using List.reverseRecOn with
  | nil => exact .root
  | append_singleton location name ih =>
    have hname := h.isName hdirectory name (by simp)
    exact (ih (h.lookup?_parent hdirectory)).entered hname.up hname.here
      (Nat.not_lt.2 hname.short) hdirectory

/-- What is no link is found by the path of its location. -/
theorem find (hentry : tree.lookup? location = some entry)
    (hother : ∀ target, entry ≠ .link target) :
    tree.find (.ofLocation location) = .ok (location, entry) := by
  refine find_eq_ok_iff.2 ⟨?_, hentry⟩
  rcases List.eq_nil_or_concat location with rfl | ⟨place, name, rfl⟩
  · rw [Path.ofLocation, follow]
  · rw [List.concat_eq_append] at hentry ⊢
    have hname := h.isName hentry name (by simp)
    have hplace := h.grounded (h.lookup?_parent hentry)
    rw [Path.ofLocation, hplace.follow, follow_name hname.up hname.here (Nat.not_lt.2 hname.short),
      hentry]
    cases entry with
    | file bytes => rfl
    | link target => exact absurd rfl (hother target)
    | directory =>
      dsimp only
      rw [follow]

theorem hereName_not_mem (hentry : tree.lookup? location = some entry) : hereName ∉ location :=
  fun hmem => (h.isName hentry _ hmem).here rfl

theorem hasNull (hentry : tree.lookup? location = some entry) :
    (Path.ofLocation location).hasNull = false := by
  rw [Path.hasNull, List.any_eq_false]
  intro name hname
  simpa using (h.isName hentry name hname).null

theorem real (hentry : tree.lookup? location = some entry)
    (hother : ∀ target, entry ≠ .link target) : tree.real (.ofLocation location) = location :=
  real_of_find (h.hereName_not_mem hentry) (h.find hentry hother)

theorem realPath (hentry : tree.lookup? location = some entry)
    (hother : ∀ target, entry ≠ .link target) :
    tree.realPath (.ofLocation location) = .ok location := by
  rw [FileTree.realPath, h.hasNull hentry, if_neg Bool.false_ne_true, h.real hentry hother]

theorem resolve (hentry : tree.lookup? location = some entry)
    (hother : ∀ target, entry ≠ .link target) :
    tree.resolve (.ofLocation location) = .ok location := by
  rw [FileTree.resolve, h.realPath hentry hother]
  dsimp only [bind, Except.bind]
  rw [h.find hentry hother]
  rfl

theorem entry? (hentry : tree.lookup? location = some entry)
    (hother : ∀ target, entry ≠ .link target) :
    tree.entry? (.ofLocation location) = .ok (some entry) := by
  rw [ FileTree.entry?, h.hasNull hentry, if_neg Bool.false_ne_true, h.find hentry hother]

theorem isFile (hentry : tree.lookup? location = some entry)
    (hother : ∀ target, entry ≠ .link target) :
    tree.isFile (.ofLocation location) = .ok (entry matches .file _) := by
  rw [FileTree.isFile, h.entry? hentry hother]
  cases entry <;> rfl

theorem isDirectory (hentry : tree.lookup? location = some entry)
    (hother : ∀ target, entry ≠ .link target) :
    tree.isDirectory (.ofLocation location) = .ok (entry == .directory) := by
  rw [FileTree.isDirectory, h.entry? hentry hother]
  rfl

/-- A directory without links lists what is in it. -/
theorem list (hlinks : tree.Linkfree) (hdirectory : tree.lookup? location = some .directory) :
    tree.list (.ofLocation location) =
      .ok ((tree.children location).map fun child => (child.1, child.2 == .directory)) := by
  rw [FileTree.list, h.find hdirectory nofun]
  refine congrArg Except.ok (List.map_congr_left fun ⟨name, entry⟩ hmem => ?_)
  have hentry := (lookup?_eq_some_iff (by simp)).2 (mem_children.1 hmem)
  have hfind := h.find hentry fun target heq => hlinks _ target (heq ▸ hentry)
  have hjoin : (Path.ofLocation location).join ⟨0, [name]⟩ = .ofLocation (location ++ [name]) := rfl
  dsimp only
  rw [hjoin, hfind]
  cases entry <;> rfl

end Regular

/-! ### What can be looked up -/

/-- Names that can be part of a path: those of files, and dots. -/
def Written (name : Text) : Prop := name = upName ∨ name = hereName ∨ IsName name

/-- No link has a name in its target that is too long. -/
def ShortLinks (tree : FileTree) : Prop :=
  ∀ location target, tree.lookup? location = some (.link target) →
    ∀ name ∈ targetNames target, (Utf8.encode name).length ≤ nameLimit

theorem Linkfree.shortLinks (h : tree.Linkfree) : tree.ShortLinks :=
  fun location target hlink => absurd hlink (h location target)

theorem Written.short (h : Written name) : (Utf8.encode name).length ≤ nameLimit := by
  rcases h with rfl | rfl | h
  · decide
  · decide
  · exact h.short

theorem Written.null (h : Written name) : Char.ofNat 0 ∉ name := by
  rcases h with rfl | rfl | h
  · decide
  · decide
  · exact h.null

/-- The names of a path that leads somewhere can be part of a path. -/
theorem Regular.written_of_follow (h : tree.Regular) {links : Nat} {here found : Location}
    {names : List Text} (hfollow : tree.follow links here names = .ok found) :
    ∀ name ∈ names, Written name := by
  fun_induction FileTree.follow tree links here names with
  | case1 => simp
  | case2 links here rest ih => exact List.forall_mem_cons.2 ⟨.inl rfl, ih hfollow⟩
  | case3 links here rest hup ih => exact List.forall_mem_cons.2 ⟨.inr (.inl rfl), ih hfollow⟩
  | case4 | case5 | case7 | case9 => cases hfollow
  | case6 links here name rest hup hhere hshort next bytes hfile hlast =>
    rw [List.isEmpty_iff.1 hlast]
    exact List.forall_mem_singleton.2 (.inr (.inr (h.isName hfile name (by simp [next]))))
  | case8 links here name rest hup hhere hshort next hdirectory ih =>
    exact List.forall_mem_cons.2
      ⟨.inr (.inr (h.isName hdirectory name (by simp [next]))), ih hfollow⟩
  | case10 here name rest hup hhere hshort next target hlink links ih =>
    refine List.forall_mem_cons.2 ⟨.inr (.inr (h.isName hlink name (by simp [next]))), ?_⟩
    exact fun name hmem => ih hfollow name (List.mem_append_right _ hmem)

/-- Where names that are not too long lead nowhere, something is absent. -/
theorem ShortLinks.meansAbsent (h : tree.ShortLinks) {links : Nat} {here : Location}
    {names : List Text} {flaw : FileFlaw}
    (hshort : ∀ name ∈ names, (Utf8.encode name).length ≤ nameLimit)
    (hfollow : tree.follow links here names = .error flaw) : flaw.meansAbsent = true := by
  fun_induction FileTree.follow tree links here names with
  | case1 | case6 => cases hfollow
  | case2 links here rest ih | case3 links here rest hup ih =>
    exact ih (List.forall_mem_cons.1 hshort).2 hfollow
  | case4 links here name rest hup hhere hlong =>
    exact absurd hlong (Nat.not_lt.2 (List.forall_mem_cons.1 hshort).1)
  | case5 | case7 | case9 =>
    cases hfollow
    rfl
  | case8 links here name rest hup hhere hlong next hdirectory ih =>
    exact ih (List.forall_mem_cons.1 hshort).2 hfollow
  | case10 here name rest hup hhere hlong next target hlink links ih =>
    refine ih (fun name hmem => ?_) hfollow
    rcases List.mem_append.1 hmem with hmem | hmem
    · exact h _ _ hlink name hmem
    · exact hshort name (List.mem_cons_of_mem _ hmem)

theorem ShortLinks.exists_entry (h : tree.ShortLinks)
    (hwritten : ∀ name ∈ path.names, Written name) : ∃ entry, tree.entry? path = .ok entry := by
  have hnull : path.hasNull = false := by
    rw [Path.hasNull, List.any_eq_false]
    intro name hmem
    simpa using (hwritten name hmem).null
  rw [ FileTree.entry?, hnull, if_neg Bool.false_ne_true]
  split
  · exact ⟨_, rfl⟩
  · rename_i flaw hfind
    rw [find] at hfind
    have habsent : flaw.meansAbsent = true := by
      split at hfind
      · split at hfind <;> cases hfind
        rfl
      · rename_i hfollow
        cases hfind
        exact h.meansAbsent (fun name hmem => (hwritten name hmem).short) hfollow
    rw [if_pos habsent]
    exact ⟨_, rfl⟩

/-! ### Where paths without single dots lead -/

theorem hereName_not_mem_realFrom {pending : List Location} {here : Location} {names : List Text}
    (hhere : hereName ∉ here) (hnames : hereName ∉ names)
    (h : tree.realFrom pending here names = .ok location ∨
      tree.realFrom pending here names = .error location) : hereName ∉ location := by
  fun_induction FileTree.realFrom tree pending here names generalizing location with
  | case1 =>
    rcases h with h | h <;> cases h
    exact hhere
  | case2 pending here rest ih =>
    exact ih (fun hmem => hhere (List.dropLast_subset _ hmem))
      (List.not_mem_of_not_mem_cons hnames) h
  | case3 pending here name rest hup target hlink hpending =>
    rcases h with h | h <;> cases h
    obtain ⟨hne, hrest⟩ := List.ne_and_not_mem_of_not_mem_cons hnames
    simp [hhere, hne, hrest]
  | case4 pending here name rest hup target hlink hpending found hfound ihtarget ih =>
    refine ih (ihtarget ?_ (hereName_not_mem_ofText target) (.inl hfound))
      (List.not_mem_of_not_mem_cons hnames) h
    rw [targetBase]
    split
    · simp
    · exact hhere
  | case5 pending here name rest hup target hlink hpending stuck hstuck ih =>
    rcases h with h | h <;> cases h
    have hbase : hereName ∉ targetBase here target := by
      rw [targetBase]
      split
      · simp
      · exact hhere
    have hmem := ih hbase (hereName_not_mem_ofText target) (.inr hstuck)
    simp [hmem, List.not_mem_of_not_mem_cons hnames]
  | case6 pending here name rest hup hother ih =>
    obtain ⟨hne, hrest⟩ := List.ne_and_not_mem_of_not_mem_cons hnames
    exact ih (by simp [hhere, hne]) hrest h

theorem hereName_not_mem_flatten {names : List Text} (hnames : hereName ∉ names) :
    hereName ∉ flatten names := by
  induction names using List.reverseRecOn with
  | nil => simp [flatten]
  | append_singleton names name ih =>
    simp only [List.mem_append, List.mem_singleton, not_or] at hnames
    rw [flatten, List.foldl_append, List.foldl_cons, List.foldl_nil]
    split
    · exact fun hmem => ih hnames.1 (List.dropLast_subset _ hmem)
    · exact List.not_mem_append (ih hnames.1) (by simpa using hnames.2)

/-- Where a path without single dots leads is written without them. -/
theorem hereName_not_mem_real (hdots : hereName ∉ path.names) : hereName ∉ tree.real path := by
  rw [real]
  split
  · rename_i location hreal
    exact hereName_not_mem_realFrom (by simp) hdots (.inl hreal)
  · rename_i stuck hreal
    exact hereName_not_mem_flatten (hereName_not_mem_realFrom (by simp) hdots (.inr hreal))

theorem resolve_eq_ok (h : tree.resolve path = .ok location) : tree.real path = location := by
  obtain ⟨found, hreal, h⟩ := bind_eq_ok h
  rw [realPath] at hreal
  split at hreal
  · cases hreal
  · cases hreal
    split at h <;> cases h
    rfl

theorem isFile_eq_ok_true (h : tree.isFile path = .ok true) :
    ∃ location bytes, path.hasNull = false ∧ tree.find path = .ok (location, .file bytes) := by
  obtain ⟨entry, hentry, h⟩ := bind_eq_ok h
  rw [ entry?] at hentry
  split at hentry
  · cases hentry
    cases h
  · rename_i hnull
    split at hentry
    · rename_i location found hfind
      cases hentry
      split at h
      · rename_i bytes heq
        cases heq
        exact ⟨location, bytes, by simpa using hnull, hfind⟩
      · cases h
    · split at hentry <;> cases hentry
      cases h

/-! ### What directories have in them -/

theorem mem_directories : place ∈ tree.directories ↔
    place = [] ∨ (place, .directory) ∈ tree.entries := by
  rw [directories, List.mem_cons, List.mem_filterMap]
  refine or_congr_right ⟨?_, fun h => ⟨_, h, if_pos rfl⟩⟩
  rintro ⟨⟨location, entry⟩, hmem, h⟩
  obtain ⟨rfl, rfl⟩ : entry = .directory ∧ location = place := by simpa using h
  exact hmem

theorem mem_directories_of_lookup? (h : tree.lookup? place = some .directory) :
    place ∈ tree.directories := by
  by_cases hne : place = []
  · exact mem_directories.2 (.inl hne)
  · exact mem_directories.2 (.inr (mem_of_lookup? hne h))

theorem Regular.nodup_directories (h : tree.Regular) : tree.directories.Nodup := by
  rw [directories, List.nodup_cons]
  constructor
  · intro hmem
    obtain ⟨⟨location, entry⟩, hentry, hplace⟩ := List.mem_filterMap.1 hmem
    obtain ⟨-, rfl⟩ : entry = .directory ∧ location = [] := by simpa using hplace
    exact h.below _ hentry rfl
  · refine tree.nodup.of_map.filterMap fun entry entry' place hplace hplace' => ?_
    simp only [Option.mem_def, Option.ite_none_right_eq_some, Option.some.injEq] at hplace hplace'
    exact Prod.ext (hplace.2.trans hplace'.2.symm) (hplace.1.trans hplace'.1.symm)

theorem length_children (tree : FileTree) (place : Location) :
    (tree.children place).length =
      tree.entries.countP fun entry => entry.1 != [] && entry.1.dropLast == place := by
  rw [children, List.length_filterMap_eq_countP]
  refine List.countP_congr fun entry _ => ?_
  dsimp only
  split <;> simp_all

/-- Different directories have different entries in them. -/
theorem sum_children_le (tree : FileTree) {places : List Location} (h : places.Nodup) :
    (places.map fun place => (tree.children place).length).sum ≤ tree.entries.length := by
  simp only [length_children]
  induction tree.entries with
  | nil => simp
  | cons entry entries ih =>
    have hone : (places.map fun place =>
        if (entry.1 != [] && entry.1.dropLast == place) = true then 1 else 0).sum ≤ 1 := by
      refine Nat.le_trans ?_ (List.nodup_iff_count_le_one.1 h entry.1.dropLast)
      clear h ih
      induction places with
      | nil => simp
      | cons place places ih =>
        rw [List.map_cons, List.sum_cons, List.count_cons, Nat.add_comm]
        refine Nat.add_le_add ih ?_
        split <;> split <;> simp_all
    simp only [List.countP_cons, List.sum_map_add, List.length_cons]
    exact Nat.add_le_add ih hone

end FileTree

end TodoTracker
