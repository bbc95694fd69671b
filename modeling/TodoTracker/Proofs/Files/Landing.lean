import TodoTracker.Proofs.Files.Links
import TodoTracker.Proofs.Files.Regular

/-!
# Where files land

Making the directories of a path takes nothing away, and makes nothing when they are there. A file
that is written at a path lands where its links lead when they are replaced one by one. That is where
the path leads unless the last of its names is a link to what is missing.
-/

set_option autoImplicit false

namespace TodoTracker

namespace FileTree

variable {tree tree' tree'' made written : FileTree} {here place location found : Location}
  {name : Text} {names rest before after : List Text} {links : Nat} {path : Path} {entry : Entry}
  {bytes : Bytes}

/-! ### What is there stays -/

/-- What is at a location in the first tree is there in the second one. -/
def Grows (tree tree' : FileTree) : Prop :=
  ∀ location entry, tree.lookup? location = some entry → tree'.lookup? location = some entry

namespace Grows

theorem refl (tree : FileTree) : Grows tree tree := fun _ _ => id

theorem trans (h : Grows tree tree') (h' : Grows tree' tree'') : Grows tree tree'' :=
  fun location entry hentry => h' location entry (h location entry hentry)

theorem insert (hne : location ≠ []) (hnone : tree.lookup? location = none) (entry : Entry) :
    Grows tree (tree.insert location entry) := by
  intro other found hfound
  rw [lookup?_insert tree hne, if_neg, hfound]
  rintro rfl
  rw [hnone] at hfound
  cases hfound

theorem makeDirectories (h : tree.makeDirectories path = .ok made) : Grows tree made :=
  related_makeDirectories refl trans (fun _ _ hne hnone => insert hne hnone _) h

theorem follow (h : Grows tree tree') (hfollow : tree.follow links here names = .ok found) :
    tree'.follow links here names = .ok found := by
  fun_induction FileTree.follow tree links here names with
  | case1 => rwa [FileTree.follow]
  | case2 links here rest ih => rw [FileTree.follow, if_pos rfl, ih hfollow]
  | case3 links here rest hup ih => rw [FileTree.follow, if_neg hup, if_pos rfl, ih hfollow]
  | case4 | case5 | case7 | case9 => cases hfollow
  | case6 links here name rest hup hhere hshort next bytes hfile hlast =>
    rw [follow_name hup hhere hshort, h _ _ hfile]
    exact (if_pos hlast).trans hfollow
  | case8 links here name rest hup hhere hshort next hdirectory ih =>
    rw [follow_name hup hhere hshort, h _ _ hdirectory]
    exact ih hfollow
  | case10 here name rest hup hhere hshort next target hlink links ih =>
    rw [follow_name hup hhere hshort, h _ _ hlink]
    exact ih hfollow

theorem find (h : Grows tree tree') (hfind : tree.find path = .ok (location, entry)) :
    tree'.find path = .ok (location, entry) := by
  obtain ⟨hfollow, hentry⟩ := find_eq_ok_iff.1 hfind
  exact find_eq_ok_iff.2 ⟨h.follow hfollow, h _ _ hentry⟩

end Grows

/-! ### Paths by their last name -/

theorem names_eq_concat (h : path.names ≠ []) :
    path.names = path.parent.names ++ [path.name] := by
  rw [Path.parent, Path.name, List.getLast?_eq_some_getLast h]
  exact (List.dropLast_concat_getLast h).symm

/-- Before further names are followed there is a directory. -/
theorem follow_append (hafter : after ≠ []) (hhere : Grounded tree here)
    (h : tree.follow links here (before ++ after) = .ok found) :
    ∃ links' place, tree.follow links here before = .ok place ∧ Grounded tree place ∧
      tree.follow links' place after = .ok found := by
  fun_induction FileTree.follow tree links here before with
  | case1 links here => exact ⟨links, here, rfl, hhere, h⟩
  | case2 links here rest ih =>
    rw [List.cons_append, FileTree.follow, if_pos rfl] at h
    exact ih hhere.dropLast h
  | case3 links here rest hup ih =>
    rw [List.cons_append, FileTree.follow, if_neg hup, if_pos rfl] at h
    exact ih hhere h
  | case4 links here name rest hup hname hlong =>
    rw [List.cons_append, FileTree.follow, if_neg hup, if_neg hname, if_pos hlong] at h
    cases h
  | case5 links here name rest hup hname hshort next hnone =>
    rw [List.cons_append, follow_name hup hname hshort, hnone] at h
    cases h
  | case6 links here name rest hup hname hshort next bytes hfile
  | case7 links here name rest hup hname hshort next bytes hfile =>
    have hmore : (rest ++ after).isEmpty = false := by simp [hafter]
    rw [List.cons_append, follow_name hup hname hshort, hfile] at h
    simp [hmore] at h
  | case8 links here name rest hup hname hshort next hdirectory ih =>
    rw [List.cons_append, follow_name hup hname hshort, hdirectory] at h
    exact ih (hhere.entered hup hname hshort hdirectory) h
  | case9 here name rest hup hname hshort next target hlink =>
    rw [List.cons_append, follow_name hup hname hshort, hlink] at h
    cases h
  | case10 here name rest hup hname hshort next target hlink links ih =>
    rw [List.cons_append, follow_name hup hname hshort, hlink] at h
    dsimp only at h
    rw [← List.append_assoc] at h
    exact ih (hhere.targetBase target) h

/-- A name that is no link is followed from a directory in one step. -/
theorem follow_concat (hfollow : tree.follow links here names = .ok place)
    (hplace : tree.lookup? place = some .directory) (hup : name ≠ upName) (hname : name ≠ hereName)
    (hshort : ¬nameLimit < (Utf8.encode name).length)
    (hentry : tree.lookup? (place ++ [name]) = some entry) (hother : ∀ target, entry ≠ .link target) :
    tree.follow links here (names ++ [name]) = .ok (place ++ [name]) := by
  fun_induction FileTree.follow tree links here names with
  | case1 links here =>
    cases hfollow
    rw [List.nil_append, follow_name hup hname hshort, hentry]
    cases entry with
    | file => rfl
    | link target => exact absurd rfl (hother target)
    | directory =>
      dsimp only
      rw [FileTree.follow]
  | case2 links here rest ih =>
    rw [List.cons_append, FileTree.follow, if_pos rfl]
    exact ih hfollow
  | case3 links here rest hup ih =>
    rw [List.cons_append, FileTree.follow, if_neg hup, if_pos rfl]
    exact ih hfollow
  | case4 | case5 | case7 | case9 => cases hfollow
  | case6 links here other rest hup' hname' hshort' next bytes hfile =>
    obtain rfl := Except.ok.inj hfollow
    rw [hplace] at hfile
    cases hfile
  | case8 links here other rest hup' hname' hshort' next hdirectory ih =>
    rw [List.cons_append, follow_name hup' hname' hshort', hdirectory]
    exact ih hfollow
  | case10 here other rest hup' hname' hshort' next target hlink links ih =>
    rw [List.cons_append, follow_name hup' hname' hshort', hlink]
    dsimp only
    rw [← List.append_assoc]
    exact ih hfollow

theorem find_concat (hfind : tree.find path.parent = .ok (place, .directory))
    (hne : path.names ≠ []) (hup : path.name ≠ upName) (hname : path.name ≠ hereName)
    (hshort : ¬nameLimit < (Utf8.encode path.name).length)
    (hentry : tree.lookup? (place ++ [path.name]) = some entry) (hother : ∀ target, entry ≠ .link target) :
    tree.find path = .ok (place ++ [path.name], entry) := by
  obtain ⟨hfollow, hplace⟩ := find_eq_ok_iff.1 hfind
  refine find_eq_ok_iff.2 ⟨?_, hentry⟩
  rw [names_eq_concat hne]
  exact follow_concat hfollow hplace hup hname hshort hentry hother

/-- The directory of what is found is found. -/
theorem find_parent (hne : path.names ≠ []) (h : tree.find path = .ok (location, entry)) :
    ∃ links place, tree.find path.parent = .ok (place, .directory) ∧
      tree.follow links place [path.name] = .ok location := by
  obtain ⟨hfollow, -⟩ := find_eq_ok_iff.1 h
  rw [names_eq_concat hne] at hfollow
  obtain ⟨links, place, hparent, hplace, hlast⟩ :=
    follow_append (List.cons_ne_nil _ _) .root hfollow
  exact ⟨links, place, find_eq_ok_iff.2 ⟨hparent, hplace.lookup?⟩, hlast⟩

/-! ### Directories that are made -/

theorem name_mem (hne : path.names ≠ []) : path.name ∈ path.names := by
  rw [names_eq_concat hne]
  exact List.mem_append_right _ List.mem_cons_self

theorem find_of_makeDirectory (hdots : hereName ∉ path.names)
    (h : tree.makeDirectory path = .ok made) : ∃ place, made.find path = .ok (place, .directory) := by
  obtain ⟨place, hfind, hne, hup, hshort, hnone, rfl⟩ := makeDirectory_eq_ok h
  have hroot : place ++ [path.name] ≠ [] := by simp
  have hparent := (Grows.insert hroot hnone .directory).find hfind
  have hname : path.name ≠ hereName := fun heq => hdots (heq ▸ name_mem hne)
  refine ⟨_, find_concat hparent hne hup hname hshort ?_ nofun⟩
  rw [lookup?_insert tree hroot, if_pos rfl]

/-- Making the directories of a path, by its last name. -/
theorem makeDirectories_eq (tree : FileTree) (path : Path) :
    tree.makeDirectories path =
      if path.names = [] then tree.settle path .alreadyExists
      else match tree.makeDirectory path with
        | .ok made => .ok made
        | .error .notFound => do
          let between ← tree.makeDirectories path.parent
          match between.makeDirectory path with
          | .ok made => .ok made
          | .error .notFound => .error ⟨.notFound, path.text, none⟩
          | .error flaw => between.settle path flaw
        | .error flaw => tree.settle path flaw := by
  obtain ⟨slashes, names⟩ := path
  rcases List.eq_nil_or_concat names with rfl | ⟨names, name, rfl⟩
  · rfl
  · have hnames : (name :: names.reverse).reverse = names ++ [name] := by simp
    rw [if_neg (by simp), makeDirectories, List.concat_eq_append, List.reverse_concat,
      makeDirectoriesFrom, hnames]
    have hparent : (⟨slashes, names ++ [name]⟩ : Path).parent = ⟨slashes, names⟩ := by
      rw [Path.parent, List.dropLast_concat]
    exact hparent ▸ rfl

/-- Directories that were made are there. -/
theorem find_of_makeDirectories (hdots : hereName ∉ path.names)
    (h : tree.makeDirectories path = .ok made) :
    ∃ place, made.find path = .ok (place, .directory) := by
  rw [makeDirectories_eq] at h
  split at h
  · obtain ⟨rfl, hfind⟩ := settle_eq_ok h
    exact hfind
  split at h
  · rename_i hmade
    cases h
    exact find_of_makeDirectory hdots hmade
  · obtain ⟨between, -, h⟩ := bind_eq_ok h
    split at h
    · rename_i hmade
      cases h
      exact find_of_makeDirectory hdots hmade
    · cases h
    · obtain ⟨rfl, hfind⟩ := settle_eq_ok h
      exact hfind
  · obtain ⟨rfl, hfind⟩ := settle_eq_ok h
    exact hfind

/-- Where a directory is, none is made. -/
theorem makeDirectories_of_find (hdots : hereName ∉ path.names)
    (h : tree.find path = .ok (location, .directory)) : tree.makeDirectories path = .ok tree := by
  have hsettle : ∀ flaw, tree.settle path flaw = .ok tree := fun flaw => by rw [settle, h]
  rw [makeDirectories_eq]
  split
  · exact hsettle _
  rename_i hne
  obtain ⟨links, place, hparent, hlast⟩ := find_parent hne h
  have hname : path.name ≠ hereName := fun heq => hdots (heq ▸ name_mem hne)
  split
  · -- something is there, so nothing could have been made in its place
    rename_i made hmade
    obtain ⟨place', hfind, -, hup, hshort, hnone, -⟩ := makeDirectory_eq_ok hmade
    rw [hparent] at hfind
    cases hfind
    rw [follow_name hup hname hshort, hnone] at hlast
    cases hlast
  · rename_i hmissing
    rw [makeDirectory, directoryAt, hparent] at hmissing
    dsimp only [bind, Except.bind] at hmissing
    split at hmissing
    · cases hmissing
    split at hmissing
    · cases hmissing
    split at hmissing <;> cases hmissing
  · exact hsettle _

/-! ### Paths without links -/

namespace Linkless

theorem hereName_not_mem (h : Linkless tree location) : hereName ∉ location := by
  induction h with
  | root => nofun
  | entered _ _ hhere _ ih =>
    rw [List.mem_append, List.mem_singleton]
    exact fun hmem => hmem.elim ih fun heq => hhere heq.symm

theorem find (h : Linkless tree path.names) (hfind : tree.find path = .ok (location, entry)) :
    location = path.names :=
  follow (show Linkless tree ([] ++ path.names) from h) (find_eq_ok_iff.1 hfind).1

end Linkless

theorem SameLinks.linkless (hsame : SameLinks tree tree') (h : Linkless tree location) :
    Linkless tree' location := by
  induction h with
  | root => exact .root
  | entered _ hup hhere hother ih =>
    exact ih.entered hup hhere fun target hlink => hother target ((hsame _ _).1 hlink)

/-! ### Paths that carry files -/

/-- A file that is written at the path is found there, and making the directories of the path brings
no other file to light. -/
structure Carries (tree : FileTree) (path : Path) : Prop where
  dots : hereName ∉ path.names
  uncovers : ∀ made, tree.makeDirectories path.parent = .ok made → ∀ location bytes,
    made.find path = .ok (location, .file bytes) → tree.find path = .ok (location, .file bytes)
  found : ∀ made written bytes, tree.makeDirectories path.parent = .ok made →
    made.replaceFile (made.real path) bytes = .ok written →
    ∃ location, written.find path = .ok (location, .file bytes)

theorem dots_parent (hdots : hereName ∉ path.names) : hereName ∉ path.parent.names :=
  fun hmem => hdots (List.mem_of_mem_dropLast hmem)

/-- Where the directory of a path is, the path carries files if it does as things are. -/
theorem carries_of_directory (hdots : hereName ∉ path.names)
    (hparent : tree.find path.parent = .ok (place, .directory))
    (hfound : ∀ written bytes, tree.replaceFile (tree.real path) bytes = .ok written →
      ∃ location, written.find path = .ok (location, .file bytes)) : tree.Carries path := by
  have hmake := makeDirectories_of_find (dots_parent hdots) hparent
  refine ⟨hdots, fun made hmade => ?_, fun made written bytes hmade => ?_⟩
  · cases hmake.symm.trans hmade
    exact fun _ _ => id
  · cases hmake.symm.trans hmade
    exact hfound written bytes

/-- A path that carries files does so once its directories are made. -/
theorem Carries.makeDirectories (h : tree.Carries path)
    (hmade : tree.makeDirectories path.parent = .ok made) : made.Carries path := by
  obtain ⟨place, hplace⟩ := find_of_makeDirectories (dots_parent h.dots) hmade
  exact carries_of_directory h.dots hplace fun written bytes => h.found made written bytes hmade

theorem names_ne_nil_of_file (h : tree.find path = .ok (location, .file bytes)) :
    path.names ≠ [] := by
  obtain ⟨hfollow, hfile⟩ := find_eq_ok_iff.1 h
  intro hnil
  rw [hnil, follow] at hfollow
  cases hfollow
  cases hfile

/-- A path that leads to a file carries files. -/
theorem carries_of_file (hdots : hereName ∉ path.names)
    (h : tree.find path = .ok (location, .file bytes)) : tree.Carries path := by
  obtain ⟨links, place, hparent, -⟩ := find_parent (names_ne_nil_of_file h) h
  refine carries_of_directory hdots hparent fun written bytes' hwritten => ⟨location, ?_⟩
  rw [real_of_find hdots h] at hwritten
  rw [replaceFile_of_find h hwritten, find_insert (lookup?_of_find h), h]
  simp [Except.map]

/-- Where the directory of a path is and its last name is no link, the path carries files. -/
theorem carries_of_no_link (hdots : hereName ∉ path.names) (hne : path.names ≠ [])
    (hup : path.name ≠ upName) (hparent : tree.find path.parent = .ok (place, .directory))
    (hother : ∀ target, tree.lookup? (place ++ [path.name]) ≠ some (.link target)) :
    tree.Carries path := by
  have hname : path.name ≠ hereName := fun heq => hdots (heq ▸ name_mem hne)
  have hroot : place ++ [path.name] ≠ [] := by simp
  refine carries_of_directory hdots hparent fun written bytes hwritten => ?_
  have hreal : tree.real path = place ++ [path.name] := by
    obtain ⟨n, hleads⟩ := exists_leads (find_eq_ok_iff.1 hparent).1
    obtain ⟨_, hlast⟩ := hleads.append (.name hup hname hother (.done _))
    rw [← names_eq_concat hne] at hlast
    rw [real, hlast.realFrom_of_dots hdots]
  rw [hreal, replaceFile, List.dropLast_concat, List.getLast?_concat,
    (grounded_of_find hparent).directoryAt, Option.getD_some] at hwritten
  dsimp only at hwritten
  split at hwritten
  · cases hwritten
  have hshort : ¬nameLimit < (Utf8.encode path.name).length := by omega
  cases hentry : tree.lookup? (place ++ [path.name]) with
  | none =>
    rw [hentry] at hwritten
    cases hwritten
    have hkept := (Grows.insert hroot hentry (.file bytes)).find hparent
    refine ⟨_, find_concat hkept hne hup hname hshort ?_
      fun _ heq => by cases heq⟩
    rw [lookup?_insert tree hroot, if_pos rfl]
  | some entry =>
    rw [hentry] at hwritten
    cases entry with
    | file old =>
      have hfind := find_concat hparent hne hup hname hshort hentry fun _ heq => by cases heq
      cases hwritten
      refine ⟨place ++ [path.name], ?_⟩
      rw [find_insert hentry, hfind]
      simp [Except.map]
    | link target => exact absurd hentry (hother target)
    | directory => cases hwritten

/-- Making directories makes no file. -/
theorem lookup?_file_of_makeDirectories (h : tree.makeDirectories path = .ok made) :
    ∀ location bytes, made.lookup? location = some (.file bytes) →
      tree.lookup? location = some (.file bytes) := by
  refine related_makeDirectories (R := fun tree made => ∀ location bytes,
    made.lookup? location = some (.file bytes) → tree.lookup? location = some (.file bytes))
    (fun _ _ _ => id) (fun h h' location bytes => h location bytes ∘ h' location bytes)
    (fun tree place hne _ location bytes hfile => ?_) h
  rw [lookup?_insert tree hne] at hfile
  split at hfile
  · cases hfile
  · exact hfile

/-- In a tree as a file system has it, a path without links on its way carries files, whether its
directories are there yet or not. -/
theorem carries_of_linkless (hregular : tree.Regular) (hne : path.names ≠ [])
    (h : Linkless tree path.names) : tree.Carries path := by
  have hdots := h.hereName_not_mem
  refine ⟨hdots, fun made hmade location bytes hfind => ?_, fun made written bytes hmade => ?_⟩
  · obtain rfl := ((SameLinks.makeDirectories hmade).linkless h).find hfind
    have hentry := lookup?_file_of_makeDirectories hmade _ _ (lookup?_of_find hfind)
    exact hregular.find hentry nofun
  · obtain ⟨place, hplace⟩ := find_of_makeDirectories (dots_parent hdots) hmade
    have hlinkless := (SameLinks.makeDirectories hmade).linkless h
    rw [names_eq_concat hne] at hlinkless
    obtain rfl := hlinkless.take.find hplace
    obtain ⟨hup, -, hother⟩ := hlinkless.last
    exact (carries_of_no_link hdots hne hup hplace hother).found made written bytes
      (makeDirectories_of_find (dots_parent hdots) hplace)

end FileTree

end TodoTracker
