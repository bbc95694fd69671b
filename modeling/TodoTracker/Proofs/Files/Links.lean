import TodoTracker.Proofs.Files.Rewrite
import TodoTracker.Proofs.Task.Calls

/-!
# Changes that leave links alone

Making directories puts them where nothing was. A file is written where its path leads once links
are replaced. If they are replaced without going in a circle, no name on the way is that of a link, so
the file takes the place of none.
-/

set_option autoImplicit false

namespace TodoTracker

namespace FileTree

variable {tree tree' tree'' : FileTree} {here location found : Location} {name : Text}
  {names rest : List Text} {links : Nat} {path : Path}

/-- A directory is made where nothing was, in a directory that is there. -/
theorem makeDirectory_eq_ok (h : tree.makeDirectory path = .ok tree') :
    ∃ place, tree.find path.parent = .ok (place, .directory) ∧ path.names ≠ [] ∧
      path.name ≠ upName ∧ ¬nameLimit < (Utf8.encode path.name).length ∧
      tree.lookup? (place ++ [path.name]) = none ∧
      tree' = tree.insert (place ++ [path.name]) .directory := by
  rw [makeDirectory] at h
  obtain ⟨place, hplace, h⟩ := bind_eq_ok h
  have hfind : tree.find path.parent = .ok (place, .directory) := by
    rw [directoryAt] at hplace
    split at hplace <;> cases hplace
    assumption
  dsimp only at h
  split at h
  · cases h
  split at h
  · cases h
  split at h
  · cases h
  rename_i hname hshort _ hnone
  simp only [Bool.or_eq_true, List.isEmpty_iff, decide_eq_true_eq, not_or] at hname
  exact ⟨place, hfind, hname.1, hname.2, hshort, hnone, (Except.ok.inj h).symm⟩

theorem settle_eq_ok {flaw : FileFlaw} (h : tree.settle path flaw = .ok tree') :
    tree' = tree ∧ ∃ place, tree.find path = .ok (place, .directory) := by
  rw [settle] at h
  split at h
  · rename_i place hfind
    exact ⟨(Except.ok.inj h).symm, place, hfind⟩
  · cases h

/-- What putting a directory where nothing was keeps, making directories keeps. -/
theorem related_makeDirectories {R : FileTree → FileTree → Prop} (hrefl : ∀ tree, R tree tree)
    (htrans : ∀ {tree tree' tree''}, R tree tree' → R tree' tree'' → R tree tree'')
    (hinsert : ∀ (tree : FileTree) location, location ≠ [] → tree.lookup? location = none →
      R tree (tree.insert location .directory))
    (h : tree.makeDirectories path = .ok tree') : R tree tree' := by
  have hone : ∀ {tree tree' : FileTree} {path : Path},
      tree.makeDirectory path = .ok tree' → R tree tree' := by
    intro tree tree' path h
    obtain ⟨place, -, -, -, -, hnone, rfl⟩ := makeDirectory_eq_ok h
    exact hinsert tree _ (by simp) hnone
  have hsettle : ∀ {tree tree' : FileTree} {path : Path} {flaw : FileFlaw},
      tree.settle path flaw = .ok tree' → R tree tree' := by
    intro tree tree' path flaw h
    rw [(settle_eq_ok h).1]
    exact hrefl tree
  rw [FileTree.makeDirectories] at h
  generalize path.names.reverse = names at h
  induction names generalizing tree' with
  | nil => exact hsettle h
  | cons name above ih =>
    rw [makeDirectoriesFrom] at h
    split at h
    · rename_i made hmade
      cases h
      exact hone hmade
    · obtain ⟨made, habove, h⟩ := bind_eq_ok h
      split at h
      · rename_i further hfurther
        cases h
        exact htrans (ih habove) (hone hfurther)
      · cases h
      · exact htrans (ih habove) (hsettle h)
    · exact hsettle h

namespace SameLinks

theorem refl (tree : FileTree) : SameLinks tree tree := fun _ _ => Iff.rfl

theorem trans (h : SameLinks tree tree') (h' : SameLinks tree' tree'') : SameLinks tree tree'' :=
  fun location target => (h' location target).trans (h location target)

theorem insert {entry : Entry} (hne : location ≠ [])
    (hold : ∀ target, tree.lookup? location ≠ some (.link target))
    (hnew : ∀ target, entry ≠ .link target) : SameLinks tree (tree.insert location entry) := by
  intro other target
  rw [lookup?_insert tree hne]
  by_cases hother : other = location
  · subst hother
    simp [hold, hnew]
  · rw [if_neg hother]

theorem makeDirectories (h : tree.makeDirectories path = .ok tree') : SameLinks tree tree' :=
  related_makeDirectories refl trans (fun _ _ hne hnone => insert hne (by simp [hnone]) nofun) h

end SameLinks

/-- A location on whose way there are no links. -/
inductive Linkless (tree : FileTree) : Location → Prop
  | root : Linkless tree []
  | entered {here : Location} {name : Text} (h : Linkless tree here) (hup : name ≠ upName)
      (hhere : name ≠ hereName)
      (hother : ∀ target, tree.lookup? (here ++ [name]) ≠ some (.link target)) :
      Linkless tree (here ++ [name])

namespace Linkless

theorem dropLast (h : Linkless tree here) : Linkless tree here.dropLast := by
  cases h with
  | root => exact .root
  | entered h =>
    rw [List.dropLast_concat]
    exact h

theorem take (h : Linkless tree (here ++ rest)) : Linkless tree here := by
  induction rest using List.reverseRecOn with
  | nil => simpa using h
  | append_singleton rest name ih =>
    have hdropped := h.dropLast
    rw [← List.append_assoc, List.dropLast_concat] at hdropped
    exact ih hdropped

theorem last {name : Text} (h : Linkless tree (here ++ [name])) :
    name ≠ upName ∧ name ≠ hereName ∧
      ∀ target, tree.lookup? (here ++ [name]) ≠ some (.link target) := by
  generalize hnext : here ++ [name] = next at h
  cases h with
  | root => simp at hnext
  | entered _ hup hhere hother =>
    obtain ⟨rfl, heq⟩ := List.append_inj' hnext rfl
    cases heq
    exact ⟨hup, hhere, hother⟩

/-- Links that are replaced one by one end where there are none. -/
theorem of_realFrom {pending : List Location} (hdots : hereName ∉ names) (h : Linkless tree here)
    (hreal : tree.realFrom pending here names = .ok found) : Linkless tree found := by
  fun_induction FileTree.realFrom tree pending here names generalizing found with
  | case1 =>
    cases hreal
    exact h
  | case2 pending here rest ih => exact ih (List.not_mem_of_not_mem_cons hdots) h.dropLast hreal
  | case3 | case5 => cases hreal
  | case4 pending here name rest hup target hlink hpending mid hmid ihtarget ih =>
    refine ih (List.not_mem_of_not_mem_cons hdots) (ihtarget (hereName_not_mem_ofText target) ?_ hmid)
      hreal
    rw [targetBase]
    split
    · exact .root
    · exact h
  | case6 pending here name rest hup hother ih =>
    obtain ⟨hhere, hdots⟩ := List.ne_and_not_mem_of_not_mem_cons hdots
    exact ih hdots (h.entered hup hhere.symm hother) hreal

/-- Where there are no links, names lead to the location that they write. -/
theorem follow (h : Linkless tree (here ++ names))
    (hfollow : tree.follow links here names = .ok found) : found = here ++ names := by
  induction names generalizing here with
  | nil =>
    rw [FileTree.follow] at hfollow
    cases hfollow
    exact (List.append_nil _).symm
  | cons name rest ih =>
    rw [List.append_cons] at h
    obtain ⟨hup, hhere, hother⟩ := h.take.last
    rw [FileTree.follow, if_neg hup, if_neg hhere] at hfollow
    split at hfollow
    · cases hfollow
    · dsimp only at hfollow
      split at hfollow
      · cases hfollow
      · split at hfollow
        · rename_i hlast
          cases hfollow
          rw [List.isEmpty_iff.1 hlast]
        · cases hfollow
      · rw [ih h hfollow, List.append_assoc, List.singleton_append]
      · rename_i target hlink
        exact absurd hlink (hother target)

theorem replaceFile {bytes : Bytes} (hne : location ≠ []) (h : Linkless tree location)
    (hreplace : tree.replaceFile location bytes = .ok tree') : SameLinks tree tree' := by
  cases h with
  | root => exact absurd rfl hne
  | @entered here name h hup hhere hother =>
    rw [FileTree.replaceFile, List.dropLast_concat, List.getLast?_concat, Option.getD_some] at hreplace
    dsimp only at hreplace
    split at hreplace
    · cases hreplace
    · rename_i parent hparent
      have hsame : parent = here := by
        rw [directoryAt, find, Path.ofLocation] at hparent
        split at hparent <;> rename_i hfollow
        · split at hfollow <;> rename_i hfollowed
          · split at hfollow
            · cases hfollow
              cases hparent
              exact @Linkless.follow _ [] _ _ _ h hfollowed
            · cases hfollow
          · cases hfollow
        · cases hparent
        · cases hparent
      subst hsame
      split at hreplace
      · cases hreplace
      · split at hreplace
        · cases hreplace
        · cases hreplace
          exact .insert hne hother (by simp)

end Linkless

/-- The links of a path are replaced without going in a circle, and it is not the root. -/
def Straight (tree : FileTree) (path : Path) : Prop :=
  hereName ∉ path.names ∧ ∃ location, location ≠ [] ∧ tree.realFrom [] [] path.names = .ok location

theorem SameLinks.straight (h : SameLinks tree tree') (hpath : tree.Straight path) :
    tree'.Straight path := by
  obtain ⟨hdots, location, hne, hreal⟩ := hpath
  exact ⟨hdots, location, hne, (h.realFrom _ _ _).trans hreal⟩

end FileTree

namespace Disk

open FileTree

variable {disk disk' : Disk} {path : Path}

/-- Writing through a path whose links go in no circle changes no link. -/
theorem sameLinks_write (hpath : disk.tree.Straight path) (text : Text) :
    SameLinks disk.tree (disk.write path text).2.tree := by
  obtain ⟨hdots, location, hne, hreal⟩ := hpath
  rw [write, realPath]
  split
  · exact .refl _
  · rename_i place hplace
    have hlocation : place = location := by
      split at hplace
      · cases hplace
      · rw [real, hreal] at hplace
        exact (Except.ok.inj hplace).symm
    subst hlocation
    dsimp only
    split
    · exact .refl _
    · split
      · exact .refl _
      · rename_i hreplace
        exact (Linkless.of_realFrom hdots .root hreal).replaceFile hne hreplace

theorem sameLinks_makeDirectories (disk : Disk) (path : Path) :
    SameLinks disk.tree (disk.makeDirectories path).2.tree := by
  rw [makeDirectories]
  split
  · exact .refl _
  · split
    · exact .refl _
    · rename_i hmade
      exact .makeDirectories hmade

/-- Saving the tasks changes no link, if the path of their file goes in no circle. -/
theorem SavedFrom.sameLinks {file : Option Path}
    (hfile : ∀ path, file = some path → disk.tree.Straight path) (h : SavedFrom file disk disk') :
    SameLinks disk.tree disk'.tree := by
  induction h with
  | start => exact .refl _
  | directories _ _ ih => exact ih.trans (sameLinks_makeDirectories _ _)
  | write hpath _ text ih => exact ih.trans (sameLinks_write (ih.straight (hfile _ hpath)) text)

end Disk

end TodoTracker
