import TodoTracker.Files.Access

/-!
# Rewriting a file

A file that is there is rewritten where its path leads: following links as the system does and
replacing them one by one end at the same place. Nothing else changes. Every path leads where it
did, and only what is found at that place is another.
-/

set_option autoImplicit false

namespace TodoTracker.FileTree

variable {tree tree' : FileTree} {here location found : Location} {name : Text}
  {names rest : List Text} {links n : Nat} {path : Path}

theorem ne_nil_of_file {bytes : Bytes} (h : tree.lookup? location = some (.file bytes)) :
    location ≠ [] := by
  rintro rfl
  cases h

theorem lookup?_insert (tree : FileTree) (h : location ≠ []) (entry : Entry) (other : Location) :
    (tree.insert location entry).lookup? other =
      if other = location then some entry else tree.lookup? other := by
  rw [lookup?, lookup?]
  by_cases hroot : other = []
  · have hne : other ≠ location := fun heq => h (heq ▸ hroot)
    rw [if_pos hroot, if_neg hne, if_pos hroot]
  · rw [if_neg hroot, if_neg hroot, insert, List.find?_append]
    by_cases hother : other = location
    · subst hother
      have hnone : (tree.erase other).entries.find? (·.1 == other) = none := by
        rw [List.find?_eq_none]
        intro entry hentry
        simpa using (List.mem_filter.1 hentry).2
      simp [hnone]
    · have hkept : (tree.erase location).entries.find? (·.1 == other) =
          tree.entries.find? (·.1 == other) := by
        rw [erase, List.find?_filter]
        congr 1
        funext entry
        by_cases heq : entry.1 = other
        · simp [heq, hother]
        · simp [heq]
      rw [hkept, if_neg hother]
      simp [Ne.symm hother]

/-! ### Where paths lead -/

/-- Two entries that are the same, the bytes of files apart. -/
inductive Alike : Option Entry → Option Entry → Prop
  | absent : Alike none none
  | file (bytes bytes' : Bytes) : Alike (some (.file bytes)) (some (.file bytes'))
  | link (target : Text) : Alike (some (.link target)) (some (.link target))
  | directory : Alike (some .directory) (some .directory)

theorem Alike.refl (entry : Option Entry) : Alike entry entry := by
  rcases entry with _ | bytes | target | _
  · exact .absent
  · exact .file bytes bytes
  · exact .link target
  · exact .directory

/-- Two trees that are the same, the bytes of files apart. -/
def SameShape (tree tree' : FileTree) : Prop :=
  ∀ location, Alike (tree.lookup? location) (tree'.lookup? location)

theorem SameShape.lookup?_eq (h : SameShape tree tree')
    (hother : ∀ bytes, tree.lookup? location ≠ some (.file bytes)) :
    tree'.lookup? location = tree.lookup? location := by
  have halike := h location
  generalize tree.lookup? location = entry at halike hother ⊢
  generalize tree'.lookup? location = entry' at halike ⊢
  cases halike with
  | file bytes => exact absurd rfl (hother bytes)
  | _ => rfl

theorem SameShape.exists_file (h : SameShape tree tree') {bytes : Bytes}
    (hfile : tree.lookup? location = some (.file bytes)) :
    ∃ bytes', tree'.lookup? location = some (.file bytes') := by
  have halike := h location
  rw [hfile] at halike
  generalize tree'.lookup? location = entry' at halike ⊢
  cases halike with
  | file _ bytes' => exact ⟨bytes', rfl⟩

theorem follow_name (hup : name ≠ upName) (hhere : name ≠ hereName)
    (hshort : ¬nameLimit < (Utf8.encode name).length) :
    tree.follow links here (name :: rest) = match tree.lookup? (here ++ [name]) with
      | none => .error .notFound
      | some (.file _) => if rest.isEmpty then .ok (here ++ [name]) else .error .notDirectory
      | some .directory => tree.follow links (here ++ [name]) rest
      | some (.link target) =>
        match links with
        | 0 => .error .linkLoop
        | links + 1 =>
          tree.follow links (targetBase here target) (targetNames target ++ rest) := by
  exact (follow.eq_2 ..).trans ((if_neg hup).trans ((if_neg hhere).trans (if_neg hshort)))

theorem SameShape.follow (h : SameShape tree tree') (links : Nat) (here : Location)
    (names : List Text) : tree'.follow links here names = tree.follow links here names := by
  fun_induction FileTree.follow tree links here names with
  | case1 => rw [FileTree.follow]
  | case2 links here rest ih => rw [FileTree.follow, if_pos rfl, ih]
  | case3 links here rest hup ih => rw [FileTree.follow, if_neg hup, if_pos rfl, ih]
  | case4 links here name rest hup hhere hlong =>
    rw [FileTree.follow, if_neg hup, if_neg hhere, if_pos hlong]
  | case5 links here name rest hup hhere hshort next hnone =>
    rw [follow_name hup hhere hshort, h.lookup?_eq (by simp [hnone, next]), hnone]
  | case6 links here name rest hup hhere hshort next bytes hfile hlast =>
    obtain ⟨bytes', hfile'⟩ := h.exists_file hfile
    rw [follow_name hup hhere hshort, hfile']
    exact if_pos hlast
  | case7 links here name rest hup hhere hshort next bytes hfile hlast =>
    obtain ⟨bytes', hfile'⟩ := h.exists_file hfile
    rw [follow_name hup hhere hshort, hfile']
    exact if_neg hlast
  | case8 links here name rest hup hhere hshort next hdirectory ih =>
    rw [follow_name hup hhere hshort, h.lookup?_eq (by simp [hdirectory, next]), hdirectory]
    exact ih
  | case9 here name rest hup hhere hshort next target hlink =>
    rw [follow_name hup hhere hshort, h.lookup?_eq (by simp [hlink, next]), hlink]
  | case10 here name rest hup hhere hshort next target hlink links ih =>
    rw [follow_name hup hhere hshort, h.lookup?_eq (by simp [hlink, next]), hlink]
    exact ih

theorem realFrom_link {pending : List Location} {target : Text} (hup : name ≠ upName)
    (hlink : tree.lookup? (here ++ [name]) = some (.link target)) :
    tree.realFrom pending here (name :: rest) =
      if pending.contains (here ++ [name]) then .error (here ++ [name] ++ rest)
      else match tree.realFrom ((here ++ [name]) :: pending) (targetBase here target)
          (Path.ofText target).names with
        | .ok found => tree.realFrom pending found rest
        | .error stuck => .error (stuck ++ rest) := by
  rw [realFrom, if_neg hup]
  split
  · rename_i heq
    rw [hlink] at heq
    cases heq
    rfl
  · rename_i hother
    exact absurd hlink (hother target)

theorem realFrom_name {pending : List Location} (hup : name ≠ upName)
    (hother : ∀ target, tree.lookup? (here ++ [name]) ≠ some (.link target)) :
    tree.realFrom pending here (name :: rest) = tree.realFrom pending (here ++ [name]) rest := by
  rw [realFrom, if_neg hup]
  split
  · rename_i target heq
    exact absurd heq (hother target)
  · rfl

/-- Two trees that have the same links. -/
def SameLinks (tree tree' : FileTree) : Prop :=
  ∀ location target,
    tree'.lookup? location = some (.link target) ↔ tree.lookup? location = some (.link target)

theorem SameShape.sameLinks (h : SameShape tree tree') : SameLinks tree tree' := by
  intro location target
  have halike := h location
  generalize tree.lookup? location = entry at halike ⊢
  generalize tree'.lookup? location = entry' at halike ⊢
  cases halike <;> simp

theorem SameLinks.realFrom (h : SameLinks tree tree') (pending : List Location) (here : Location)
    (names : List Text) : tree'.realFrom pending here names = tree.realFrom pending here names := by
  fun_induction FileTree.realFrom tree pending here names with
  | case1 => rw [FileTree.realFrom]
  | case2 pending here rest ih => rw [FileTree.realFrom, if_pos rfl, ih]
  | case3 pending here name rest hup target hlink hpending =>
    rw [realFrom_link hup ((h _ _).2 hlink), if_pos hpending]
  | case4 pending here name rest hup target hlink hpending found hfound ihtarget ih =>
    rw [realFrom_link hup ((h _ _).2 hlink), if_neg hpending, ihtarget, hfound]
    exact ih
  | case5 pending here name rest hup target hlink hpending stuck hstuck ih =>
    rw [realFrom_link hup ((h _ _).2 hlink), if_neg hpending, ih, hstuck]
  | case6 pending here name rest hup hother ih =>
    rw [realFrom_name hup fun target hlink => hother target ((h _ _).1 hlink), ih]

theorem SameLinks.real (h : SameLinks tree tree') (path : Path) :
    tree'.real path = tree.real path := by
  rw [FileTree.real, FileTree.real, h.realFrom]

/-- A path of a tree of the same shape leads to what is at the same place there. -/
theorem SameShape.find (h : SameShape tree tree') (path : Path) :
    tree'.find path = (tree.find path).map fun found =>
      (found.1, (tree'.lookup? found.1).getD found.2) := by
  rw [FileTree.find, FileTree.find, h.follow]
  cases tree.follow linkLimit [] path.names with
  | error flaw => rfl
  | ok location =>
    dsimp only
    have halike := h location
    generalize hentry : tree.lookup? location = entry at halike ⊢
    generalize hentry' : tree'.lookup? location = entry' at halike ⊢
    cases halike with
    | absent => rfl
    | _ => simp [Except.map, hentry']

theorem SameShape.resolve (h : SameShape tree tree') (path : Path) :
    tree'.resolve path = tree.resolve path := by
  rw [FileTree.resolve, FileTree.resolve, realPath, realPath, h.sameLinks.real]
  split
  · rfl
  · dsimp only [bind, Except.bind]
    rw [h.find]
    cases tree.find (.ofLocation (tree.real path)) <;> rfl

/-! ### Links are replaced as they are followed -/

/-- Names that lead from one place to another in some number of steps. -/
inductive Leads (tree : FileTree) : Nat → Location → List Text → Location → Prop
  | done (here : Location) : Leads tree 0 here [] here
  | up {n : Nat} {here found : Location} {rest : List Text}
      (h : Leads tree n here.dropLast rest found) : Leads tree (n + 1) here (upName :: rest) found
  | stay {n : Nat} {here found : Location} {rest : List Text} (h : Leads tree n here rest found) :
      Leads tree (n + 1) here (hereName :: rest) found
  | name {n : Nat} {here found : Location} {name : Text} {rest : List Text} (hup : name ≠ upName)
      (hhere : name ≠ hereName)
      (hother : ∀ target, tree.lookup? (here ++ [name]) ≠ some (.link target))
      (h : Leads tree n (here ++ [name]) rest found) : Leads tree (n + 1) here (name :: rest) found
  | link {m n : Nat} {here mid found : Location} {name target : Text} {rest : List Text}
      (hup : name ≠ upName) (hhere : name ≠ hereName)
      (hlink : tree.lookup? (here ++ [name]) = some (.link target))
      (htarget : Leads tree m (targetBase here target) (targetNames target) mid)
      (h : Leads tree n mid rest found) : Leads tree (m + n + 1) here (name :: rest) found

/-- There is one way to follow names. -/
theorem Leads.unique {m : Nat} {found' : Location} (h : Leads tree m here names found)
    (h' : Leads tree n here names found') : m = n ∧ found = found' := by
  induction h generalizing n found' with
  | done here =>
    cases h'
    exact ⟨rfl, rfl⟩
  | up _ ih =>
    cases h' with
    | up h' =>
      obtain ⟨rfl, rfl⟩ := ih h'
      exact ⟨rfl, rfl⟩
    | name hup | link hup => contradiction
  | stay _ ih =>
    cases h' with
    | stay h' =>
      obtain ⟨rfl, rfl⟩ := ih h'
      exact ⟨rfl, rfl⟩
    | name _ hhere | link _ hhere => contradiction
  | name hup hhere hother _ ih =>
    cases h' with
    | name _ _ _ h' =>
      obtain ⟨rfl, rfl⟩ := ih h'
      exact ⟨rfl, rfl⟩
    | link _ _ hlink => exact absurd hlink (hother _)
    | up | stay => contradiction
  | link hup hhere hlink _ _ ihtarget ih =>
    cases h' with
    | link _ _ hlink' htarget' h' =>
      rw [hlink] at hlink'
      cases hlink'
      obtain ⟨rfl, rfl⟩ := ihtarget htarget'
      obtain ⟨rfl, rfl⟩ := ih h'
      exact ⟨rfl, rfl⟩
    | name _ _ hother => exact absurd hlink (hother _)
    | up | stay => contradiction

/-- Names are followed one part after the other. -/
theorem Leads.split {before after : List Text} (h : Leads tree n here (before ++ after) found) :
    ∃ i j mid, Leads tree i here before mid ∧ Leads tree j mid after found ∧ i ≤ n := by
  induction before generalizing n here with
  | nil => exact ⟨0, n, here, .done here, h, Nat.zero_le n⟩
  | cons name before ih =>
    cases h with
    | up h =>
      obtain ⟨i, j, mid, hbefore, hafter, hle⟩ := ih h
      exact ⟨i + 1, j, mid, .up hbefore, hafter, Nat.succ_le_succ hle⟩
    | stay h =>
      obtain ⟨i, j, mid, hbefore, hafter, hle⟩ := ih h
      exact ⟨i + 1, j, mid, .stay hbefore, hafter, Nat.succ_le_succ hle⟩
    | name hup hhere hother h =>
      obtain ⟨i, j, mid, hbefore, hafter, hle⟩ := ih h
      exact ⟨i + 1, j, mid, .name hup hhere hother hbefore, hafter, Nat.succ_le_succ hle⟩
    | @link m _ _ _ _ _ _ _ hup hhere hlink htarget h =>
      obtain ⟨i, j, mid, hbefore, hafter, hle⟩ := ih h
      exact ⟨m + i + 1, j, mid, .link hup hhere hlink htarget hbefore, hafter, by omega⟩

theorem Leads.append {m : Nat} {mid : Location} {before after : List Text}
    (h : Leads tree m here before mid) (h' : Leads tree n mid after found) :
    ∃ k, Leads tree k here (before ++ after) found := by
  induction h with
  | done => exact ⟨n, h'⟩
  | up _ ih =>
    obtain ⟨k, hk⟩ := ih h'
    exact ⟨k + 1, .up hk⟩
  | stay _ ih =>
    obtain ⟨k, hk⟩ := ih h'
    exact ⟨k + 1, .stay hk⟩
  | name hup hhere hother _ ih =>
    obtain ⟨k, hk⟩ := ih h'
    exact ⟨k + 1, .name hup hhere hother hk⟩
  | link hup hhere hlink htarget _ _ ih =>
    obtain ⟨k, hk⟩ := ih h'
    exact ⟨_, .link hup hhere hlink htarget hk⟩

/-- What the system follows can be followed in some number of steps. -/
theorem exists_leads (h : tree.follow links here names = .ok found) :
    ∃ n, Leads tree n here names found := by
  fun_induction FileTree.follow tree links here names with
  | case1 links here =>
    cases h
    exact ⟨0, .done _⟩
  | case2 links here rest ih =>
    obtain ⟨n, hleads⟩ := ih h
    exact ⟨n + 1, .up hleads⟩
  | case3 links here rest hup ih =>
    obtain ⟨n, hleads⟩ := ih h
    exact ⟨n + 1, .stay hleads⟩
  | case4 | case5 | case7 | case9 => cases h
  | case6 links here name rest hup hhere hshort next bytes hfile hlast =>
    obtain rfl := Except.ok.inj h
    rw [List.isEmpty_iff.1 hlast]
    exact ⟨1, .name hup hhere (by simp [hfile, next]) (.done _)⟩
  | case8 links here name rest hup hhere hshort next hdirectory ih =>
    obtain ⟨n, hleads⟩ := ih h
    exact ⟨n + 1, .name hup hhere (by simp [hdirectory, next]) hleads⟩
  | case10 here name rest hup hhere hshort next target hlink links ih =>
    obtain ⟨n, hleads⟩ := ih h
    obtain ⟨i, j, mid, htarget, hrest, -⟩ := hleads.split
    exact ⟨i + j + 1, .link hup hhere hlink htarget hrest⟩

theorem hereName_not_mem_ofText (target : Text) : hereName ∉ (Path.ofText target).names := by
  intro hmem
  rw [Path.ofText] at hmem
  have hkept := (List.mem_filter.1 hmem).2
  simp [hereName] at hkept

theorem targetNames_filter (target : Text) :
    (targetNames target).filter (· ≠ hereName) = (Path.ofText target).names := by
  have hnames : ∀ name ∈ (Path.ofText target).names, name ≠ hereName := by
    rintro name hname rfl
    exact hereName_not_mem_ofText target hname
  rw [targetNames, List.filter_append, List.filter_eq_self.2 (by simpa using hnames)]
  split <;> simp

/-- Where names lead, a link is not met again while its own target is followed. So replacing links
ends at the same place, whichever links that take more steps are pending. -/
theorem Leads.realFrom {pending : List Location} (h : Leads tree n here names found)
    (hpending : ∀ location ∈ pending, ∀ target m mid,
      tree.lookup? location = some (.link target) →
      Leads tree m (targetBase location.dropLast target) (targetNames target) mid → n ≤ m) :
    tree.realFrom pending here (names.filter (· ≠ hereName)) = .ok found := by
  induction h generalizing pending with
  | done here => rw [List.filter_nil, FileTree.realFrom]
  | up _ ih =>
    rw [List.filter_cons_of_pos (by decide), FileTree.realFrom, if_pos rfl]
    exact ih fun location hlocation target m mid hlink htarget =>
      Nat.le_of_succ_le (hpending location hlocation target m mid hlink htarget)
  | stay _ ih =>
    rw [List.filter_cons_of_neg (by simp)]
    exact ih fun location hlocation target m mid hlink htarget =>
      Nat.le_of_succ_le (hpending location hlocation target m mid hlink htarget)
  | name hup hhere hother _ ih =>
    rw [List.filter_cons_of_pos (by simpa using hhere), realFrom_name hup hother]
    exact ih fun location hlocation target m mid hlink htarget =>
      Nat.le_of_succ_le (hpending location hlocation target m mid hlink htarget)
  | @link m n here mid found name target rest hup hhere hlink htarget _ ihtarget ih =>
    have hnew : here ++ [name] ∉ pending := by
      intro hmem
      have hle := hpending _ hmem target m mid hlink (by rwa [List.dropLast_concat])
      omega
    rw [List.filter_cons_of_pos (by simpa using hhere), realFrom_link hup hlink,
      if_neg (by simpa using hnew), ← targetNames_filter, ihtarget]
    · exact ih fun location hlocation target k mid hlink htarget => by
        have hle := hpending location hlocation target k mid hlink htarget
        omega
    · intro location hlocation target' k mid' hlink' htarget'
      rcases List.mem_cons.1 hlocation with rfl | hlocation
      · rw [hlink] at hlink'
        cases hlink'
        rw [List.dropLast_concat] at htarget'
        exact Nat.le_of_eq (htarget.unique htarget').1
      · have hle := hpending location hlocation target' k mid' hlink' htarget'
        omega

theorem find_eq_ok_iff {entry : Entry} : tree.find path = .ok (location, entry) ↔
    tree.follow linkLimit [] path.names = .ok location ∧ tree.lookup? location = some entry := by
  rw [find]
  constructor
  · intro h
    split at h
    · rename_i found hfollow
      split at h
      · rename_i entry' hentry
        cases h
        exact ⟨hfollow, hentry⟩
      · cases h
    · cases h
  · rintro ⟨hfollow, hentry⟩
    rw [hfollow]
    dsimp only
    rw [hentry]

/-- Replacing links along names without single dots ends where the names lead. -/
theorem Leads.realFrom_of_dots (hdots : hereName ∉ names) (h : Leads tree n here names found) :
    tree.realFrom [] here names = .ok found := by
  have hnames : names.filter (· ≠ hereName) = names := by
    rw [List.filter_eq_self]
    intro name hname
    exact decide_eq_true fun heq => hdots (heq ▸ hname)
  have hreal : tree.realFrom [] here (names.filter (· ≠ hereName)) = .ok found :=
    h.realFrom (by simp)
  rwa [hnames] at hreal

/-- Replacing the links of a path without single dots ends where the system finds something. -/
theorem realFrom_of_find {entry : Entry} (hdots : hereName ∉ path.names)
    (h : tree.find path = .ok (location, entry)) :
    tree.realFrom [] [] path.names = .ok location := by
  obtain ⟨n, hleads⟩ := exists_leads (find_eq_ok_iff.1 h).1
  exact hleads.realFrom_of_dots hdots

theorem real_of_find {entry : Entry} (hdots : hereName ∉ path.names)
    (h : tree.find path = .ok (location, entry)) : tree.real path = location := by
  rw [real, realFrom_of_find hdots h]

/-! ### Writing a file that is there -/

theorem lookup?_of_find {entry : Entry} (h : tree.find path = .ok (location, entry)) :
    tree.lookup? location = some entry :=
  (find_eq_ok_iff.1 h).2

/-- A location all of whose names are those of directories. -/
inductive Grounded (tree : FileTree) : Location → Prop
  | root : Grounded tree []
  | entered {here : Location} {name : Text} (h : Grounded tree here) (hup : name ≠ upName)
      (hhere : name ≠ hereName) (hshort : ¬nameLimit < (Utf8.encode name).length)
      (hdirectory : tree.lookup? (here ++ [name]) = some .directory) :
      Grounded tree (here ++ [name])

namespace Grounded

theorem dropLast (h : Grounded tree here) : Grounded tree here.dropLast := by
  cases h with
  | root => exact .root
  | entered h =>
    rw [List.dropLast_concat]
    exact h

theorem lookup? (h : Grounded tree here) : tree.lookup? here = some .directory := by
  cases h with
  | root => rfl
  | entered _ _ _ _ hdirectory => exact hdirectory

theorem follow (h : Grounded tree here) (links : Nat) (rest : List Text) :
    tree.follow links [] (here ++ rest) = tree.follow links here rest := by
  induction h generalizing rest with
  | root => rfl
  | entered _ hup hhere hshort hdirectory ih =>
    rw [List.append_assoc, ih, List.singleton_append, follow_name hup hhere hshort, hdirectory]

theorem directoryAt (h : Grounded tree here) : tree.directoryAt (.ofLocation here) = .ok here := by
  have hfollow := h.follow linkLimit []
  rw [List.append_nil, FileTree.follow] at hfollow
  have hfind : tree.find (.ofLocation here) = .ok (here, .directory) := by
    simp only [find, Path.ofLocation, hfollow, h.lookup?]
  rw [FileTree.directoryAt, hfind]

theorem targetBase (h : Grounded tree here) (target : Text) :
    Grounded tree (FileTree.targetBase here target) := by
  rw [FileTree.targetBase]
  split
  · exact .root
  · exact h

/-- Following names from a directory leads to a directory, or to a file in one. -/
theorem of_follow (h : Grounded tree here) (hfollow : tree.follow links here names = .ok found) :
    Grounded tree found ∨ ∃ place name bytes, found = place ++ [name] ∧ Grounded tree place ∧
      tree.lookup? found = some (.file bytes) := by
  fun_induction FileTree.follow tree links here names with
  | case1 =>
    cases hfollow
    exact .inl h
  | case2 links here rest ih => exact ih h.dropLast hfollow
  | case3 links here rest hup ih => exact ih h hfollow
  | case4 | case5 | case7 | case9 => cases hfollow
  | case6 links here name rest hup hhere hshort next bytes hfile =>
    obtain rfl := Except.ok.inj hfollow
    exact .inr ⟨here, name, bytes, rfl, h, hfile⟩
  | case8 links here name rest hup hhere hshort next hdirectory ih =>
    exact ih (h.entered hup hhere hshort hdirectory) hfollow
  | case10 here name rest hup hhere hshort next target hlink links ih =>
    exact ih (h.targetBase target) hfollow

end Grounded

theorem grounded_of_find (h : tree.find path = .ok (location, .directory)) :
    Grounded tree location := by
  obtain ⟨hfollow, hentry⟩ := find_eq_ok_iff.1 h
  rcases Grounded.of_follow .root hfollow with hgrounded | ⟨place, name, bytes, -, -, hfile⟩
  · exact hgrounded
  · rw [hentry] at hfile
    cases hfile

/-- Replacing the file that a path leads to puts the new bytes at its place. -/
theorem replaceFile_of_find {bytes bytes' : Bytes}
    (hfind : tree.find path = .ok (location, .file bytes))
    (h : tree.replaceFile location bytes' = .ok tree') :
    tree' = tree.insert location (.file bytes') := by
  have hfile := lookup?_of_find hfind
  obtain ⟨place, name, rfl, hplace⟩ : ∃ place name, location = place ++ [name] ∧
      Grounded tree place := by
    rcases Grounded.of_follow .root (find_eq_ok_iff.1 hfind).1 with hdirectory | hplace
    · rw [hdirectory.lookup?] at hfile
      cases hfile
    · obtain ⟨place, name, -, rfl, hplace, -⟩ := hplace
      exact ⟨place, name, rfl, hplace⟩
  rw [replaceFile, List.dropLast_concat, List.getLast?_concat, hplace.directoryAt,
    Option.getD_some] at h
  dsimp only at h
  rw [hfile] at h
  split at h
  · cases h
  · exact (Except.ok.inj h).symm

theorem sameShape_insert {bytes : Bytes} (h : tree.lookup? location = some (.file bytes))
    (bytes' : Bytes) : SameShape tree (tree.insert location (.file bytes')) := by
  intro other
  rw [lookup?_insert tree (ne_nil_of_file h)]
  by_cases hother : other = location
  · rw [if_pos hother, hother, h]
    exact .file bytes bytes'
  · rw [if_neg hother]
    exact .refl _

/-- With other bytes in a file, a path leads to the same place, and to the new bytes there. -/
theorem find_insert {bytes : Bytes} (h : tree.lookup? location = some (.file bytes))
    (bytes' : Bytes) (path : Path) :
    (tree.insert location (.file bytes')).find path = (tree.find path).map fun found =>
      (found.1, if found.1 = location then .file bytes' else found.2) := by
  rw [(sameShape_insert h bytes').find]
  cases hfind : tree.find path with
  | error flaw => rfl
  | ok found =>
    have hentry : tree.lookup? found.1 = some found.2 := lookup?_of_find hfind
    simp only [Except.map, lookup?_insert tree (ne_nil_of_file h), hentry]
    split <;> rfl

/-! ### Reading a file -/

/-- A path whose text can be read leads to a file. -/
theorem find_of_readText {text : Text} (h : tree.readText path = .ok text) :
    ∃ location bytes, tree.find path = .ok (location, .file bytes) := by
  rw [readText] at h
  cases hbytes : tree.readBytes path with
  | error e =>
    rw [hbytes] at h
    cases h
  | ok bytes =>
    rw [readBytes] at hbytes
    split at hbytes
    · cases hbytes
    · split at hbytes
      · rename_i location found hfind
        exact ⟨location, found, hfind⟩
      · cases hbytes
      · cases hbytes

theorem hasNull_of_readText {text : Text} (h : tree.readText path = .ok text) :
    path.hasNull = false := by
  cases hnull : path.hasNull with
  | false => rfl
  | true =>
    rw [readText, readBytes, if_pos hnull] at h
    cases h

end TodoTracker.FileTree

namespace TodoTracker.Disk

/-- Writing a file that is there changes its bytes. -/
theorem tree_write {disk disk' : Disk} {path : Path} {location : Location} {bytes : Bytes}
    {text : Text} (hdots : FileTree.hereName ∉ path.names)
    (hfind : disk.tree.find path = .ok (location, .file bytes))
    (h : disk.write path text = (.ok (), disk')) :
    disk'.tree = disk.tree.insert location (.file (Utf8.encode text)) := by
  rw [write] at h
  split at h
  · cases h
  · rename_i real hreal
    have hlocation : real = location := by
      rw [FileTree.realPath] at hreal
      split at hreal
      · cases hreal
      · exact (Except.ok.inj hreal).symm.trans (FileTree.real_of_find hdots hfind)
    subst hlocation
    dsimp only at h
    split at h
    · cases h
    · split at h
      · cases h
      · rename_i tree hreplace
        cases h
        exact FileTree.replaceFile_of_find hfind hreplace

end TodoTracker.Disk
