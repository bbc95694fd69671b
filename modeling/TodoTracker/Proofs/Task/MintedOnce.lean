import TodoTracker.Proofs.Files.Landing
import TodoTracker.Proofs.Task.Reopened
import TodoTracker.Proofs.Task.Unsaved

/-!
# Keys are minted once

A key that was answered has a number that is saved as taken, so no later key has it, whatever is
recorded or deleted, which saves fail, and however often the file is opened again. This rests on the
path of the store: what is written there must be found there. Behind a link to what is missing it is
not, and the same key is minted again.
-/

set_option autoImplicit false

namespace TodoTracker

open Work

namespace Document

theorem SameFields.put (doc : Document) (key : Text) (task : Json) :
    SameFields doc (doc.put key task) :=
  ⟨rfl, rfl⟩

theorem SameFields.erase (doc : Document) (key : Text) : SameFields doc (doc.erase key) :=
  ⟨rfl, rfl⟩

/-- The number of a key can be told from it, whatever the project is. -/
theorem number_eq_of_keyOf_eq {project project' : Text} {m n : Int} (hm : 0 ≤ m) (hn : 0 ≤ n)
    (h : keyOf project m = keyOf project' n) : m = n := by
  have hdigits : ∀ {k : Int}, 0 ≤ k → '-' ∉ Text.ofInt k := by
    intro k hk hmem
    obtain ⟨k, rfl⟩ := Int.eq_ofNat_of_zero_le hk
    exact absurd (Text.asciiDigit_of_mem_ofNat hmem) (by decide)
  have hlast : ∀ {p p' : Text} {k l : Int}, 0 ≤ k → p ++ '-' :: Text.ofInt k =
      p' ++ '-' :: Text.ofInt l → ∀ between, p' = p ++ between → Text.ofInt k = Text.ofInt l := by
    rintro p p' k l hk heq between rfl
    rw [List.append_assoc, List.append_cancel_left_eq] at heq
    cases between with
    | nil => exact (List.cons.inj heq).2
    | cons c between =>
      obtain ⟨-, hrest⟩ := List.cons.inj heq
      exact absurd (hrest ▸ List.mem_append_right _ List.mem_cons_self) (hdigits hk)
  apply Text.ofInt_injective
  rcases List.append_eq_append_iff.1 h with ⟨between, hbetween, -⟩ | ⟨between, hbetween, -⟩
  · exact hlast hm h between hbetween
  · exact (hlast hn h.symm between hbetween).symm

end Document

/-- What is written at the path is found there, and what is found there goes beyond the number. -/
structure FileTree.Keeps (tree : FileTree) (path : Path) (bound : Int) : Prop where
  carries : tree.Carries path
  there : bound ≤ 0 ∨
    path.hasNull = false ∧ ∃ location bytes, tree.find path = .ok (location, .file bytes)
  beyond : ∀ doc, StoredTasks.loadDocument? tree path = .ok (some doc) → doc.Beyond bound

namespace FileTree.Keeps

variable {tree made written : FileTree} {path : Path} {bound bound' : Int} {doc : Document}

theorem mono (h : tree.Keeps path bound) (hle : bound' ≤ bound) : tree.Keeps path bound' :=
  ⟨h.carries, h.there.imp_left (Int.le_trans hle), fun doc hdoc => (h.beyond doc hdoc).mono hle⟩

theorem makeDirectories (h : tree.Keeps path bound)
    (hmade : tree.makeDirectories path.parent = .ok made) : made.Keeps path bound := by
  refine ⟨h.carries.makeDirectories hmade, h.there.imp_right ?_, fun doc hdoc => ?_⟩
  · rintro ⟨hnull, location, bytes, hfind⟩
    exact ⟨hnull, location, bytes, (Grows.makeDirectories hmade).find hfind⟩
  · -- the file in which the document was found was there before
    obtain ⟨⟨location, bytes, hfind⟩, -⟩ := StoredTasks.loadDocument?_eq_some hdoc
    have hold := h.carries.uncovers made hmade location bytes hfind
    exact h.beyond doc ((StoredTasks.loadDocument?_congr (hold.trans hfind.symm)).trans hdoc)

/-- Writing the document at the path keeps its number there. -/
theorem write (h : tree.Keeps path bound) (hmade : tree.makeDirectories path.parent = .ok made)
    (hnull : path.hasNull = false) (htidy : doc.Tidy) (hbeyond : doc.Beyond bound')
    (hwritten : made.replaceFile (made.real path)
      (Utf8.encode (doc.toJson.print ++ ['\n'])) = .ok written) : written.Keeps path bound' := by
  obtain ⟨location, hfind⟩ := h.carries.found made written _ hmade hwritten
  refine ⟨carries_of_file h.carries.dots hfind, .inr ⟨hnull, location, _, hfind⟩,
    fun found hfound => ?_⟩
  obtain ⟨read, hread, hbound⟩ := StoredTasks.loadDocument?_of_saved hnull htidy hbeyond hfind
  rw [hread] at hfound
  cases hfound
  exact hbound

end FileTree.Keeps

namespace Disk

variable {disk made : Disk} {path : Path} {bound bound' : Int} {doc : Document}

theorem keeps_makeDirectories (h : disk.tree.Keeps path bound) :
    (disk.makeDirectories path.parent).2.tree.Keeps path bound := by
  rw [makeDirectories]
  split
  · exact h
  · split
    · exact h
    · rename_i hmade
      exact h.makeDirectories hmade

/-- When the directories are made, a document that is written is kept, and if it cannot be written
the one that was there is. -/
theorem keeps_write {outcome : Except Failure Unit} {left : Disk}
    (h : disk.tree.Keeps path bound) (hmade : disk.makeDirectories path.parent = (.ok (), made))
    (htidy : doc.Tidy) (hbeyond : doc.Beyond bound')
    (hwrite : made.write path (doc.toJson.print ++ ['\n']) = (outcome, left)) :
    (outcome = .ok () → left.tree.Keeps path bound') ∧
      ∀ e, outcome = .error e → left.tree.Keeps path bound := by
  have hleft : made.tree.Keeps path bound := by
    have := keeps_makeDirectories h
    rwa [hmade] at this
  rw [write, FileTree.realPath] at hwrite
  cases hnull : path.hasNull with
  | true =>
    rw [hnull] at hwrite
    cases hwrite
    exact ⟨(fun h => by cases h), fun _ _ => hleft⟩
  | false =>
    rw [hnull, if_neg Bool.false_ne_true] at hwrite
    dsimp only at hwrite
    split at hwrite
    · cases hwrite
      exact ⟨(fun h => by cases h), fun _ _ => hleft⟩
    split at hwrite
    · cases hwrite
      exact ⟨(fun h => by cases h), fun _ _ => hleft⟩
    · rename_i hwritten
      cases hwrite
      rw [makeDirectories] at hmade
      split at hmade
      · cases hmade
      split at hmade
      · cases hmade
      rename_i htree
      cases hmade
      exact ⟨fun _ => h.write htree hnull htidy hbeyond hwritten,
        fun _ h => by cases h⟩

end Disk

/-- The store is kept at the path, no one else writes there, and both the document in memory and the
one on the disk go beyond the number. -/
structure Workspace.Minting (path : Path) (bound : Int) (w : Workspace) : Prop where
  file : w.store.path = some path
  quiet : w.afterCreate = []
  tidy : w.store.document.Tidy
  beyond : w.store.document.Beyond bound
  keeps : w.disk.tree.Keeps path bound

namespace Tasks

variable {path : Path} {bound number : Int} {w w' : Workspace} {key : Text} {fields : Fields Json}

/-- Saving keeps the number, whether it succeeds or not. -/
theorem minting_save (hw : w.Minting path bound) :
    GuardedAt (Workspace.Minting path bound) (fun _ => True) save w := by
  refine .bindGet ?_
  rw [hw.file]
  refine GuardedAt.tryCatch ?_ fun e v (_ : True) hv => ?_
  · refine (GuardedAt.onDisk ⟨hw.file, hw.quiet, hw.tidy, hw.beyond,
      Disk.keeps_makeDirectories hw.keeps⟩ fun _ _ => trivial).bind fun _ v hmake hv => ?_
    obtain ⟨hmade, rfl⟩ := yields_onDisk.1 hmake
    refine guarded_bindDocument (.bindGet ?_)
    refine (GuardedAt.ofExcept hv fun _ _ => trivial).bind fun stamped u hask _ => ?_
    obtain ⟨hstamp, rfl⟩ := yields_ask.1 hask
    have htidy := hw.tidy.stamp hstamp
    have hbeyond := hw.beyond.stamp hstamp
    refine (GuardedAt.modify _ ⟨hv.file, hv.quiet, htidy, hbeyond, hv.keeps⟩).bind
      fun _ t hset ht => ?_
    obtain rfl := yields_modify.1 hset
    refine guarded_bindDocument (.onDisk ⟨ht.file, ht.quiet, htidy, hbeyond, ?_⟩ fun _ _ => trivial)
    obtain ⟨hwritten, hleft⟩ := Disk.keeps_write hw.keeps (Prod.ext hmade rfl) htidy hbeyond rfl
    dsimp only
    rcases houtcome : ((w.disk.makeDirectories path.parent).2.write path
      (stamped.toJson.print ++ ['\n'])).1 with e | _
    · exact hleft e houtcome
    · exact hwritten houtcome
  · split <;> exact .throw hv trivial

/-- What goes beyond a number when it is saved does so on the disk. -/
theorem minting_of_save (hw : w.Minting path bound) (hnumber : w.store.document.Beyond number)
    (h : save.Yields w () w') : w'.Minting path number := by
  rw [save, yields_bind] at h
  obtain ⟨v, w₁, hget, h⟩ := h
  obtain ⟨rfl, rfl⟩ := yields_get.1 hget
  rw [hw.file] at h
  obtain ⟨_, w₂, hmake, h⟩ := yields_bind.1 (yields_asWriteError h)
  obtain ⟨hmade, rfl⟩ := yields_onDisk.1 hmake
  obtain ⟨doc, w₃, hdoc, h⟩ := yields_bind.1 h
  obtain ⟨rfl, rfl⟩ := yields_document.1 hdoc
  obtain ⟨v', w₄, hget', h⟩ := yields_bind.1 h
  obtain ⟨rfl, rfl⟩ := yields_get.1 hget'
  obtain ⟨stamped, w₅, hask, h⟩ := yields_bind.1 h
  obtain ⟨hstamp, rfl⟩ := yields_ask.1 hask
  obtain ⟨_, w₆, hset, h⟩ := yields_bind.1 h
  obtain rfl := yields_setDocument.1 hset
  obtain ⟨doc', w₇, hdoc', h⟩ := yields_bind.1 h
  obtain ⟨rfl, rfl⟩ := yields_document.1 hdoc'
  obtain ⟨hwrite, rfl⟩ := yields_onDisk.1 h
  have htidy := hw.tidy.stamp hstamp
  have hbeyond := hnumber.stamp hstamp
  exact ⟨hw.file, hw.quiet, htidy, hbeyond,
    (Disk.keeps_write hw.keeps (Prod.ext hmade rfl) htidy hbeyond rfl).1 hwrite⟩

theorem minting_enter (call : StoreCall) (hw : w.Minting path bound) :
    GuardedAt (Workspace.Minting path bound) (fun _ => True) (enter call) w := by
  have hcalled : ({ w with calls := w.calls + 1 } : Workspace).Minting path bound :=
    ⟨hw.file, hw.quiet, hw.tidy, hw.beyond, hw.keeps⟩
  exact .of_run (run_enter call w) (by split <;> exact hcalled) fun _ _ => trivial

theorem minting_append (key : Text) (anchor : Anchor) (hw : w.Minting path bound) :
    GuardedAt (Workspace.Minting path bound) (fun _ => True) (append key anchor) w := by
  refine (minting_enter .append hw).andThen fun _ v hv => ?_
  refine guarded_bindDocument (.bindGet ?_)
  refine (GuardedAt.ofExcept hv fun _ _ => trivial).bind fun answer u hanswer hu => ?_
  obtain ⟨hadd, rfl⟩ := yields_ofExcept.1 hanswer
  split
  · exact .pure _ hu
  · have hsame := Document.SameFields.addAnchor hadd
    exact (GuardedAt.modify _ ⟨hu.file, hu.quiet, hsame.tidy hu.tidy, hsame.beyond hu.beyond,
      hu.keeps⟩).andThen fun _ _ ht => minting_save ht

theorem minting_remove (key : Text) (anchor : Anchor) (hw : w.Minting path bound) :
    GuardedAt (Workspace.Minting path bound) (fun _ => True) (remove key anchor) w := by
  refine (minting_enter .remove hw).andThen fun _ v hv => ?_
  refine guarded_bindDocument (.bindGet ?_)
  refine (GuardedAt.ofExcept hv fun _ _ => trivial).bind fun answer u hanswer hu => ?_
  obtain ⟨hremove, rfl⟩ := yields_ask.1 hanswer
  split
  · exact .pure _ hu
  · have hsame := Document.SameFields.removeAnchor hremove
    refine (GuardedAt.modify _ ⟨hu.file, hu.quiet, hsame.tidy hu.tidy, hsame.beyond hu.beyond,
      hu.keeps⟩).andThen fun _ _ ht => ?_
    exact (minting_save ht).andThen fun _ _ hs => .pure _ hs

/-- The tasks of the document do not matter. -/
theorem minting_holding (hw : w.Minting path bound) {doc doc' : Document} (htidy : doc.Tidy)
    (hbeyond : doc.Beyond bound) (hsame : Document.SameFields doc doc') :
    (holding w doc').Minting path bound :=
  ⟨hw.file, hw.quiet, hsame.tidy htidy, hsame.beyond hbeyond, hw.keeps⟩

theorem minting_put (key : Text) (fields : Fields Json) (hw : w.Minting path bound) :
    GuardedAt (Workspace.Minting path bound) (fun _ => True) (put key fields) w := by
  have hrun := run_put key fields w
  split at hrun
  · exact .of_run hrun hw fun _ _ => trivial
  · have hnext : (holding w (w.store.document.put key
        (Document.newTask key w.now fields))).Minting path bound :=
      minting_holding hw hw.tidy hw.beyond (.put _ _ _)
    exact .congr hrun (minting_save hnext).map

theorem minting_delete (key : Text) (hw : w.Minting path bound) :
    GuardedAt (Workspace.Minting path bound) (fun _ => True) (delete key) w := by
  have hnext : (holding w (w.store.document.erase key)).Minting path bound :=
    minting_holding hw hw.tidy hw.beyond (.erase _ _)
  have hrun := run_delete key w
  split at hrun
  · exact .of_run hrun hnext fun _ _ => trivial
  · exact .congr hrun (minting_save hnext).map

/-- A task that is created and taken back again leaves the number beyond where it was. -/
theorem minting_create (fields : Fields Json) (hw : w.Minting path bound) :
    GuardedAt (Workspace.Minting path bound) (fun _ => True) (create fields) w := by
  refine (minting_enter _ hw).andThen fun _ v hv => .bindGet ?_
  obtain ⟨number, minted, hmint, hlt, hbeyond⟩ := hv.beyond.mint v.store.project
  have htidy := hv.tidy.mint hmint
  have hask : ask (.ok (Document.keyOf v.store.project number, minted)) =
      (pure (Document.keyOf v.store.project number, minted) : Work (Text × Document)) := rfl
  rw [hmint, hask, pure_bind]
  dsimp only
  refine (GuardedAt.modify _ (minting_holding hv htidy (hbeyond.mono (Int.le_of_lt hlt))
    (.put _ _ _))).andThen fun _ u hu => ?_
  refine ((minting_save hu).attempt.mono fun _ _ => trivial).andThen fun answer t ht => ?_
  split
  · exact guarded_bindDocument ((GuardedAt.modify _ (minting_holding ht ht.tidy ht.beyond
      (.erase _ _))).andThen fun _ _ hs => .throw hs trivial)
  · refine GuardedAt.andThen (.bindGet ?_) fun _ _ hs => .pure _ hs
    rw [ht.quiet]
    exact .onDisk ⟨ht.file, ht.quiet, ht.tidy, ht.beyond, ht.keeps⟩ fun _ _ => trivial

/-- A key that is answered has a number beyond those before it, which is saved as taken. -/
theorem minting_of_create (hw : w.Minting path bound) (h : (create fields).Yields w key w') :
    ∃ number, bound < number ∧ key = Document.keyOf w.store.project number ∧
      w'.Minting path number := by
  obtain ⟨doc, v, u, hmint, hsave, hinterfere⟩ := steps_of_create h
  obtain ⟨number, minted, hminted, hlt, hbeyond⟩ := hw.beyond.mint w.store.project
  rw [hmint] at hminted
  cases hminted
  have hnext : ∀ task, (changed w (doc.put (Document.keyOf w.store.project number)
      task)).Minting path bound := fun task =>
    ⟨hw.file, hw.quiet, (Document.SameFields.put doc _ task).tidy (hw.tidy.mint hmint),
      (Document.SameFields.put doc _ task).beyond (hbeyond.mono (Int.le_of_lt hlt)), hw.keeps⟩
  have hv : v.Minting path number :=
    minting_of_save (hnext _) ((Document.SameFields.put doc _ _).beyond hbeyond) hsave
  refine ⟨number, hlt, rfl, ?_⟩
  rw [interfere, yields_bind] at hinterfere
  obtain ⟨_, v', hget, hinterfere⟩ := hinterfere
  obtain ⟨rfl, rfl⟩ := yields_get.1 hget
  rw [hv.quiet] at hinterfere
  obtain ⟨-, rfl⟩ := yields_onDisk.1 hinterfere
  exact ⟨hv.file, hv.quiet, hv.tidy, hv.beyond, hv.keeps⟩

/-- Open the file of the store again, for a project. -/
def reopen (project : Text) : Work Unit := do
  let w ← get
  let store ← Work.ofExcept (StoredTasks.load w.disk.tree w.store.path project w.now)
  modify fun w => { w with store }

theorem minting_reopen (project : Text) (hw : w.Minting path bound) :
    GuardedAt (Workspace.Minting path bound) (fun _ => True) (reopen project) w := by
  refine .bindGet ?_
  refine (GuardedAt.ofExcept hw fun _ _ => trivial).bind fun store v hload hv => ?_
  obtain ⟨hload, rfl⟩ := yields_ofExcept.1 hload
  rw [hv.file, StoredTasks.load] at hload
  split at hload
  · cases hload
  · rename_i found hfound
    cases hload
    cases found with
    | some doc =>
      exact .modify _ ⟨rfl, hv.quiet, StoredTasks.tidy_of_loadDocument? hfound,
        hv.keeps.beyond doc hfound, hv.keeps⟩
    | none =>
      -- where a number was saved as taken, there is a file
      have hbound : bound ≤ 0 := by
        refine hv.keeps.there.resolve_right ?_
        rintro ⟨hnull, location, bytes, hfind⟩
        exact StoredTasks.loadDocument?_eq_none hfound hnull hfind
      exact .modify _ ⟨rfl, hv.quiet, Document.tidy_make _ _,
        (Document.beyond_make _ _).mono hbound, hv.keeps⟩

end Tasks

/-- What is done with the store of a file: its tasks are changed, the file is opened again for a
project, or time goes by. -/
inductive StoreUse
  | call (call : Mutation)
  | reopen (project : Text)
  | wait (now : Text)

namespace StoreUse

variable {path : Path} {bound : Int} {w : Workspace} {key now : Text}

/-- The answer is the key that was minted, if one was. -/
def work : StoreUse → Work (Option Text)
  | call (.create fields) => some <$> Tasks.create fields
  | call other => (fun _ => none) <$> other.work
  | reopen project => (fun _ => none) <$> Tasks.reopen project
  | wait now => (fun _ => none) <$> modify fun w => { w with now }

def after (w : Workspace) (use : StoreUse) : Workspace := (use.work.run w).2

/-- The key of the task that was created, if one was. -/
def key? (w : Workspace) (use : StoreUse) : Option Text := (use.work.run w).1.toOption.join

def afterAll (w : Workspace) (uses : List StoreUse) : Workspace := uses.foldl after w

/-- The keys of the tasks that were created, in order. -/
def mintedIn (w : Workspace) : List StoreUse → List Text
  | [] => []
  | use :: uses => (use.key? w).toList ++ mintedIn (use.after w) uses

/-- A key is only minted by creating a task. -/
theorem yields_create_of_key? {use : StoreUse} (h : use.key? w = some key) :
    ∃ fields, (Tasks.create fields).Yields w key (use.after w) := by
  have hyields : use.work.Yields w (some key) (use.after w) := by
    rw [key?] at h
    rw [Yields, after]
    rcases hrun : use.work.run w with ⟨_ | answer, v⟩
    · rw [hrun] at h
      cases h
    · rw [hrun] at h
      exact congrArg (fun answer => (Except.ok answer, v)) h
  cases use with
  | call call =>
    cases call with
    | create fields =>
      obtain ⟨_, hcreate, heq⟩ := yields_map.1 hyields
      cases heq
      exact ⟨fields, hcreate⟩
    | put | delete | append | remove =>
      obtain ⟨_, -, heq⟩ := yields_map.1 hyields
      cases heq
  | reopen | wait =>
    obtain ⟨_, -, heq⟩ := yields_map.1 hyields
    cases heq

theorem minting_work (hw : w.Minting path bound) (use : StoreUse) :
    GuardedAt (Workspace.Minting path bound) (fun _ => True) use.work w := by
  cases use with
  | call call =>
    cases call with
    | create fields => exact (Tasks.minting_create fields hw).map
    | put key fields => exact (Tasks.minting_put key fields hw).map.map
    | delete key => exact (Tasks.minting_delete key hw).map.map
    | append key anchor => exact (Tasks.minting_append key anchor hw).map
    | remove key anchor => exact (Tasks.minting_remove key anchor hw).map.map
  | reopen project => exact (Tasks.minting_reopen project hw).map
  | wait now => exact (GuardedAt.modify _ ⟨hw.file, hw.quiet, hw.tidy, hw.beyond, hw.keeps⟩).map

/-- One use moves the number on to that of the key that it answers, if it answers one. -/
theorem minting_after (hw : w.Minting path bound) (use : StoreUse) :
    ∃ bound', bound ≤ bound' ∧ (use.after w).Minting path bound' ∧ ∀ key, use.key? w = some key →
      ∃ project number, key = Document.keyOf project number ∧ bound < number ∧
        number ≤ bound' := by
  rcases hkey : use.key? w with _ | key
  · exact ⟨bound, Int.le_refl _, (minting_work hw use).1, nofun⟩
  · obtain ⟨fields, hcreate⟩ := yields_create_of_key? hkey
    obtain ⟨number, hlt, rfl, hafter⟩ := Tasks.minting_of_create hw hcreate
    refine ⟨number, Int.le_of_lt hlt, hafter, fun key heq => ?_⟩
    cases heq
    exact ⟨_, number, rfl, hlt, Int.le_refl _⟩

/-- The keys that were minted all have different numbers, beyond those before them. -/
theorem minting_afterAll (hbound : 0 ≤ bound) (hw : w.Minting path bound) (uses : List StoreUse) :
    (∃ bound', (afterAll w uses).Minting path bound') ∧ (mintedIn w uses).Nodup ∧
      ∀ key ∈ mintedIn w uses, ∃ project number, key = Document.keyOf project number ∧
        bound < number := by
  induction uses generalizing w bound with
  | nil => exact ⟨⟨bound, hw⟩, List.nodup_nil, nofun⟩
  | cons use uses ih =>
    obtain ⟨bound', hle, hafter, hminted⟩ := minting_after hw use
    obtain ⟨hlast, hnodup, hlater⟩ := ih (Int.le_trans hbound hle) hafter
    refine ⟨hlast, ?_, fun key hkey => ?_⟩
    · rw [mintedIn, List.nodup_append]
      refine ⟨by cases use.key? w <;> simp, hnodup, fun key hkey other hother heq => ?_⟩
      obtain ⟨project, m, rfl, hm, hmle⟩ := hminted key (Option.mem_toList.1 hkey)
      obtain ⟨project', n, rfl, hn⟩ := hlater other hother
      have : m = n := Document.number_eq_of_keyOf_eq (by omega) (by omega) heq
      omega
    · rcases List.mem_append.1 hkey with hnow | hrest
      · obtain ⟨project, number, heq, hlt, -⟩ := hminted key (Option.mem_toList.1 hnow)
        exact ⟨project, number, heq, hlt⟩
      · obtain ⟨project, number, heq, hlt⟩ := hlater key hrest
        exact ⟨project, number, heq, Int.lt_of_le_of_lt hle hlt⟩

/-- A store that was just opened goes beyond any number that its next key does. -/
theorem minting_of_load
    (hload : StoredTasks.load w.disk.tree (some path) w.store.project now = .ok w.store)
    (hquiet : w.afterCreate = []) (hcarries : w.disk.tree.Carries path)
    (hnumber : w.store.document.Beyond 0) : w.Minting path 0 := by
  rw [StoredTasks.load] at hload
  split at hload
  · cases hload
  · rename_i found hfound
    have hstore := Except.ok.inj hload
    have hdoc : w.store.document = found.getD (.make w.store.project now) := by rw [← hstore]
    refine ⟨by rw [← hstore], hquiet, ?_, hnumber, hcarries, .inl (Int.le_refl _),
      fun doc hread => ?_⟩
    · rw [hdoc]
      cases found with
      | some doc => exact StoredTasks.tidy_of_loadDocument? hfound
      | none => exact Document.tidy_make _ _
    · rw [hfound] at hread
      cases hread
      exact (show w.store.document = doc from hdoc) ▸ hnumber

/-- Of a store that was opened at a path which carries files, with the number for its next key
positive or missing, no key is minted twice, whatever is done with it and whichever saves fail. The
search for a free key ends each time, and the key that it finds has no task. -/
theorem minted_once
    (hload : StoredTasks.load w.disk.tree (some path) w.store.project now = .ok w.store)
    (hquiet : w.afterCreate = []) (hcarries : w.disk.tree.Carries path)
    (hnumber : w.store.document.Beyond 0) (uses : List StoreUse) :
    (mintedIn w uses).Nodup ∧
      (∃ key minted, (afterAll w uses).store.document.mint (afterAll w uses).store.project =
        .ok (key, minted)) ∧
      ∀ use key, key? (afterAll w uses) use = some key →
        key ∉ (afterAll w uses).store.document.tasks.keys := by
  obtain ⟨⟨bound, hlast⟩, hnodup, -⟩ := minting_afterAll (Int.le_refl 0)
    (minting_of_load hload hquiet hcarries hnumber) uses
  refine ⟨hnodup, ?_, fun use key hkey => ?_⟩
  · obtain ⟨number, minted, hmint, -⟩ := hlast.beyond.mint _
    exact ⟨_, minted, hmint⟩
  · obtain ⟨fields, hcreate⟩ := yields_create_of_key? hkey
    exact (Tasks.yields_create hcreate).1

/-- A new store at a path whose directory is not there yet. The second write fails. -/
def newStoreWorkspace : Workspace where
  disk := ⟨.empty, 0, fun n => if n = 1 then some .notFound else none⟩
  store := ⟨some (.ofLocation ["d".toList, "tasks.json".toList]), "PROJ".toList,
    .make "PROJ".toList []⟩
  now := []
  git := none
  sightings := {}
  progress := []
  calls := 0
  refusals _ _ := none
  afterCreate := []

/-- Create a task, fail to create another one, delete the first one, and create one again. -/
def usesPastFailure : List StoreUse :=
  [.call (.create []), .call (.create []), .call (.delete "PROJ-1".toList), .call (.create [])]

set_option maxRecDepth 4000 in
/-- Neither the number of the task that could not be saved nor that of the one that was deleted is
used again. -/
theorem minted_once_past_failure :
    mintedIn newStoreWorkspace usesPastFailure = ["PROJ-1".toList, "PROJ-3".toList] ∧
      (mintedIn newStoreWorkspace usesPastFailure).Nodup ∧
      ∃ key minted, (afterAll newStoreWorkspace usesPastFailure).store.document.mint
        (afterAll newStoreWorkspace usesPastFailure).store.project = .ok (key, minted) := by
  have hload : StoredTasks.load newStoreWorkspace.disk.tree
      (some (.ofLocation ["d".toList, "tasks.json".toList])) newStoreWorkspace.store.project [] =
        .ok newStoreWorkspace.store := by
    cbv
  have hlinks : newStoreWorkspace.disk.tree.Linkfree := FileTree.linkfree_of_entries (by decide)
  have hlinkless : newStoreWorkspace.disk.tree.Linkless ["d".toList, "tasks.json".toList] :=
    .entered (.entered .root (by decide) (by decide) (hlinks _)) (by decide) (by decide) (hlinks _)
  have hcarries : newStoreWorkspace.disk.tree.Carries
      (.ofLocation ["d".toList, "tasks.json".toList]) :=
    FileTree.carries_of_linkless (by decide) (by decide) hlinkless
  obtain ⟨hnodup, hmint, -⟩ := minted_once hload rfl hcarries
    ⟨_, 1, rfl, rfl, by decide⟩ usesPastFailure
  exact ⟨by cbv, hnodup, hmint⟩

/-- A store behind a link to what is missing. What is saved lands in the file `real.json`, since the
two dots take away the name before them, but that name leads nowhere when the link is followed. -/
def linkedStoreWorkspace : Workspace where
  disk := .ofTree ⟨[(["tasks.json".toList], .link "missing/../real.json".toList)], by decide⟩
  store := ⟨some (.ofLocation ["tasks.json".toList]), "PROJ".toList, .make "PROJ".toList []⟩
  now := []
  git := none
  sightings := {}
  progress := []
  calls := 0
  refusals _ _ := none
  afterCreate := []

set_option maxRecDepth 4000 in
/-- There the same key is minted again once the file has been opened again. -/
example : mintedIn linkedStoreWorkspace
    [.call (.create []), .reopen "PROJ".toList, .call (.create [])] =
      ["PROJ-1".toList, "PROJ-1".toList] := by
  cbv

end StoreUse

end TodoTracker
