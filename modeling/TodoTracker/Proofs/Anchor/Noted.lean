import TodoTracker.Proofs.Anchor.Sighted

/-!
# What sightings have noted

The answer to a confirmation depends on nothing but the anchors of the task in the file. Sightings
one after another leave the anchors of a task in the files where it was not sighted, in their order;
in the others it has the last sighting, or, when nothing is recorded, all it had.
-/

set_option autoImplicit false

namespace TodoTracker

namespace Reconciler

open Work

variable {reconciler : Reconciler} {key : Text} {anchor keep : Anchor} {todo as : List Anchor}
  {answer : Confirmation} {w w' w'' : Workspace}

/-- Whether an anchor is dropped when another one is confirmed. -/
def Dropped (keep anchor : Anchor) : Prop := anchor.file = keep.file ∧ anchor ≠ keep

instance (keep anchor : Anchor) : Decidable (Dropped keep anchor) :=
  inferInstanceAs (Decidable (_ ∧ _))

/-- What is answered to a confirmation when a task has the anchors `mine` in the file. -/
def answerTo (reconciler : Reconciler) (anchor : Anchor) (mine : List Anchor) : Confirmation where
  appended := !mine.contains anchor
  pruned :=
    if reconciler.dryRun then (mine.filter (· ≠ anchor)).length
    else (mine.filter (· ≠ anchor)).toFinset.card

/-- Dropping anchors deals with the first one and then with the rest. -/
theorem yields_pruneFile_cons {first : Anchor} {count : Nat}
    (h : (reconciler.pruneFile key keep (first :: todo)).Yields w count w') :
    ∃ pruned others w₁, (Dropped keep first ∧ (reconciler.dryRun = true ∧ pruned = true ∧ w₁ = w ∨
          reconciler.dryRun = false ∧ (Tasks.remove key first).Yields w pruned w₁) ∨
        ¬Dropped keep first ∧ pruned = false ∧ w₁ = w) ∧
      (reconciler.pruneFile key keep todo).Yields w₁ others w' ∧
      count = others + pruned.toNat := by
  rw [pruneFile] at h
  dsimp only at h
  split at h
  · rename_i hdrop
    split at h
    · rename_i hdry
      obtain ⟨pruned, w₁, hpruned, h⟩ := yields_bind.1 h
      obtain ⟨others, w₂, hrest, h⟩ := yields_bind.1 h
      obtain ⟨rfl, rfl⟩ := yields_pure.1 h
      obtain ⟨rfl, rfl⟩ := yields_pure.1 hpruned
      exact ⟨true, others, w, .inl ⟨hdrop, .inl ⟨hdry, rfl, rfl⟩⟩, hrest, rfl⟩
    · rename_i hdry
      obtain ⟨pruned, w₁, hpruned, h⟩ := yields_bind.1 h
      obtain ⟨others, w₂, hrest, h⟩ := yields_bind.1 h
      obtain ⟨rfl, rfl⟩ := yields_pure.1 h
      exact ⟨pruned, others, w₁, .inl ⟨hdrop, .inr ⟨by simpa using hdry, hpruned⟩⟩, hrest, rfl⟩
  · rename_i hkeep
    obtain ⟨pruned, w₁, hpruned, h⟩ := yields_bind.1 h
    obtain ⟨others, w₂, hrest, h⟩ := yields_bind.1 h
    obtain ⟨rfl, rfl⟩ := yields_pure.1 h
    obtain ⟨rfl, rfl⟩ := yields_pure.1 hpruned
    exact ⟨false, others, w, .inr ⟨hkeep, rfl, rfl⟩, hrest, rfl⟩

/-- When nothing is recorded, every anchor that would be dropped counts. -/
theorem pruneFile_of_dry (hdry : reconciler.dryRun = true) {count : Nat}
    (h : (reconciler.pruneFile key keep todo).Yields w count w') :
    count = (todo.filter (Dropped keep ·)).length ∧ w' = w := by
  induction todo generalizing count w with
  | nil =>
    obtain ⟨rfl, rfl⟩ := yields_pure.1 h
    exact ⟨rfl, rfl⟩
  | cons first todo ih =>
    obtain ⟨pruned, others, w₁, hfirst, hrest, rfl⟩ := yields_pruneFile_cons h
    obtain ⟨rfl, rfl⟩ := ih hrest
    rcases hfirst with ⟨hdrop, ⟨-, rfl, rfl⟩ | ⟨hwet, -⟩⟩ | ⟨hkeep, rfl, rfl⟩
    · rw [List.filter_cons_of_pos (by simpa using hdrop)]
      exact ⟨rfl, rfl⟩
    · rw [hdry] at hwet
      cases hwet
    · rw [List.filter_cons_of_neg (by simpa using hkeep)]
      exact ⟨rfl, rfl⟩

/-- An anchor that is dropped counts once, however often it is recorded. -/
theorem pruneFile_of_wet (hdry : reconciler.dryRun = false) {count : Nat}
    (has : w.anchors key = .ok as) (h : (reconciler.pruneFile key keep todo).Yields w count w') :
    count = ((todo.filter (Dropped keep ·)).toFinset ∩ as.toFinset).card := by
  induction todo generalizing count as w with
  | nil =>
    obtain ⟨rfl, -⟩ := yields_pure.1 h
    rfl
  | cons first todo ih =>
    obtain ⟨pruned, others, w₁, hfirst, hrest, rfl⟩ := yields_pruneFile_cons h
    rcases hfirst with ⟨hdrop, ⟨hdry', -⟩ | ⟨-, hremove⟩⟩ | ⟨hkeep, rfl, rfl⟩
    · rw [hdry] at hdry'
      cases hdry'
    · obtain ⟨-, as₀, has₀, hafter⟩ := Tasks.yields_remove hremove
      rw [has] at has₀
      cases has₀
      have herase : (as.filter (· ≠ first)).toFinset = as.toFinset.erase first := by
        ext b
        simp [and_comm]
      rw [Tasks.answer_of_remove hremove has, ih hafter hrest, herase, Finset.inter_erase,
        List.filter_cons_of_pos (by simpa using hdrop), List.toFinset_cons]
      generalize (todo.filter (Dropped keep ·)).toFinset = others
      by_cases hmem : first ∈ as
      · have hin : first ∈ as.toFinset := List.mem_toFinset.2 hmem
        rw [decide_eq_true hmem, Finset.insert_inter_of_mem hin]
        have hsame : insert first (others ∩ as.toFinset) =
            insert first ((others ∩ as.toFinset).erase first) := by
          ext b
          by_cases hb : b = first <;> simp [hb]
        rw [hsame, Finset.card_insert_of_notMem (by simp)]
        rfl
      · have hout : first ∉ as.toFinset := fun hin => hmem (List.mem_toFinset.1 hin)
        rw [decide_eq_false hmem, Finset.insert_inter_of_notMem hout,
          Finset.erase_eq_of_notMem (fun hin => hout (Finset.mem_inter.1 hin).2)]
        rfl
    · rw [ih has hrest, List.filter_cons_of_neg (by simpa using hkeep)]
      rfl

theorem answer_of_confirm (h : (reconciler.confirm key anchor).Yields w answer w') :
    ∃ as, w.anchors key = .ok as ∧ answer = reconciler.answerTo anchor (inFile anchor.file as) := by
  obtain ⟨as, count, v, has, hprune, hanswer, -⟩ := of_confirm h
  refine ⟨as, has, ?_⟩
  have hknown : as.contains anchor = (inFile anchor.file as).contains anchor := by
    rw [Bool.eq_iff_iff, List.contains_iff_mem, List.contains_iff_mem, mem_inFile,
      and_iff_left rfl]
  have hmine : as.filter (Dropped anchor ·) = (inFile anchor.file as).filter (· ≠ anchor) := by
    rw [inFile, List.filter_filter]
    refine List.filter_congr fun a _ => ?_
    by_cases ha : a = anchor <;> simp [Dropped, ha]
  rw [hanswer, answerTo, hknown, ← hmine]
  congr 1
  split
  · rename_i hdry
    exact (pruneFile_of_dry hdry hprune).1
  · rename_i hdry
    have hall : (as.filter (Dropped anchor ·)).toFinset ∩ as.toFinset =
        (as.filter (Dropped anchor ·)).toFinset := by
      rw [Finset.inter_eq_left]
      intro a ha
      rw [List.mem_toFinset] at ha ⊢
      exact (List.mem_filter.1 ha).1
    have hnoted : ({ w with sightings := w.sightings.add key anchor } : Workspace).anchors key =
        .ok as := has
    rw [← hall]
    exact pruneFile_of_wet (by simpa using hdry) hnoted hprune

/-- A confirmation leaves the anchors of other tasks alone, and those of its task when nothing is
recorded. -/
theorem others_of_confirm (h : (reconciler.confirm key anchor).Yields w answer w') :
    w.Saved w' ∧ w'.sightings.confirmed = (w.sightings.add key anchor).confirmed ∧
      (∀ other, other ≠ key → w'.anchors other = w.anchors other) ∧
      (reconciler.dryRun = true → w'.store = w.store ∧ w'.disk = w.disk) := by
  cases hdry : reconciler.dryRun with
  | false =>
    obtain ⟨hsaved, hconfirmed, hothers, -⟩ := yields_confirm_recorded hdry h
    exact ⟨hsaved, hconfirmed, hothers, fun h => by cases h⟩
  | true =>
    obtain ⟨as, count, v, -, hprune, -, hrest⟩ := of_confirm h
    obtain ⟨-, rfl⟩ := pruneFile_of_dry hdry hprune
    rcases hrest with ⟨-, hwet, -⟩ | ⟨-, rfl⟩
    · cases hdry.symm.trans hwet
    · exact ⟨.of_eq rfl rfl, rfl, fun _ _ => rfl, fun _ => ⟨rfl, rfl⟩⟩

theorem lastIn_eq_none {found : List (Text × Anchor)} {file : Text}
    (h : ∀ s ∈ found, s.2.file ≠ file) (key : Text) : lastIn found key file = none := by
  rw [lastIn, Option.map_eq_none_iff, List.getLast?_eq_none_iff, List.filter_eq_nil_iff]
  intro s hs
  simp [h s hs]

/-- The anchors of a key that are in none of the files where it was sighted. -/
def unsighted (found : List (Text × Anchor)) (key : Text) (as : List Anchor) : List Anchor :=
  as.filter fun a => (lastIn found key a.file).isNone

theorem mem_unsighted {found : List (Text × Anchor)} {a : Anchor} :
    a ∈ unsighted found key as ↔ a ∈ as ∧ lastIn found key a.file = none := by
  rw [unsighted, List.mem_filter, Option.isNone_iff_eq_none]

theorem inFile_unsighted {found : List (Text × Anchor)} {file : Text}
    (h : lastIn found key file = none) (as : List Anchor) :
    inFile file (unsighted found key as) = inFile file as := by
  rw [unsighted, inFile_filter, List.filter_eq_self]
  intro a ha
  rw [(mem_inFile.1 ha).2, h]
  rfl

theorem unsighted_append (found found' : List (Text × Anchor)) (key : Text) (as : List Anchor) :
    unsighted (found ++ found') key as = unsighted found' key (unsighted found key as) := by
  rw [unsighted, unsighted, unsighted, List.filter_filter]
  refine List.filter_congr fun a _ => ?_
  rw [lastIn_append, Option.isNone_or]

/-- What sightings of keys have noted, and recorded unless nothing is recorded. -/
structure Noted (dryRun : Bool) (found : List (Text × Anchor)) (w w' : Workspace) : Prop where
  path : w'.store.path = w.store.path
  keys : w'.store.document.tasks.keys = w.store.document.tasks.keys
  confirmed : ∀ key file, (key, file) ∈ w'.sightings.confirmed ↔
    (key, file) ∈ w.sightings.confirmed ∨ (lastIn found key file).isSome
  anchors : ∀ key after, w'.anchors key = .ok after → ∃ before, w.anchors key = .ok before ∧
    unsighted found key after = unsighted found key before ∧
    if dryRun then after = before
    else ∀ file a, lastIn found key file = some a → ∀ b, b ∈ inFile file after ↔ b = a

namespace Noted

variable {dryRun : Bool} {found found' : List (Text × Anchor)}

theorem of_eq (hstore : w'.store = w.store) (hsightings : w'.sightings = w.sightings) :
    Noted dryRun [] w w' := by
  refine ⟨by rw [hstore], by rw [hstore], ?_, ?_⟩
  · intro key file
    rw [hsightings]
    simp [lastIn]
  · intro key after hafter
    refine ⟨after, by rwa [Workspace.anchors, hstore] at hafter, rfl, ?_⟩
    split
    · rfl
    · intro file a ha
      cases ha

theorem trans (h : Noted dryRun found w w') (h' : Noted dryRun found' w' w'') :
    Noted dryRun (found ++ found') w w'' := by
  refine ⟨h'.path.trans h.path, h'.keys.trans h.keys, ?_, ?_⟩
  · intro key file
    rw [h'.confirmed, h.confirmed, lastIn_append, Option.isSome_or, Bool.or_eq_true, or_assoc,
      or_comm (a := (lastIn found key file).isSome = true)]
  · intro key after hafter
    obtain ⟨mid, hmid, hsame', hrecorded'⟩ := h'.anchors key after hafter
    obtain ⟨before, hbefore, hsame, hrecorded⟩ := h.anchors key mid hmid
    refine ⟨before, hbefore, ?_, ?_⟩
    · have hswap : ∀ as, unsighted (found ++ found') key as =
          unsighted found key (unsighted found' key as) := by
        intro as
        rw [unsighted_append, unsighted, unsighted, unsighted, unsighted, List.filter_comm]
      rw [hswap, hsame', ← hswap, unsighted_append, hsame, ← unsighted_append]
    · cases dryRun with
      | true => exact hrecorded'.trans hrecorded
      | false =>
        rw [if_neg Bool.false_ne_true] at hrecorded hrecorded' ⊢
        intro file a ha
        rw [lastIn_append] at ha
        cases hlater : lastIn found' key file with
        | some b =>
          rw [hlater, Option.some_or] at ha
          cases ha
          exact hrecorded' file _ hlater
        | none =>
          rw [hlater, Option.none_or] at ha
          intro b
          rw [← inFile_unsighted hlater after, hsame', inFile_unsighted hlater mid]
          exact hrecorded file a ha b

theorem of_confirm (hread : reconciler.dryRun = false → Document.readBack anchor = [anchor])
    (h : (reconciler.confirm key anchor).Yields w answer w') :
    Noted reconciler.dryRun [(key, anchor)] w w' := by
  obtain ⟨hsaved, hconfirmed, hothers, hstill⟩ := others_of_confirm h
  refine ⟨hsaved.path, hsaved.keys, ?_, ?_⟩
  · intro key' file
    rw [hconfirmed, mem_confirmed_add_iff]
  · intro key' after hafter
    cases hdry : reconciler.dryRun with
    | true =>
      obtain ⟨hstore, -⟩ := hstill hdry
      exact ⟨after, by rwa [Workspace.anchors, hstore] at hafter, rfl, rfl⟩
    | false =>
      simp only [Bool.false_eq_true, if_false]
      by_cases hkey : key' = key
      · subst hkey
        obtain ⟨-, -, -, as, has, hafter'⟩ := yields_confirm hdry (hread hdry) h
        rw [hafter] at hafter'
        cases hafter'
        refine ⟨as, has, ?_, ?_⟩
        · have hnew : unsighted [(key', anchor)] key' (if anchor ∈ as then [] else [anchor]) =
              [] := by
            split <;> simp [unsighted, lastIn_singleton]
          rw [unsighted, List.filter_append, ← unsighted, ← unsighted, hnew, List.append_nil,
            unsighted, List.filter_filter, unsighted]
          refine List.filter_congr fun a _ => ?_
          by_cases hfile : a.file = anchor.file <;> simp [lastIn_singleton, hfile, Ne.symm]
        · intro file a ha b
          rw [lastIn_singleton] at ha
          split at ha
          · rename_i hmine
            cases ha
            rw [mem_inFile, ← hmine.2]
            by_cases hmem : anchor ∈ as <;> by_cases hb : b = anchor <;> simp [hmem, hb]
          · cases ha
      · refine ⟨after, (hothers key' hkey).symm.trans hafter, rfl, ?_⟩
        intro file a ha
        rw [lastIn_singleton, if_neg (fun heq => hkey heq.1.symm)] at ha
        cases ha

theorem of_confirmEach {u : Unit}
    (hread : reconciler.dryRun = false → ∀ s ∈ found, Document.readBack s.2 = [s.2])
    (h : (reconciler.confirmEach found).Yields w u w') :
    w.Saved w' ∧ Noted reconciler.dryRun found w w' := by
  induction found generalizing w with
  | nil =>
    obtain ⟨-, rfl⟩ := yields_pure.1 h
    exact ⟨.of_eq rfl rfl, of_eq rfl rfl⟩
  | cons s found ih =>
    obtain ⟨answer, w₁, hconfirm, hrest⟩ := yields_confirmEach_cons h
    have hfirst := of_confirm (fun hwet => hread hwet s List.mem_cons_self) hconfirm
    obtain ⟨hsaved, hnoted⟩ :=
      ih (fun hwet t ht => hread hwet t (List.mem_cons_of_mem _ ht)) hrest
    exact ⟨(others_of_confirm hconfirm).1.trans hsaved, hfirst.trans hnoted⟩

end Noted

end Reconciler

end TodoTracker
