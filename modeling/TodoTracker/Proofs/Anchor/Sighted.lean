import TodoTracker.Proofs.Anchor.Confirmed

/-!
# Sightings and the anchors that they leave

After sightings of keys in files, each task stands in a file where it was sighted last, and its
anchors in other files are as before. Reconciling then settles the anchors in the files below the
roots where the task was not sighted, and leaves all others.
-/

set_option autoImplicit false

namespace TodoTracker

/-- The last of the sightings of a key in a file. -/
def lastIn (found : List (Text × Anchor)) (key file : Text) : Option Anchor :=
  ((found.filter fun s => s.1 = key ∧ s.2.file = file).getLast?).map (·.2)

theorem lastIn_append (found found' : List (Text × Anchor)) (key file : Text) :
    lastIn (found ++ found') key file = (lastIn found' key file).or (lastIn found key file) := by
  rw [lastIn, List.filter_append, List.getLast?_append, lastIn, lastIn]
  cases (found'.filter fun s => s.1 = key ∧ s.2.file = file).getLast? <;> rfl

theorem lastIn_singleton (key' : Text) (anchor : Anchor) (key file : Text) :
    lastIn [(key', anchor)] key file =
      if key' = key ∧ anchor.file = file then some anchor else none := by
  rw [lastIn]
  by_cases h : key' = key ∧ anchor.file = file <;> simp [h]

namespace Reconciler

open Work

theorem mem_confirmed_add_iff {s : Sightings} {key key' file : Text} {anchor : Anchor} :
    (key', file) ∈ (s.add key anchor).confirmed ↔
      (key', file) ∈ s.confirmed ∨ (lastIn [(key, anchor)] key' file).isSome := by
  rw [mem_confirmed_add, lastIn_singleton]
  by_cases hmine : key = key' ∧ anchor.file = file
  · simp [hmine]
  · have hne : (key', file) ≠ (key, anchor.file) := by
      intro heq
      cases heq
      exact hmine ⟨rfl, rfl⟩
    simp [hmine, hne]

/-- What sightings of keys have made of the anchors. -/
structure Sighted (found : List (Text × Anchor)) (w w' : Workspace) : Prop where
  saved : w.Saved w'
  confirmed : ∀ key file, (key, file) ∈ w'.sightings.confirmed ↔
    (key, file) ∈ w.sightings.confirmed ∨ (lastIn found key file).isSome
  anchors : ∀ key before, w.anchors key = .ok before → ∃ after, w'.anchors key = .ok after ∧
    ∀ file, match lastIn found key file with
      | none => inFile file after = inFile file before
      | some a => ∀ b, b ∈ inFile file after ↔ b = a

theorem Sighted.append {found found' : List (Text × Anchor)} {w w' w'' : Workspace}
    (h : Sighted found w w') (h' : Sighted found' w' w'') : Sighted (found ++ found') w w'' := by
  refine ⟨h.saved.trans h'.saved, ?_, ?_⟩
  · intro key file
    rw [h'.confirmed, h.confirmed, lastIn_append, Option.isSome_or, Bool.or_eq_true, or_assoc,
      or_comm (a := (lastIn found key file).isSome = true)]
  · intro key before hbefore
    obtain ⟨mid, hmid, hin⟩ := h.anchors key before hbefore
    obtain ⟨after, hafter, hin'⟩ := h'.anchors key mid hmid
    refine ⟨after, hafter, fun file => ?_⟩
    have hfirst := hin file
    have hsecond := hin' file
    rw [lastIn_append]
    cases hlater : lastIn found' key file with
    | some a =>
      rw [hlater] at hsecond
      exact hsecond
    | none =>
      rw [hlater] at hsecond
      dsimp only at hsecond
      rw [Option.none_or]
      cases hearlier : lastIn found key file with
      | none =>
        rw [hearlier] at hfirst
        exact hsecond.trans hfirst
      | some a =>
        rw [hearlier] at hfirst
        dsimp only at hfirst ⊢
        rw [hsecond]
        exact hfirst

/-- What a check of the anchors in one file leaves: the newest anchor at its place, unless an older
one stands there. -/
def remaining (reconciler : Reconciler) (tree : FileTree) (key : Text) (mine : List Anchor) :
    List Anchor :=
  match mine.getLast? with
  | none => []
  | some newest =>
    if reconciler.settledAt tree key newest ∈ mine.dropLast then []
    else [reconciler.settledAt tree key newest]

theorem isBelow_eq (reconciler : Reconciler) (tree : FileTree) (roots : List Location)
    {a : Anchor} {file : Text} (h : a.file = file) :
    reconciler.isBelow tree roots a = reconciler.isBelow tree roots ⟨file, 1⟩ := by
  rw [isBelow, isBelow, h]

/-- Reconciling settles the anchors in the files below the roots that were not confirmed, and
leaves the others as they are. -/
theorem reconcile_in_files {reconciler : Reconciler} {roots : List Location} {key : Text}
    {as : List Anchor} {checks : List AnchorVerdict} {w w' : Workspace}
    (hrenames : reconciler.renames = []) (hdry : reconciler.dryRun = false)
    (h : (reconciler.reconcile roots).Yields w checks w') (has : w.anchors key = .ok as)
    (hstill : ∀ a ∈ as, (key, a.file) ∉ w.sightings.confirmed →
      w.Undisturbed (reconciler.path a.file)) :
    ∃ as', w'.anchors key = .ok as' ∧ ∀ file,
      ((key, file) ∈ w.sightings.confirmed ∨
          reconciler.isBelow w.disk.tree roots ⟨file, 1⟩ ≠ .ok true →
        inFile file as' = inFile file as) ∧
      ((key, file) ∉ w.sightings.confirmed →
          reconciler.isBelow w.disk.tree roots ⟨file, 1⟩ = .ok true →
        inFile file as' = reconciler.remaining w.disk.tree key (inFile file as)) := by
  have hwritten : ∀ a ∈ as.reverse, a.IsWritten := fun a ha =>
    Document.isWritten_of_mem_anchors has (List.mem_reverse.1 ha)
  obtain ⟨w₁, w₂, own, honward, h₁, hown, h₂⟩ := exists_of_reconcile has h
  obtain ⟨as', has'⟩ := anchors_of_reconcileAnchors hdry hown h₁
  refine ⟨as', h₂.trans has', fun file => ⟨?_, ?_⟩⟩
  · intro hpassed
    have hpass : ∀ a ∈ as.reverse, a.file = file → ∀ kept v kept' v', w₁.Onward v →
        Step reconciler key roots kept a v kept' v' → v' = v := by
      rintro a ha rfl kept v kept' v' hv hstep
      have hw := honward.trans hv
      by_cases hconfirmed : (key, a.file) ∈ w.sightings.confirmed
      · exact hstep.eq_of_confirmed hrenames (hw.confirmed ▸ hconfirmed)
      · have hbelow := hpassed.resolve_left hconfirmed
        have hagree := hw.saved.agreeAt (hstill a (List.mem_reverse.1 ha) hconfirmed)
        have hsame : reconciler.isBelow v.disk.tree roots a ≠ .ok true := by
          rw [isBelow_congr roots hagree (by rw [hrenames]; simp [Fields.get?]),
            isBelow_eq reconciler w.disk.tree roots rfl]
          exact hbelow
        cases hstep with
        | outside => rfl
        | confirmed hin => exact absurd hin hsame
        | superseded hin => exact absurd hin hsame
        | rechecked hin => exact absurd hin hsame
    obtain ⟨as₂, has₂, hin⟩ := inFile_of_passed hrenames hdry hpass hown h₁ hwritten
    rw [has'] at has₂
    cases has₂
    exact hin
  · intro hconfirmed hbelow
    rw [remaining]
    cases hlast : (inFile file as).getLast? with
    | none =>
      have hnone := List.getLast?_eq_none_iff.1 hlast
      have hpass : ∀ a ∈ as.reverse, a.file = file → ∀ kept v kept' v', w₁.Onward v →
          Step reconciler key roots kept a v kept' v' → v' = v := by
        rintro a ha rfl
        have hmem : a ∈ inFile a.file as := mem_inFile.2 ⟨List.mem_reverse.1 ha, rfl⟩
        rw [hnone] at hmem
        cases hmem
      obtain ⟨as₂, has₂, hin⟩ := inFile_of_passed hrenames hdry hpass hown h₁ hwritten
      rw [has'] at has₂
      cases has₂
      rw [hin, hnone]
    | some newest =>
      obtain ⟨older, hmine⟩ := List.getLast?_eq_some_iff.1 hlast
      have hnewest : newest ∈ as ∧ newest.file = file :=
        mem_inFile.1 (by rw [hmine]; simp)
      have hundisturbed : w.Undisturbed (reconciler.path file) :=
        hnewest.2 ▸ hstill newest hnewest.1 (hnewest.2 ▸ hconfirmed)
      have hwatched : Watched reconciler key file roots w := by
        refine ⟨hundisturbed, fun a ha => ?_, hconfirmed⟩
        rw [isBelow_eq reconciler w.disk.tree roots ha, hbelow]
      have hunkept : file ∉ w.sightings.filesOf key :=
        fun hmem => hconfirmed (mem_filesOf.1 hmem)
      have htodo : inFile file as.reverse = newest :: older.reverse := by
        rw [inFile, List.filter_reverse, ← inFile, hmine]
        simp
      obtain ⟨as₂, has₂, hin⟩ := inFile_of_unkept hrenames hdry hown h₁ hwritten hunkept
        (hwatched.onward hrenames honward) htodo (by rw [hmine, List.reverse_reverse])
      rw [has'] at has₂
      cases has₂
      have hsettled : reconciler.settledAt w₁.disk.tree key newest =
          reconciler.settledAt w.disk.tree key newest :=
        settledAt_congr hrenames key (hnewest.2 ▸ honward.saved.agreeAt hundisturbed)
      simpa only [hsettled, List.mem_reverse, hmine, List.dropLast_concat] using hin

section Check

variable {reconciler : Reconciler} {roots : List Location} {found : List (Text × Anchor)}
  {checks : List AnchorVerdict} {w w₁ w₂ : Workspace}

end Check

end Reconciler

end TodoTracker
