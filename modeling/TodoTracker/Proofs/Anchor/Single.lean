import TodoTracker.Proofs.Anchor.Sifted

/-!
# One anchor of a task in each file

After any sightings, reconciling leaves every task with at most one anchor in each file below the
roots, however many there were, also when files were renamed.
-/

set_option autoImplicit false

namespace TodoTracker

/-- All anchors in a file are the same one. -/
def Single (file : Text) (as : List Anchor) : Prop :=
  ∀ a ∈ as, ∀ b ∈ as, a.file = file → b.file = file → a = b

theorem Single.mono {file : Text} {as as' : List Anchor} (h : Single file as)
    (hsub : ∀ a ∈ as', a.file = file → a ∈ as) : Single file as' :=
  fun a ha b hb hafile hbfile => h a (hsub a ha hafile) b (hsub b hb hbfile) hafile hbfile

namespace Anchor

theorem not_mem_ofInt (line : Int) : '#' ∉ 'L' :: Text.ofInt line := by
  have hdigit : ∀ n, '#' ∉ Text.ofNat n := by
    intro n hmem
    exact absurd (Text.asciiDigit_of_mem_ofNat hmem) (by decide)
  rw [List.mem_cons, not_or]
  refine ⟨by decide, ?_⟩
  cases line with
  | ofNat n => exact hdigit n
  | negSucc n => exact List.not_mem_cons_of_ne_of_not_mem (by decide) (hdigit _)

/-- The line number that is written behind a plain path is the one that is read there. -/
theorem readLine?_of_ofCode? {file : Text} (h : IsPlain file) {line : Int} {anchor : Anchor}
    (hcode : ofCode? (codeOf file line) = some anchor) :
    ∃ n : Nat, readLine? ('L' :: Text.ofInt line) = some n ∧ 0 < n := by
  have htrim : Text.trim (codeOf file line) = codeOf file line := by
    apply Text.trim_eq_self
    · have hhead := Text.head?_trim file
      rw [h.trimmed] at hhead
      cases file with
      | nil => exact absurd rfl h.nonempty
      | cons c file => exact hhead
    · have hlast : ∀ n, ∃ d ∈ Text.ofNat n, (Text.ofNat n).getLast? = some d := by
        intro n
        have hd := List.getLast?_eq_some_getLast (Text.ofNat_ne_nil n)
        exact ⟨_, List.mem_of_getLast? hd, hd⟩
      cases line with
      | ofNat n =>
        obtain ⟨d, hmem, hd⟩ := hlast n
        have hblank := Text.not_isBlank_of_asciiDigit (Text.asciiDigit_of_mem_ofNat hmem)
        simp [codeOf, Text.ofInt, List.getLast?_append, List.getLast?_cons, hd, hblank]
      | negSucc n =>
        obtain ⟨d, hmem, hd⟩ := hlast (n + 1)
        have hblank := Text.not_isBlank_of_asciiDigit (Text.asciiDigit_of_mem_ofNat hmem)
        simp [codeOf, Text.ofInt, List.getLast?_append, List.getLast?_cons, hd, hblank]
  rw [ofCode?, htrim] at hcode
  split at hcode
  · rename_i front n hsplit
    split at hcode
    · cases hcode
    · rename_i hfits
      obtain ⟨g, s, htext, -, hread, -⟩ := exists_of_splitFrom hsplit
      have hsame : file ++ '#' :: ('L' :: Text.ofInt line) = g ++ '#' :: s := by
        rw [← htext, codeOf]
        simp
      obtain ⟨-, -, rfl⟩ := (List.append_cons_inj_of_notMem h.hash (not_mem_ofInt line)).1 hsame
      simp only [Bool.or_eq_true, beq_iff_eq, not_or] at hfits
      exact ⟨n, hread, by omega⟩
  · cases hcode

/-- A line number below one is not read back. -/
theorem ofCode?_of_not_pos {file : Text} (h : IsPlain file) {line : Int} (hline : ¬1 ≤ line) :
    ofCode? (codeOf file line) = none := by
  refine Option.eq_none_iff_forall_ne_some.2 fun anchor hcode => ?_
  obtain ⟨n, hread, hpos⟩ := readLine?_of_ofCode? h hcode
  cases line with
  | ofNat m =>
    rw [Text.ofInt, readLine?_letter_ofNat, Option.some.injEq] at hread
    simp only [Int.ofNat_eq_natCast] at hline
    omega
  | negSucc m => cases hread

end Anchor

namespace Document

theorem eq_of_mem_readBack {a b : Anchor} (h : Anchor.IsPlain a.file) (hb : b ∈ readBack a) :
    b = a := by
  by_cases hline : 1 ≤ a.line
  · rw [readBack_of_isWritten ⟨h.addressable, hline⟩] at hb
    exact List.mem_singleton.1 hb
  · rw [readBack, Anchor.code, Anchor.ofCode?_of_not_pos h hline] at hb
    cases hb

end Document

namespace Reconciler

open Work

variable {reconciler : Reconciler} {key file : Text} {roots : List Location} {w w' : Workspace}

/-- In every file where a key was sighted, its task has at most one anchor. -/
def SingleWhereSighted (w : Workspace) : Prop :=
  ∀ key file, (key, file) ∈ w.sightings.confirmed → ∃ as, w.anchors key = .ok as ∧ Single file as

theorem SingleWhereSighted.confirm {anchor : Anchor} {answer : Confirmation}
    (hsingle : SingleWhereSighted w) (hdry : reconciler.dryRun = false)
    (hplain : Anchor.IsPlain anchor.file)
    (h : (reconciler.confirm key anchor).Yields w answer w') : SingleWhereSighted w' := by
  obtain ⟨-, hconfirmed, hothers, as, recorded, has, hafter, hrecorded⟩ :=
    yields_confirm_recorded hdry h
  have hback : ∀ a ∈ recorded, a = anchor := by
    intro a ha
    rcases hrecorded with ⟨rfl, -⟩ | ⟨-, rfl⟩
    · cases ha
    · exact Document.eq_of_mem_readBack hplain ha
  intro other file hmem
  rw [hconfirmed, mem_confirmed_add] at hmem
  by_cases hkey : other = key
  · subst hkey
    refine ⟨_, hafter, ?_⟩
    by_cases hfile : anchor.file = file
    · have hall : ∀ a ∈ (as.filter fun a => ¬(a.file = anchor.file ∧ a ≠ anchor)) ++ recorded,
          a.file = file → a = anchor := by
        intro a ha hafile
        rcases List.mem_append.1 ha with ha | ha
        · by_contra hne
          simp [hafile, hfile, hne] at ha
        · exact hback a ha
      exact fun a ha b hb hafile hbfile => (hall a ha hafile).trans (hall b hb hbfile).symm
    · have hold := hmem.resolve_right fun heq => hfile (congrArg Prod.snd heq).symm
      obtain ⟨as₀, has₀, hsingle₀⟩ := hsingle other file hold
      rw [has] at has₀
      cases has₀
      refine hsingle₀.mono fun a ha hafile => ?_
      rcases List.mem_append.1 ha with ha | ha
      · exact (List.mem_filter.1 ha).1
      · exact absurd (hback a ha ▸ hafile) hfile
  · have hold := hmem.resolve_right fun heq => hkey (congrArg Prod.fst heq)
    rw [hothers other hkey]
    exact hsingle other file hold

theorem SingleWhereSighted.confirmEach {found : List (Text × Anchor)} {u : Unit}
    (hsingle : SingleWhereSighted w) (hdry : reconciler.dryRun = false)
    (hplain : ∀ s ∈ found, Anchor.IsPlain s.2.file)
    (h : (reconciler.confirmEach found).Yields w u w') : SingleWhereSighted w' := by
  induction found generalizing w with
  | nil =>
    obtain ⟨-, rfl⟩ := yields_pure.1 h
    exact hsingle
  | cons s found ih =>
    obtain ⟨answer, w₁, hconfirm, hrest⟩ := yields_confirmEach_cons h
    exact ih (hsingle.confirm hdry (hplain s List.mem_cons_self) hconfirm)
      (fun t ht => hplain t (List.mem_cons_of_mem _ ht)) hrest

/-- After any sightings with fresh notes, reconciling leaves every task with at most one anchor in
each file below the roots, also when files were renamed, when the new name of no file is the old
name of another. -/
theorem reconcile_single {found : List (Text × Anchor)} {checks : List AnchorVerdict}
    (hdry : reconciler.dryRun = false) (hdirect : reconciler.Direct)
    (hfresh : w.sightings.confirmed = []) (hplain : ∀ s ∈ found, Anchor.IsPlain s.2.file)
    (hrun : Yields (do
      reconciler.confirmEach found
      reconciler.reconcile roots) w checks w')
    (hsteady : reconciler.Steady w file)
    (hbelow : reconciler.isBelow w.disk.tree roots ⟨file, 1⟩ = .ok true) (key : Text) :
    ∃ after, w'.anchors key = .ok after ∧ Single file after := by
  obtain ⟨_, v, heach, hreconcile⟩ := yields_bind.1 hrun
  have hsingle : SingleWhereSighted v :=
    SingleWhereSighted.confirmEach (by simp [SingleWhereSighted, hfresh]) hdry hplain heach
  obtain ⟨before, hbefore⟩ : ∃ before, v.anchors key = .ok before :=
    (legible_of_reconcile hreconcile).exists_anchors key
  obtain ⟨w₁, w₂, own, honward, h₁, hown, h₂⟩ := exists_of_reconcile hbefore hreconcile
  have hwritten : ∀ a ∈ before.reverse, a.IsWritten := fun a ha =>
    Document.isWritten_of_mem_anchors hbefore (List.mem_reverse.1 ha)
  rw [h₂]
  by_cases hpassed : (key, file) ∈ v.sightings.confirmed ∧ reconciler.effective file = file
  · obtain ⟨hconfirmed, hname⟩ := hpassed
    obtain ⟨before', hbefore', hone⟩ := hsingle key file hconfirmed
    rw [hbefore] at hbefore'
    cases hbefore'
    have hkept : reconciler.effective file ∈ v.sightings.filesOf key := by
      rw [hname]
      exact mem_filesOf.2 hconfirmed
    obtain ⟨after, hafter, hsub⟩ := subset_of_reconcileAnchors hdirect hdry hown hwritten hkept h₁
    exact ⟨after, hafter, hone.mono hsub⟩
  · have hopen : (key, file) ∈ w₁.sightings.confirmed → reconciler.effective file ≠ file :=
      fun hconfirmed hname => hpassed ⟨honward.confirmed ▸ hconfirmed, hname⟩
    have hsaved := (saved_of_confirmEach hdry heach).trans honward.saved
    have hsifted : Sifted (reconciler.effective file) (·.file = file) (fun _ => True)
        (v.sightings.filesOf key) before.reverse before := by
      by_cases hkept : reconciler.effective file ∈ v.sightings.filesOf key
      · exact .inr ⟨hkept, ⟨file, 1⟩, trivial, fun a _ => by
          rw [List.count_reverse]
          exact Nat.le_add_right _ _⟩
      · exact .inl ⟨hkept, fun a _ => by rw [List.count_reverse]⟩
    have hlooked : ∀ a ∈ before.reverse, a.file = file → ∀ u, w₁.Onward u →
        reconciler.isBelow u.disk.tree roots a = .ok true ∧
          ((key, a.file) ∈ u.sightings.confirmed → reconciler.effective a.file ≠ a.file) := by
      rintro a - rfl u hu
      refine ⟨?_, fun hmem => hopen (hu.confirmed ▸ hmem)⟩
      rw [hsteady.isBelow (hsaved.trans hu.saved), isBelow_eq _ _ _ rfl, hbelow]
    obtain ⟨kept', after, hafter, hdone⟩ := sifted_of_reconcileAnchors hdirect hdry hown hwritten
      (fun a ha => by rw [ha]) hlooked (fun _ _ _ _ _ _ _ => trivial) h₁ hsifted
    obtain ⟨s, -, hall⟩ := hdone.eq
    exact ⟨after, hafter, fun a ha b hb hafile hbfile =>
      (hall a ha hafile).1.trans (hall b hb hbfile).1.symm⟩

/-- A task with an anchor under the old name of a file and two under the new one. -/
def doubledWorkspace : Workspace := .inMemory
  ⟨[(["repo".toList], .directory),
    (["repo".toList, "b.py".toList], .file (Utf8.encode "x = 1\n# TODO(PROJ-1): fix\n".toList))],
    by decide⟩
  ⟨[("PROJ-1".toList, .object [(Document.referencesName, .list
    [Anchor.toReference ⟨"b.py".toList, 2⟩, Anchor.toReference ⟨"b.py".toList, 9⟩,
      Anchor.toReference ⟨"a.py".toList, 1⟩])])], by decide⟩

theorem direct_renamingReconciler : renamingReconciler.Direct := by
  constructor <;> intro rename hrename <;> rw [List.mem_singleton.1 hrename]
  · exact fun _ => ⟨by decide, by decide, by decide⟩
  · decide

/-- The renamed file is left with one anchor at most. -/
theorem reconcile_single_renamed :
    ∃ after,
      ((do renamingReconciler.confirmEach [("PROJ-1".toList, ⟨"c.py".toList, 1⟩)]
           renamingReconciler.reconcile [["repo".toList]] : Work _).run
        doubledWorkspace).2.anchors "PROJ-1".toList = .ok after ∧
      Single "b.py".toList after := by
  have hplain : Anchor.IsPlain "c.py".toList := ⟨by decide, by decide, by decide⟩
  obtain ⟨checks, hrun⟩ : ∃ checks, Yields (do
      renamingReconciler.confirmEach [("PROJ-1".toList, ⟨"c.py".toList, 1⟩)]
      renamingReconciler.reconcile [["repo".toList]]) doubledWorkspace checks _ :=
    exists_yields (by cbv)
  have hsteady : renamingReconciler.Steady doubledWorkspace "b.py".toList :=
    ⟨Workspace.undisturbed_inMemory _ _ _, Workspace.undisturbed_inMemory _ _ _⟩
  exact reconcile_single rfl direct_renamingReconciler rfl
    (fun s hs => by rw [List.mem_singleton.1 hs]; exact hplain) hrun hsteady (by cbv) _

end Reconciler

end TodoTracker
