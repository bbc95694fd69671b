import TodoTracker.Proofs.Anchor.Upkeep

/-!
# What reconciling keeps in a file

Without renames, the anchors of a task in one file are settled by the newest of them: it moves to
its place, and every older one is dropped. Dropping goes by value, so the newest is lost as well
when its place is that of an older one.
-/

set_option autoImplicit false

namespace TodoTracker

/-- The anchors in a file, in their order. -/
def inFile (file : Text) (as : List Anchor) : List Anchor := as.filter (·.file = file)

theorem mem_inFile {file : Text} {as : List Anchor} {a : Anchor} :
    a ∈ inFile file as ↔ a ∈ as ∧ a.file = file := by
  simp [inFile]

theorem inFile_append (file : Text) (as bs : List Anchor) :
    inFile file (as ++ bs) = inFile file as ++ inFile file bs :=
  List.filter_append ..

theorem inFile_filter (file : Text) (as : List Anchor) (p : Anchor → Bool) :
    inFile file (as.filter p) = (inFile file as).filter p := by
  rw [inFile, inFile, List.filter_filter, List.filter_filter]
  exact List.filter_congr fun a _ => Bool.and_comm _ _

namespace Reconciler

theorem Replaced.eq {as as' : List Anchor} {old new : Anchor} (h : Replaced as old new as')
    (hread : Document.readBack new = [new]) :
    as' = (as ++ if new ∈ as then [] else [new]).filter (· ≠ old) := by
  obtain ⟨extra, rfl, -, hextra⟩ := h
  rw [hextra hread]

theorem inFile_filter_ne (as : List Anchor) {old : Anchor} {file : Text} (h : old.file ≠ file) :
    inFile file (as.filter (· ≠ old)) = inFile file as := by
  rw [inFile_filter, List.filter_eq_self]
  intro a ha
  have hne : a ≠ old := fun heq => h (heq ▸ (mem_inFile.1 ha).2)
  simpa using hne

theorem inFile_record_of_ne (as : List Anchor) {new : Anchor} {file : Text}
    (h : new.file ≠ file) : inFile file (as ++ if new ∈ as then [] else [new]) = inFile file as := by
  split <;> simp [inFile, h]

theorem Step.kept_eq {reconciler : Reconciler} {key : Text} {roots : List Location}
    {kept kept' : List Text} {anchor : Anchor} {w w' : Workspace}
    (h : Step reconciler key roots kept anchor w kept' w') :
    kept' = kept ∨ kept' = reconciler.effective anchor.file :: kept := by
  cases h with
  | rechecked => exact .inr rfl
  | _ => exact .inl rfl

theorem Step.kept_subset {reconciler : Reconciler} {key : Text} {roots : List Location}
    {kept kept' : List Text} {anchor : Anchor} {w w' : Workspace}
    (h : Step reconciler key roots kept anchor w kept' w') : kept ⊆ kept' := by
  rcases h.kept_eq with rfl | rfl
  · exact List.Subset.refl _
  · exact List.subset_cons_self _ _

theorem inFile_replace {as mine : List Anchor} {old new : Anchor} {file : Text}
    (hmine : inFile file as = mine) (hfile : new.file = file) :
    inFile file ((as ++ if new ∈ as then [] else [new]).filter (· ≠ old)) =
      (mine ++ if new ∈ as then [] else [new]).filter (· ≠ old) := by
  have hnew : inFile file (if new ∈ as then [] else [new]) = if new ∈ as then [] else [new] := by
    split <;> simp [inFile, hfile]
  rw [inFile_filter, inFile_append, hmine, hnew]

/-- Of a newest anchor that has moved and the older ones, only its place is left, and not even that
when it is the place of an older one. -/
theorem filter_older (older : List Anchor) {newest place : Anchor} (hne : place ≠ newest) :
    ((older.reverse ++ [newest] ++ if place ∈ older then [] else [place]).filter
      (· ≠ newest)).filter (· ∉ older) = if place ∈ older then [] else [place] := by
  have holder : (older.reverse.filter (· ≠ newest)).filter (· ∉ older) = [] := by
    rw [List.filter_eq_nil_iff]
    intro a ha
    have hmem : a ∈ older := by simpa using (List.mem_filter.1 ha).1
    simpa using hmem
  rw [List.filter_append, List.filter_append, List.filter_append, List.filter_append, holder]
  by_cases hplace : place ∈ older <;> simp [hplace, hne]

/-- A file whose anchors of a task are looked at: it is below the roots, the key was not confirmed
in it, and saving leaves it alone. -/
structure Watched (reconciler : Reconciler) (key file : Text) (roots : List Location)
    (w : Workspace) : Prop where
  still : w.Undisturbed (reconciler.path file)
  below : ∀ a : Anchor, a.file = file → reconciler.isBelow w.disk.tree roots a = .ok true
  unconfirmed : (key, file) ∉ w.sightings.confirmed

section NoRenames

variable {reconciler : Reconciler} (hrenames : reconciler.renames = [])

include hrenames

theorem newName?_of_no_renames (file : Text) : reconciler.newName? file = none := by
  rw [newName?, hrenames]
  rfl

theorem effective_of_no_renames (file : Text) : reconciler.effective file = file := by
  rw [effective, hrenames]
  rfl

theorem settledAt_congr {tree tree' : FileTree} (key : Text) {anchor : Anchor}
    (h : tree.AgreeAt tree' (reconciler.path anchor.file)) :
    reconciler.settledAt tree' key anchor = reconciler.settledAt tree key anchor := by
  rw [settledAt, settledAt, inspect_congr key]
  rw [newName?_of_no_renames hrenames]
  exact h

/-- Without renames a check leaves an anchor as it is or moves it within its file. -/
theorem settled_in_file {tree : FileTree} {key : Text} {anchor : Anchor} {check : AnchorVerdict}
    (h : reconciler.inspect tree key anchor = .ok check) (hwritten : anchor.IsWritten) :
    check.settled.file = anchor.file ∧ check.settled.IsWritten := by
  have hname := newName?_of_no_renames hrenames anchor.file
  rcases settled_of_inspect h with ⟨hsettled, -⟩ | ⟨hfile, hline⟩
  · rw [hsettled]
    exact ⟨rfl, hwritten⟩
  · rw [hname, Option.getD_none] at hfile
    exact ⟨hfile, hfile ▸ hwritten.addressable, hline hwritten.line_pos⟩

/-- A step with an anchor of another file leaves the anchors in a file as they are. -/
theorem Step.inFile_of_ne {key file : Text} {roots : List Location} {kept kept' : List Text}
    {anchor : Anchor} {as : List Anchor} {w w' : Workspace} (hdry : reconciler.dryRun = false)
    (h : Step reconciler key roots kept anchor w kept' w') (has : w.anchors key = .ok as)
    (hwritten : anchor.IsWritten) (hne : anchor.file ≠ file) :
    ∃ as', w'.anchors key = .ok as' ∧ inFile file as' = inFile file as := by
  cases h with
  | outside => exact ⟨as, has, rfl⟩
  | confirmed => exact ⟨as, has, rfl⟩
  | superseded _ _ _ h =>
    obtain ⟨as', has', hafter⟩ := (yields_supersede h).2 hdry
    rw [has] at has'
    cases has'
    exact ⟨_, hafter, inFile_filter_ne as hne⟩
  | rechecked _ _ _ h =>
    obtain ⟨hinspect, -, ⟨-, hsame⟩ | ⟨hmoved, hreplaced⟩⟩ := yields_recheck h
    · exact ⟨as, hsame.trans has, rfl⟩
    · obtain ⟨as₀, as', has₀, has', hreplaced⟩ := hreplaced hdry
      rw [has] at has₀
      cases has₀
      obtain ⟨hfile, hsettled⟩ := settled_in_file hrenames hinspect hwritten
      rw [hreplaced.eq (Document.readBack_of_isWritten hsettled)] at has'
      refine ⟨_, has', ?_⟩
      rw [inFile_filter_ne _ hne, inFile_record_of_ne _ (hfile ▸ hne)]

theorem Watched.onward {key file : Text} {roots : List Location} {w w' : Workspace}
    (h : Watched reconciler key file roots w) (honward : w.Onward w') :
    Watched reconciler key file roots w' := by
  refine ⟨honward.saved.undisturbed h.still, ?_, honward.confirmed ▸ h.unconfirmed⟩
  rintro a rfl
  have hnone : Fields.get? reconciler.renames a.file = none := by rw [hrenames]; rfl
  rw [isBelow_congr roots (honward.saved.agreeAt h.still) (by simp [hnone]), h.below a rfl]

/-- A step with an anchor of a watched file that has its anchor drops it, by value. -/
theorem Step.inFile_of_kept {key : Text} {roots : List Location} {kept kept' : List Text}
    {anchor : Anchor} {as : List Anchor} {w w' : Workspace} (hdry : reconciler.dryRun = false)
    (h : Step reconciler key roots kept anchor w kept' w') (has : w.anchors key = .ok as)
    (hwatched : Watched reconciler key anchor.file roots w) (hkept : anchor.file ∈ kept) :
    w'.anchors key = .ok (as.filter (· ≠ anchor)) := by
  cases h with
  | outside hbelow =>
    rw [hwatched.below anchor rfl] at hbelow
    cases hbelow
  | confirmed _ hconfirmed => exact absurd hconfirmed hwatched.unconfirmed
  | superseded _ _ _ h =>
    obtain ⟨as', has', hafter⟩ := (yields_supersede h).2 hdry
    rw [has] at has'
    cases has'
    exact hafter
  | rechecked _ _ habsent =>
    rw [effective_of_no_renames hrenames] at habsent
    exact absurd hkept habsent

/-- The anchors in a watched file that has its anchor already are dropped, by value. -/
theorem inFile_of_kept {key file : Text} {roots : List Location} {kept : List Text}
    {todo as : List Anchor} {checks : List AnchorVerdict} {w w' : Workspace}
    (hdry : reconciler.dryRun = false)
    (h : (reconciler.reconcileAnchors key roots kept todo).Yields w checks w')
    (has : w.anchors key = .ok as) (hwritten : ∀ a ∈ todo, a.IsWritten)
    (hkept : file ∈ kept) (hwatched : Watched reconciler key file roots w) :
    ∃ as', w'.anchors key = .ok as' ∧ inFile file as' = (inFile file as).filter (· ∉ todo) := by
  induction todo generalizing kept as checks w with
  | nil =>
    obtain ⟨-, rfl⟩ := Work.yields_pure.1 h
    exact ⟨as, has, (List.filter_eq_self.2 (by simp)).symm⟩
  | cons anchor rest ih =>
    obtain ⟨kept', w₁, others, hstep, hrest⟩ := yields_reconcileAnchors_cons h
    have hrest_written : ∀ a ∈ rest, a.IsWritten := fun a ha => hwritten a (by simp [ha])
    have hnext : ∃ as₁, w₁.anchors key = .ok as₁ ∧
        inFile file as₁ = (inFile file as).filter (· ≠ anchor) := by
      by_cases hfile : anchor.file = file
      · subst hfile
        exact ⟨_, hstep.inFile_of_kept hrenames hdry has hwatched hkept, inFile_filter ..⟩
      · obtain ⟨as₁, has₁, hin⟩ :=
          hstep.inFile_of_ne hrenames hdry has (hwritten anchor (by simp)) hfile
        refine ⟨as₁, has₁, ?_⟩
        rw [hin, ← inFile_filter, inFile_filter_ne as hfile]
    obtain ⟨as₁, has₁, hin₁⟩ := hnext
    obtain ⟨as', has', hin'⟩ := ih hrest has₁ hrest_written (hstep.kept_subset hkept)
      (hwatched.onward hrenames hstep.touched.onward)
    refine ⟨as', has', ?_⟩
    rw [hin', hin₁, List.filter_filter]
    exact List.filter_congr fun a _ => by simp [not_or, Bool.and_comm]

/-- The first anchor of a watched file that is looked at goes to its place. -/
theorem Step.inFile_of_unkept {key : Text} {roots : List Location} {kept kept' : List Text}
    {anchor : Anchor} {as : List Anchor} {w w' : Workspace} (hdry : reconciler.dryRun = false)
    (h : Step reconciler key roots kept anchor w kept' w') (has : w.anchors key = .ok as)
    (hwritten : anchor.IsWritten)
    (hwatched : Watched reconciler key anchor.file roots w) (hkept : anchor.file ∉ kept) :
    ∃ as', w'.anchors key = .ok as' ∧ anchor.file ∈ kept' ∧
      (reconciler.settledAt w.disk.tree key anchor = anchor ∧ as' = as ∨
        ∃ place : Anchor, reconciler.settledAt w.disk.tree key anchor = place ∧ place ≠ anchor ∧
          place.file = anchor.file ∧
          as' = (as ++ if place ∈ as then [] else [place]).filter (· ≠ anchor)) := by
  cases h with
  | outside hbelow =>
    rw [hwatched.below anchor rfl] at hbelow
    cases hbelow
  | confirmed _ hconfirmed => exact absurd hconfirmed hwatched.unconfirmed
  | superseded _ _ hmem =>
    rw [effective_of_no_renames hrenames] at hmem
    exact absurd hmem hkept
  | rechecked _ _ _ h =>
    rw [effective_of_no_renames hrenames]
    obtain ⟨hinspect, -, ⟨hstill, hsame⟩ | ⟨hmoved, hreplaced⟩⟩ := yields_recheck h
    · rw [settledAt, hinspect]
      exact ⟨as, hsame.trans has, by simp, .inl ⟨hstill, rfl⟩⟩
    · obtain ⟨as₀, as', has₀, has', hreplaced⟩ := hreplaced hdry
      rw [has] at has₀
      cases has₀
      rw [settledAt, hinspect]
      obtain ⟨hfile, hsettled⟩ := settled_in_file hrenames hinspect hwritten
      have hread := Document.readBack_of_isWritten hsettled
      exact ⟨as', has', by simp, .inr ⟨_, rfl, hmoved, hfile, hreplaced.eq hread⟩⟩

/-- What going through its anchors leaves of a task in a watched file. -/
theorem inFile_of_unkept {key file : Text} {roots : List Location} {kept : List Text}
    {todo as older : List Anchor} {newest : Anchor} {checks : List AnchorVerdict}
    {w w' : Workspace} (hdry : reconciler.dryRun = false)
    (h : (reconciler.reconcileAnchors key roots kept todo).Yields w checks w')
    (has : w.anchors key = .ok as) (hwritten : ∀ a ∈ todo, a.IsWritten)
    (hkept : file ∉ kept) (hwatched : Watched reconciler key file roots w)
    (htodo : inFile file todo = newest :: older) (hmine : inFile file as = older.reverse ++ [newest]) :
    ∃ as', w'.anchors key = .ok as' ∧ inFile file as' =
      if reconciler.settledAt w.disk.tree key newest ∈ older then []
      else [reconciler.settledAt w.disk.tree key newest] := by
  induction todo generalizing kept as checks w with
  | nil => cases htodo
  | cons anchor rest ih =>
    obtain ⟨kept', w₁, others, hstep, hrest⟩ := yields_reconcileAnchors_cons h
    have hrest_written : ∀ a ∈ rest, a.IsWritten := fun a ha => hwritten a (by simp [ha])
    have hwatched₁ := hwatched.onward hrenames hstep.touched.onward
    by_cases hfile : anchor.file = file
    · subst hfile
      have hheads : anchor = newest ∧ inFile anchor.file rest = older := by
        simpa [inFile] using htodo
      obtain ⟨rfl, hrest_file⟩ := hheads
      obtain ⟨as₁, has₁, hkept₁, hplace⟩ :=
        hstep.inFile_of_unkept hrenames hdry has (hwritten anchor (by simp)) hwatched hkept
      obtain ⟨as', has', hin'⟩ :=
        inFile_of_kept hrenames hdry hrest has₁ hrest_written hkept₁ hwatched₁
      refine ⟨as', has', ?_⟩
      have hrest_mem : ∀ a ∈ inFile anchor.file as₁, (a ∈ rest ↔ a ∈ older) := by
        intro a ha
        rw [← hrest_file, mem_inFile]
        simp [(mem_inFile.1 ha).2]
      have hdropped : (inFile anchor.file as₁).filter (· ∉ rest) =
          (inFile anchor.file as₁).filter (· ∉ older) :=
        List.filter_congr fun a ha => by simp [hrest_mem a ha]
      rw [hin', hdropped]
      rcases hplace with ⟨hsettled, rfl⟩ | ⟨place, hsettled, hne, hplace_file, rfl⟩
      · rw [hmine, hsettled]
        by_cases holder : anchor ∈ older <;> simp [holder]
      · have hplace_mem : place ∈ as ↔ place ∈ older := by
          have hmem : place ∈ inFile anchor.file as ↔ place ∈ older := by simp [hmine, hne]
          rw [← hmem, mem_inFile]
          simp [hplace_file]
        rw [hsettled, inFile_replace hmine hplace_file]
        simp only [hplace_mem]
        exact filter_older older hne
    · obtain ⟨as₁, has₁, hin₁⟩ :=
        hstep.inFile_of_ne hrenames hdry has (hwritten anchor (by simp)) hfile
      have htodo₁ : inFile file rest = newest :: older := by simpa [inFile, hfile] using htodo
      have hkept₁ : file ∉ kept' := by
        rcases hstep.kept_eq with rfl | rfl
        · exact hkept
        · rw [effective_of_no_renames hrenames]
          simpa [Ne.symm hfile] using hkept
      have hnewest : newest.file = file := (mem_inFile.1 (htodo ▸ List.mem_cons_self)).2
      have hsettled : reconciler.settledAt w₁.disk.tree key newest =
          reconciler.settledAt w.disk.tree key newest :=
        settledAt_congr hrenames key
          (hnewest ▸ hstep.touched.onward.saved.agreeAt hwatched.still)
      rw [← hsettled]
      exact ih hrest has₁ hrest_written hkept₁ hwatched₁ htodo₁ (hin₁.trans hmine)

/-- The anchors in a file stay as they are when every one of them is passed over. -/
theorem inFile_of_passed {key file : Text} {roots : List Location} {kept : List Text}
    {todo as : List Anchor} {checks : List AnchorVerdict} {w w' : Workspace}
    (hdry : reconciler.dryRun = false)
    (hpass : ∀ a ∈ todo, a.file = file → ∀ kept v kept' v', w.Onward v →
      Step reconciler key roots kept a v kept' v' → v' = v)
    (h : (reconciler.reconcileAnchors key roots kept todo).Yields w checks w')
    (has : w.anchors key = .ok as) (hwritten : ∀ a ∈ todo, a.IsWritten) :
    ∃ as', w'.anchors key = .ok as' ∧ inFile file as' = inFile file as := by
  induction todo generalizing kept as checks w with
  | nil =>
    obtain ⟨-, rfl⟩ := Work.yields_pure.1 h
    exact ⟨as, has, rfl⟩
  | cons anchor rest ih =>
    obtain ⟨kept', w₁, others, hstep, hrest⟩ := yields_reconcileAnchors_cons h
    have hnext : ∃ as₁, w₁.anchors key = .ok as₁ ∧ inFile file as₁ = inFile file as := by
      by_cases hfile : anchor.file = file
      · rw [hpass anchor List.mem_cons_self hfile _ _ _ _ (.refl w) hstep]
        exact ⟨as, has, rfl⟩
      · exact hstep.inFile_of_ne hrenames hdry has (hwritten anchor (by simp)) hfile
    obtain ⟨as₁, has₁, hin₁⟩ := hnext
    have honward := hstep.touched.onward
    obtain ⟨as', has', hin'⟩ := ih
      (fun a ha hfile kept v kept' v' hv hs =>
        hpass a (List.mem_cons_of_mem _ ha) hfile kept v kept' v' (honward.trans hv) hs)
      hrest has₁ (fun a ha => hwritten a (by simp [ha]))
    exact ⟨as', has', hin'.trans hin₁⟩

/-- The anchors in a confirmed file are passed over. -/
theorem Step.eq_of_confirmed {key : Text} {roots : List Location} {kept kept' : List Text}
    {anchor : Anchor} {w w' : Workspace} (h : Step reconciler key roots kept anchor w kept' w')
    (hconfirmed : (key, anchor.file) ∈ w.sightings.confirmed) : w' = w := by
  have hname := effective_of_no_renames hrenames anchor.file
  cases h with
  | outside => rfl
  | confirmed => rfl
  | superseded _ hopen => exact absurd hname (hopen hconfirmed)
  | rechecked _ hopen => exact absurd hname (hopen hconfirmed)

/-- The anchors in a confirmed file stay as they are. -/
theorem inFile_of_confirmed {key file : Text} {roots : List Location} {kept : List Text}
    {todo as : List Anchor} {checks : List AnchorVerdict} {w w' : Workspace}
    (hdry : reconciler.dryRun = false)
    (h : (reconciler.reconcileAnchors key roots kept todo).Yields w checks w')
    (has : w.anchors key = .ok as) (hwritten : ∀ a ∈ todo, a.IsWritten)
    (hconfirmed : (key, file) ∈ w.sightings.confirmed) :
    ∃ as', w'.anchors key = .ok as' ∧ inFile file as' = inFile file as := by
  refine inFile_of_passed hrenames hdry ?_ h has hwritten
  rintro a - rfl kept v kept' v' honward hstep
  exact hstep.eq_of_confirmed hrenames (honward.confirmed ▸ hconfirmed)

/-- In a file that holds the key, an anchor is settled on a line with the key. -/
theorem isAt_settledAt {tree : FileTree} {key : Text} {anchor : Anchor} {text : Text} {n : Int}
    (htext : tree.readText (reconciler.path anchor.file) = .ok text)
    (hkey : KeyToken.isAt text.contents key n = true) :
    KeyToken.isAt text.contents key (reconciler.settledAt tree key anchor).line = true := by
  have hinspect : reconciler.inspect tree key anchor =
      .ok (reconciler.judge key anchor text.contents) := by
    rw [inspect, newName?_of_no_renames hrenames]
    dsimp only [Option.getD_none]
    rw [FileTree.existsAt_of_readText htext, htext]
    rfl
  rw [settledAt, hinspect]
  dsimp only
  rw [judge_settled]
  have hsome : (reconciler.locate text.contents anchor.line key).isSome = true :=
    isSome_locate hkey anchor.line
  obtain ⟨line, hline⟩ := Option.isSome_iff_exists.1 hsome
  rw [hline]
  exact isAt_of_locate hline

end NoRenames

/-- Without renames, reconciling keeps a task in a file below the roots, except when the file was
not confirmed and its newest anchor settles where an older one stands. An anchor that is kept in a
readable file that holds the key is then on a line with the key. -/
theorem reconcile_keeps_file_iff {reconciler : Reconciler} {roots : List Location}
    {checks : List AnchorVerdict} {w w' : Workspace} {key file : Text}
    {before older : List Anchor} {newest : Anchor}
    (hrenames : reconciler.renames = []) (hdry : reconciler.dryRun = false)
    (hrun : (reconciler.reconcile roots).Yields w checks w')
    (hstill : w.Undisturbed (reconciler.path file))
    (hbefore : w.anchors key = .ok before) (hmine : inFile file before = older ++ [newest])
    (hbelow : reconciler.isBelow w.disk.tree roots newest = .ok true) :
    ∃ after, w'.anchors key = .ok after ∧
      ((∃ a ∈ after, a.file = file) ↔ (key, file) ∈ w.sightings.confirmed ∨
        reconciler.settledAt w.disk.tree key newest ∉ older) ∧
      ((key, file) ∉ w.sightings.confirmed →
        ∀ text n, w.disk.tree.readText (reconciler.path file) = .ok text →
          KeyToken.isAt text.contents key n = true →
          ∀ a ∈ after, a.file = file → KeyToken.isAt text.contents key a.line = true) := by
  have hnewest : newest ∈ before ∧ newest.file = file :=
    mem_inFile.1 (by rw [hmine]; simp)
  have hwritten : ∀ a ∈ before.reverse, a.IsWritten := fun a ha =>
    Document.isWritten_of_mem_anchors hbefore (List.mem_reverse.1 ha)
  obtain ⟨w₁, w₂, own, honward, h₁, hown, h₂⟩ := exists_of_reconcile hbefore hrun
  by_cases hconfirmed : (key, file) ∈ w.sightings.confirmed
  · obtain ⟨after, hafter, hin⟩ :=
      inFile_of_confirmed hrenames hdry hown h₁ hwritten (honward.confirmed ▸ hconfirmed)
    refine ⟨after, h₂.trans hafter, ⟨fun _ => .inl hconfirmed, fun _ => ?_⟩,
      fun hopen => absurd hconfirmed hopen⟩
    have hmem : newest ∈ inFile file after := hin ▸ mem_inFile.2 hnewest
    exact ⟨newest, mem_inFile.1 hmem⟩
  · have hwatched : Watched reconciler key file roots w := by
      refine ⟨hstill, fun a ha => ?_, hconfirmed⟩
      rw [← hbelow, isBelow, isBelow, ha, hnewest.2]
    have hunkept : file ∉ w.sightings.filesOf key := fun hmem => hconfirmed (mem_filesOf.1 hmem)
    have htodo : inFile file before.reverse = newest :: older.reverse := by
      rw [inFile, List.filter_reverse, ← inFile, hmine]
      simp
    obtain ⟨after, hafter, hin⟩ := inFile_of_unkept hrenames hdry hown h₁ hwritten hunkept
      (hwatched.onward hrenames honward) htodo (by rw [hmine, List.reverse_reverse])
    have hsettled : reconciler.settledAt w₁.disk.tree key newest =
        reconciler.settledAt w.disk.tree key newest :=
      settledAt_congr hrenames key (hnewest.2 ▸ honward.saved.agreeAt hstill)
    simp only [hsettled, List.mem_reverse] at hin
    refine ⟨after, h₂.trans hafter, ?_, ?_⟩
    · simp only [← mem_inFile, hin, hconfirmed, false_or]
      split <;> simp [*]
    · intro _ text n htext hkey a ha hfile
      have hmem : a ∈ inFile file after := mem_inFile.2 ⟨ha, hfile⟩
      rw [hin] at hmem
      split at hmem
      · cases hmem
      · rw [List.mem_singleton.1 hmem]
        exact isAt_settledAt hrenames (hnewest.2 ▸ htext) hkey

/-- A task with two anchors in a file, of which the newer one has drifted. -/
def driftedWorkspace : Workspace := .inMemory
  ⟨[(["repo".toList], .directory),
    (["repo".toList, "a.py".toList], .file (Utf8.encode "x = 1\n# TODO(PROJ-1): fix\n".toList))],
    by decide⟩
  ⟨[("PROJ-1".toList, .object [(Document.referencesName, .list
    [Anchor.toReference ⟨"a.py".toList, 1⟩, Anchor.toReference ⟨"a.py".toList, 9⟩])])],
    by decide⟩

def plainReconciler : Reconciler := ⟨["repo".toList], 20, [], false⟩

/-- The newer anchor moves to the line with the key, which is not where the older one stands. -/
theorem reconcile_keeps_drifted_file :
    ∃ after,
      ((plainReconciler.reconcile [["repo".toList]]).run driftedWorkspace).2.anchors
        "PROJ-1".toList = .ok after ∧ ∃ a ∈ after, a.file = "a.py".toList := by
  obtain ⟨checks, hrun⟩ : ∃ checks, (plainReconciler.reconcile [["repo".toList]]).Yields
      driftedWorkspace checks _ := Work.exists_yields (by cbv)
  have hbefore : driftedWorkspace.anchors "PROJ-1".toList =
      .ok [⟨"a.py".toList, 1⟩, ⟨"a.py".toList, 9⟩] := by cbv
  have hmine : inFile "a.py".toList [⟨"a.py".toList, 1⟩, ⟨"a.py".toList, 9⟩] =
      [⟨"a.py".toList, 1⟩] ++ [⟨"a.py".toList, 9⟩] := by cbv
  have hbelow : plainReconciler.isBelow driftedWorkspace.disk.tree [["repo".toList]]
      ⟨"a.py".toList, 9⟩ = .ok true := by cbv
  have hsettled : plainReconciler.settledAt driftedWorkspace.disk.tree "PROJ-1".toList
      ⟨"a.py".toList, 9⟩ = ⟨"a.py".toList, 2⟩ := by cbv
  obtain ⟨after, hafter, hiff, -⟩ := reconcile_keeps_file_iff rfl rfl hrun
    (Workspace.undisturbed_inMemory _ _ _) hbefore hmine hbelow
  refine ⟨after, hafter, hiff.2 (.inr ?_)⟩
  rw [hsettled]
  decide

end Reconciler

end TodoTracker
