import TodoTracker.Proofs.Anchor.Single
import TodoTracker.Proofs.Task.Tally

/-!
# Anchors in renamed files

An anchor in a renamed file counts for the new one. Where the key was sighted in the new file, the
anchor is dropped for the one that was sighted. Else it moves there, to the line with the key that is
nearest to where it was. It is reported once, as renamed.
-/

set_option autoImplicit false

namespace TodoTracker

/-- With one anchor in each file at most, an anchor is the only one in its file. -/
theorem inFile_of_nodup {as : List Anchor} {a : Anchor} (hnodup : (as.map Anchor.file).Nodup)
    (ha : a ∈ as) : inFile a.file as = [a] := by
  induction as with
  | nil => cases ha
  | cons b as ih =>
    obtain ⟨hnew, hnodup⟩ := List.nodup_cons.1 hnodup
    rcases List.mem_cons.1 ha with rfl | ha
    · have hrest : inFile a.file as = [] := by
        rw [inFile, List.filter_eq_nil_iff]
        intro c hc hfile
        exact hnew (of_decide_eq_true hfile ▸ List.mem_map_of_mem hc)
      rw [inFile, List.filter_cons_of_pos (by simp), ← inFile, hrest]
    · have hne : b.file ≠ a.file := fun heq => hnew (heq ▸ List.mem_map_of_mem ha)
      rw [inFile, List.filter_cons_of_neg (by simpa using hne), ← inFile, ih hnodup ha]

namespace Reconciler

open Work

variable {reconciler : Reconciler} {key name file : Text} {roots : List Location}
  {kept kept' : List Text} {anchor : Anchor} {as todo : List Anchor} {told checks : List AnchorVerdict}
  {found : List (Text × Anchor)} {v w w' : Workspace}

/-- The anchors that count for a file: those in it, and those in a file that was renamed to it. -/
def countedFor (reconciler : Reconciler) (name : Text) (as : List Anchor) : List Anchor :=
  as.filter (reconciler.effective ·.file = name)

theorem inFile_countedFor (h : reconciler.effective file = name) (as : List Anchor) :
    inFile file (reconciler.countedFor name as) = inFile file as := by
  rw [inFile, inFile, countedFor, List.filter_filter]
  refine List.filter_congr fun a _ => ?_
  by_cases hfile : a.file = file <;> simp [hfile, h]

theorem countedFor_filter (as : List Anchor) (p : Anchor → Bool) :
    reconciler.countedFor name (as.filter p) = (reconciler.countedFor name as).filter p := by
  rw [countedFor, countedFor, List.filter_comm]

theorem countedFor_filter_ne (as : List Anchor) {old : Anchor}
    (h : reconciler.effective old.file ≠ name) :
    reconciler.countedFor name (as.filter (· ≠ old)) = reconciler.countedFor name as := by
  rw [countedFor_filter, List.filter_eq_self]
  intro a ha
  have hname := of_decide_eq_true (List.mem_filter.1 ha).2
  simpa using fun heq : a = old => h (heq ▸ hname)

theorem countedFor_replaced_of_ne (as : List Anchor) {old new : Anchor}
    (hnew : reconciler.effective new.file = reconciler.effective old.file)
    (h : reconciler.effective old.file ≠ name) :
    reconciler.countedFor name (replaced as old new) = reconciler.countedFor name as := by
  rw [replaced]
  split
  · rfl
  · rw [countedFor_filter_ne _ h, countedFor, List.filter_append, ← countedFor]
    split <;> simp [hnew, h]

theorem countedFor_replaced (as : List Anchor) {old new : Anchor}
    (hnew : reconciler.effective new.file = name) :
    reconciler.countedFor name (replaced as old new) =
      replaced (reconciler.countedFor name as) old new := by
  have hmem : new ∈ reconciler.countedFor name as ↔ new ∈ as := by simp [countedFor, hnew]
  rw [replaced, replaced]
  split
  · rfl
  · simp only [hmem]
    rw [countedFor_filter, countedFor, List.filter_append, ← countedFor]
    split <;> simp [hnew]

/-- An anchor does not count for a file, or its key was confirmed in it. -/
def Aside (reconciler : Reconciler) (key name : Text) (w : Workspace) (a : Anchor) : Prop :=
  reconciler.effective a.file = name →
    reconciler.effective a.file = a.file ∧ (key, a.file) ∈ w.sightings.confirmed

theorem Aside.onward {a : Anchor} (h : reconciler.Aside key name w a) (honward : w.Onward w') :
    reconciler.Aside key name w' a :=
  fun hname => honward.confirmed ▸ h hname

/-- A step with an anchor that is aside changes nothing for the file. -/
theorem Step.aside (hdirect : reconciler.Direct) (hdry : reconciler.dryRun = false)
    (h : Step reconciler key roots kept anchor w kept' w')
    (haside : reconciler.Aside key name w anchor) (hwritten : anchor.IsWritten)
    (has : w.anchors key = .ok as) :
    ∃ as', w'.anchors key = .ok as' ∧
      reconciler.countedFor name as' = reconciler.countedFor name as ∧
      (name ∈ kept' ↔ name ∈ kept) := by
  cases h with
  | outside => exact ⟨as, has, rfl, Iff.rfl⟩
  | confirmed => exact ⟨as, has, rfl, Iff.rfl⟩
  | superseded _ hopen _ h =>
    have hne : reconciler.effective anchor.file ≠ name := fun hname =>
      hopen (haside hname).2 (haside hname).1
    obtain ⟨as₀, has₀, hafter⟩ := (yields_supersede h).2 hdry
    rw [has] at has₀
    cases has₀
    exact ⟨_, hafter, countedFor_filter_ne as hne, Iff.rfl⟩
  | rechecked _ hopen _ h =>
    have hne : reconciler.effective anchor.file ≠ name := fun hname =>
      hopen (haside hname).2 (haside hname).1
    obtain ⟨hinspect, hafter⟩ := hdirect.yields_recheck hdry hwritten has h
    refine ⟨_, hafter, countedFor_replaced_of_ne as (hdirect.settled hinspect).1 hne, ?_⟩
    rw [List.mem_cons, or_iff_right (Ne.symm hne)]

theorem Told.aside (h : Told reconciler key roots kept anchor w told)
    (haside : reconciler.Aside key name w anchor) :
    told.filter (reconciler.effective ·.anchor.file = name) = [] := by
  rw [List.filter_eq_nil_iff]
  intro check hcheck hname
  rw [(h.about check hcheck).2, decide_eq_true_eq] at hname
  obtain ⟨hsame, hconfirmed⟩ := haside hname
  cases h with
  | nothing => cases hcheck
  | superseded hopen => exact hopen hconfirmed hsame
  | rechecked hopen => exact hopen hconfirmed hsame

/-- Going through anchors that are all aside changes and reports nothing for the file. -/
theorem countedFor_of_aside (hdirect : reconciler.Direct) (hdry : reconciler.dryRun = false)
    (haside : ∀ a ∈ todo, reconciler.Aside key name w a) (hwritten : ∀ a ∈ todo, a.IsWritten)
    (has : w.anchors key = .ok as)
    (h : (reconciler.reconcileAnchors key roots kept todo).Yields w checks w') :
    ∃ as', w'.anchors key = .ok as' ∧
      reconciler.countedFor name as' = reconciler.countedFor name as ∧
      checks.filter (reconciler.effective ·.anchor.file = name) = [] := by
  induction todo generalizing kept as checks w with
  | nil =>
    obtain ⟨rfl, rfl⟩ := yields_pure.1 h
    exact ⟨as, has, rfl, rfl⟩
  | cons anchor rest ih =>
    obtain ⟨kept', w₁, told, others, hstep, htold, rfl, hrest⟩ := told_of_reconcileAnchors h
    have hhead := haside anchor List.mem_cons_self
    obtain ⟨as₁, has₁, hcounted₁, -⟩ :=
      hstep.aside hdirect hdry hhead (hwritten anchor List.mem_cons_self) has
    obtain ⟨as', has', hcounted', hothers⟩ := ih
      (fun a ha => (haside a (List.mem_cons_of_mem _ ha)).onward hstep.touched.onward)
      (fun a ha => hwritten a (List.mem_cons_of_mem _ ha)) has₁ hrest
    refine ⟨as', has', hcounted'.trans hcounted₁, ?_⟩
    rw [List.filter_append, htold.aside hhead, hothers]
    rfl

/-- What becomes of an anchor in a renamed file: it is dropped if the new file has its anchor, and
moves to where a check settles it else. -/
inductive Followed (reconciler : Reconciler) (key name : Text) (kept : List Text) (anchor : Anchor)
    (w : Workspace) (counted : List Anchor) : AnchorVerdict → List Anchor → Prop
  | dropped (hkept : name ∈ kept) :
      Followed reconciler key name kept anchor w counted (supersededBy key anchor name)
        (counted.filter (· ≠ anchor))
  | moved {check : AnchorVerdict} {v : Workspace} (hkept : name ∉ kept) (honward : w.Onward v)
      (h : reconciler.inspect v.disk.tree key anchor = .ok check) :
      Followed reconciler key name kept anchor w counted check
        (replaced counted anchor check.settled)

theorem Followed.earlier {counted after : List Anchor} {check : AnchorVerdict}
    (h : Followed reconciler key name kept' anchor v counted check after) (honward : w.Onward v)
    (hkept : name ∈ kept' ↔ name ∈ kept) :
    Followed reconciler key name kept anchor w counted check after := by
  cases h with
  | dropped h => exact .dropped (hkept.1 h)
  | moved h hv hinspect => exact .moved (mt hkept.2 h) (honward.trans hv) hinspect

theorem Followed.about {counted after : List Anchor} {check : AnchorVerdict}
    (h : Followed reconciler key name kept anchor w counted check after) :
    check.anchor = anchor := by
  cases h with
  | dropped => rfl
  | moved _ _ h => exact (inspect_eq_ok h).1

/-- A step with an anchor in a renamed file drops or moves it, and reports it. -/
theorem Step.followed (hdirect : reconciler.Direct) (hdry : reconciler.dryRun = false)
    (h : Step reconciler key roots kept anchor w kept' w')
    (htold : Told reconciler key roots kept anchor w told)
    (hbelow : reconciler.isBelow w.disk.tree roots anchor ≠ .ok false)
    (hother : reconciler.effective anchor.file ≠ anchor.file) (hwritten : anchor.IsWritten)
    (has : w.anchors key = .ok as) :
    ∃ as' check, w'.anchors key = .ok as' ∧ told = [check] ∧
      Followed reconciler key (reconciler.effective anchor.file) kept anchor w
        (reconciler.countedFor (reconciler.effective anchor.file) as) check
        (reconciler.countedFor (reconciler.effective anchor.file) as') := by
  cases h with
  | outside hout => exact absurd hout hbelow
  | confirmed _ _ hsame => exact absurd hsame hother
  | superseded _ _ hkept h =>
    obtain ⟨as₀, has₀, hafter⟩ := (yields_supersede h).2 hdry
    rw [has] at has₀
    cases has₀
    refine ⟨_, supersededBy key anchor (reconciler.effective anchor.file), hafter, ?_, ?_⟩
    · cases htold with
      | nothing hpassed => exact absurd hpassed (not_or.2 ⟨hbelow, fun h => hother h.2⟩)
      | superseded => rfl
      | rechecked _ hunkept => exact absurd hkept hunkept
    · rw [countedFor_filter]
      exact .dropped hkept
  | @rechecked check _ _ _ hunkept h =>
    obtain ⟨hinspect, hafter⟩ := hdirect.yields_recheck hdry hwritten has h
    refine ⟨_, check, hafter, ?_, ?_⟩
    · cases htold with
      | nothing hpassed => exact absurd hpassed (not_or.2 ⟨hbelow, fun h => hother h.2⟩)
      | superseded _ hkept => exact absurd hkept hunkept
      | rechecked _ _ htold =>
        rw [hinspect] at htold
        cases htold
        rfl
    · rw [countedFor_replaced as (hdirect.settled hinspect).1]
      exact .moved hunkept (.refl w) hinspect

/-- Going through the anchors of a task drops or moves the one in a renamed file, and reports it
once, when the others are aside. -/
theorem followed_of_reconcileAnchors (hdirect : reconciler.Direct)
    (hdry : reconciler.dryRun = false) (hmem : anchor ∈ todo) (hnodup : todo.Nodup)
    (hother : reconciler.effective anchor.file ≠ anchor.file)
    (hbelow : ∀ v, w.Onward v → reconciler.isBelow v.disk.tree roots anchor ≠ .ok false)
    (haside : ∀ a ∈ todo, a ≠ anchor →
      reconciler.Aside key (reconciler.effective anchor.file) w a)
    (hwritten : ∀ a ∈ todo, a.IsWritten) (has : w.anchors key = .ok as)
    (h : (reconciler.reconcileAnchors key roots kept todo).Yields w checks w') :
    ∃ as' check, w'.anchors key = .ok as' ∧
      checks.filter (reconciler.effective ·.anchor.file = reconciler.effective anchor.file) =
        [check] ∧
      Followed reconciler key (reconciler.effective anchor.file) kept anchor w
        (reconciler.countedFor (reconciler.effective anchor.file) as) check
        (reconciler.countedFor (reconciler.effective anchor.file) as') := by
  induction todo generalizing kept as checks w with
  | nil => cases hmem
  | cons first rest ih =>
    obtain ⟨kept', w₁, told, others, hstep, htold, rfl, hrest⟩ := told_of_reconcileAnchors h
    obtain ⟨hnew, hnodup⟩ := List.nodup_cons.1 hnodup
    have hfirst := hwritten first List.mem_cons_self
    have hwritten_rest : ∀ a ∈ rest, a.IsWritten :=
      fun a ha => hwritten a (List.mem_cons_of_mem _ ha)
    have honward := hstep.touched.onward
    by_cases heq : first = anchor
    · subst heq
      obtain ⟨as₁, check, has₁, rfl, hfollowed⟩ :=
        hstep.followed hdirect hdry htold (hbelow w (.refl w)) hother hfirst has
      have haside_rest : ∀ a ∈ rest,
          reconciler.Aside key (reconciler.effective first.file) w₁ a := fun a ha =>
        (haside a (List.mem_cons_of_mem _ ha) fun heq => hnew (heq ▸ ha)).onward honward
      obtain ⟨as', has', hcounted, hothers⟩ :=
        countedFor_of_aside hdirect hdry haside_rest hwritten_rest has₁ hrest
      refine ⟨as', check, has', ?_, hcounted ▸ hfollowed⟩
      have hanchor := (htold.about check List.mem_cons_self).2
      rw [List.filter_append, hothers, List.filter_cons_of_pos (by simp [hanchor])]
      rfl
    · have hhead := haside first List.mem_cons_self heq
      obtain ⟨as₁, has₁, hcounted, hkept⟩ := hstep.aside hdirect hdry hhead hfirst has
      obtain ⟨as', check, has', hothers, hfollowed⟩ := ih
        ((List.mem_cons.1 hmem).resolve_left (Ne.symm heq)) hnodup
        (fun v hv => hbelow v (honward.trans hv))
        (fun a ha hne => (haside a (List.mem_cons_of_mem _ ha) hne).onward honward)
        hwritten_rest has₁ hrest
      refine ⟨as', check, has', ?_, hcounted ▸ hfollowed.earlier honward hkept⟩
      rw [List.filter_append, htold.aside hhead, hothers]
      rfl

section Sightings

theorem onePerFile_of_confirm {answer : Confirmation} (hone : w.OnePerFile)
    (hdry : reconciler.dryRun = false) (hplain : Anchor.IsPlain anchor.file)
    (h : (reconciler.confirm key anchor).Yields w answer w') : w'.OnePerFile := by
  obtain ⟨-, -, hothers, as, recorded, has, hafter, hrecorded⟩ := yields_confirm_recorded hdry h
  intro other after hother
  by_cases hkey : other = key
  · subst hkey
    rw [hafter] at hother
    cases hother
    have hleft : ((as.filter fun a => ¬(a.file = anchor.file ∧ a ≠ anchor)).map
        Anchor.file).Nodup := (hone other as has).sublist (List.filter_sublist.map _)
    rcases hrecorded with ⟨rfl, -⟩ | ⟨habsent, rfl⟩
    · rwa [List.append_nil]
    · by_cases hline : 1 ≤ anchor.line
      · rw [Document.readBack_of_isWritten ⟨hplain.addressable, hline⟩, List.map_append,
          List.map_singleton, List.nodup_append]
        refine ⟨hleft, List.nodup_singleton _, ?_⟩
        rintro file hin _ hlast rfl
        obtain ⟨a, ha, hfile⟩ := List.mem_map.1 hin
        obtain ⟨ha, hkept⟩ := List.mem_filter.1 ha
        have hsame := hfile.trans (List.mem_singleton.1 hlast)
        have hne : a ≠ anchor := fun heq => habsent (heq ▸ ha)
        simp [hsame, hne] at hkept
      · rw [Document.readBack, Anchor.code, Anchor.ofCode?_of_not_pos hplain hline,
          Option.toList_none, List.append_nil]
        exact hleft
  · rw [hothers other hkey] at hother
    exact hone other after hother

theorem onePerFile_of_confirmEach {u : Unit} (hone : w.OnePerFile)
    (hdry : reconciler.dryRun = false) (hplain : ∀ s ∈ found, Anchor.IsPlain s.2.file)
    (h : (reconciler.confirmEach found).Yields w u w') : w'.OnePerFile := by
  induction found generalizing w with
  | nil =>
    obtain ⟨-, rfl⟩ := yields_pure.1 h
    exact hone
  | cons s found ih =>
    obtain ⟨answer, w₁, hconfirm, hrest⟩ := yields_confirmEach_cons h
    exact ih (onePerFile_of_confirm hone hdry (hplain s List.mem_cons_self) hconfirm)
      (fun t ht => hplain t (List.mem_cons_of_mem s ht)) hrest

theorem mem_of_lastIn {a : Anchor} (h : lastIn found key file = some a) :
    (key, a) ∈ found ∧ a.file = file := by
  rw [lastIn, Option.map_eq_some_iff] at h
  obtain ⟨s, hs, rfl⟩ := h
  obtain ⟨hmem, hmine⟩ := List.mem_filter.1 (List.mem_of_getLast? hs)
  obtain ⟨rfl, hfile⟩ := of_decide_eq_true hmine
  exact ⟨hmem, hfile⟩

theorem mem_confirmed_of_confirmEach {u : Unit} (hdry : reconciler.dryRun = false)
    (h : (reconciler.confirmEach found).Yields w u w') :
    (key, file) ∈ w'.sightings.confirmed ↔
      (key, file) ∈ w.sightings.confirmed ∨ (lastIn found key file).isSome := by
  induction found generalizing w with
  | nil =>
    obtain ⟨-, rfl⟩ := yields_pure.1 h
    simp [lastIn]
  | cons s found ih =>
    obtain ⟨answer, w₁, hconfirm, hrest⟩ := yields_confirmEach_cons h
    obtain ⟨-, hconfirmed, -⟩ := yields_confirm_recorded hdry hconfirm
    have hsplit : lastIn (s :: found) key file =
        (lastIn found key file).or (lastIn [s] key file) := lastIn_append [s] found key file
    rw [ih hrest, hconfirmed, mem_confirmed_add_iff, hsplit, Option.isSome_or, Bool.or_eq_true,
      or_assoc, or_comm (a := (lastIn found key file).isSome = true)]

/-- The last sighting of a key in a file holds after all of them, if it is on a line there. -/
theorem holds_of_lastIn {u : Unit} (hdry : reconciler.dryRun = false)
    (hplain : ∀ s ∈ found, Anchor.IsPlain s.2.file)
    (h : (reconciler.confirmEach found).Yields w u w') {a : Anchor}
    (hlast : lastIn found key file = some a) (hline : 1 ≤ a.line) : Holds key a w' := by
  induction found generalizing w with
  | nil => cases hlast
  | cons s found ih =>
    obtain ⟨answer, w₁, hconfirm, hrest⟩ := yields_confirmEach_cons h
    have hplain_rest : ∀ t ∈ found, Anchor.IsPlain t.2.file :=
      fun t ht => hplain t (List.mem_cons_of_mem s ht)
    rw [← List.singleton_append, lastIn_append, Option.or_eq_some_iff] at hlast
    rcases hlast with hlater | ⟨hnone, hfirst⟩
    · exact ih hplain_rest hrest hlater
    · rw [lastIn_singleton] at hfirst
      split at hfirst
      · rename_i hmine
        cases hfirst
        obtain ⟨rfl, rfl⟩ := hmine
        have hread := Document.readBack_of_isWritten
          ⟨(hplain s List.mem_cons_self).addressable, hline⟩
        have helsewhere : ∀ t ∈ found, ¬(t.1 = s.1 ∧ t.2.file = s.2.file) := by
          intro t ht hsame
          rw [lastIn, Option.map_eq_none_iff, List.getLast?_eq_none_iff,
            List.filter_eq_nil_iff] at hnone
          exact hnone t ht (decide_eq_true hsame)
        exact ((holds_of_confirm hdry hread hconfirm).confirmEach hdry helsewhere hrest).2
      · cases hfirst

end Sightings

/-- No two files were renamed to one. -/
def NamesApart (reconciler : Reconciler) : Prop :=
  ∀ r ∈ reconciler.renames, ∀ r' ∈ reconciler.renames, r.2 = r'.2 → r.1 = r'.1

/-- The anchors that count for a file under its new name are in it or in the renamed one. -/
theorem NamesApart.file_eq {old new : Text} (hapart : reconciler.NamesApart)
    (hrenamed : Fields.get? reconciler.renames old = some new)
    (h : reconciler.effective file = new) : file = old ∨ file = new := by
  rw [effective] at h
  cases hget : Fields.get? reconciler.renames file with
  | none =>
    rw [hget] at h
    exact .inr h
  | some name =>
    rw [hget] at h
    exact .inl (hapart _ (Fields.mem_of_get? hget) _ (Fields.mem_of_get? hrenamed) h)

theorem NamesApart.countedFor_eq {old new : Text} (hapart : reconciler.NamesApart)
    (hrenamed : Fields.get? reconciler.renames old = some new)
    (hnew : ∀ a ∈ as, a.file ≠ new) : reconciler.countedFor new as = inFile old as := by
  refine List.filter_congr fun a ha => ?_
  rw [decide_eq_decide]
  refine ⟨fun hname => (hapart.file_eq hrenamed hname).resolve_right (hnew a ha), ?_⟩
  rintro rfl
  exact effective_of_get? hrenamed

theorem isBelow_of_newName {tree : FileTree} {n : Int}
    (hrenamed : Fields.get? reconciler.renames anchor.file = some name)
    (hfinal : Fields.get? reconciler.renames name = none)
    (hbelow : reconciler.isBelow tree roots ⟨name, n⟩ = .ok true) :
    reconciler.isBelow tree roots anchor ≠ .ok false := by
  intro hout
  rw [isBelow] at hbelow hout
  obtain ⟨new, hnew, hbelow⟩ := bind_eq_ok hbelow
  obtain ⟨old, -, hout⟩ := bind_eq_ok hout
  have hin : roots.any new.within = true := by
    split at hbelow
    · assumption
    · rw [hfinal] at hbelow
      cases hbelow
  split at hout
  · cases hout
  · rw [hrenamed] at hout
    dsimp only at hnew hout
    rw [hnew] at hout
    have hfalse : roots.any new.within = false := Except.ok.inj hout
    rw [hin] at hfalse
    cases hfalse

/-- A check of an anchor in a renamed file that holds the key settles it on the nearest line. -/
theorem inspect_renamed {tree : FileTree} {text : Text} {n : Int}
    (hname : reconciler.newName? anchor.file = some name)
    (htext : tree.readText (reconciler.path name) = .ok text)
    (hkey : KeyToken.isAt text.contents key n = true) {check : AnchorVerdict}
    (h : reconciler.inspect tree key anchor = .ok check) :
    check.state = .renamed ∧ check.settled.file = name ∧
      KeyToken.Nearest text.contents key anchor.line check.settled.line := by
  obtain ⟨m, hlocate⟩ := Option.isSome_iff_exists.1 (isSome_locate hkey anchor.line)
  have hjudged : reconciler.inspect tree key anchor =
      .ok (reconciler.judge key anchor text.contents) := by
    rw [inspect, hname]
    dsimp only [Option.getD_some]
    rw [FileTree.existsAt_of_readText htext, htext]
    rfl
  rw [hjudged, Except.ok.injEq] at h
  subst h
  rw [judge_settled, hname, hlocate]
  refine ⟨?_, rfl, nearest_of_locate hlocate⟩
  rw [judge, hname, hlocate]
  rfl

/-- Of the checks of a task for a file, those of one of its anchors are told by their file. -/
theorem filter_reported {check : AnchorVerdict} (hname : reconciler.effective file = name)
    (h : (checks.filter (·.key = key)).filter (reconciler.effective ·.anchor.file = name) = [check])
    (hfile : check.anchor.file = file) :
    checks.filter (fun c => c.key = key ∧ c.anchor.file = file) = [check] :=
  calc checks.filter (fun c => c.key = key ∧ c.anchor.file = file)
    _ = ((checks.filter (·.key = key)).filter
          (reconciler.effective ·.anchor.file = name)).filter (·.anchor.file = file) := by
      rw [List.filter_filter, List.filter_filter]
      refine List.filter_congr fun c _ => ?_
      by_cases hc : c.anchor.file = file <;> simp [hc, hname]
    _ = [check] := by
      rw [h]
      simp [hfile]

/-- After any sightings with fresh notes, reconciling leaves a task with an anchor in a renamed file
without it and with one in the new file, when that is below the roots and holds the key: the one
that was sighted there last, or else one on the line with the key that is nearest to where the
anchor was. The anchor is reported once, as renamed. A sighted line number below one is never
recorded. -/
theorem reconcile_follows_rename {old new text : Text} {line n : Int} {before : List Anchor}
    (hdry : reconciler.dryRun = false) (hdirect : reconciler.Direct)
    (hapart : reconciler.NamesApart) (hone : w.OnePerFile) (hfresh : w.sightings.confirmed = [])
    (hplain : ∀ s ∈ found, Anchor.IsPlain s.2.file)
    (hconfirm : (reconciler.confirmEach found).Yields w () v)
    (hreconcile : (reconciler.reconcile roots).Yields v checks w')
    (hrenamed : reconciler.newName? old = some new) (hsteady : reconciler.Steady w old)
    (hbelow : reconciler.isBelow w.disk.tree roots ⟨new, line⟩ = .ok true)
    (htext : w.disk.tree.readText (reconciler.path new) = .ok text)
    (hkey : KeyToken.isAt text.contents key n = true)
    (hbefore : v.anchors key = .ok before) (hmem : ⟨old, line⟩ ∈ before)
    (hnew : lastIn found key new = none → ∀ a ∈ before, a.file ≠ new) :
    ∃ after, w'.anchors key = .ok after ∧ inFile old after = [] ∧
      (∀ a, lastIn found key new = some a → 1 ≤ a.line → inFile new after = [a]) ∧
      (lastIn found key new = none → ∃ m, inFile new after = [⟨new, m⟩] ∧
        KeyToken.Nearest text.contents key line m ∧
        (KeyToken.isAt text.contents key line = true → m = line)) ∧
      (checks.filter fun c => c.key = key ∧ c.anchor.file = old).map (·.state) = [.renamed] := by
  have hget := get?_of_newName? hrenamed
  have hfinal : Fields.get? reconciler.renames new = none :=
    hdirect.final _ (Fields.mem_of_get? hget)
  have hold : reconciler.effective old = new := effective_of_get? hget
  have hself : reconciler.effective new = new := by rw [effective, hfinal]; rfl
  have hne : new ≠ old := by
    rintro rfl
    rw [hget] at hfinal
    cases hfinal
  have hsaved := saved_of_confirmEach hdry hconfirm
  have hnodup := onePerFile_of_confirmEach hone hdry hplain hconfirm key before hbefore
  have hconfirmed : ∀ file, (key, file) ∈ v.sightings.confirmed ↔
      (lastIn found key file).isSome := by
    intro file
    rw [mem_confirmed_of_confirmEach hdry hconfirm, hfresh]
    simp
  obtain ⟨w₁, w₂, honward, h₁, hown, h₂⟩ := own_of_reconcile hbefore hreconcile
  -- every other anchor that counts for the new file is the one that was sighted there
  have haside : ∀ a ∈ before.reverse, a ≠ ⟨old, line⟩ → reconciler.Aside key new w₁ a := by
    intro a ha hother hname
    rw [List.mem_reverse] at ha
    rcases hapart.file_eq hget hname with hfile | hfile
    · exact absurd (List.inj_on_of_nodup_map hnodup ha hmem hfile) hother
    · rw [hfile, honward.confirmed, hconfirmed, Option.isSome_iff_ne_none]
      exact ⟨hself, fun hnone => hnew hnone a ha hfile⟩
  have hrun := followed_of_reconcileAnchors hdirect hdry (List.mem_reverse.2 hmem)
    (List.nodup_reverse.2 (Tasks.nodup_of_files hnodup)) (by simpa [hold] using hne)
    (fun u hu => by
      rw [hsteady.isBelow (hsaved.trans (honward.trans hu).saved)]
      exact isBelow_of_newName hget hfinal hbelow)
    (by simpa [hold] using haside)
    (fun a ha => Document.isWritten_of_mem_anchors hbefore (List.mem_reverse.1 ha)) h₁ hown
  simp only [hold] at hrun
  obtain ⟨after, check, hafter, hchecks, hfollowed⟩ := hrun
  have hmine : inFile old before = [⟨old, line⟩] := inFile_of_nodup hnodup hmem
  have hin : ∀ {file : Text}, reconciler.effective file = new →
      inFile file after = inFile file (reconciler.countedFor new after) :=
    fun hname => (inFile_countedFor hname after).symm
  have hreported : checks.filter (fun c => c.key = key ∧ c.anchor.file = old) = [check] :=
    filter_reported hold hchecks (by rw [hfollowed.about])
  rw [hreported, List.map_singleton]
  generalize reconciler.countedFor new after = counted at hin hfollowed
  cases hfollowed with
  | dropped hkept =>
    rw [mem_filesOf, hconfirmed] at hkept
    refine ⟨after, h₂.trans hafter, ?_, fun a hlast hline => ?_, fun hnone => ?_, ?_⟩
    · rw [hin hold, inFile_filter, inFile_countedFor hold, hmine]
      simp
    · have hfile := (mem_of_lastIn hlast).2
      obtain ⟨as, has, ha⟩ := (holds_of_lastIn hdry hplain hconfirm hlast hline).recorded
      rw [hbefore] at has
      cases has
      have hother : a ≠ ⟨old, line⟩ := by
        rintro rfl
        exact hne hfile.symm
      rw [hin hself, inFile_filter, inFile_countedFor hself, ← hfile, inFile_of_nodup hnodup ha]
      simp [hother]
    · rw [hnone] at hkept
      cases hkept
    · rw [supersededBy, if_neg hne]
  | @moved check u hkept hu hinspect =>
    rw [mem_filesOf, hconfirmed, Bool.not_eq_true, Option.isSome_eq_false_iff,
      Option.isNone_iff_eq_none] at hkept
    have hcounted : reconciler.countedFor new before = [⟨old, line⟩] :=
      (hapart.countedFor_eq hget (hnew hkept)).trans hmine
    rw [hsteady.inspect (hsaved.trans (honward.trans hu).saved)] at hinspect
    obtain ⟨hstate, hfile, hnearest⟩ := inspect_renamed hrenamed htext hkey hinspect
    have hplace : replaced [⟨old, line⟩] ⟨old, line⟩ check.settled = [⟨new, check.settled.line⟩] := by
      have hmoved : check.settled ≠ ⟨old, line⟩ := fun heq => hne (by rw [← hfile, heq])
      rw [replaced, if_neg hmoved, if_neg (by simpa using hmoved), ← hfile]
      simp [hmoved]
    rw [hcounted, hplace] at hin
    refine ⟨after, h₂.trans hafter, ?_, fun a hlast => ?_, fun _ => ⟨_, ?_, hnearest,
      hnearest.eq_of_isAt⟩, ?_⟩
    · rw [hin hold]
      simp [inFile, hne]
    · rw [hkept] at hlast
      cases hlast
    · rw [hin hself]
      simp [inFile]
    · rw [hstate]

/-- A task with an anchor in a renamed file, of which the new one holds the key. -/
def movedWorkspace : Workspace := .inMemory
  ⟨[(["repo".toList], .directory),
    (["repo".toList, "b.py".toList], .file (Utf8.encode "x = 1\n# TODO(PROJ-1): fix\n".toList)),
    (["repo".toList, "c.py".toList], .file (Utf8.encode "# TODO(PROJ-1): fix\n".toList))],
    by decide⟩
  ⟨[("PROJ-1".toList, .object [(Document.referencesName, .list
    [Anchor.toReference ⟨"a.py".toList, 2⟩])])], by decide⟩

/-- The workspace after a sighting in another file. -/
def sightedWorkspace : Workspace :=
  ((renamingReconciler.confirmEach [("PROJ-1".toList, ⟨"c.py".toList, 1⟩)]).run movedWorkspace).2

theorem reconcile_follows_rename_of_file :
    ∃ after, ((renamingReconciler.reconcile [["repo".toList]]).run sightedWorkspace).2.anchors
        "PROJ-1".toList = .ok after ∧
      inFile "a.py".toList after = [] ∧
      inFile "b.py".toList after = [⟨"b.py".toList, 2⟩] := by
  have hplain : Anchor.IsPlain "c.py".toList := ⟨by decide, by decide, by decide⟩
  have hapart : renamingReconciler.NamesApart := by
    intro r hr r' hr' _
    rw [List.mem_singleton.1 hr, List.mem_singleton.1 hr']
  have hone : movedWorkspace.OnePerFile := by
    intro key as has
    by_cases hkey : key = "PROJ-1".toList
    · have hanchors : movedWorkspace.anchors "PROJ-1".toList = .ok [⟨"a.py".toList, 2⟩] := by cbv
      rw [hkey, hanchors, Except.ok.injEq] at has
      rw [← has]
      exact List.nodup_singleton _
    · have habsent : key ∉ movedWorkspace.store.document.tasks.keys :=
        fun hmem => hkey (List.mem_singleton.1 hmem)
      rw [Workspace.anchors, Document.anchors, TaskMap.task?_eq_none habsent] at has
      cases has
      exact List.nodup_nil
  obtain ⟨u, hconfirm⟩ : ∃ u, (renamingReconciler.confirmEach
      [("PROJ-1".toList, ⟨"c.py".toList, 1⟩)]).Yields movedWorkspace u sightedWorkspace :=
    exists_yields (by cbv)
  obtain ⟨checks, hreconcile⟩ : ∃ checks, (renamingReconciler.reconcile
      [["repo".toList]]).Yields sightedWorkspace checks _ := exists_yields (by cbv)
  have hsteady : renamingReconciler.Steady movedWorkspace "a.py".toList :=
    ⟨Workspace.undisturbed_inMemory _ _ _, Workspace.undisturbed_inMemory _ _ _⟩
  have hbefore : sightedWorkspace.anchors "PROJ-1".toList =
      .ok [⟨"a.py".toList, 2⟩, ⟨"c.py".toList, 1⟩] := by cbv
  have htext : movedWorkspace.disk.tree.readText (renamingReconciler.path "b.py".toList) =
      .ok "x = 1\n# TODO(PROJ-1): fix\n".toList := by cbv
  have hkey : KeyToken.isAt (Text.contents "x = 1\n# TODO(PROJ-1): fix\n".toList)
      "PROJ-1".toList 2 = true := by cbv
  obtain ⟨after, hafter, hold, -, hmoved, -⟩ := reconcile_follows_rename rfl
    direct_renamingReconciler hapart hone rfl
    (fun s hs => by rw [List.mem_singleton.1 hs]; exact hplain) hconfirm hreconcile
    (by decide) hsteady (by cbv) htext hkey hbefore List.mem_cons_self (fun _ => by decide)
  obtain ⟨m, hin, -, hstill⟩ := hmoved (by decide)
  rw [hstill hkey] at hin
  exact ⟨after, hafter, hold, hin⟩

end Reconciler

end TodoTracker
