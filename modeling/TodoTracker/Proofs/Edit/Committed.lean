import TodoTracker.Edit.Commit
import TodoTracker.Proofs.Edit.AnyText
import TodoTracker.Proofs.Marker.KeyPlace
import TodoTracker.Proofs.Workspace.Guarded

/-!
# Edits that are committed

Whatever a file has become, a commit reads it and writes all of its edits or none. A line that takes
its splices holds every text that they insert, and a key in parentheses is found there as a token; a
line whose edit is stale is left as it was found.
-/

set_option autoImplicit false

namespace TodoTracker

open Work

namespace Splice

/-- Behind a column that no splice reaches over, a line with splices holds the texts that they
insert. -/
theorem infix_drop_applyOrdered {line : Text} {splices : List Splice} {column : Nat}
    (hwithin : ∀ s ∈ splices, column ≤ s.start ∧ s.start ≤ s.stop ∧ s.stop ≤ line.length)
    (hpairwise : splices.Pairwise fun a b => a.stop ≤ b.start) :
    ∀ s ∈ splices, s.text <:+: (applyOrdered line splices).drop column := by
  induction splices generalizing column with
  | nil => nofun
  | cons first rest ih =>
    obtain ⟨hbehind, hpairwise⟩ := List.pairwise_cons.1 hpairwise
    obtain ⟨hcolumn, hle, hstop⟩ := hwithin first List.mem_cons_self
    have hrest : ∀ t ∈ rest, first.stop ≤ t.start ∧ t.start ≤ t.stop ∧ t.stop ≤ line.length :=
      fun t ht => ⟨hbehind t ht, (hwithin t (List.mem_cons_of_mem _ ht)).2⟩
    -- the splices behind the first one leave the line in front of them
    have hlength : (line.take first.stop).length = first.stop := List.length_take_of_le hstop
    have happend : applyOrdered line rest = line.take first.stop ++
        applyOrdered (line.drop first.stop) (rest.map (sub first.stop)) := by
      have hstart : ∀ t ∈ rest, (line.take first.stop).length ≤ t.start ∧ t.start ≤ t.stop := by
        intro t ht
        rw [hlength]
        exact ⟨(hrest t ht).1, (hrest t ht).2.1⟩
      have happend := applyOrdered_append hstart (line.drop first.stop)
      rwa [List.take_append_drop, hlength] at happend
    have hlong : first.start ≤ (applyOrdered line rest).length := by
      rw [happend, List.length_append, hlength]
      exact Nat.le_trans hle (Nat.le_add_right _ _)
    have hcons : (applyOrdered line (first :: rest)).drop column =
        ((applyOrdered line rest).take first.start).drop column ++ first.text ++
          (applyOrdered line rest).drop first.stop := by
      change ((applyOrdered line rest).take first.start ++ first.text ++
        (applyOrdered line rest).drop first.stop).drop column = _
      rw [List.append_assoc, List.drop_append_of_le_length, List.append_assoc]
      rwa [List.length_take_of_le hlong]
    intro s hs
    rw [hcons]
    rcases List.mem_cons.1 hs with rfl | hs
    · exact ⟨_, _, rfl⟩
    · exact (ih hrest hpairwise s hs).trans (List.suffix_append _ _).isInfix

end Splice

/-- A key in parentheses is a token. -/
theorem KeyToken.occursIn_of_parentheses {line key : Text} (h : '(' :: (key ++ [')']) <:+: line) :
    occursIn line key = true := by
  obtain ⟨before, after, rfl⟩ := h
  have hline : before ++ '(' :: (key ++ [')']) ++ after =
      (before ++ ['(']) ++ (key ++ ')' :: after) := by simp
  refine (occursIn_iff _ key).2 ⟨(before ++ ['(']).length, ?_⟩
  rw [hline, isTokenAt, List.take_left, List.drop_left, List.getLast?_concat, startsWith,
    List.drop_left, List.isPrefixOf_iff_prefix.2 (List.prefix_append _ _)]
  rfl

/-- An edit of markers leaves a line that holds the keys that it writes. -/
theorem LineEdit.OfMarkers.occursIn {Owns : Candidate → Splice → Prop} {markers : List Candidate}
    {edit : LineEdit} (h : edit.OfMarkers Owns markers)
    (hstop : ∀ c ∈ markers, c.signal.isSome → c.segmentStop ≤ c.text.length) {key after : Text}
    {s : Splice} (hs : s ∈ edit.splices) (hkey : s.text = '(' :: (key ++ [')']))
    (hafter : Splice.applyAll edit.expected edit.splices = .ok after) :
    KeyToken.occursIn after key = true := by
  have hwithin : ∀ s ∈ edit.splices,
      0 ≤ s.start ∧ s.start ≤ s.stop ∧ s.stop ≤ edit.expected.length := by
    intro s hs
    obtain ⟨c, hc, hsignal, -, htext, -, -, hle, hlast⟩ := h.owner s hs
    exact ⟨Nat.zero_le _, hle, htext ▸ Nat.le_trans hlast (hstop c hc hsignal)⟩
  rw [Splice.applyAll_eq (fun s hs => (hwithin s hs).2.1) h.pairwise] at hafter
  cases hafter
  exact KeyToken.occursIn_of_parentheses
    (hkey ▸ Splice.infix_drop_applyOrdered hwithin h.pairwise s hs)

/-- A write that fails leaves the files as they were. -/
theorem Disk.tree_of_write_fails {disk disk' : Disk} {path : Path} {text : Text} {e : Failure}
    (h : disk.write path text = (.error e, disk')) : disk'.tree = disk.tree := by
  rw [write] at h
  split at h
  · rw [(Prod.mk.inj h).2]
  · dsimp only at h
    split at h
    · rw [← (Prod.mk.inj h).2]
    · split at h
      · rw [← (Prod.mk.inj h).2]
      · cases h

namespace EditQueue

variable {queue : EditQueue} {path : Path} {disk disk' : Disk} {current : Text} {made : Result}
  {w w' : Workspace}

/-- The edits were made on the text that the file had. What came out was written if it is another
text. -/
structure Made (queue : EditQueue) (path : Path) (disk disk' : Disk) (current : Text)
    (made : Result) : Prop where
  read : disk.tree.readText path = .ok current
  applied : queue.apply current = .ok made
  written : if Line.join made.lines = current then disk' = disk
    else disk.write path (Line.join made.lines) = (.ok (), disk')

/-- A commit has put the line with a number, that was `before`, back into the file with the splices
of the queue. -/
def Rewrites (queue : EditQueue) (path : Path) (disk disk' : Disk) (number : Nat)
    (before after : Text) : Prop :=
  ∃ current made, queue.Made path disk disk' current made ∧
    ((Line.split current)[number - 1]?).map Line.content = some before ∧
    (made.lines[number - 1]?).map Line.content = some after ∧
    Splice.applyAll before (queue.splicesAt number) = .ok after

/-- A commit has changed no file, or has put the line with a number back as it was. -/
def Leaves (queue : EditQueue) (path : Path) (disk disk' : Disk) (number : Nat) : Prop :=
  disk'.tree = disk.tree ∨ ∃ current made, queue.Made path disk disk' current made ∧
    made.lines[number - 1]? = (Line.split current)[number - 1]?

theorem made_of_commit {result : Commit} (hne : queue.edits ≠ [])
    (h : (queue.commit path).Yields w result w') :
    ∃ current made, queue.Made path w.disk w'.disk current made ∧
      result = ⟨made.applied, made.stale⟩ ∧ w' = { w with disk := w'.disk } := by
  rw [commit, if_neg (by simpa using hne), yields_bind] at h
  obtain ⟨current, w₁, hlook, hedit⟩ := h
  obtain ⟨hread, rfl⟩ := yields_look.1 hlook
  obtain ⟨made, w₂, happly, hrest⟩ := yields_bind.1 hedit
  obtain ⟨hmade, rfl⟩ := yields_ofExcept.1 happly
  dsimp only at hrest
  split at hrest
  · rename_i hchanged
    obtain ⟨_, w₃, hwrite, hdone⟩ := yields_bind.1 hrest
    obtain ⟨hwritten, rfl⟩ := yields_onDisk.1 hwrite
    obtain ⟨rfl, rfl⟩ := yields_pure.1 hdone
    exact ⟨current, made, ⟨hread, hmade, by rw [if_neg hchanged]; exact Prod.ext hwritten rfl⟩,
      rfl, rfl⟩
  · rename_i hsame
    obtain ⟨rfl, rfl⟩ := yields_pure.1 hrest
    exact ⟨current, made, ⟨hread, hmade, if_pos (not_not.1 hsame) ▸ rfl⟩, rfl, rfl⟩

/-- A commit that fails leaves the files, and everything else, as they were. -/
theorem of_fails_commit {e : Failure} (h : (queue.commit path).Fails w e w') :
    w' = { w with disk := w'.disk } ∧ w'.disk.tree = w.disk.tree := by
  rw [commit] at h
  split at h
  · exact absurd h not_fails_pure
  rcases fails_bind.1 h with hlook | ⟨current, w₁, hlook, hedit⟩
  · rw [Fails, run_look] at hlook
    rw [← (Prod.mk.inj hlook).2]
    exact ⟨rfl, rfl⟩
  obtain ⟨-, rfl⟩ := yields_look.1 hlook
  rcases fails_bind.1 hedit with happly | ⟨made, w₂, happly, hrest⟩
  · rw [Fails, run_ofExcept] at happly
    rw [← (Prod.mk.inj happly).2]
    exact ⟨rfl, rfl⟩
  obtain ⟨-, rfl⟩ := yields_ofExcept.1 happly
  dsimp only at hrest
  split at hrest
  · rcases fails_bind.1 hrest with hwrite | ⟨_, w₃, -, hdone⟩
    · rw [Fails, run_onDisk] at hwrite
      obtain ⟨herror, rfl⟩ := Prod.mk.inj hwrite
      exact ⟨rfl, Disk.tree_of_write_fails (Prod.ext herror rfl)⟩
    · exact absurd hdone not_fails_pure
  · exact absurd hrest not_fails_pure

/-- A line for which splices are queued has taken them, or it is stale and was left. -/
theorem rewrites_or_leaves (h : queue.Applicable) (hmade : queue.Made path disk disk' current made)
    {edit : LineEdit} {number : Nat} (hnumber : 1 ≤ number) (hfind : queue.find? number = some edit) :
    (number : Int) ∉ made.stale ∧
        (∃ after, queue.Rewrites path disk disk' number edit.expected after) ∨
      (number : Int) ∈ made.stale ∧ queue.Leaves path disk disk' number := by
  obtain ⟨i, rfl⟩ : ∃ i, number = i + 1 := ⟨number - 1, by omega⟩
  have hedit : edit.number = (i + 1 : Nat) := by simpa using List.find?_some hfind
  obtain ⟨result, hresult, htaken⟩ := h.exists_apply current
  obtain rfl : made = result := Except.ok.inj (hmade.applied.symm.trans hresult)
  cases (htaken i).1 edit hfind with
  | written line content hfresh hline hcontent happlied hafter =>
    refine .inl ⟨hedit ▸ hfresh, content, current, made, hmade, ?_, ?_, ?_⟩
    · rw [Nat.add_sub_cancel, hline, ← hcontent]
      rfl
    · rw [Nat.add_sub_cancel, hafter]
      rfl
    · rwa [splicesAt, hfind]
  | stale hstale hsame => exact .inr ⟨hedit ▸ hstale, .inr ⟨current, made, hmade, hsame⟩⟩

end EditQueue

end TodoTracker
