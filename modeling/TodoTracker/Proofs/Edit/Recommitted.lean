import TodoTracker.Edit.Commit
import TodoTracker.Proofs.Edit.AnyText
import TodoTracker.Proofs.Files.Rewrite
import TodoTracker.Proofs.Task.Calls
import TodoTracker.Proofs.Text.Rejoined
import TodoTracker.Proofs.Text.Utf8
import TodoTracker.Proofs.Workspace.Guarded

/-!
# Edits that are committed again

A commit changes the lines that still have the content that their edits were made for, and no other
character of the file. What it has written holds none of these contents any more: no line feed is
inserted, so the lines keep their numbers, and no carriage return, so a line cannot be read back as it
was. So committing the same edits again writes nothing.
-/

set_option autoImplicit false

namespace TodoTracker

open Work

namespace Splice

variable {c : Char} {splices : List Splice}

/-- A character that no splice inserts does not become more frequent. -/
theorem count_applyOrdered_le (hforward : ∀ s ∈ splices, s.start ≤ s.stop)
    (htext : ∀ s ∈ splices, c ∉ s.text) (line : Text) :
    (applyOrdered line splices).count c ≤ line.count c := by
  induction splices with
  | nil => exact Nat.le_refl _
  | cons s splices ih =>
    obtain ⟨hs, hforward⟩ := List.forall_mem_cons.1 hforward
    obtain ⟨hc, htext⟩ := List.forall_mem_cons.1 htext
    have hrest := ih hforward htext
    have hcons : applyOrdered line (s :: splices) = s.apply (applyOrdered line splices) := rfl
    have hdrop := (List.drop_sublist_drop_left (applyOrdered line splices) hs).count_le c
    have hsplit := congrArg (List.count c)
      (List.take_append_drop s.start (applyOrdered line splices))
    rw [List.count_append] at hsplit
    rw [hcons, apply, List.count_append, List.count_append, List.count_eq_zero_of_not_mem hc]
    omega

/-- Splices that are apart do not reach into the next one when they are put in order. -/
theorem pairwise_mergeSort (hforward : ∀ s ∈ splices, s.start ≤ s.stop)
    (hapart : splices.Pairwise fun a b => a.stop ≤ b.start ∨ b.stop ≤ a.start) :
    (splices.mergeSort order).Pairwise fun a b => a.stop ≤ b.start := by
  have hdisjoint : (splices.mergeSort order).Pairwise
      fun a b => a.stop ≤ b.start ∨ b.stop ≤ a.start :=
    ((List.mergeSort_perm ..).pairwise_iff Or.symm).2 hapart
  refine ((pairwise_order splices).and hdisjoint).imp_of_mem fun {a b} ha hb h => ?_
  have hforwardA := hforward a (List.mem_mergeSort.1 ha)
  have hforwardB := hforward b (List.mem_mergeSort.1 hb)
  obtain ⟨horder, hdisjoint⟩ := h
  rw [order_eq_true_iff] at horder
  omega

end Splice

namespace LineEdit

/-- An edit of a line counted from 1, with splices that are apart and insert nothing that could end
a line. -/
structure Clean (edit : LineEdit) : Prop where
  placed : 1 ≤ edit.number
  forward : ∀ s ∈ edit.splices, s.start ≤ s.stop
  apart : edit.splices.Pairwise fun a b => a.stop ≤ b.start ∨ b.stop ≤ a.start
  plain : ∀ s ∈ edit.splices, '\n' ∉ s.text ∧ '\r' ∉ s.text

/-- What the line is to become. -/
def updated (edit : LineEdit) : Text :=
  Splice.applyOrdered edit.expected (edit.splices.mergeSort Splice.order)

/-- The line that the edit was made for is gone, or has another content. -/
def Stale (lines : List Line) (edit : LineEdit) : Prop :=
  (lines[(edit.number - 1).toNat]?).map Line.content ≠ some edit.expected
  deriving Decidable

/-- The edit is made, and something changes. -/
def Changes (lines : List Line) (edit : LineEdit) : Prop :=
  ¬edit.Stale lines ∧ edit.updated ≠ edit.expected
  deriving Decidable

/-- A line after the edit. -/
def rewrite (edit : LineEdit) (line : Line) : Line :=
  if line.content = edit.expected then { line with content := edit.updated } else line

variable {edit : LineEdit} {line : Line} {lines : List Line} {i : Nat}

theorem Clean.applyAll_eq (h : edit.Clean) :
    Splice.applyAll edit.expected edit.splices = .ok edit.updated := by
  rw [Splice.applyAll, Splice.overlap?_eq_none (Splice.pairwise_mergeSort h.forward h.apart)]
  rfl

theorem Clean.change_eq (h : edit.Clean) :
    edit.change = .ok ⟨edit.number, edit.expected, edit.updated⟩ := by
  rw [change, h.applyAll_eq]

theorem Clean.count_updated_le (h : edit.Clean) {c : Char}
    (hc : ∀ s ∈ edit.splices, c ∉ s.text) : edit.updated.count c ≤ edit.expected.count c :=
  Splice.count_applyOrdered_le (fun s hs => h.forward s (List.mem_mergeSort.1 hs))
    (fun s hs => hc s (List.mem_mergeSort.1 hs)) _

theorem ending_rewrite : (edit.rewrite line).ending = line.ending := by
  rw [rewrite]
  split <;> rfl

theorem Clean.single_rewrite (h : edit.Clean) (hline : '\n' ∉ line.content) :
    '\n' ∉ (edit.rewrite line).content := by
  rw [rewrite]
  split
  · rename_i hcontent
    have hcount := h.count_updated_le fun s hs => (h.plain s hs).1
    rw [← hcontent, List.count_eq_zero_of_not_mem hline] at hcount
    exact List.count_eq_zero.1 (Nat.le_zero.1 hcount)
  · exact hline

/-- A line that was rewritten is not read back with the content that the edit was made for. -/
theorem Clean.content_reread_rewrite_ne (h : edit.Clean) (hne : edit.updated ≠ edit.expected)
    (hline : line.Proper) {line' : Line} (hreread : (edit.rewrite line).reread = some line') :
    line'.content ≠ edit.expected := by
  rw [rewrite] at hreread
  split at hreread
  · -- what is read back is the new content, or it without a carriage return at its end
    have hcontent : line'.content = edit.updated ∨ edit.updated = line'.content ++ ['\r'] := by
      rw [Line.reread] at hreread
      dsimp only at hreread
      split at hreread
      · split at hreread
        · cases hreread
        · cases hreread
          exact .inl rfl
      · split at hreread
        · rename_i hreturn
          cases hreread
          exact .inr (List.dropLast_append_getLast? _ hreturn).symm
        · cases hreread
          exact .inl rfl
      · cases hreread
        exact .inl rfl
    rcases hcontent with hsame | hlonger
    · rw [hsame]
      exact hne
    · intro hexpected
      have hcount := h.count_updated_le fun s hs => (h.plain s hs).2
      rw [hlonger, hexpected, List.count_append] at hcount
      simp at hcount
  · rename_i hother
    have hsame : line.reread = some line := by
      obtain ⟨content, ending⟩ := line
      cases ending with
      | none => exact if_neg (hline.nonempty rfl)
      | lf => exact if_neg (hline.apart rfl)
      | crlf => rfl
    rw [hsame] at hreread
    cases hreread
    exact hother

theorem not_stale_iff (hnumber : edit.number = (i + 1 : Nat)) :
    ¬edit.Stale lines ↔ ∃ line, lines[i]? = some line ∧ line.content = edit.expected := by
  have hplace : (edit.number - 1).toNat = i := by omega
  rw [Stale, hplace, not_not, Option.map_eq_some_iff]

end LineEdit

namespace EditQueue

variable {queue : EditQueue} {edit : LineEdit} {edits : List LineEdit} {text : Text} {path : Path}
  {i : Nat} {w w' : Workspace}

/-- A line after the edits that are made for its number. -/
def rewriteAt (edits : List LineEdit) (i : Nat) (line : Line) : Line :=
  match edits.find? (·.number == ((i + 1 : Nat) : Int)) with
  | some edit => edit.rewrite line
  | none => line

/-- The lines of a text after the edits of a queue. -/
def linesAfter (queue : EditQueue) (text : Text) : List Line :=
  (Line.split text).mapIdx (rewriteAt queue.edits)

/-- The lines whose edits do not fit a text. -/
def staleIn (queue : EditQueue) (text : Text) : List Int :=
  (queue.ordered.filter (·.Stale (Line.split text))).map LineEdit.number

/-- The lines of a text that the edits of a queue change. -/
def appliedIn (queue : EditQueue) (text : Text) : List Int :=
  (queue.ordered.filter (·.Changes (Line.split text))).map LineEdit.number

/-- The queue has one edit for each of its lines, and each of them is clean. -/
structure Clean (queue : EditQueue) : Prop where
  nodup : (queue.edits.map LineEdit.number).Nodup
  edits : ∀ edit ∈ queue.edits, edit.Clean

/-- One edit is stale, changes nothing, or rewrites its line. -/
theorem Result.apply_of_clean (h : edit.Clean) (hnumber : edit.number = (i + 1 : Nat))
    (result : Result) : result.apply edit = .ok
      { lines := result.lines.modify i edit.rewrite
        applied := result.applied ++ if edit.Changes result.lines then [edit.number] else []
        stale := result.stale ++ if edit.Stale result.lines then [edit.number] else [] } := by
  have hplace : (edit.number - 1).toNat = i := by omega
  by_cases hlt : i < result.lines.length
  · have hline := List.getElem?_eq_getElem hlt
    rw [apply, hnumber, position_of_lt hlt]
    dsimp only [bind, Except.bind]
    rw [hline]
    dsimp only
    have hmodify : result.lines.modify i edit.rewrite =
        result.lines.set i (edit.rewrite result.lines[i]) := List.modify_eq_set_get _ hlt
    by_cases hcontent : result.lines[i].content = edit.expected
    · have hfresh : ¬edit.Stale result.lines :=
        (LineEdit.not_stale_iff hnumber).2 ⟨_, hline, hcontent⟩
      rw [if_neg (not_not_intro hcontent), h.change_eq, hmodify, LineEdit.rewrite, if_pos hcontent,
        if_neg hfresh]
      change (if edit.updated = edit.expected then _ else _) = _
      by_cases hsame : edit.updated = edit.expected
      · have hback : ({ result.lines[i] with content := edit.updated } : Line) =
            result.lines[i] := by rw [hsame, ← hcontent]
        rw [if_pos hsame, if_neg fun hchanges => hchanges.2 hsame, hback, List.set_getElem_self,
          List.append_nil, List.append_nil]
        rfl
      · rw [if_neg hsame, if_pos ⟨hfresh, hsame⟩, List.append_nil, hnumber]
        rfl
    · have hstale : edit.Stale result.lines := by
        by_contra hfresh
        obtain ⟨line, hline', hcontent'⟩ := (LineEdit.not_stale_iff hnumber).1 hfresh
        rw [hline] at hline'
        cases hline'
        exact hcontent hcontent'
      rw [if_pos hcontent, hmodify, LineEdit.rewrite, if_neg hcontent, List.set_getElem_self,
        if_pos hstale, if_neg fun hchanges => hchanges.1 hstale, List.append_nil]
      rfl
  · have hle := Nat.le_of_not_lt hlt
    have hnone : result.lines[i]? = none := List.getElem?_eq_none hle
    have hstale : edit.Stale result.lines := by
      rw [LineEdit.Stale, hplace, hnone]
      exact (Option.some_ne_none _).symm
    rw [apply, hnumber, position_of_le hle, List.modify_eq_self hle, if_pos hstale,
      if_neg fun hchanges => hchanges.1 hstale, List.append_nil]
    rfl

/-- One more edit is made on its line before those of other lines. -/
theorem mapIdx_rewriteAt_modify (hnumber : edit.number = (i + 1 : Nat))
    (hne : ∀ e ∈ edits, (e.number - 1).toNat ≠ i) (lines : List Line) :
    (lines.modify i edit.rewrite).mapIdx (rewriteAt edits) =
      lines.mapIdx (rewriteAt (edit :: edits)) := by
  apply List.ext_getElem?
  intro j
  rw [List.getElem?_mapIdx, List.getElem?_mapIdx]
  by_cases hij : i = j
  · subst hij
    have hnone : edits.find? (·.number == ((i + 1 : Nat) : Int)) = none :=
      List.find?_eq_none.2 fun e he heq => by
        have := hne e he
        have := eq_of_beq heq
        omega
    rw [List.getElem?_modify_eq, Option.map_eq_map, Option.map_map]
    congr 1
    funext line
    rw [Function.comp_apply, rewriteAt, rewriteAt, hnone,
      List.find?_cons_of_pos (by simpa using hnumber)]
  · have hskip : ¬(edit.number == ((j + 1 : Nat) : Int)) = true := by
      rw [beq_iff_eq]
      omega
    rw [List.getElem?_modify_ne _ _ hij]
    congr 1
    funext line
    rw [rewriteAt, rewriteAt,
      List.find?_cons_of_neg (p := fun e : LineEdit => e.number == ((j + 1 : Nat) : Int)) hskip]

/-- Edits of different lines are all made on the lines as they were at first. -/
theorem foldlM_of_clean (h : ∀ edit ∈ edits, edit.Clean)
    (hnodup : (edits.map LineEdit.number).Nodup) (result : Result) :
    edits.foldlM Result.apply result = .ok
      { lines := result.lines.mapIdx (rewriteAt edits)
        applied := result.applied ++
          (edits.filter (·.Changes result.lines)).map LineEdit.number
        stale := result.stale ++ (edits.filter (·.Stale result.lines)).map LineEdit.number } := by
  induction edits generalizing result with
  | nil =>
    have hsame : result.lines.mapIdx (rewriteAt []) = result.lines := by
      apply List.ext_getElem?
      intro j
      rw [List.getElem?_mapIdx]
      exact congrFun Option.map_id_fun' _
    rw [hsame]
    simp [pure, Except.pure]
  | cons edit edits ih =>
    obtain ⟨hedit, hrest⟩ := List.forall_mem_cons.1 h
    obtain ⟨hother, hnodup⟩ := List.nodup_cons.1 hnodup
    obtain ⟨i, hi⟩ : ∃ i : Nat, edit.number = (i + 1 : Nat) :=
      ⟨(edit.number - 1).toNat, by have := hedit.placed; omega⟩
    have hne : ∀ e ∈ edits, (e.number - 1).toNat ≠ i := by
      intro e he heq
      have := (hrest e he).placed
      exact hother (List.mem_map.2 ⟨e, he, by omega⟩)
    -- the lines of the other edits are not touched
    have hkept : ∀ e ∈ edits, (e.Stale (result.lines.modify i edit.rewrite) ↔
        e.Stale result.lines) := by
      intro e he
      rw [LineEdit.Stale, LineEdit.Stale, List.getElem?_modify_ne _ _ (Ne.symm (hne e he))]
    rw [List.foldlM_cons, Result.apply_of_clean hedit hi]
    refine (ih hrest hnodup _).trans ?_
    have hchanges : edits.filter (·.Changes (result.lines.modify i edit.rewrite)) =
        edits.filter (·.Changes result.lines) :=
      List.filter_congr fun e he => decide_eq_decide.2 (and_congr_left' (not_congr (hkept e he)))
    have hstale : edits.filter (·.Stale (result.lines.modify i edit.rewrite)) =
        edits.filter (·.Stale result.lines) :=
      List.filter_congr fun e he => decide_eq_decide.2 (hkept e he)
    dsimp only
    rw [mapIdx_rewriteAt_modify hi hne, hchanges, hstale, List.append_assoc, List.append_assoc,
      List.filter_cons, List.filter_cons]
    congr 2
    · congr 1
      by_cases hmake : edit.Changes result.lines <;> simp [hmake]
    · congr 1
      by_cases hold : edit.Stale result.lines <;> simp [hold]

/-- What a clean queue makes of a text. -/
theorem Clean.apply_eq (h : queue.Clean) (text : Text) :
    queue.apply text =
      .ok ⟨queue.linesAfter text, queue.appliedIn text, queue.staleIn text⟩ := by
  have hperm : queue.ordered.Perm queue.edits := List.mergeSort_perm ..
  have hlines : (Line.split text).mapIdx (rewriteAt queue.ordered) = queue.linesAfter text := by
    rw [linesAfter]
    congr 1
    funext i line
    rw [rewriteAt, rewriteAt, find?_ordered h.nodup, find?]
  rw [apply, foldlM_of_clean (fun e he => h.edits e (mem_ordered.1 he))
    ((hperm.map _).nodup_iff.2 h.nodup), hlines]
  rfl

theorem getElem?_linesAfter (queue : EditQueue) (text : Text) (i : Nat) :
    (queue.linesAfter text)[i]? = (Line.split text)[i]?.map (rewriteAt queue.edits i) :=
  List.getElem?_mapIdx

theorem map_ending_linesAfter (queue : EditQueue) (text : Text) :
    (queue.linesAfter text).map Line.ending = (Line.split text).map Line.ending := by
  apply List.ext_getElem?
  intro i
  rw [List.getElem?_map, List.getElem?_map, getElem?_linesAfter, Option.map_map]
  congr 1
  funext line
  rw [Function.comp_apply, rewriteAt]
  split
  · exact LineEdit.ending_rewrite
  · rfl

theorem Clean.joinable_linesAfter (h : queue.Clean) (text : Text) :
    Line.Joinable (queue.linesAfter text) := by
  have hsplit := (Line.wellFormed_split text).joinable
  refine ⟨fun line' hline' => ?_, map_ending_linesAfter queue text ▸ hsplit.closed⟩
  obtain ⟨i, hi⟩ := List.getElem?_of_mem hline'
  rw [getElem?_linesAfter, Option.map_eq_some_iff] at hi
  obtain ⟨line, hline, rfl⟩ := hi
  have hsingle := hsplit.single line (List.mem_of_getElem? hline)
  rw [rewriteAt]
  split
  · rename_i edit hfind
    exact (h.edits edit (List.mem_of_find?_eq_some hfind)).single_rewrite hsingle
  · exact hsingle

/-- The line of an edit after a commit. -/
theorem Clean.rewriteAt_eq (h : queue.Clean) (hedit : edit ∈ queue.edits)
    (hnumber : edit.number = (i + 1 : Nat)) : rewriteAt queue.edits i = edit.rewrite := by
  obtain ⟨found, hfound⟩ : ∃ found,
      queue.edits.find? (·.number == ((i + 1 : Nat) : Int)) = some found :=
    Option.isSome_iff_exists.1 (List.find?_isSome.2 ⟨edit, hedit, by simpa using hnumber⟩)
  have hsame : found.number = edit.number :=
    (by simpa using List.find?_some hfound : found.number = (i + 1 : Nat)).trans hnumber.symm
  funext line
  rw [rewriteAt, hfound,
    List.inj_on_of_nodup_map h.nodup (List.mem_of_find?_eq_some hfound) hedit hsame]

theorem exists_place (h : edit.Clean) : ∃ i : Nat, edit.number = (i + 1 : Nat) :=
  ⟨(edit.number - 1).toNat, by have := h.placed; omega⟩

theorem appliedIn_eq_nil_iff : queue.appliedIn text = [] ↔
    ∀ edit ∈ queue.edits, ¬edit.Changes (Line.split text) := by
  rw [appliedIn, List.map_eq_nil_iff, List.filter_eq_nil_iff]
  simp [mem_ordered]

/-- The text changes exactly when a line changes. -/
theorem Clean.join_linesAfter_eq_iff (h : queue.Clean) (text : Text) :
    Line.join (queue.linesAfter text) = text ↔ queue.appliedIn text = [] := by
  rw [appliedIn_eq_nil_iff]
  constructor
  · intro hjoin edit hedit ⟨hfresh, hne⟩
    have hlines : queue.linesAfter text = Line.split text :=
      Line.join_inj (h.joinable_linesAfter text) (Line.wellFormed_split text).joinable
        (map_ending_linesAfter queue text) (hjoin.trans (Line.join_split text).symm)
    obtain ⟨i, hi⟩ := exists_place (h.edits edit hedit)
    obtain ⟨line, hline, hcontent⟩ := (LineEdit.not_stale_iff hi).1 hfresh
    have hafter := getElem?_linesAfter queue text i
    rw [hlines, hline, Option.map_some, h.rewriteAt_eq hedit hi, LineEdit.rewrite,
      if_pos hcontent] at hafter
    exact hne ((congrArg Line.content (Option.some.inj hafter)).symm.trans hcontent)
  · intro hnone
    have hlines : queue.linesAfter text = Line.split text := by
      apply List.ext_getElem?
      intro i
      rw [getElem?_linesAfter]
      cases hline : (Line.split text)[i]? with
      | none => rfl
      | some line =>
        rw [Option.map_some, rewriteAt]
        split
        · rename_i edit hfind
          have hedit := List.mem_of_find?_eq_some hfind
          have hnumber : edit.number = (i + 1 : Nat) := by simpa using List.find?_some hfind
          rw [LineEdit.rewrite]
          split
          · rename_i hcontent
            have hfresh := (LineEdit.not_stale_iff hnumber).2 ⟨line, hline, hcontent⟩
            have hsame : edit.updated = edit.expected := by
              by_contra hne
              exact hnone edit hedit ⟨hfresh, hne⟩
            rw [hsame, ← hcontent]
          · rfl
        · rfl
    rw [hlines, Line.join_split]

/-- In what was written there is nothing to change any more. -/
theorem Clean.appliedIn_again (h : queue.Clean) (text : Text) :
    queue.appliedIn (Line.join (queue.linesAfter text)) = [] := by
  rw [appliedIn_eq_nil_iff]
  intro edit hedit ⟨hfresh, hne⟩
  obtain ⟨i, hi⟩ := exists_place (h.edits edit hedit)
  obtain ⟨line', hline', hcontent⟩ := (LineEdit.not_stale_iff hi).1 hfresh
  rw [Line.getElem?_split_join (h.joinable_linesAfter text), getElem?_linesAfter,
    h.rewriteAt_eq hedit hi] at hline'
  cases hline : (Line.split text)[i]? with
  | none =>
    rw [hline] at hline'
    cases hline'
  | some line =>
    rw [hline] at hline'
    have hproper := (Line.wellFormed_split text).proper line (List.mem_of_getElem? hline)
    exact (h.edits edit hedit).content_reread_rewrite_ne hne hproper hline' hcontent

/-- A commit on a text writes the lines after the edits, if that is another text. -/
theorem Clean.run_commit (h : queue.Clean) (hread : w.disk.tree.readText path = .ok text) :
    (queue.commit path).run w = if queue.appliedIn text = [] then
        (.ok ⟨[], queue.staleIn text⟩, w)
      else match w.disk.write path (Line.join (queue.linesAfter text)) with
        | (.ok (), disk) => (.ok ⟨queue.appliedIn text, queue.staleIn text⟩, { w with disk })
        | (.error e, disk) => (.error e, { w with disk }) := by
  rw [commit]
  by_cases hempty : queue.edits = []
  · have hordered : queue.ordered = [] := by rw [ordered, hempty, List.mergeSort_nil]
    rw [hempty, if_pos List.isEmpty_nil, appliedIn, staleIn, hordered]
    rfl
  · rw [if_neg (by simpa using hempty), run_bind, run_look, hread]
    dsimp only
    rw [run_bind, run_ofExcept, h.apply_eq]
    dsimp only
    by_cases hsame : queue.appliedIn text = []
    · rw [if_neg (not_not_intro ((h.join_linesAfter_eq_iff text).2 hsame)), if_pos hsame, hsame]
      rfl
    · rw [if_pos fun heq => hsame ((h.join_linesAfter_eq_iff text).1 heq), if_neg hsame, run_bind,
        run_onDisk]
      rcases w.disk.write path (Line.join (queue.linesAfter text)) with ⟨_ | ⟨⟩, disk⟩ <;> rfl

/-- A file that cannot be read is not written. -/
theorem run_commit_of_unreadable {e : Failure} (h : w.disk.tree.readText path = .error e) :
    ((queue.commit path).run w).2 = w := by
  rw [commit]
  split
  · rfl
  · rw [run_bind, run_look, h]

theorem readBytes_of_write {disk disk' : Disk} {text' : Text}
    (hdots : FileTree.hereName ∉ path.names) (hread : disk.tree.readText path = .ok text)
    (hwrite : disk.write path text' = (.ok (), disk')) :
    disk'.tree.readBytes path = .ok (Utf8.encode text') := by
  obtain ⟨location, bytes, hfind⟩ := FileTree.find_of_readText hread
  have hfind' : disk'.tree.find path = .ok (location, .file (Utf8.encode text')) := by
    rw [Disk.tree_write hdots hfind hwrite,
      FileTree.find_insert (FileTree.lookup?_of_find hfind), hfind]
    simp [Except.map]
  rw [FileTree.readBytes, FileTree.hasNull_of_readText hread, hfind']
  rfl

/-- A text that is read is the one that was written. -/
theorem text_of_readBytes {tree : FileTree} {text' : Text}
    (hbytes : tree.readBytes path = .ok (Utf8.encode text'))
    (hread : tree.readText path = .ok text) :
    text = text' := by
  rw [FileTree.readText, hbytes] at hread
  dsimp only [bind, Except.bind] at hread
  split at hread
  · rename_i source hsource
    obtain rfl : source = text := Except.ok.inj hread
    rw [readSource, Utf8.decode_encode] at hsource
    split at hsource
    · cases hsource
    · exact (Except.ok.inj hsource).symm
  · cases hread

/-- A commit rewrites the lines that have the content which their edits were made for, leaves the
others and all endings, and tells the two apart. It writes the file exactly when a line changes, and
then the same commit does not write it again. -/
theorem commit_rewrites_fresh_lines (h : queue.Clean) (hdots : FileTree.hereName ∉ path.names)
    (hread : w.disk.tree.readText path = .ok text) :
    (∀ edit ∈ queue.edits,
      Splice.applyAll edit.expected edit.splices = .ok edit.updated) ∧
    (queue.linesAfter text).map Line.ending = (Line.split text).map Line.ending ∧
    (queue.commit path).run w = (if queue.appliedIn text = [] then
        (.ok ⟨[], queue.staleIn text⟩, w)
      else match w.disk.write path (Line.join (queue.linesAfter text)) with
        | (.ok (), disk) => (.ok ⟨queue.appliedIn text, queue.staleIn text⟩, { w with disk })
        | (.error e, disk) => (.error e, { w with disk })) ∧
    ∀ result w', (queue.commit path).Yields w result w' →
      (result.applied ≠ [] → w'.disk.tree.readBytes path =
        .ok (Utf8.encode (Line.join (queue.linesAfter text)))) ∧
      ((queue.commit path).run w').2 = w' := by
  have hrun := h.run_commit hread
  refine ⟨fun edit hedit => (h.edits edit hedit).applyAll_eq, map_ending_linesAfter queue text,
    hrun, fun result w' hyields => ?_⟩
  rw [Yields, hrun] at hyields
  split at hyields
  · rename_i hnone
    obtain ⟨hresult, rfl⟩ := Prod.mk.inj hyields
    cases hresult
    refine ⟨fun hne => absurd rfl hne, ?_⟩
    rw [hrun, if_pos hnone]
  · rcases hwrite : w.disk.write path (Line.join (queue.linesAfter text)) with ⟨_ | ⟨⟩, disk⟩
    · rw [hwrite] at hyields
      cases hyields
    · rw [hwrite] at hyields
      obtain ⟨-, rfl⟩ := Prod.mk.inj hyields
      have hbytes := readBytes_of_write hdots hread hwrite
      refine ⟨fun _ => hbytes, ?_⟩
      cases hread' : disk.tree.readText path with
      | error e => exact run_commit_of_unreadable hread'
      | ok text' =>
        obtain rfl := text_of_readBytes hbytes hread'
        rw [h.run_commit hread', if_pos (h.appliedIn_again text)]

/-- A file whose lines end in different ways. -/
def mixedText : Text := "# A\r\nb\n# C".toList

def mixedWorkspace : Workspace :=
  .inMemory ⟨[(["a.py".toList], .file (Utf8.encode mixedText))], by decide⟩ .empty

/-- Edits of the first and of the last line, of a line that is another, and of one that is gone. -/
def mixedQueue : EditQueue :=
  ⟨[⟨3, "# C".toList, [⟨0, 3, []⟩]⟩, ⟨1, "# A".toList, [⟨3, 3, "B".toList⟩]⟩,
    ⟨2, "# B".toList, [⟨0, 0, "x".toList⟩]⟩, ⟨4, "# D".toList, [⟨1, 2, []⟩]⟩]⟩

theorem clean_mixedQueue : mixedQueue.Clean where
  nodup := by decide
  edits := by
    simp only [mixedQueue, List.forall_mem_cons]
    exact ⟨⟨by decide, by decide, by decide, by decide⟩,
      ⟨by decide, by decide, by decide, by decide⟩, ⟨by decide, by decide, by decide, by decide⟩,
      ⟨by decide, by decide, by decide, by decide⟩, nofun⟩

/-- The last line is emptied and lost, and its edit is stale in what was written. -/
theorem commit_rewrites_fresh_lines_mixed :
    ∃ w', (mixedQueue.commit (.ofLocation ["a.py".toList])).Yields mixedWorkspace
        ⟨[1, 3], [2, 4]⟩ w' ∧
      w'.disk.tree.readBytes (.ofLocation ["a.py".toList]) =
        .ok (Utf8.encode "# AB\r\nb\n".toList) ∧
      ((mixedQueue.commit (.ofLocation ["a.py".toList])).run w').2 = w' := by
  have hread : mixedWorkspace.disk.tree.readText (.ofLocation ["a.py".toList]) = .ok mixedText := by
    cbv
  obtain ⟨-, -, hrun, hagain⟩ := commit_rewrites_fresh_lines clean_mixedQueue (by decide) hread
  have happlied : mixedQueue.appliedIn mixedText = [1, 3] := by cbv
  have hstale : mixedQueue.staleIn mixedText = [2, 4] := by cbv
  have hlines : Line.join (mixedQueue.linesAfter mixedText) = "# AB\r\nb\n".toList := by cbv
  have hwrite : (mixedWorkspace.disk.write (.ofLocation ["a.py".toList])
      "# AB\r\nb\n".toList).1 = .ok () := by cbv
  obtain ⟨disk, hdisk⟩ : ∃ disk, mixedWorkspace.disk.write (.ofLocation ["a.py".toList])
      "# AB\r\nb\n".toList = (.ok (), disk) := ⟨_, Prod.ext hwrite rfl⟩
  rw [happlied, hstale, hlines, hdisk, if_neg (List.cons_ne_nil _ _)] at hrun
  obtain ⟨hbytes, hsame⟩ := hagain _ _ hrun
  exact ⟨_, hrun, hlines ▸ hbytes (List.cons_ne_nil _ _), hsame⟩

end EditQueue

end TodoTracker
