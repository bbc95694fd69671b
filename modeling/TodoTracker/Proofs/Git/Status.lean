import TodoTracker.Proofs.Git.Entry
import TodoTracker.Proofs.Task.Anchors

/-!
# Status reports are read back

Every report is read, line by line. The renames and the paths that are read are those of its
entries, exactly if no entry that counts has an arrow in the path that stands first. An entry with
such an arrow adds something with a quote in it, which is the path of no entry and is never taken
back.
-/

set_option autoImplicit false

namespace TodoTracker

namespace Git

def report (entries : List StatusEntry) : Text := entries.flatMap fun entry => entry.line ++ ['\n']

/-- The new path that the last rename of a file gives it. -/
def lastRename? (entries : List StatusEntry) (old : Text) : Option Text :=
  entries.reverse.findSome? fun entry => entry.newPath? old

theorem addRename_of_not_mem {status : Text} (h : 'R' ∉ status) (found : Fields Text)
    (body : Text) : addRename found (status, body) = .ok found := by
  rw [addRename, if_neg (by simpa using h)]

theorem addRename_two {status body old path : Text} (h : ReadAs body (some old) path)
    (hstatus : 'R' ∈ status) (hold : old ≠ []) (hpath : path ≠ []) (found : Fields Text) :
    addRename found (status, body) = .ok (found.set old path) := by
  cases h with
  | two hcut hreadOld hread =>
    rw [addRename, if_pos (by simpa using hstatus)]
    dsimp only
    rw [hcut]
    dsimp only
    rw [hreadOld, hread]
    show Except.ok (if old.isEmpty || path.isEmpty then found else found.set old path) = _
    rw [if_neg (by simp [hold, hpath])]

theorem addPath_of_not_present {entry : StatusEntry} (h : ¬entry.Present) (named : List Text) :
    addPath named (entry.status, entry.body) = .ok named := by
  rw [StatusEntry.Present] at h
  rw [addPath, if_pos]
  by_cases hignored : entry.status = "!!".toList
  · simp [hignored]
  · simp [not_and_not_right.1 h hignored]

theorem addPath_of_present {entry : StatusEntry} (h : entry.Present) {old : Option Text}
    {path : Text} (hread : ReadAs entry.body old path) (hpath : path ≠ []) (named : List Text) :
    addPath named (entry.status, entry.body) =
      .ok (if path ∈ named then named else named ++ [path]) := by
  have hresult :
      readQuoted (((Text.cut? arrow entry.body).map (·.2)).getD entry.body) = .ok path := by
    cases hread with
    | one hcut hread => rw [hcut]; exact hread
    | two hcut _ hread => rw [hcut]; exact hread
  rw [addPath, if_neg (by simpa [StatusEntry.Present] using h)]
  dsimp only
  rw [hresult]
  show Except.ok (if path.isEmpty || named.contains path then named else named ++ [path]) = _
  simp [hpath]

/-- The renames that are read in a report with these entries. -/
structure Renamed (entries : List StatusEntry) (found : Fields Text) : Prop where
  nodup : found.names.Nodup
  plain : (∀ entry ∈ entries, 'R' ∈ entry.status → ¬entry.Mistakable) →
    ∀ old, found.get? old = lastRename? entries old
  quoted : (∃ entry ∈ entries, 'R' ∈ entry.status ∧ entry.Mistakable) →
    ∃ old, '"' ∈ old ∧ (found.get? old).isSome

/-- The paths that are read in a report with these entries. -/
structure Named (entries : List StatusEntry) (named : List Text) : Prop where
  nodup : named.Nodup
  plain : (∀ entry ∈ entries, entry.Present → ¬entry.Mistakable) →
    ∀ path, path ∈ named ↔ ∃ entry ∈ entries, entry.Present ∧ entry.path.text = path
  quoted : (∃ entry ∈ entries, entry.Present ∧ entry.Mistakable) →
    ∃ path ∈ named, '"' ∈ path

variable {entries : List StatusEntry} {found : Fields Text} {named : List Text}

theorem lastRename?_append (entries : List StatusEntry) (entry : StatusEntry) (old : Text) :
    lastRename? (entries ++ [entry]) old =
      (entry.newPath? old).or (lastRename? entries old) := by
  rw [lastRename?, List.reverse_append, List.reverse_singleton, List.singleton_append,
    List.findSome?_cons]
  cases entry.newPath? old <;> rfl

theorem newPath?_of_not_mem {entry : StatusEntry} (h : 'R' ∉ entry.status) (name : Text) :
    entry.newPath? name = none :=
  if_neg fun hboth => h hboth.1

theorem newPath?_of_old {entry : StatusEntry} {old : PlainPath} (h : 'R' ∈ entry.status)
    (hold : entry.old = some old) (name : Text) :
    entry.newPath? name = if old.text = name then some entry.path.text else none := by
  simp [StatusEntry.newPath?, h, hold]

theorem isSome_get?_set {name : Text} {fields : Fields Text} (h : (fields.get? name).isSome)
    (other value : Text) : ((fields.set other value).get? name).isSome := by
  by_cases hname : name = other
  · rw [hname, Fields.get?_set_self]
    rfl
  · rwa [Fields.get?_set_of_ne _ _ hname]

theorem exists_before_or {p : StatusEntry → Prop} {entry : StatusEntry}
    (h : ∃ e ∈ entries ++ [entry], p e) : (∃ e ∈ entries, p e) ∨ p entry := by
  obtain ⟨e, he, hp⟩ := h
  rcases List.mem_append.1 he with he | he
  · exact .inl ⟨e, he, hp⟩
  · exact .inr (List.mem_singleton.1 he ▸ hp)

theorem Renamed.step (h : Renamed entries found) (entry : StatusEntry) :
    ∃ found', addRename found (entry.status, entry.body) = .ok found' ∧
      Renamed (entries ++ [entry]) found' := by
  by_cases hstatus : 'R' ∈ entry.status
  · by_cases hmistakable : entry.Mistakable
    · obtain ⟨old, path, hread, hold, hpath⟩ := entry.readAs_of_mistakable hmistakable
      refine ⟨found.set old path, addRename_two hread hstatus (List.ne_nil_of_mem hold)
        (List.ne_nil_of_mem hpath) found, Fields.nodup_set h.nodup, ?_, ?_⟩
      · intro hnone
        exact absurd hmistakable (hnone entry (by simp) hstatus)
      · intro _
        exact ⟨old, hold, by rw [Fields.get?_set_self]; rfl⟩
    · have hread := entry.readAs_of_not_mistakable hmistakable
      obtain ⟨old, hold⟩ := Option.isSome_iff_exists.1 (entry.moved.2 (.inl hstatus))
      rw [hold, Option.map_some] at hread
      refine ⟨found.set old.text entry.path.text, addRename_two hread hstatus old.ne_nil
        entry.path.ne_nil found, Fields.nodup_set h.nodup, ?_, ?_⟩
      · intro hnone name
        have hrest := h.plain (fun e he => hnone e (List.mem_append_left _ he)) name
        rw [lastRename?_append, newPath?_of_old hstatus hold]
        by_cases hname : old.text = name
        · rw [if_pos hname, hname, Fields.get?_set_self]
          rfl
        · rw [if_neg hname, Fields.get?_set_of_ne _ _ (Ne.symm hname), hrest]
          rfl
      · intro hany
        have hbefore := (exists_before_or hany).resolve_right fun hboth => hmistakable hboth.2
        obtain ⟨name, hquote, hsome⟩ := h.quoted hbefore
        exact ⟨name, hquote, isSome_get?_set hsome _ _⟩
  · refine ⟨found, addRename_of_not_mem hstatus found _, h.nodup, ?_, ?_⟩
    · intro hnone name
      have hrest := h.plain (fun e he => hnone e (List.mem_append_left _ he)) name
      rw [lastRename?_append, newPath?_of_not_mem hstatus, hrest]
      rfl
    · intro hany
      exact h.quoted ((exists_before_or hany).resolve_right fun hboth => hstatus hboth.1)

/-- A path is added once. -/
theorem Named.added (h : Named entries named) (path : Text) :
    (if path ∈ named then named else named ++ [path]).Nodup ∧
      ∀ other, other ∈ (if path ∈ named then named else named ++ [path]) ↔
        other ∈ named ∨ path = other := by
  split
  · rename_i hmem
    refine ⟨h.nodup, fun other => ⟨.inl, ?_⟩⟩
    rintro (hother | rfl)
    · exact hother
    · exact hmem
  · rename_i hnew
    refine ⟨List.nodup_append.2 ⟨h.nodup, List.nodup_singleton _, ?_⟩, fun other => ?_⟩
    · rintro a ha b hb rfl
      exact hnew (List.mem_singleton.1 hb ▸ ha)
    · rw [List.mem_append, List.mem_singleton, eq_comm (a := other)]

theorem Named.step (h : Named entries named) (entry : StatusEntry) :
    ∃ named', addPath named (entry.status, entry.body) = .ok named' ∧
      Named (entries ++ [entry]) named' := by
  by_cases hpresent : entry.Present
  · by_cases hmistakable : entry.Mistakable
    · obtain ⟨old, path, hread, -, hpath⟩ := entry.readAs_of_mistakable hmistakable
      obtain ⟨hnodup, hmem⟩ := h.added path
      refine ⟨_, addPath_of_present hpresent hread (List.ne_nil_of_mem hpath) named, hnodup,
        ?_, ?_⟩
      · intro hnone
        exact absurd hmistakable (hnone entry (by simp) hpresent)
      · intro _
        exact ⟨path, (hmem path).2 (.inr rfl), hpath⟩
    · have hread := entry.readAs_of_not_mistakable hmistakable
      obtain ⟨hnodup, hmem⟩ := h.added entry.path.text
      refine ⟨_, addPath_of_present hpresent hread entry.path.ne_nil named, hnodup, ?_, ?_⟩
      · intro hnone path
        have hrest := h.plain (fun e he => hnone e (List.mem_append_left _ he)) path
        rw [hmem, hrest]
        simp [or_and_right, exists_or, hpresent]
      · intro hany
        have hbefore := (exists_before_or hany).resolve_right fun hboth => hmistakable hboth.2
        obtain ⟨path, hin, hquote⟩ := h.quoted hbefore
        exact ⟨path, (hmem path).2 (.inl hin), hquote⟩
  · refine ⟨named, addPath_of_not_present hpresent named, h.nodup, ?_, ?_⟩
    · intro hnone path
      have hrest := h.plain (fun e he => hnone e (List.mem_append_left _ he)) path
      rw [hrest]
      simp [or_and_right, exists_or, hpresent]
    · intro hany
      exact h.quoted ((exists_before_or hany).resolve_right fun hboth => hpresent hboth.1)

/-- What a step keeps as the entries go by, the whole report keeps. -/
theorem exists_foldlM {α : Type} {step : α → Text × Text → Except QuoteError α}
    {Keeps : List StatusEntry → α → Prop} {start : α} (hstart : Keeps [] start)
    (hstep : ∀ entries a entry, Keeps entries a →
      ∃ a', step a (entry.status, entry.body) = .ok a' ∧ Keeps (entries ++ [entry]) a')
    (entries : List StatusEntry) :
    ∃ a, (entries.map fun entry => (entry.status, entry.body)).foldlM step start = .ok a ∧
      Keeps entries a := by
  induction entries using List.reverseRecOn with
  | nil => exact ⟨start, rfl, hstart⟩
  | append_singleton entries entry ih =>
    obtain ⟨a, hfold, hkeeps⟩ := ih
    obtain ⟨a', hone, hkeeps'⟩ := hstep entries a entry hkeeps
    refine ⟨a', ?_, hkeeps'⟩
    rw [List.map_append, List.foldlM_append, hfold]
    show List.foldlM step a [(entry.status, entry.body)] = _
    rw [List.foldlM_cons, hone]
    rfl

theorem not_isLineBreak_line (entry : StatusEntry) :
    ∀ c ∈ entry.line, Text.isLineBreak c = false := by
  have hplain : ∀ c : Char, 0x20 ≤ c.toNat ∧ c.toNat < 0x7F → Text.isLineBreak c = false := by
    intro c hc
    simp [Text.isLineBreak]
    omega
  have hprinted : ∀ path : PlainPath, ∀ c ∈ path.printed, Text.isLineBreak c = false := by
    intro path c hc
    by_cases hquote : c = '"'
    · rw [hquote]
      rfl
    · exact hplain c (path.printable c ((PlainPath.mem_printed hquote).1 hc))
  intro c hc
  rcases List.mem_append.1 hc with hc | hc
  · exact hplain c (entry.printable c hc)
  rcases List.mem_cons.1 hc with rfl | hc
  · rfl
  cases hold : entry.old with
  | none =>
    rw [StatusEntry.body_of_none hold] at hc
    exact hprinted _ c hc
  | some old =>
    rw [StatusEntry.body_of_old hold, List.mem_append, List.mem_append] at hc
    rcases hc with hc | hc | hc
    · exact hprinted _ c hc
    · have harrow : ∀ d ∈ arrow, Text.isLineBreak d = false := by
        simp [arrow, Text.isLineBreak]
      exact harrow c hc
    · exact hprinted _ c hc

theorem body_ne_nil (entry : StatusEntry) : entry.body ≠ [] := by
  cases hold : entry.old with
  | none =>
    rw [StatusEntry.body_of_none hold]
    exact PlainPath.printed_ne_nil entry.path
  | some old =>
    rw [StatusEntry.body_of_old hold]
    exact List.append_ne_nil_of_left_ne_nil (PlainPath.printed_ne_nil old) _

/-- The lines of a report are its entries. -/
theorem entries_report (entries : List StatusEntry) :
    Git.entries (report entries) = entries.map fun entry => (entry.status, entry.body) := by
  induction entries with
  | nil => rfl
  | cons entry rest ih =>
    have hreport : report (entry :: rest) = entry.line ++ '\n' :: report rest := by
      simp [report]
    have hread : readEntry? entry.line = some (entry.status, entry.body) := by
      have hpos := List.length_pos_iff.2 (body_ne_nil entry)
      have hlength : entry.line.length = entry.body.length + 3 := rfl
      unfold readEntry?
      rw [if_neg (by omega)]
      rfl
    rw [Git.entries, hreport, Text.breakLines_append (not_isLineBreak_line entry),
      List.filterMap_cons_some hread, List.map_cons]
    exact congrArg _ ih

theorem not_mem_of_lastRename? {old new : Text} (h : lastRename? entries old = some new) :
    '"' ∉ old := by
  obtain ⟨entry, -, hentry⟩ := List.exists_of_findSome?_eq_some h
  rw [StatusEntry.newPath?] at hentry
  split at hentry
  · rename_i hboth
    obtain ⟨path, -, rfl⟩ := Option.map_eq_some_iff.1 hboth.2
    exact path.unquoted
  · cases hentry

/-- A report with any entries is read. The renames are those of the entries, the last one of a file
counting, exactly if no rename has an arrow in its old path; and the paths are those of all files
that are there and not ignored, exactly if for none of these there is an arrow in the path that
stands first. -/
theorem report_read_iff (entries : List StatusEntry) : ∃ found named,
    renames (report entries) = .ok found ∧ paths (report entries) = .ok named ∧
      found.names.Nodup ∧ named.Nodup ∧
      ((∀ old, found.get? old = lastRename? entries old) ↔
        ∀ entry ∈ entries, 'R' ∈ entry.status → ¬entry.Mistakable) ∧
      ((∀ path, path ∈ named ↔
          ∃ entry ∈ entries, entry.Present ∧ entry.path.text = path) ↔
        ∀ entry ∈ entries, entry.Present → ¬entry.Mistakable) := by
  have hnone : Renamed [] [] := ⟨List.nodup_nil, fun _ _ => rfl, by simp⟩
  have hnowhere : Named [] [] := ⟨List.nodup_nil, by simp, by simp⟩
  obtain ⟨found, hfound, hrenamed⟩ :=
    exists_foldlM hnone (fun _ _ entry h => h.step entry) entries
  obtain ⟨named, hnamed, hpaths⟩ :=
    exists_foldlM hnowhere (fun _ _ entry h => h.step entry) entries
  refine ⟨found, named, ?_, ?_, hrenamed.nodup, hpaths.nodup, ⟨?_, hrenamed.plain⟩,
    ⟨?_, hpaths.plain⟩⟩
  · rw [renames, entries_report, hfound]
  · rw [paths, entries_report, hnamed]
  · intro hall entry hentry hstatus hmistakable
    obtain ⟨old, hquote, hsome⟩ := hrenamed.quoted ⟨entry, hentry, hstatus, hmistakable⟩
    rw [hall, Option.isSome_iff_exists] at hsome
    obtain ⟨new, hnew⟩ := hsome
    exact not_mem_of_lastRename? hnew hquote
  · intro hall entry hentry hpresent hmistakable
    obtain ⟨path, hin, hquote⟩ := hpaths.quoted ⟨entry, hentry, hpresent, hmistakable⟩
    obtain ⟨e, -, -, rfl⟩ := (hall path).1 hin
    exact e.path.unquoted hquote

/-- A new file whose name has an arrow in it is taken for a renamed one. -/
example : paths "?? \"a -> b.py\"\n".toList = .ok ["b.py\"".toList] := by
  decide +kernel

end Git

end TodoTracker
