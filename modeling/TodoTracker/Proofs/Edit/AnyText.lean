import TodoTracker.Proofs.Edit.Lines

/-!
# Edits on a text that may have changed

Edits of different lines can be made on every text. A line that still has the content that its edit
was made for takes the splices; every other one is stale, and is left as it is.
-/

set_option autoImplicit false

namespace TodoTracker

/-- An edit of a line counted from 1, whose splices can be applied. -/
structure LineEdit.Applicable (edit : LineEdit) : Prop where
  placed : 1 ≤ edit.number
  applies : ∃ after, Splice.applyAll edit.expected edit.splices = .ok after

theorem LineEdit.OfMarkers.applicable {Owns : Candidate → Splice → Prop} {markers : List Candidate}
    {edit : LineEdit} (h : edit.OfMarkers Owns markers) (hlines : ∀ c ∈ markers, 1 ≤ c.line) :
    edit.Applicable := by
  constructor
  · obtain ⟨s, hs⟩ := List.exists_mem_of_ne_nil _ h.nonempty
    obtain ⟨c, hc, -, hline, -⟩ := h.owner s hs
    have := hlines c hc
    omega
  · have hchange := h.change_eq
    rw [change] at hchange
    cases hall : Splice.applyAll edit.expected edit.splices with
    | ok after => exact ⟨after, rfl⟩
    | error overlap =>
      rw [hall] at hchange
      cases hchange

namespace EditQueue

theorem position_of_le {i size : Nat} (h : size ≤ i) :
    LineEdit.position ((i + 1 : Nat) : Int) size = .ok none := by
  rw [LineEdit.position, if_pos (by omega)]

/-- A line has taken an edit, or it has not and the edit is stale. -/
inductive Taken (edit : LineEdit) (i : Nat) (before after : Result) : Prop
  | written (line : Line) (content : Text) (hfresh : edit.number ∉ after.stale)
      (hline : before.lines[i]? = some line) (hcontent : line.content = edit.expected)
      (happlied : Splice.applyAll edit.expected edit.splices = .ok content)
      (hafter : after.lines[i]? = some { line with content })
  | stale (hstale : edit.number ∈ after.stale) (hsame : after.lines[i]? = before.lines[i]?)

theorem Result.apply_of_applicable {edit : LineEdit} (h : edit.Applicable) {i : Nat}
    (hnumber : edit.number = (i + 1 : Nat)) {result : Result} (hfresh : edit.number ∉ result.stale) :
    ∃ result', result.apply edit = .ok result' ∧ Taken edit i result result' ∧
      (∀ j, j ≠ i → result'.lines[j]? = result.lines[j]?) ∧
      ∀ number, number ≠ edit.number → (number ∈ result'.stale ↔ number ∈ result.stale) := by
  obtain ⟨content, happlied⟩ := h.applies
  have hleft : ∀ number : Int, number ≠ edit.number →
      (number ∈ result.stale ++ [edit.number] ↔ number ∈ result.stale) := by
    intro number hne
    simp [hne]
  by_cases hlt : i < result.lines.length
  · have hline := List.getElem?_eq_getElem hlt
    by_cases hcontent : result.lines[i].content = edit.expected
    · have hchange : edit.change = .ok ⟨edit.number, edit.expected, content⟩ := by
        rw [LineEdit.change, happlied]
      by_cases hsame : content = edit.expected
      · refine ⟨result, ?_, .written _ content hfresh hline hcontent happlied ?_,
          fun _ _ => rfl, fun _ _ => .rfl⟩
        · rw [apply, hnumber, position_of_lt hlt]
          dsimp only [bind, Except.bind]
          rw [hline]
          dsimp only
          rw [if_neg (not_not_intro hcontent), hchange]
          exact if_pos hsame
        · rw [hline, hsame, ← hcontent]
      · refine ⟨{ result with
            lines := result.lines.set i { result.lines[i] with content }
            applied := result.applied ++ [edit.number] }, ?_,
          .written _ content hfresh hline hcontent happlied (List.getElem?_set_self hlt),
          fun j hj => List.getElem?_set_ne hj.symm, fun _ _ => .rfl⟩
        rw [apply, hnumber, position_of_lt hlt]
        dsimp only [bind, Except.bind]
        rw [hline]
        dsimp only
        rw [if_neg (not_not_intro hcontent), hchange, ← hnumber]
        exact if_neg hsame
    · refine ⟨{ result with stale := result.stale ++ [edit.number] }, ?_,
        .stale (by simp) rfl, fun _ _ => rfl, hleft⟩
      rw [apply, hnumber, position_of_lt hlt]
      dsimp only [bind, Except.bind]
      rw [hline]
      dsimp only
      rw [if_pos hcontent]
      rfl
  · refine ⟨{ result with stale := result.stale ++ [edit.number] }, ?_,
      .stale (by simp) rfl, fun _ _ => rfl, hleft⟩
    rw [apply, hnumber, position_of_le (Nat.le_of_not_lt hlt)]
    rfl

/-- Edits of different lines can be made one after the other, and each is taken or stale. -/
theorem exists_foldlM {edits : List LineEdit} (h : ∀ edit ∈ edits, edit.Applicable)
    (hnodup : (edits.map LineEdit.number).Nodup) {result : Result}
    (hfresh : ∀ edit ∈ edits, edit.number ∉ result.stale) :
    ∃ result', edits.foldlM Result.apply result = .ok result' ∧
      (∀ edit ∈ edits, ∀ i : Nat, edit.number = (i + 1 : Nat) → Taken edit i result result') ∧
      ∀ i : Nat, (∀ edit ∈ edits, edit.number ≠ (i + 1 : Nat)) →
        result'.lines[i]? = result.lines[i]? ∧
          (((i + 1 : Nat) : Int) ∈ result'.stale ↔ ((i + 1 : Nat) : Int) ∈ result.stale) := by
  induction edits generalizing result with
  | nil => exact ⟨result, rfl, nofun, fun _ _ => ⟨rfl, .rfl⟩⟩
  | cons edit edits ih =>
    obtain ⟨hother, hnodup⟩ := List.nodup_cons.1 hnodup
    have hedit := h edit List.mem_cons_self
    obtain ⟨i, hi⟩ : ∃ i : Nat, edit.number = (i + 1 : Nat) :=
      ⟨(edit.number - 1).toNat, by have := hedit.placed; omega⟩
    have hne : ∀ e ∈ edits, e.number ≠ edit.number :=
      fun e he heq => hother (List.mem_map.2 ⟨e, he, heq⟩)
    obtain ⟨next, hnext, htaken, hlines, hstale⟩ :=
      Result.apply_of_applicable hedit hi (hfresh edit List.mem_cons_self)
    obtain ⟨result', hrest, hall, hkept⟩ := ih (fun e he => h e (List.mem_cons_of_mem _ he)) hnodup
      fun e he => (hstale _ (hne e he)).not.2 (hfresh e (List.mem_cons_of_mem _ he))
    refine ⟨result', by rw [List.foldlM_cons, hnext]; exact hrest, ?_, ?_⟩
    · intro e he j hj
      rcases List.mem_cons.1 he with rfl | he
      · -- the other edits leave the line of this one
        obtain ⟨hline, hstale⟩ := hkept j fun e' he' heq => hne e' he' (heq.trans hj.symm)
        obtain rfl : i = j := by omega
        rw [← hj] at hstale
        cases htaken with
        | written line content hfresh hbefore hcontent happlied hafter =>
          exact .written line content (hstale.not.2 hfresh) hbefore hcontent happlied
            (hline.trans hafter)
        | stale hin hsame => exact .stale (hstale.2 hin) (hline.trans hsame)
      · have hij : j ≠ i := by
          rintro rfl
          exact hne e he (hj.trans hi.symm)
        have hbefore := hlines j hij
        cases hall e he j hj with
        | written line content hfresh hline hcontent happlied hafter =>
          exact .written line content hfresh (hbefore ▸ hline) hcontent happlied hafter
        | stale hin hsame => exact .stale hin (hsame.trans hbefore)
    · intro j hj
      have hji : j ≠ i := by
        rintro rfl
        exact hj edit List.mem_cons_self hi
      obtain ⟨hline, hmem⟩ := hkept j fun e he => hj e (List.mem_cons_of_mem _ he)
      refine ⟨hline.trans (hlines j hji), hmem.trans (hstale _ ?_)⟩
      rw [hi]
      omega

variable {queue : EditQueue}

/-- The queue has one edit for each of its lines, and each of them can be made. -/
structure Applicable (queue : EditQueue) : Prop where
  nodup : (queue.edits.map LineEdit.number).Nodup
  edits : ∀ edit ∈ queue.edits, edit.Applicable

theorem OfMarkers.applicable {Owns : Candidate → Splice → Prop} {markers : List Candidate}
    (h : queue.OfMarkers Owns markers) (hlines : ∀ c ∈ markers, 1 ≤ c.line) : queue.Applicable :=
  ⟨h.nodup, fun edit hedit => (h.edits edit hedit).applicable hlines⟩

theorem Applicable.exists_preview (h : queue.Applicable) : ∃ preview, queue.preview = .ok preview := by
  have hall : ∀ edits : List LineEdit, (∀ edit ∈ edits, edit.Applicable) →
      ∃ preview, edits.mapM LineEdit.change = .ok preview := by
    intro edits hedits
    induction edits with
    | nil => exact ⟨[], rfl⟩
    | cons edit edits ih =>
      obtain ⟨content, happlied⟩ := (hedits edit List.mem_cons_self).applies
      obtain ⟨rest, hrest⟩ := ih fun e he => hedits e (List.mem_cons_of_mem _ he)
      refine ⟨⟨edit.number, edit.expected, content⟩ :: rest, ?_⟩
      rw [List.mapM_cons, LineEdit.change, happlied, hrest]
      rfl
  exact hall _ fun edit hedit => h.edits edit (mem_ordered.1 hedit)

/-- On every text the queue can be made: each of its lines takes its splices or is stale, and every
other line is as it was and not stale. -/
theorem Applicable.exists_apply (h : queue.Applicable) (text : Text) :
    ∃ result, queue.apply text = .ok result ∧ ∀ i : Nat,
      (∀ edit, queue.find? (i + 1 : Nat) = some edit →
        Taken edit i ⟨Line.split text, [], []⟩ result) ∧
      (queue.find? (i + 1 : Nat) = none → result.lines[i]? = (Line.split text)[i]? ∧
        ((i + 1 : Nat) : Int) ∉ result.stale) := by
  have hperm : queue.ordered.Perm queue.edits := List.mergeSort_perm ..
  obtain ⟨result, hresult, htaken, hkept⟩ :=
    @exists_foldlM _ (fun e he => h.edits e (mem_ordered.1 he)) ((hperm.map _).nodup_iff.2 h.nodup)
      ⟨Line.split text, [], []⟩ fun _ _ => List.not_mem_nil
  refine ⟨result, hresult, fun i => ⟨fun edit hfind => ?_, fun hnone => ?_⟩⟩
  · have hnumber : edit.number = (i + 1 : Nat) := by simpa using List.find?_some hfind
    exact htaken edit (mem_ordered.2 (List.mem_of_find?_eq_some hfind)) i hnumber
  · obtain ⟨hline, hstale⟩ := hkept i fun e he => by
      simpa using List.find?_eq_none.1 hnone e (mem_ordered.1 he)
    exact ⟨hline, hstale.not.2 List.not_mem_nil⟩

end EditQueue

end TodoTracker
