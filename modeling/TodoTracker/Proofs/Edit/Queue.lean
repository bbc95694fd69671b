import TodoTracker.Edit.Queue
import TodoTracker.Marker.Candidate
import TodoTracker.Proofs.Edit.InTurn
import TodoTracker.Proofs.Marker.Turn

/-!
# The edits of markers in a queue

The splices of a marker join those of the markers in front of it on its line. They stay in the text
of their marker, so a line is never queued with two contents, no two of its splices overlap, and
making the edits never fails on a splice.
-/

set_option autoImplicit false

namespace TodoTracker

/-- Failures of queued edits: splices that overlap, and a line that was queued with two contents. -/
def Failure.isEdit : Failure → Bool
  | .overlap _ | .twoContents _ _ => true
  | _ => false

/-- An answer that is no failure of an edit. -/
def EditFree {α : Type} (answer : Except Failure α) : Prop :=
  ∀ e, answer = .error e → e.isEdit = false

namespace EditFree

variable {α β : Type}

theorem ok (a : α) : EditFree (.ok a : Except Failure α) := nofun

theorem error {e : Failure} (h : e.isEdit = false) : EditFree (.error e : Except Failure α) := by
  rintro _ ⟨⟩
  exact h

theorem bind {answer : Except Failure α} {f : α → Except Failure β} (h : EditFree answer)
    (hf : ∀ a, answer = .ok a → EditFree (f a)) : EditFree (answer >>= f) := by
  cases answer with
  | error e => exact error (h e rfl)
  | ok a => exact hf a rfl

theorem map {answer : Except Failure α} {f : α → β} (h : EditFree answer) :
    EditFree (f <$> answer) := by
  cases answer with
  | error e => exact error (h e rfl)
  | ok a => exact ok (f a)

theorem mapError {ε : Type} {answer : Except ε α} {f : ε → Failure}
    (h : ∀ e, (f e).isEdit = false) : EditFree (answer.mapError f) := by
  cases answer with
  | error e => exact error (h e)
  | ok a => exact ok a

theorem foldlM {f : β → α → Except Failure β} {as : List α}
    (h : ∀ a ∈ as, ∀ b, EditFree (f b a)) (b : β) : EditFree (as.foldlM f b) := by
  induction as generalizing b with
  | nil => exact ok b
  | cons a as ih =>
    rw [List.foldlM_cons]
    exact (h a List.mem_cons_self b).bind fun b' _ =>
      ih (fun x hx => h x (List.mem_cons_of_mem _ hx)) b'

end EditFree

/-- The edits of a line are splices of markers of the line, each in the text of its marker, and none
of them reaches into the next one. `Owns c s` says that `s` is an edit of the marker `c`. -/
structure LineEdit.OfMarkers (Owns : Candidate → Splice → Prop) (markers : List Candidate)
    (edit : LineEdit) : Prop where
  nonempty : edit.splices ≠ []
  pairwise : edit.splices.Pairwise fun a b => a.stop ≤ b.start
  owner : ∀ s ∈ edit.splices, ∃ c ∈ markers, c.signal.isSome ∧ c.line = edit.number ∧
    c.text = edit.expected ∧ Owns c s ∧
    c.signalStop ≤ s.start ∧ s.start ≤ s.stop ∧ s.stop ≤ c.segmentStop

namespace LineEdit.OfMarkers

variable {Owns : Candidate → Splice → Prop} {markers : List Candidate} {c : Candidate}
  {edit : LineEdit} {splices : List Splice}

theorem mono {markers' : List Candidate} (h : edit.OfMarkers Owns markers)
    (hsub : markers ⊆ markers') : edit.OfMarkers Owns markers' := by
  refine ⟨h.nonempty, h.pairwise, ?_⟩
  intro s hs
  obtain ⟨c, hc, hrest⟩ := h.owner s hs
  exact ⟨c, hsub hc, hrest⟩

theorem of_marker (hsignal : c.signal.isSome) (hne : splices ≠ [])
    (hturn : Splice.InTurn c.signalStop c.segmentStop splices) (howns : ∀ s ∈ splices, Owns c s) :
    (⟨c.line, c.text, splices⟩ : LineEdit).OfMarkers Owns [c] := by
  refine ⟨hne, hturn.pairwise, ?_⟩
  intro s hs
  exact ⟨c, List.mem_cons_self, hsignal, rfl, rfl, howns s hs, hturn.within s hs⟩

/-- A line takes the splices of one more marker. -/
theorem append (h : edit.OfMarkers Owns markers) (hsignal : c.signal.isSome)
    (hnumber : edit.number = c.line) (hexpected : edit.expected = c.text)
    (hbefore : ∀ d ∈ markers, d.line = c.line → d.Before c) (hcolumn : c.column ≤ c.signalStop)
    (hturn : Splice.InTurn c.signalStop c.segmentStop splices) (howns : ∀ s ∈ splices, Owns c s) :
    ({ edit with splices := edit.splices ++ splices } : LineEdit).OfMarkers Owns
      (markers ++ [c]) := by
  constructor
  · simp [h.nonempty]
  · refine List.pairwise_append.2 ⟨h.pairwise, hturn.pairwise, ?_⟩
    -- the marker that owns `a` ends before the signal word of `c`
    intro a ha b hb
    obtain ⟨d, hd, hdsignal, hline, -, -, -, -, hstop⟩ := h.owner a ha
    have := hbefore d hd (by omega) hdsignal hsignal
    have := (hturn.within b hb).1
    omega
  · intro s hs
    rcases List.mem_append.1 hs with hs | hs
    · obtain ⟨d, hd, hrest⟩ := h.owner s hs
      exact ⟨d, List.mem_append_left _ hd, hrest⟩
    · exact ⟨c, by simp, hsignal, hnumber.symm, hexpected.symm, howns s hs, hturn.within s hs⟩

/-- The edit of a line can be made. -/
theorem change_eq (h : edit.OfMarkers Owns markers) :
    edit.change = .ok
      ⟨edit.number, edit.expected, Splice.applyOrdered edit.expected edit.splices⟩ := by
  have hle : ∀ s ∈ edit.splices, s.start ≤ s.stop := by
    intro s hs
    obtain ⟨c, -, -, -, -, -, -, hle, -⟩ := h.owner s hs
    exact hle
  simp [change, Splice.applyAll_eq hle h.pairwise]

end LineEdit.OfMarkers

namespace EditQueue

variable {Owns : Candidate → Splice → Prop} {markers : List Candidate} {c : Candidate}
  {queue : EditQueue} {splices : List Splice}

/-- A queue with one edit for each of its lines, all of them edits of markers. -/
structure OfMarkers (Owns : Candidate → Splice → Prop) (markers : List Candidate)
    (queue : EditQueue) : Prop where
  nodup : (queue.edits.map LineEdit.number).Nodup
  edits : ∀ edit ∈ queue.edits, edit.OfMarkers Owns markers

theorem OfMarkers.empty : EditQueue.empty.OfMarkers Owns markers :=
  ⟨List.nodup_nil, by simp [EditQueue.empty]⟩

theorem OfMarkers.mono {markers' : List Candidate} (h : queue.OfMarkers Owns markers)
    (hsub : markers ⊆ markers') : queue.OfMarkers Owns markers' :=
  ⟨h.nodup, fun edit hedit => (h.edits edit hedit).mono hsub⟩

/-- The splices of the next marker can be queued. -/
theorem OfMarkers.add (h : queue.OfMarkers Owns markers) (file : Text)
    (hsignal : c.signal.isSome) (hcolumn : c.column ≤ c.signalStop)
    (hbefore : ∀ d ∈ markers, d.line = c.line → d.Before c)
    (htext : ∀ d ∈ markers, d.signal.isSome → d.line = c.line → d.text = c.text)
    (hturn : Splice.InTurn c.signalStop c.segmentStop splices) (howns : ∀ s ∈ splices, Owns c s) :
    ∃ queue', queue.add file ⟨c.line, c.text, splices⟩ = .ok queue' ∧
      queue'.OfMarkers Owns (markers ++ [c]) := by
  have hold := h.mono (List.subset_append_left markers [c])
  by_cases hempty : splices = []
  · exact ⟨queue, by simp [EditQueue.add, hempty], hold⟩
  have hnew := LineEdit.OfMarkers.of_marker hsignal hempty hturn howns
  -- an edit of the line has been queued for the content that the marker sees
  have hexpected : ∀ edit ∈ queue.edits, edit.number = c.line → edit.expected = c.text := by
    intro edit hedit hnumber
    obtain ⟨s, hs⟩ := List.exists_mem_of_ne_nil _ (h.edits edit hedit).nonempty
    obtain ⟨d, hd, hdsignal, hline, hdtext, -⟩ := (h.edits edit hedit).owner s hs
    rw [← hdtext]
    exact htext d hd hdsignal (by omega)
  cases hfind : queue.find? c.line with
  | none =>
    refine ⟨⟨queue.edits ++ [⟨c.line, c.text, splices⟩]⟩, ?_, ?_, ?_⟩
    · simp [EditQueue.add, hempty, hfind]
    · have hother : ∀ edit ∈ queue.edits, edit.number ≠ c.line := by
        simpa [find?] using hfind
      simpa [List.nodup_append] using ⟨h.nodup, hother⟩
    · intro edit hedit
      rcases List.mem_append.1 hedit with hedit | hedit
      · exact hold.edits edit hedit
      · rw [List.mem_singleton.1 hedit]
        exact hnew.mono (List.subset_append_right markers [c])
  | some known =>
    have hnumber : known.number = c.line := by simpa using List.find?_some hfind
    have hcontent := hexpected known (List.mem_of_find?_eq_some hfind) hnumber
    refine ⟨⟨queue.edits.map fun e =>
      if e.number == (c.line : Int) then { e with splices := e.splices ++ splices } else e⟩,
      ?_, ?_, ?_⟩
    · simp [EditQueue.add, hempty, hfind, hcontent]
    · have hsame : LineEdit.number ∘ (fun e : LineEdit =>
          if e.number == (c.line : Int) then { e with splices := e.splices ++ splices } else e) =
          LineEdit.number := by
        ext e
        by_cases hline : e.number = c.line <;> simp [hline]
      rw [List.map_map, hsame]
      exact h.nodup
    · intro edit hedit
      obtain ⟨e, he, rfl⟩ := List.mem_map.1 hedit
      split
      · rename_i hline
        have hline := eq_of_beq hline
        exact (h.edits e he).append hsignal hline (hexpected e he hline) hbefore hcolumn hturn howns
      · exact hold.edits e he

theorem mem_ordered {edit : LineEdit} : edit ∈ queue.ordered ↔ edit ∈ queue.edits :=
  List.mem_mergeSort

/-- Ordering the edits does not change which one is found for a line. -/
theorem find?_ordered (hnodup : (queue.edits.map LineEdit.number).Nodup) (number : Int) :
    queue.ordered.find? (·.number == number) = queue.find? number := by
  cases hfind : queue.find? number with
  | none =>
    rw [find?, List.find?_eq_none] at hfind
    exact List.find?_eq_none.2 fun edit hedit => hfind edit (mem_ordered.1 hedit)
  | some edit =>
    have hedit : edit ∈ queue.ordered := mem_ordered.2 (List.mem_of_find?_eq_some hfind)
    have hnumber : edit.number = number := by simpa using List.find?_some hfind
    obtain ⟨found, hfound⟩ : ∃ found, queue.ordered.find? (·.number == number) = some found :=
      Option.isSome_iff_exists.1 (List.find?_isSome.2 ⟨edit, hedit, by simpa using hnumber⟩)
    have hsame : found.number = edit.number :=
      (by simpa using List.find?_some hfound : found.number = number).trans hnumber.symm
    rw [hfound, List.inj_on_of_nodup_map hnodup (mem_ordered.1 (List.mem_of_find?_eq_some hfound))
      (mem_ordered.1 hedit) hsame]

theorem OfMarkers.editFree_preview (h : queue.OfMarkers Owns markers) :
    EditFree queue.preview := by
  have hall : ∀ edits : List LineEdit, (∀ edit ∈ edits, edit.OfMarkers Owns markers) →
      EditFree (edits.mapM LineEdit.change) := by
    intro edits hedits
    induction edits with
    | nil => exact .ok []
    | cons edit edits ih =>
      rw [List.mapM_cons, (hedits edit List.mem_cons_self).change_eq]
      exact (ih fun e he => hedits e (List.mem_cons_of_mem _ he)).bind fun changes _ => .ok _
  exact hall _ fun edit hedit => h.edits edit (mem_ordered.1 hedit)

theorem OfMarkers.editFree_apply (h : queue.OfMarkers Owns markers) (text : Text) :
    EditFree (queue.apply text) := by
  apply EditFree.foldlM
  intro edit hedit result
  have hchange := (h.edits edit (mem_ordered.1 hedit)).change_eq
  have hposition : EditFree (LineEdit.position edit.number result.lines.length) := by
    rw [LineEdit.position]
    split
    · exact .ok _
    · split
      · exact .ok _
      · split
        · exact .ok _
        · exact .error rfl
  apply hposition.bind
  intro place _
  cases place with
  | none => exact .ok _
  | some i =>
    dsimp only
    split
    · exact .ok _
    · split
      · exact .ok _
      · rw [hchange]
        apply (EditFree.ok _).bind
        intro change _
        split
        · exact .ok _
        · exact .ok _

end EditQueue

end TodoTracker
