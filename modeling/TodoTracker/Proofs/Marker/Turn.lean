import TodoTracker.Edit.Splice
import TodoTracker.Proofs.Comment.Lexed
import TodoTracker.Proofs.Marker.Order

/-!
# The markers of a text

Whatever the ticket patterns and the signal words are, the text of a marker lies in its line behind
the signal word, and ends before the next marker of the line starts. Signal words are trimmed before
they are looked for, so none of them ends in a blank.
-/

set_option autoImplicit false

namespace TodoTracker

theorem Text.getLast?_trim (t : Text) : ∀ c ∈ (Text.trim t).getLast?, Text.isBlank c = false := by
  intro c hc
  rw [Text.trim, Text.trimWhen, Text.trimEndWhen, List.getLast?_reverse] at hc
  have hnot := List.head?_dropWhile_not Text.isBlank (t.dropWhile Text.isBlank).reverse
  rw [Option.mem_def.1 hc] at hnot
  exact hnot

theorem Splice.not_isGap_of_not_isBlank {c : Char} (h : Text.isBlank c = false) :
    isGap c = false := by
  cases hgap : isGap c with
  | false => rfl
  | true =>
    simp only [isGap, Bool.or_eq_true, beq_iff_eq] at hgap
    rcases hgap with rfl | rfl <;> cases h

/-- Signal words that are not empty and do not end in a blank. -/
def Signal.Solid (words : List Text) : Prop :=
  ∀ w ∈ words, w ≠ [] ∧ ∀ c ∈ w.getLast?, Text.isBlank c = false

theorem Signal.solid_prepare (words : List Text) : Solid (prepare words) := by
  intro w hw
  simp only [prepare, List.mem_mergeSort, List.mem_eraseDups, List.mem_filter, List.mem_map] at hw
  obtain ⟨⟨word, -, rfl⟩, hne⟩ := hw
  exact ⟨by simpa using hne, Text.getLast?_trim word⟩

namespace Candidate

/-- A signal word in its line with the text behind it, where its key is looked for. -/
structure Marker (patterns : List Pattern) (c : Candidate) : Prop where
  column_lt : c.column < c.signalStop
  signalStop_le : c.signalStop ≤ c.segmentStop
  segmentStop_le : c.segmentStop ≤ c.text.length
  solid : ∀ a ∈ c.text[c.signalStop - 1]?, Splice.isGap a = false
  carried : c.carried = CarriedKey.inSegment? patterns c.text c.signalStop c.segmentStop

/-- Of two markers the text of the first ends before the second one starts. -/
def Before (c d : Candidate) : Prop :=
  c.signal.isSome → d.signal.isSome → c.segmentStop ≤ d.column

end Candidate

namespace Scanner

variable {scanner : Scanner} {number : Nat} {line : Text} {span : Span} {c : Candidate}

theorem exists_mentions (scanner : Scanner) (number : Nat) (line : Text) (span : Span) :
    ∃ mentions, scanner.scanSpan number line span =
        scanner.ofSignalsTo number line span span.bodyStop
          (Signal.findAll scanner.words line span.bodyStart span.bodyStop) ++ mentions ∧
      ∀ d ∈ mentions, d.signal = none := by
  rw [scanSpan, ofSignals_eq]
  refine ⟨_, rfl, ?_⟩
  intro d hd
  split at hd
  · obtain ⟨found, -, rfl⟩ := List.mem_map.1 hd
    rfl
  · cases hd

theorem mem_ofSignalsTo_of_marker (hc : c ∈ scanner.scanSpan number line span)
    (hsignal : c.signal.isSome) :
    c ∈ scanner.ofSignalsTo number line span span.bodyStop
      (Signal.findAll scanner.words line span.bodyStart span.bodyStop) := by
  obtain ⟨mentions, heq, hmention⟩ := exists_mentions scanner number line span
  rw [heq] at hc
  rcases List.mem_append.1 hc with hc | hc
  · exact hc
  · simp [hmention c hc] at hsignal

/-- The markers of a comment are in its body. -/
theorem within_of_marker (hwords : ∀ w ∈ scanner.words, w ≠ []) (hin : span.Within 0 line.length)
    (hc : c ∈ scanner.scanSpan number line span) (hsignal : c.signal.isSome) :
    c.Within span.bodyStart span.bodyStop ∧ c.column < c.signalStop ∧ c.text = line := by
  have hordered := Signal.ordered_findAll hwords line hin.bodyStart_le
    (Nat.le_trans hin.bodyStop_le hin.stop_le)
  have hbody := within_of_mem_ofSignalsTo hordered (mem_ofSignalsTo_of_marker hc hsignal)
  exact ⟨hbody.1, hbody.2.1, hbody.2.2.1⟩

theorem marker_of_mem_scanSpan (hwords : Signal.Solid scanner.words)
    (hin : span.Within 0 line.length) (hc : c ∈ scanner.scanSpan number line span)
    (hsignal : c.signal.isSome) : c.Marker scanner.patterns := by
  have hne : ∀ w ∈ scanner.words, w ≠ [] := fun w hw => (hwords w hw).1
  obtain ⟨hbody, hcolumn, htext⟩ := within_of_marker hne hin hc hsignal
  obtain ⟨w, hw, hlast⟩ := getElem?_signalStop hne hin hc hsignal
  have hstop := Nat.le_trans hbody.segmentStop_le (Nat.le_trans hin.bodyStop_le hin.stop_le)
  constructor
  · exact hcolumn
  · exact hbody.signalStop_le
  · rw [htext]
    exact hstop
  · intro a ha
    rw [hlast] at ha
    exact Splice.not_isGap_of_not_isBlank ((hwords w hw).2 a ha)
  · obtain ⟨signal, -, last, rfl⟩ := exists_signal hc hsignal
    rfl

theorem pairwise_before_ofSignalsTo {first stop : Nat} {signals : List Signal}
    (hordered : Signal.Ordered stop first signals) :
    (scanner.ofSignalsTo number line span stop signals).Pairwise Candidate.Before := by
  induction signals generalizing first with
  | nil => exact List.Pairwise.nil
  | cons signal rest ih =>
    obtain ⟨-, -, hrest⟩ := hordered
    rw [ofSignalsTo]
    refine List.pairwise_cons.2 ⟨?_, ih hrest⟩
    intro d hd _ _
    exact (within_of_mem_ofSignalsTo hrest.from_head hd).1.first_le

theorem pairwise_before_scanSpan (hwords : ∀ w ∈ scanner.words, w ≠ [])
    (hin : span.Within 0 line.length) :
    (scanner.scanSpan number line span).Pairwise Candidate.Before := by
  have hordered := Signal.ordered_findAll hwords line hin.bodyStart_le
    (Nat.le_trans hin.bodyStop_le hin.stop_le)
  obtain ⟨mentions, heq, hmention⟩ := exists_mentions scanner number line span
  rw [heq]
  refine List.pairwise_append.2 ⟨pairwise_before_ofSignalsTo hordered, ?_, ?_⟩
  · apply List.pairwise_of_forall_mem_list
    intro c hc d _ hsignal
    simp [hmention c hc] at hsignal
  · intro c _ d hd _ hsignal
    simp [hmention d hd] at hsignal

/-- The markers of a line come one after the other. -/
theorem pairwise_before_scanLine (hwords : ∀ w ∈ scanner.words, w ≠ []) {spans : List Span}
    (hwithin : ∀ span ∈ spans, span.Within 0 line.length)
    (hpairwise : spans.Pairwise Span.Precedes) :
    (scanner.scanLine number line spans).Pairwise Candidate.Before := by
  have hmarker : ∀ c ∈ spans.flatMap (scanner.scanSpan number line), c.signal.isSome →
      c.column < c.segmentStop := by
    intro c hc hsignal
    obtain ⟨span, hspan, hc⟩ := List.mem_flatMap.1 hc
    obtain ⟨hbody, hcolumn, -⟩ := within_of_marker hwords (hwithin span hspan) hc hsignal
    exact Nat.lt_of_lt_of_le hcolumn hbody.signalStop_le
  have hspans : (spans.flatMap (scanner.scanSpan number line)).Pairwise Candidate.Before := by
    refine List.pairwise_flatMap.2
      ⟨fun span hspan => pairwise_before_scanSpan hwords (hwithin span hspan), ?_⟩
    apply List.Pairwise.imp_of_mem _ hpairwise
    intro s t hs ht hprecedes c hc d hd hcsignal hdsignal
    obtain ⟨hcin, -⟩ := within_of_marker hwords (hwithin s hs) hc hcsignal
    obtain ⟨hdin, -⟩ := within_of_marker hwords (hwithin t ht) hd hdsignal
    have := hcin.segmentStop_le
    have := hdin.first_le
    have := (hwithin t ht).start_le
    have := hprecedes.1
    omega
  -- sorting by column keeps the order that the markers have already
  have heither : (scanner.scanLine number line spans).Pairwise fun c d =>
      c.Before d ∨ d.Before c := by
    have hsymm : ∀ c d : Candidate, c.Before d ∨ d.Before c → d.Before c ∨ c.Before d :=
      fun _ _ => Or.symm
    rw [scanLine]
    exact (hspans.imp .inl).perm (List.mergeSort_perm _ _).symm (hsymm _ _)
  apply List.Pairwise.imp_of_mem _ ((pairwise_column_le scanner number line spans).and heither)
  rintro c d hc hd ⟨hle, hbefore | hbefore⟩ hcsignal hdsignal
  · exact hbefore hcsignal hdsignal
  · have := hbefore hdsignal hcsignal
    have := hmarker d (List.mem_mergeSort.1 hd) hdsignal
    omega

/-- The markers of a line come in the order of their signal words. -/
theorem pairwise_signalStop_lt (hwords : ∀ w ∈ scanner.words, w ≠ []) {spans : List Span}
    (hwithin : ∀ span ∈ spans, span.Within 0 line.length)
    (hpairwise : spans.Pairwise Span.Precedes) :
    (scanner.scanLine number line spans).Pairwise fun c d =>
      c.signal.isSome → d.signal.isSome → c.signalStop < d.signalStop := by
  have hmarker : ∀ c ∈ scanner.scanLine number line spans, c.signal.isSome →
      c.column < c.signalStop ∧ c.signalStop ≤ c.segmentStop := by
    intro c hc hsignal
    rw [scanLine, List.mem_mergeSort] at hc
    obtain ⟨span, hspan, hc⟩ := List.mem_flatMap.1 hc
    obtain ⟨hbody, hcolumn, -⟩ := within_of_marker hwords (hwithin span hspan) hc hsignal
    exact ⟨hcolumn, hbody.signalStop_le⟩
  apply List.Pairwise.imp_of_mem _ (pairwise_before_scanLine hwords hwithin hpairwise)
  intro c d hc hd hbefore hcsignal hdsignal
  have := hbefore hcsignal hdsignal
  have := (hmarker c hc hcsignal).2
  have := (hmarker d hd hdsignal).1
  omega

theorem exists_of_mem_scanFrom {rows : List (Text × List Span)}
    (hc : c ∈ scanner.scanFrom number rows) :
    ∃ i line spans, rows[i]? = some (line, spans) ∧
      c ∈ scanner.scanLine (number + i) line spans := by
  induction rows generalizing number with
  | nil => cases hc
  | cons row rows ih =>
    obtain ⟨line, spans⟩ := row
    rw [scanFrom] at hc
    rcases List.mem_append.1 hc with hc | hc
    · exact ⟨0, line, spans, rfl, hc⟩
    · obtain ⟨i, line', spans', hrow, hmem⟩ := ih hc
      refine ⟨i + 1, line', spans', hrow, ?_⟩
      have hnumber : number + (i + 1) = number + 1 + i := by omega
      rw [hnumber]
      exact hmem

variable {grammar : Grammar} {lines : List Text}

theorem getElem?_zip_spansFrom (hg : grammar.Proper) {pending : Option Text}
    (hpending : grammar.Awaits pending) {i : Nat} {line : Text} {spans : List Span}
    (h : (lines.zip (grammar.spansFrom pending lines))[i]? = some (line, spans)) :
    lines[i]? = some line ∧ ∃ pending', grammar.Awaits pending' ∧
      spans = (grammar.lineSpans pending' line).1 := by
  induction lines generalizing pending i with
  | nil => cases h
  | cons first lines ih =>
    rw [Grammar.spansFrom] at h
    cases i with
    | zero =>
      cases h
      exact ⟨rfl, pending, hpending, rfl⟩
    | succ i => exact ih (Grammar.awaits_lineSpans hg hpending first) h

/-- A candidate is one of a comment of its line. -/
theorem exists_span_of_mem_scan (hg : grammar.Proper) (hc : c ∈ scanner.scan lines grammar) :
    ∃ i line pending, lines[i]? = some line ∧ grammar.Awaits pending ∧
      ∃ span ∈ (grammar.lineSpans pending line).1, c ∈ scanner.scanSpan (1 + i) line span := by
  obtain ⟨i, line, spans, hrow, hc⟩ := exists_of_mem_scanFrom hc
  obtain ⟨hline, pending, hpending, rfl⟩ :=
    getElem?_zip_spansFrom hg (by rintro closer ⟨⟩) hrow
  rw [scanLine, List.mem_mergeSort] at hc
  obtain ⟨span, hspan, hc⟩ := List.mem_flatMap.1 hc
  exact ⟨i, line, pending, hline, hpending, span, hspan, hc⟩

theorem within_of_getElem?_zip {pending : Option Text} {i : Nat} {line : Text} {spans : List Span}
    (h : (lines.zip (grammar.spansFrom pending lines))[i]? = some (line, spans)) :
    lines[i]? = some line ∧ ∀ span ∈ spans, span.Within 0 line.length := by
  induction lines generalizing pending i with
  | nil => cases h
  | cons first lines ih =>
    rw [Grammar.spansFrom] at h
    cases i with
    | zero =>
      cases h
      exact ⟨rfl, Grammar.within_lineSpans grammar pending line⟩
    | succ i => exact ih h

theorem marker_of_mem_scan (hwords : Signal.Solid scanner.words)
    (hc : c ∈ scanner.scan lines grammar) (hsignal : c.signal.isSome) :
    c.Marker scanner.patterns ∧ lines[c.line - 1]? = some c.text := by
  obtain ⟨i, line, spans, hrow, hc⟩ := exists_of_mem_scanFrom hc
  obtain ⟨hline, hwithin⟩ := within_of_getElem?_zip hrow
  rw [scanLine, List.mem_mergeSort] at hc
  obtain ⟨span, hspan, hc⟩ := List.mem_flatMap.1 hc
  refine ⟨marker_of_mem_scanSpan hwords (hwithin span hspan) hc hsignal, ?_⟩
  obtain ⟨signal, -, last, rfl⟩ := exists_signal hc hsignal
  simpa [ofSignal] using hline

theorem pairwise_before_scanFrom (hg : grammar.Proper) (hwords : ∀ w ∈ scanner.words, w ≠ [])
    {pending : Option Text} (hpending : grammar.Awaits pending) :
    (scanner.scanFrom number (lines.zip (grammar.spansFrom pending lines))).Pairwise fun c d =>
      c.line = d.line → c.Before d := by
  induction lines generalizing pending number with
  | nil => exact List.Pairwise.nil
  | cons line lines ih =>
    obtain ⟨hwithin, hpairwise⟩ := Grammar.lineSpans_ordered hg hpending line
    rw [Grammar.spansFrom]
    change (scanner.scanLine number line _ ++ scanner.scanFrom (number + 1) _).Pairwise _
    refine List.pairwise_append.2 ⟨?_, ih (Grammar.awaits_lineSpans hg hpending line), ?_⟩
    · apply List.Pairwise.imp _ (pairwise_before_scanLine hwords hwithin hpairwise)
      intro c d h _
      exact h
    · intro c hc d hd heq
      have := line_of_mem_scanLine hc
      have := le_line_of_mem_scanFrom hd
      omega

/-- The markers of a line of a text come one after the other. -/
theorem pairwise_before_scan (hg : grammar.Proper) (hwords : ∀ w ∈ scanner.words, w ≠ []) :
    (scanner.scan lines grammar).Pairwise fun c d => c.line = d.line → c.Before d :=
  pairwise_before_scanFrom hg hwords (by rintro closer ⟨⟩)

end Scanner

end TodoTracker
