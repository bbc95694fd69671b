import TodoTracker.Proofs.Marker.Insert

/-!
# The order of the markers of a line

The candidates of a line come by column. The text of each one ends before the next marker starts,
so no two of them have their signal words, or a key in front of these, end at one column.
-/

set_option autoImplicit false

namespace TodoTracker

/-- What is sorted by a number comes by that number. -/
theorem pairwise_mergeSort_le {α : Type} (number : α → Nat) (as : List α) :
    (as.mergeSort fun a b => number a ≤ number b).Pairwise fun a b => number a ≤ number b := by
  have h : (as.mergeSort fun a b => number a ≤ number b).Pairwise
      fun a b => decide (number a ≤ number b) = true := by
    apply List.pairwise_mergeSort
    · intro a b c hab hbc
      simp only [decide_eq_true_eq] at *
      omega
    · intro a b
      simp only [Bool.or_eq_true, decide_eq_true_eq]
      omega
  exact h.imp of_decide_eq_true

namespace Scanner

variable {scanner : Scanner} {number : Nat} {line : Text} {span : Span}

/-- The text of a marker ends before the next one starts. -/
theorem segmentStop_le_of_mem_ofSignalsTo {first stop : Nat} {signals : List Signal}
    (hordered : Signal.Ordered stop first signals) {c d : Candidate}
    (hc : c ∈ scanner.ofSignalsTo number line span stop signals)
    (hd : d ∈ scanner.ofSignalsTo number line span stop signals)
    (hlt : c.signalStop < d.signalStop) : c.segmentStop ≤ d.column := by
  induction signals generalizing first with
  | nil => cases hc
  | cons signal rest ih =>
    obtain ⟨hstart, hstop, hrest⟩ := hordered
    rw [ofSignalsTo] at hc hd
    rcases List.mem_cons.1 hc with rfl | hc
    · rcases List.mem_cons.1 hd with rfl | hd
      · exact absurd hlt (Nat.lt_irrefl _)
      · exact (within_of_mem_ofSignalsTo hrest.from_head hd).1.first_le
    · rcases List.mem_cons.1 hd with rfl | hd
      · have hin := (within_of_mem_ofSignalsTo hrest hc).1
        have := hin.first_le
        have := hin.column_le
        have hsignalStop : (scanner.ofSignal number line span signal
            ((rest.head?.map Signal.start).getD stop)).signalStop = signal.stop := rfl
        omega
      · exact ih hrest hc hd

/-- The text of a candidate of a comment ends before the next marker of the comment starts. -/
theorem segmentStop_le_of_mem_scanSpan (hwords : Signal.Capital scanner.words)
    (hpatterns : scanner.patterns = [ticketPattern]) (hin : span.Within 0 line.length)
    {c d : Candidate} (hc : c ∈ scanner.scanSpan number line span)
    (hd : d ∈ scanner.scanSpan number line span) (hsignal : d.signal.isSome)
    (hlt : c.signalStop < d.signalStop) : c.segmentStop ≤ d.column ∧ d.column < d.signalStop := by
  have hstop : span.bodyStop ≤ line.length := Nat.le_trans hin.bodyStop_le hin.stop_le
  have hordered := Signal.ordered_findAll hwords.ne_nil line hin.bodyStart_le hstop
  rw [scanSpan, ofSignals_eq, hpatterns] at hc hd
  have hmarker : d ∈ scanner.ofSignalsTo number line span span.bodyStop
      (Signal.findAll scanner.words line span.bodyStart span.bodyStop) := by
    rcases List.mem_append.1 hd with hd | hd
    · exact hd
    · split at hd
      · obtain ⟨found, -, rfl⟩ := List.mem_map.1 hd
        cases hsignal
      · cases hd
  obtain ⟨hfirst, hcolumn, -⟩ := within_of_mem_ofSignalsTo hordered.from_head hmarker
  refine ⟨?_, hcolumn⟩
  rcases List.mem_append.1 hc with hc | hc
  · exact segmentStop_le_of_mem_ofSignalsTo hordered hc hmarker hlt
  · split at hc
    · obtain ⟨found, -, rfl⟩ := List.mem_map.1 hc
      exact hfirst.first_le
    · cases hc

/-- The text of a candidate of a line ends before the next marker of the line starts. -/
theorem segmentStop_le_of_mem_scanLine (hwords : Signal.Capital scanner.words)
    (hpatterns : scanner.patterns = [ticketPattern]) {spans : List Span}
    (hwithin : ∀ span ∈ spans, span.Within 0 line.length)
    (hpairwise : spans.Pairwise Span.Precedes) {c d : Candidate}
    (hc : c ∈ scanner.scanLine number line spans) (hd : d ∈ scanner.scanLine number line spans)
    (hsignal : d.signal.isSome) (hlt : c.signalStop < d.signalStop) :
    c.segmentStop ≤ d.column ∧ d.column < d.signalStop := by
  rw [scanLine, List.mem_mergeSort] at hc hd
  obtain ⟨s, hs, hc⟩ := List.mem_flatMap.1 hc
  obtain ⟨t, ht, hd⟩ := List.mem_flatMap.1 hd
  obtain ⟨hcin, -⟩ := within_of_mem_scanSpan hwords hpatterns (hwithin s hs) hc
  obtain ⟨hdin, -⟩ := within_of_mem_scanSpan hwords hpatterns (hwithin t ht) hd
  have hsStart := (hwithin s hs).start_le
  have htStart := (hwithin t ht).start_le
  have hcFirst := hcin.first_le
  have hcColumn := hcin.column_le
  have hcLast := hcin.segmentStop_le
  have hdFirst := hdin.first_le
  have hdStop := hdin.signalStop_le
  have hdLast := hdin.segmentStop_le
  rcases Span.eq_or_precedes hpairwise hs ht with rfl | ⟨hprecedes, -⟩ | ⟨hprecedes, -⟩
  · exact segmentStop_le_of_mem_scanSpan hwords hpatterns (hwithin s hs) hc hd hsignal hlt
  · refine ⟨by omega, ?_⟩
    obtain ⟨signal, hmem, last, rfl⟩ := exists_signal hd hsignal
    obtain ⟨x, -, -, hstart, hstop, hw, -, -⟩ := Signal.exists_of_mem_findFrom hmem
    have hwpos := List.length_pos_iff.2 (hwords _ hw).1
    have hcolumn : (scanner.ofSignal number line t signal last).column = signal.start := rfl
    have hsignalStop : (scanner.ofSignal number line t signal last).signalStop = signal.stop := rfl
    omega
  · omega

theorem exists_word_of_mem_scanLine {spans : List Span} {c : Candidate}
    (hc : c ∈ scanner.scanLine number line spans) (hsignal : c.signal.isSome) :
    ∃ w, w ∈ scanner.words := by
  rw [scanLine, List.mem_mergeSort] at hc
  obtain ⟨span, -, hc⟩ := List.mem_flatMap.1 hc
  obtain ⟨signal, hmem, -⟩ := exists_signal hc hsignal
  obtain ⟨-, -, -, -, -, hw, -⟩ := Signal.exists_of_mem_findFrom hmem
  exact ⟨signal.word, hw⟩

/-- The text and the columns of a candidate of a line. -/
theorem within_of_mem_scanLine (hwords : Signal.Capital scanner.words)
    (hpatterns : scanner.patterns = [ticketPattern]) {spans : List Span}
    (hwithin : ∀ span ∈ spans, span.Within 0 line.length) {c : Candidate}
    (hc : c ∈ scanner.scanLine number line spans) :
    c.Within 0 line.length ∧ c.text = line ∧ c.line = number := by
  rw [scanLine, List.mem_mergeSort] at hc
  obtain ⟨span, hspan, hc⟩ := List.mem_flatMap.1 hc
  have hin := hwithin span hspan
  obtain ⟨hcin, htext, -, hline⟩ := within_of_mem_scanSpan hwords hpatterns hin hc
  exact ⟨hcin.mono (Nat.zero_le _) (Nat.le_trans hin.bodyStop_le hin.stop_le), htext, hline⟩

/-- The character in front of the text of a marker is the last one of its signal word. -/
theorem getElem?_signalStop (hwords : ∀ w ∈ scanner.words, w ≠ [])
    (hin : span.Within 0 line.length) {c : Candidate}
    (hc : c ∈ scanner.scanSpan number line span) (hsignal : c.signal.isSome) :
    ∃ w ∈ scanner.words, c.text[c.signalStop - 1]? = w.getLast? := by
  obtain ⟨signal, hmem, last, rfl⟩ := exists_signal hc hsignal
  have hwindow := Text.Window.of_le line hin.bodyStart_le
    (Nat.le_trans hin.bodyStop_le hin.stop_le)
  rw [Signal.findAll_window hwindow] at hmem
  obtain ⟨x, y, hbody, hstart, hstop, hw, -, -⟩ := Signal.exists_of_mem_findFrom hmem
  have hwpos := List.length_pos_iff.2 (hwords _ hw)
  rw [hbody] at hwindow
  have hcolumn : (scanner.ofSignal number line span signal last).signalStop - 1 =
      span.bodyStart + x.length + (signal.word.length - 1) := by
    have hstop' : (scanner.ofSignal number line span signal last).signalStop = signal.stop := rfl
    omega
  have htext : (scanner.ofSignal number line span signal last).text = line := rfl
  exact ⟨signal.word, hw, by
    rw [htext, hcolumn, hwindow.part.getElem?_add (Nat.sub_lt hwpos Nat.one_pos),
      List.getLast?_eq_getElem?]⟩

/-- A capital letter stands in front of the end of a signal word. -/
theorem exists_getElem?_signalStop (hwords : Signal.Capital scanner.words) {spans : List Span}
    (hwithin : ∀ span ∈ spans, span.Within 0 line.length) {c : Candidate}
    (hc : c ∈ scanner.scanLine number line spans) (hsignal : c.signal.isSome) :
    ∃ d, c.text[c.signalStop - 1]? = some d ∧ Text.isAsciiUpper d = true := by
  rw [scanLine, List.mem_mergeSort] at hc
  obtain ⟨span, hspan, hc⟩ := List.mem_flatMap.1 hc
  obtain ⟨w, hw, hlast⟩ := getElem?_signalStop hwords.ne_nil (hwithin span hspan) hc hsignal
  obtain ⟨hne, hupper⟩ := hwords w hw
  refine ⟨w.getLast hne, ?_, hupper _ (List.getLast_mem hne)⟩
  rw [hlast, List.getLast?_eq_some_getLast hne]

theorem line_of_mem_scanLine {spans : List Span} {c : Candidate}
    (hc : c ∈ scanner.scanLine number line spans) : c.line = number := by
  rw [scanLine, List.mem_mergeSort] at hc
  obtain ⟨span, -, hc⟩ := List.mem_flatMap.1 hc
  rw [scanSpan, ofSignals_eq] at hc
  rcases List.mem_append.1 hc with hc | hc
  · obtain ⟨signal, -, last, rfl⟩ := exists_of_mem_ofSignalsTo hc
    rfl
  · split at hc
    · obtain ⟨found, -, rfl⟩ := List.mem_map.1 hc
      rfl
    · cases hc

/-- The candidates of the lines from `number` on have no smaller number. -/
theorem le_line_of_mem_scanFrom {rows : List (Text × List Span)} {c : Candidate}
    (hc : c ∈ scanner.scanFrom number rows) : number ≤ c.line := by
  induction rows generalizing number with
  | nil => cases hc
  | cons row rows ih =>
    obtain ⟨line, spans⟩ := row
    rw [scanFrom] at hc
    rcases List.mem_append.1 hc with hc | hc
    · exact Nat.le_of_eq (line_of_mem_scanLine hc).symm
    · exact Nat.le_of_lt (ih hc)

/-- Two candidates of which one is a marker, with signal words that end at different columns. -/
def Apart (c d : Candidate) : Prop :=
  c.signal.isSome ∨ d.signal.isSome → c.signalStop ≠ d.signalStop

instance : Std.Symm Apart := ⟨fun _ _ h hsome => Ne.symm (h hsome.symm)⟩

theorem pairwise_apart_ofSignalsTo {first stop : Nat} {signals : List Signal}
    (hordered : Signal.Ordered stop first signals) :
    (scanner.ofSignalsTo number line span stop signals).Pairwise Apart := by
  induction signals generalizing first with
  | nil => exact List.Pairwise.nil
  | cons signal rest ih =>
    obtain ⟨hstart, hstop, hrest⟩ := hordered
    rw [ofSignalsTo]
    refine List.pairwise_cons.2 ⟨?_, ih hrest⟩
    intro d hd _
    obtain ⟨hin, hlt, -⟩ := within_of_mem_ofSignalsTo hrest hd
    have := hin.first_le
    have hsignalStop : (scanner.ofSignal number line span signal
        ((rest.head?.map Signal.start).getD stop)).signalStop = signal.stop := rfl
    omega

theorem pairwise_apart_scanSpan (hwords : Signal.Capital scanner.words)
    (hpatterns : scanner.patterns = [ticketPattern]) (hin : span.Within 0 line.length) :
    (scanner.scanSpan number line span).Pairwise Apart := by
  have hstop : span.bodyStop ≤ line.length := Nat.le_trans hin.bodyStop_le hin.stop_le
  have hordered := Signal.ordered_findAll hwords.ne_nil line hin.bodyStart_le hstop
  have hhead := hordered.head_le
  rw [scanSpan, ofSignals_eq, hpatterns]
  refine List.pairwise_append.2 ⟨pairwise_apart_ofSignalsTo hordered, ?_, ?_⟩
  · split
    · rw [List.pairwise_map]
      apply List.pairwise_of_forall
      intro found other hsome
      rcases hsome with h | h <;> cases h
    · exact List.Pairwise.nil
  · intro c hc d hd _
    obtain ⟨hcin, hlt, -⟩ := within_of_mem_ofSignalsTo hordered.from_head hc
    split at hd
    · obtain ⟨hdin, -⟩ := within_of_mem_mentions hhead.1 (Nat.le_trans hhead.2 hstop) hd
      have := hcin.first_le
      have := hdin.signalStop_le
      have := hdin.segmentStop_le
      omega
    · cases hd

/-- No two candidates of a line, one of them a marker, have their signal words end together. -/
theorem pairwise_apart_scanLine (hwords : Signal.Capital scanner.words)
    (hpatterns : scanner.patterns = [ticketPattern]) {spans : List Span}
    (hwithin : ∀ span ∈ spans, span.Within 0 line.length)
    (hpairwise : spans.Pairwise Span.Precedes) :
    (scanner.scanLine number line spans).Pairwise Apart := by
  rw [scanLine]
  apply List.Pairwise.perm _ (List.mergeSort_perm _ _).symm (Std.Symm.symm _ _)
  refine List.pairwise_flatMap.2
    ⟨fun span hspan => pairwise_apart_scanSpan hwords hpatterns (hwithin span hspan), ?_⟩
  apply List.Pairwise.imp_of_mem _ hpairwise
  intro s t hs ht hprecedes c hc d hd _
  obtain ⟨hcin, -⟩ := within_of_mem_scanSpan hwords hpatterns (hwithin s hs) hc
  obtain ⟨hdin, -⟩ := within_of_mem_scanSpan hwords hpatterns (hwithin t ht) hd
  have htStart := (hwithin t ht).start_le
  have hcStop := hcin.signalStop_le
  have hcLast := hcin.segmentStop_le
  have hdFirst := hdin.first_le
  have hdColumn := hdin.column_le
  have hlt := hprecedes.1
  omega

/-- A marker is told from the other candidates of its line by the end of its signal word. -/
theorem eq_of_signalStop_eq (hwords : Signal.Capital scanner.words)
    (hpatterns : scanner.patterns = [ticketPattern]) {spans : List Span}
    (hwithin : ∀ span ∈ spans, span.Within 0 line.length)
    (hpairwise : spans.Pairwise Span.Precedes) {c d : Candidate}
    (hc : c ∈ scanner.scanLine number line spans) (hd : d ∈ scanner.scanLine number line spans)
    (hsignal : d.signal.isSome) (heq : c.signalStop = d.signalStop) : c = d := by
  by_cases h : c = d
  · exact h
  · have hapart := (pairwise_apart_scanLine hwords hpatterns hwithin hpairwise).forall hc hd h
    exact absurd heq (hapart (.inr hsignal))

/-- The candidates of a line come by column. -/
theorem pairwise_column_le (scanner : Scanner) (number : Nat) (line : Text) (spans : List Span) :
    (scanner.scanLine number line spans).Pairwise fun c d => c.column ≤ d.column :=
  pairwise_mergeSort_le Candidate.column _

end Scanner

end TodoTracker
