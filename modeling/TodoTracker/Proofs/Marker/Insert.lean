import TodoTracker.Proofs.Marker.Move

/-!
# Candidates around a key that is written

A key in parentheses is written right behind the signal word of a marker without a written key. All
candidates of the line stay, with their columns behind the key moved on, and the key is the one of
its marker.
-/

set_option autoImplicit false

namespace TodoTracker

/-- A key that is written at a column of a line. -/
structure KeyWrite where
  column : Nat
  key : TicketKey

namespace KeyWrite

def splice (write : KeyWrite) : Splice := ⟨write.column, write.column, write.key.written⟩

def width (write : KeyWrite) : Nat := write.key.written.length

/-- How many characters are written in front of what starts at a column. -/
def before (writes : List KeyWrite) (column : Nat) : Nat :=
  ((writes.filter (·.column < column)).map width).sum

/-- How many characters are written in front of what stops at a column. -/
def upTo (writes : List KeyWrite) (column : Nat) : Nat :=
  ((writes.filter (·.column ≤ column)).map width).sum

end KeyWrite

open KeyWrite (before upTo)

/-- A comment of a line in which keys were written. -/
def Span.withKeys (writes : List KeyWrite) (span : Span) : Span where
  start := span.start + before writes span.start
  stop := span.stop + upTo writes span.stop
  bodyStart := span.bodyStart + before writes span.bodyStart
  bodyStop := span.bodyStop + upTo writes span.bodyStop

/-- A candidate of a line in which keys were written, `own` behind its own signal word. -/
def Candidate.withKeys (writes : List KeyWrite) (own : Option TicketKey) (candidate : Candidate) :
    Candidate where
  line := candidate.line
  column := candidate.column + before writes candidate.column
  text := Splice.applyOrdered candidate.text (writes.map KeyWrite.splice)
  span := candidate.span.withKeys writes
  signal := candidate.signal
  signalStop := candidate.signalStop + before writes candidate.signalStop
  segmentStop := candidate.segmentStop + upTo writes candidate.segmentStop
  carried := match own with
    | some key => some (key.carried (candidate.signalStop + before writes candidate.signalStop))
    | none => candidate.carried.map (CarriedKey.add (before writes candidate.signalStop))
  attributes := candidate.attributes
  title := match own with
    | some _ => Candidate.titleOf candidate.segment candidate.signalStop none
    | none => candidate.title

variable {line : Text} {number : Nat} {span : Span} {scanner : Scanner}

theorem KeyWrite.before_singleton (write : KeyWrite) (column : Nat) :
    before [write] column = if write.column < column then write.width else 0 := by
  rw [before]
  by_cases h : write.column < column <;> simp [h]

theorem KeyWrite.upTo_singleton (write : KeyWrite) (column : Nat) :
    upTo [write] column = if write.column ≤ column then write.width else 0 := by
  rw [upTo]
  by_cases h : write.column ≤ column <;> simp [h]

theorem Span.withKeys_singleton (write : KeyWrite) (span : Span) :
    span.withKeys [write] = span.insert write.column write.width := by
  simp only [withKeys, insert, Text.moveStart, Text.moveStop, KeyWrite.before_singleton,
    KeyWrite.upTo_singleton, mk.injEq]
  refine ⟨?_, ?_, ?_, ?_⟩ <;> split <;> rfl

/-- The columns of a candidate between two columns of its line. -/
structure Candidate.Within (first last : Nat) (candidate : Candidate) : Prop where
  first_le : first ≤ candidate.column
  column_le : candidate.column ≤ candidate.signalStop
  signalStop_le : candidate.signalStop ≤ candidate.segmentStop
  segmentStop_le : candidate.segmentStop ≤ last

theorem Candidate.Within.mono {first last first' last' : Nat} {candidate : Candidate}
    (h : candidate.Within first last) (hfirst : first' ≤ first) (hlast : last ≤ last') :
    candidate.Within first' last' :=
  ⟨Nat.le_trans hfirst h.first_le, h.column_le, h.signalStop_le, Nat.le_trans h.segmentStop_le hlast⟩

/-- A candidate in front of the key that is written. -/
theorem Candidate.withKeys_of_lt {write : KeyWrite} {candidate : Candidate} {first last : Nat}
    (h : candidate.Within first last) (hlast : last < write.column) :
    candidate.withKeys [write] none =
      candidate.move 0 (write.splice.apply candidate.text) (candidate.span.withKeys [write]) := by
  have := h.column_le
  have := h.signalStop_le
  have := h.segmentStop_le
  simp only [withKeys, move, KeyWrite.before_singleton, KeyWrite.upTo_singleton]
  rw [if_neg (by omega), if_neg (by omega), if_neg (by omega)]
  rfl

/-- A candidate behind the key that is written. -/
theorem Candidate.withKeys_of_gt {write : KeyWrite} {candidate : Candidate} {first last : Nat}
    (h : candidate.Within first last) (hfirst : write.column < first) :
    candidate.withKeys [write] none =
      candidate.move write.width (write.splice.apply candidate.text)
        (candidate.span.withKeys [write]) := by
  have := h.first_le
  have := h.column_le
  have := h.signalStop_le
  simp only [withKeys, move, KeyWrite.before_singleton, KeyWrite.upTo_singleton]
  rw [if_pos (by omega), if_pos (by omega), if_pos (by omega)]
  rfl

namespace Scanner

theorem within_of_mem_ofSignalsTo {first stop : Nat} {signals : List Signal}
    (hordered : Signal.Ordered stop first signals) {candidate : Candidate}
    (h : candidate ∈ scanner.ofSignalsTo number line span stop signals) :
    candidate.Within first stop ∧ candidate.column < candidate.signalStop ∧
      candidate.text = line ∧ candidate.span = span ∧ candidate.line = number := by
  induction signals generalizing first with
  | nil => cases h
  | cons signal rest ih =>
    obtain ⟨hstart, hstop, hrest⟩ := hordered
    obtain ⟨hle, hle'⟩ := hrest.head_le
    rw [ofSignalsTo] at h
    rcases List.mem_cons.1 h with rfl | h
    · exact ⟨⟨hstart, Nat.le_of_lt hstop, hle, hle'⟩, hstop, rfl, rfl, rfl⟩
    · obtain ⟨hin, hrest⟩ := ih hrest h
      exact ⟨hin.mono (by omega) (Nat.le_refl _), hrest⟩

theorem within_of_mem_mentions {start stop : Nat} (hle : start ≤ stop) (hstop : stop ≤ line.length)
    {candidate : Candidate}
    (h : candidate ∈ (FoundKey.findAll [ticketPattern] line start stop).map
      (ofMention number line span stop)) :
    candidate.Within start stop ∧ candidate.text = line ∧ candidate.span = span ∧
      candidate.line = number := by
  obtain ⟨found, hfound, rfl⟩ := List.mem_map.1 h
  obtain ⟨hstart, hmid, hlast⟩ := FoundKey.le_of_mem_findAll hle hstop hfound
  exact ⟨⟨hstart, Nat.le_refl _, Nat.le_trans hmid hlast, Nat.le_refl _⟩, rfl, rfl, rfl⟩

theorem ordered_behind_edge {words : List Text} (hwords : Signal.Capital words) (pos : Nat)
    (before : Option Char) {y : Text} (hy : Signal.isEdge y.head? = true) :
    Signal.findFrom words pos 0 before y = [] ∨
      Signal.Ordered (pos + y.length) (pos + 1) (Signal.findFrom words pos 0 before y) := by
  cases y with
  | nil => exact .inl rfl
  | cons c y =>
    right
    have hc := Signal.not_isAsciiWord_of_isEdge hy rfl
    have hlast : pos + (c :: y).length = pos + 1 + y.length := by
      rw [List.length_cons]
      omega
    rw [Signal.findFrom_cons_of_none (Signal.wordAt?_cons_of_not_word hwords.wordly hc before y), hlast]
    exact Signal.ordered_findFrom hwords.ne_nil (pos + 1) (some c) (Nat.zero_le _)

/-- The marker at which the key is written. -/
theorem ofSignal_write (number : Nat) (span : Span)
    (hpatterns : scanner.patterns = [ticketPattern]) {a b : Text} {write : KeyWrite}
    (hwrite : write.column = a.length)
    {signal : Signal} (hsignal : signal.start < a.length) (hstop : signal.stop = a.length)
    {segmentStop : Nat} (hle : a.length ≤ segmentStop) (hle' : segmentStop ≤ (a ++ b).length)
    (hnone : TicketAttribute.find? (Text.slice (a ++ b) a.length segmentStop) = none) :
    scanner.ofSignal number (a ++ (write.key.written ++ b)) (span.withKeys [write]) signal
        (segmentStop + write.width) =
      (scanner.ofSignal number (a ++ b) span signal segmentStop).withKeys [write]
        (some write.key) := by
  have hwindow := Text.Window.of_le (a ++ b) hle hle'
  have hwindow' := hwindow.insert_at write.key.written
  have hline : write.splice.apply (a ++ b) = a ++ (write.key.written ++ b) := by
    rw [Splice.apply, KeyWrite.splice, hwrite]
    dsimp only
    rw [List.take_left, List.drop_left, List.append_assoc]
  have hkey := write.key.keyIn_written ((a ++ b).take a.length).getLast? a.length hnone
  simp only [ofSignal, Candidate.withKeys, Candidate.segment, KeyWrite.before_singleton,
    KeyWrite.upTo_singleton, hwrite, hstop, hpatterns]
  rw [if_neg (by omega), if_neg (by omega), if_pos (by omega)]
  rw [KeyWrite.width, hwindow'.slice_eq, hwindow.slice_eq,
    CarriedKey.inSegment?_window hwindow', hkey, Nat.add_zero, Nat.add_zero,
    write.key.titleOf_written, write.key.parse_written]
  simp [Splice.applyOrdered, hline]

/-- Candidates in front of the key that is written. -/
theorem map_move_zero {write : KeyWrite} {first last : Nat} (hlast : last < write.column)
    {candidates : List Candidate}
    (h : ∀ c ∈ candidates, c.Within first last ∧ c.text = line ∧ c.span = span) :
    candidates.map (Candidate.move 0 (write.splice.apply line) (span.withKeys [write])) =
      candidates.map fun c =>
        c.withKeys [write] (if c.signalStop = write.column then some write.key else none) := by
  apply List.map_congr_left
  intro c hc
  obtain ⟨hin, htext, hspan⟩ := h c hc
  have hstop := Nat.le_trans hin.signalStop_le hin.segmentStop_le
  rw [if_neg (by omega), Candidate.withKeys_of_lt hin hlast, htext, hspan]

/-- Candidates behind the key that is written. -/
theorem map_move_width {write : KeyWrite} {first last : Nat} (hfirst : write.column < first)
    {candidates : List Candidate}
    (h : ∀ c ∈ candidates, c.Within first last ∧ c.text = line ∧ c.span = span) :
    candidates.map (Candidate.move write.width (write.splice.apply line) (span.withKeys [write])) =
      candidates.map fun c =>
        c.withKeys [write] (if c.signalStop = write.column then some write.key else none) := by
  apply List.map_congr_left
  intro c hc
  obtain ⟨hin, htext, hspan⟩ := h c hc
  have hstart := Nat.le_trans hin.first_le hin.column_le
  rw [if_neg (by omega), Candidate.withKeys_of_gt hin hfirst, htext, hspan]

theorem splice_apply {a b : Text} {write : KeyWrite} (h : write.column = a.length) :
    write.splice.apply (a ++ b) = a ++ (write.key.written ++ b) := by
  rw [Splice.apply, KeyWrite.splice, h]
  dsimp only
  rw [List.take_left, List.drop_left, List.append_assoc]

/-- The signal words of a comment around the marker at which a key is written, without the key and
with it. -/
structure Around (words : List Text) (a b : Text) (write : KeyWrite) (span : Span)
    (left : List Signal) (signal : Signal) (right : List Signal) : Prop where
  signals : Signal.findAll words (a ++ b) span.bodyStart span.bodyStop = left ++ signal :: right
  signals_write : Signal.findAll words (a ++ (write.key.written ++ b)) span.bodyStart
    (span.bodyStop + write.width) = left ++ signal :: right.map (Signal.add write.width)
  ordered : Signal.Ordered signal.start span.bodyStart left
  right_ordered : right = [] ∨ Signal.Ordered span.bodyStop (a.length + 1) right
  start_lt : signal.start < a.length
  stop_eq : signal.stop = a.length
  le_bodyStop : a.length ≤ span.bodyStop
  bodyStop_le : span.bodyStop ≤ (a ++ b).length

/-- The signal words around one that is found. -/
theorem exists_around {words : List Text} (hwords : Signal.Capital words) {write : KeyWrite}
    (hin : span.Within 0 line.length) (hkey : write.key.project ∉ words) {signal : Signal}
    (h : signal ∈ Signal.findAll words line span.bodyStart span.bodyStop) :
    ∃ u v left right, line = u ++ signal.word ++ v ∧ signal.word ∈ words ∧
      u.length = signal.start ∧ span.bodyStart ≤ u.length ∧
      Around words (u ++ signal.word) v write span left signal right := by
  have hwindow := Text.Window.of_le line hin.bodyStart_le
    (Nat.le_trans hin.bodyStop_le hin.stop_le)
  rw [Signal.findAll_window hwindow] at h
  obtain ⟨x, y, hbody, hstart, hstop, hw, hx, hy⟩ := Signal.exists_of_mem_findFrom h
  rw [hbody] at hwindow
  obtain ⟨front, back, hline, hfront, hlast, hbefore⟩ := hwindow
  rw [← hbefore] at hx
  have hwpos := List.length_pos_iff.2 (hwords _ hw).1
  have hwritten : Signal.isEdge (write.key.written ++ y).head? = true :=
    Signal.isEdge_cons (by decide) _
  have hlen : (front ++ x ++ signal.word).length = front.length + x.length + signal.word.length := by
    rw [List.length_append, List.length_append]
  simp only [List.length_append] at hlast
  refine ⟨front ++ x, y ++ back,
    Signal.findFrom words front.length 0 front.getLast? x,
    Signal.findFrom words (front.length + x.length + signal.word.length) 0 signal.word.getLast? y,
    by simp [hline], hw, by rw [List.length_append]; omega, by rw [List.length_append]; omega, ?_⟩
  have hsignal : (⟨front.length + x.length, front.length + x.length + signal.word.length,
      signal.word⟩ : Signal) = signal := by
    rw [hfront, ← hstart, ← hstop]
  constructor
  · have hwindow : Text.Window (front ++ x ++ signal.word ++ (y ++ back)) span.bodyStart
        span.bodyStop front.getLast? (x ++ (signal.word ++ y)) :=
      ⟨front, back, by simp, hfront, by simp only [List.length_append]; omega, rfl⟩
    rw [Signal.findAll_window hwindow, ← hfront, Signal.findFrom_around hwords.wordly _ hx hw hy, hsignal]
  · have hwindow : Text.Window (front ++ x ++ signal.word ++ (write.key.written ++ (y ++ back)))
        span.bodyStart (span.bodyStop + write.width) front.getLast?
        (x ++ (signal.word ++ (write.key.written ++ y))) :=
      ⟨front, back, by simp, hfront, by simp only [List.length_append, KeyWrite.width]; omega, rfl⟩
    rw [Signal.findAll_window hwindow, ← hfront, Signal.findFrom_around hwords.wordly _ hx hw hwritten,
      hsignal, Signal.findFrom_written hwords write.key hkey _ _ signal.word.getLast? hy,
      Signal.findFrom_add, KeyWrite.width]
  · rw [hstart, ← hfront]
    exact Signal.ordered_findFrom hwords.ne_nil _ _ (Nat.zero_le _)
  · have hordered := ordered_behind_edge hwords (front.length + x.length + signal.word.length)
      signal.word.getLast? hy
    rw [hlen]
    have hbodyStop : front.length + x.length + signal.word.length + y.length = span.bodyStop := by
      omega
    rw [hbodyStop] at hordered
    exact hordered
  · omega
  · omega
  · omega
  · simp only [List.length_append]
    omega

variable {a b : Text} {write : KeyWrite} {left right : List Signal} {signal : Signal}

theorem Around.segment_le (h : Around scanner.words a b write span left signal right) :
    a.length ≤ (right.head?.map Signal.start).getD span.bodyStop ∧
      (right.head?.map Signal.start).getD span.bodyStop ≤ span.bodyStop := by
  rcases h.right_ordered with hnil | hordered
  · rw [hnil]
    exact ⟨h.le_bodyStop, Nat.le_refl _⟩
  · have := hordered.head_le
    omega

/-- The candidates of a comment in their order: those in front of the marker, the marker, those
behind it, and the mentions. -/
theorem Around.scanSpan_eq (h : Around scanner.words a b write span left signal right)
    (hpatterns : scanner.patterns = [ticketPattern]) :
    scanner.scanSpan number (a ++ b) span =
      scanner.ofSignalsTo number (a ++ b) span signal.start left ++
        scanner.ofSignal number (a ++ b) span signal
          ((right.head?.map Signal.start).getD span.bodyStop) ::
        scanner.ofSignalsTo number (a ++ b) span span.bodyStop right ++
      if scanner.mentions then
        (FoundKey.findAll [ticketPattern] (a ++ b) span.bodyStart
          ((left.head?.map Signal.start).getD signal.start)).map
          (ofMention number (a ++ b) span ((left.head?.map Signal.start).getD signal.start))
      else [] := by
  have hfirst : ((left ++ signal :: right).head?.map Signal.start).getD span.bodyStop =
      (left.head?.map Signal.start).getD signal.start := by
    cases left <;> rfl
  rw [scanSpan, h.signals, ofSignals_eq, ofSignalsTo_append, hfirst, hpatterns]
  rfl

/-- The candidates of the comment after the key was written. -/
theorem Around.scanSpan_write_eq (h : Around scanner.words a b write span left signal right)
    (hwrite : write.column = a.length)
    (hpatterns : scanner.patterns = [ticketPattern]) :
    scanner.scanSpan number (a ++ (write.key.written ++ b)) (span.withKeys [write]) =
      (scanner.ofSignalsTo number (a ++ b) span signal.start left).map
          (Candidate.move 0 (a ++ (write.key.written ++ b)) (span.withKeys [write])) ++
        scanner.ofSignal number (a ++ (write.key.written ++ b)) (span.withKeys [write]) signal
          ((right.head?.map Signal.start).getD span.bodyStop + write.width) ::
        (scanner.ofSignalsTo number (a ++ b) span span.bodyStop right).map
          (Candidate.move write.width (a ++ (write.key.written ++ b)) (span.withKeys [write])) ++
      (if scanner.mentions then
        (FoundKey.findAll [ticketPattern] (a ++ b) span.bodyStart
          ((left.head?.map Signal.start).getD signal.start)).map
          (ofMention number (a ++ b) span ((left.head?.map Signal.start).getD signal.start))
      else []).map (Candidate.move 0 (a ++ (write.key.written ++ b)) (span.withKeys [write])) := by
  have hstart := h.ordered.le
  have hstartLt := h.start_lt
  have hle := h.le_bodyStop
  have hbodyStart : (span.withKeys [write]).bodyStart = span.bodyStart := by
    show span.bodyStart + before [write] span.bodyStart = _
    rw [KeyWrite.before_singleton, if_neg (by omega), Nat.add_zero]
  have hbodyStop : (span.withKeys [write]).bodyStop = span.bodyStop + write.width := by
    show span.bodyStop + upTo [write] span.bodyStop = _
    rw [KeyWrite.upTo_singleton, if_pos (by omega)]
  have hfirst : ((left ++ signal :: right.map (Signal.add write.width)).head?.map
      Signal.start).getD (span.bodyStop + write.width) =
        (left.head?.map Signal.start).getD signal.start := by
    cases left <;> rfl
  have hnext : ((right.map (Signal.add write.width)).head?.map Signal.start).getD
      (span.bodyStop + write.width) =
        (right.head?.map Signal.start).getD span.bodyStop + write.width := by
    cases right <;> rfl
  have hbehind : Text.Moved (a ++ b) (a ++ (write.key.written ++ b)) 0 span.bodyStart
      signal.start := Text.moved_behind (Nat.le_of_lt hstartLt) _
  have hbefore : Text.Moved (a ++ b) (a ++ (write.key.written ++ b)) write.width (a.length + 1)
      span.bodyStop := Text.moved_before (Nat.lt_succ_self _) h.bodyStop_le _
  have hleft := ofSignalsTo_move number span (span.withKeys [write]) hpatterns hbehind h.ordered
  rw [Signal.map_add_zero, Nat.add_zero] at hleft
  have hright : scanner.ofSignalsTo number (a ++ (write.key.written ++ b)) (span.withKeys [write])
      (span.bodyStop + write.width) (right.map (Signal.add write.width)) =
      (scanner.ofSignalsTo number (a ++ b) span span.bodyStop right).map
        (Candidate.move write.width (a ++ (write.key.written ++ b)) (span.withKeys [write])) := by
    rcases h.right_ordered with hnil | hordered
    · rw [hnil]
      rfl
    · exact ofSignalsTo_move number span _ hpatterns hbefore hordered
  have hmentions := mentions_move number span (span.withKeys [write])
    (hbehind.mono (Nat.le_refl _) h.ordered.head_le.2)
    h.ordered.head_le.1
  rw [Nat.add_zero, Nat.add_zero] at hmentions
  rw [scanSpan, hbodyStart, hbodyStop, h.signals_write, ofSignals_eq, hbodyStop,
    ofSignalsTo_append, hfirst, hleft, ofSignalsTo, hnext, hright, hpatterns, hmentions]
  congr 1
  split <;> rfl

/-- The comment in which the key is written. -/
theorem Around.scanSpan_write (h : Around scanner.words a b write span left signal right)
    (hwrite : write.column = a.length) (hpatterns : scanner.patterns = [ticketPattern])
    {c : Candidate} (hc : c ∈ scanner.scanSpan number (a ++ b) span)
    (hcolumn : c.signalStop = write.column) (hnone : TicketAttribute.find? c.segment = none) :
    scanner.scanSpan number (write.splice.apply (a ++ b)) (span.withKeys [write]) =
      (scanner.scanSpan number (a ++ b) span).map fun d =>
        d.withKeys [write] (if d.signalStop = write.column then some write.key else none) := by
  obtain ⟨hsegment, hsegment'⟩ := h.segment_le
  have hstart := h.ordered.le
  have hstartLt := h.start_lt
  have hfirst := h.ordered.head_le
  have hleft : ∀ d ∈ scanner.ofSignalsTo number (a ++ b) span signal.start left,
      d.Within span.bodyStart signal.start ∧ d.text = a ++ b ∧ d.span = span := by
    intro d hd
    obtain ⟨hin, -, htext, hspan, -⟩ := within_of_mem_ofSignalsTo h.ordered hd
    exact ⟨hin, htext, hspan⟩
  have hright : ∀ d ∈ scanner.ofSignalsTo number (a ++ b) span span.bodyStop right,
      d.Within (a.length + 1) span.bodyStop ∧ d.text = a ++ b ∧ d.span = span := by
    intro d hd
    rcases h.right_ordered with hnil | hordered
    · rw [hnil] at hd
      cases hd
    · obtain ⟨hin, -, htext, hspan, -⟩ := within_of_mem_ofSignalsTo hordered hd
      exact ⟨hin, htext, hspan⟩
  have hmentions : ∀ d ∈ (if scanner.mentions then
      (FoundKey.findAll [ticketPattern] (a ++ b) span.bodyStart
        ((left.head?.map Signal.start).getD signal.start)).map
        (ofMention number (a ++ b) span ((left.head?.map Signal.start).getD signal.start))
      else []), d.Within span.bodyStart signal.start ∧ d.text = a ++ b ∧ d.span = span := by
    intro d hd
    split at hd
    · have hlen := h.bodyStop_le
      obtain ⟨hin, htext, hspan, -⟩ := within_of_mem_mentions hfirst.1 (by omega) hd
      exact ⟨hin.mono (Nat.le_refl _) hfirst.2, htext, hspan⟩
    · cases hd
  have hmarker : c = scanner.ofSignal number (a ++ b) span signal
      ((right.head?.map Signal.start).getD span.bodyStop) := by
    rw [h.scanSpan_eq hpatterns] at hc
    rcases List.mem_append.1 hc with hc | hc
    · rcases List.mem_append.1 hc with hc | hc
      · have hin := (hleft c hc).1
        have := hin.signalStop_le
        have := hin.segmentStop_le
        omega
      · rcases List.mem_cons.1 hc with hc | hc
        · exact hc
        · have hin := (hright c hc).1
          have := hin.first_le
          have := hin.column_le
          omega
    · have hin := (hmentions c hc).1
      have := hin.signalStop_le
      have := hin.segmentStop_le
      omega
  have hsegmentText : c.segment = Text.slice (a ++ b) a.length
      ((right.head?.map Signal.start).getD span.bodyStop) := by
    rw [hmarker, ← h.stop_eq]
    rfl
  rw [hsegmentText] at hnone
  have hline := splice_apply (b := b) hwrite
  have hmarker' := ofSignal_write number span hpatterns hwrite h.start_lt h.stop_eq
    hsegment (Nat.le_trans hsegment' h.bodyStop_le) hnone
  have hown : (scanner.ofSignal number (a ++ b) span signal
      ((right.head?.map Signal.start).getD span.bodyStop)).signalStop = write.column := by
    rw [hwrite, ← h.stop_eq]
    rfl
  rw [hline, h.scanSpan_write_eq hwrite hpatterns, h.scanSpan_eq hpatterns, ← hline,
    map_move_zero (by omega) hleft, map_move_width (by omega) hright,
    map_move_zero (by omega) hmentions, hline, hmarker', List.map_append, List.map_append,
    List.map_cons, if_pos hown]

/-- The candidates of a comment are in its body. -/
theorem within_of_mem_scanSpan (hwords : Signal.Capital scanner.words)
    (hpatterns : scanner.patterns = [ticketPattern]) (hin : span.Within 0 line.length)
    {c : Candidate} (hc : c ∈ scanner.scanSpan number line span) :
    c.Within span.bodyStart span.bodyStop ∧ c.text = line ∧ c.span = span ∧ c.line = number := by
  have hstop : span.bodyStop ≤ line.length := Nat.le_trans hin.bodyStop_le hin.stop_le
  have hordered := Signal.ordered_findAll hwords.ne_nil line hin.bodyStart_le hstop
  rw [scanSpan, ofSignals_eq, hpatterns] at hc
  rcases List.mem_append.1 hc with hc | hc
  · obtain ⟨hin, -, hrest⟩ := within_of_mem_ofSignalsTo hordered hc
    exact ⟨hin, hrest⟩
  · split at hc
    · have hhead := hordered.head_le
      obtain ⟨hin, hrest⟩ := within_of_mem_mentions hhead.1 (Nat.le_trans hhead.2 hstop) hc
      exact ⟨hin.mono (Nat.le_refl _) hhead.2, hrest⟩
    · cases hc

theorem exists_of_mem_ofSignalsTo {stop : Nat} {signals : List Signal} {c : Candidate}
    (hc : c ∈ scanner.ofSignalsTo number line span stop signals) :
    ∃ signal ∈ signals, ∃ last, c = scanner.ofSignal number line span signal last := by
  induction signals with
  | nil => cases hc
  | cons signal rest ih =>
    rw [ofSignalsTo] at hc
    rcases List.mem_cons.1 hc with hc | hc
    · exact ⟨signal, List.mem_cons_self, _, hc⟩
    · obtain ⟨other, hother, last, heq⟩ := ih hc
      exact ⟨other, List.mem_cons_of_mem _ hother, last, heq⟩

/-- The signal word of a candidate that is no mention. -/
theorem exists_signal {c : Candidate} (hc : c ∈ scanner.scanSpan number line span)
    (hsignal : c.signal.isSome) :
    ∃ signal ∈ Signal.findAll scanner.words line span.bodyStart span.bodyStop, ∃ last,
      c = scanner.ofSignal number line span signal last := by
  rw [scanSpan, ofSignals_eq] at hc
  rcases List.mem_append.1 hc with hc | hc
  · exact exists_of_mem_ofSignalsTo hc
  · split at hc
    · obtain ⟨found, -, rfl⟩ := List.mem_map.1 hc
      cases hsignal
    · cases hc

/-- A marker whose key is not written on purpose has no ticket attribute. -/
theorem find?_segment_eq_none {signal : Signal} {last : Nat}
    (h : ∀ found ∈ (scanner.ofSignal number line span signal last).carried, found.form = .bare) :
    TicketAttribute.find? (scanner.ofSignal number line span signal last).segment = none := by
  cases hfind : TicketAttribute.find? (scanner.ofSignal number line span signal last).segment with
  | none => rfl
  | some ticket =>
    have hcarried : (scanner.ofSignal number line span signal last).carried =
        some (CarriedKey.ofTicket signal.stop ticket) := by
      have hslice : TicketAttribute.find? (Text.slice line signal.stop last) = some ticket := hfind
      rw [ofSignal]
      dsimp only
      rw [CarriedKey.inSegment?, hslice]
    have hform := h _ hcarried
    cases hform

/-- A comment in front of the one in which the key is written. -/
theorem scanSpan_write_of_lt (hwords : Signal.Capital scanner.words)
    (hpatterns : scanner.patterns = [ticketPattern]) (hwrite : write.column = a.length)
    (hin : span.Within 0 (a ++ b).length) (hlt : span.stop < a.length) :
    scanner.scanSpan number (write.splice.apply (a ++ b)) (span.withKeys [write]) =
      (scanner.scanSpan number (a ++ b) span).map fun d =>
        d.withKeys [write] (if d.signalStop = write.column then some write.key else none) := by
  have hbody := hin.bodyStop_le
  have hin' : span.Within 0 span.stop :=
    ⟨hin.first_le, hin.start_le, hin.bodyStart_le, hin.bodyStop_le, Nat.le_refl _⟩
  have hspan : span.withKeys [write] = span := by
    rw [Span.withKeys_singleton, Span.insert_of_lt hin' (by omega)]
  have hmoved : Text.Moved (a ++ b) (a ++ (write.key.written ++ b)) 0 span.bodyStart
      span.bodyStop := Text.moved_behind (by omega) _
  have hmove := scanSpan_move number hwords hpatterns hin hmoved
  have hzero : span.add 0 = span := rfl
  rw [hzero, ← splice_apply hwrite] at hmove
  have hall : ∀ c ∈ scanner.scanSpan number (a ++ b) span,
      c.Within span.bodyStart span.bodyStop ∧ c.text = a ++ b ∧ c.span = span := by
    intro c hc
    obtain ⟨hin, htext, hspan, -⟩ := within_of_mem_scanSpan hwords hpatterns hin hc
    exact ⟨hin, htext, hspan⟩
  have hmap := map_move_zero (show span.bodyStop < write.column by omega) hall
  rw [hspan] at hmap ⊢
  rw [hmove, hmap]

/-- A comment behind the one in which the key is written. -/
theorem scanSpan_write_of_gt (hwords : Signal.Capital scanner.words)
    (hpatterns : scanner.patterns = [ticketPattern]) (hwrite : write.column = a.length)
    (hin : span.Within 0 (a ++ b).length) (hgt : a.length < span.start) :
    scanner.scanSpan number (write.splice.apply (a ++ b)) (span.withKeys [write]) =
      (scanner.scanSpan number (a ++ b) span).map fun d =>
        d.withKeys [write] (if d.signalStop = write.column then some write.key else none) := by
  have hstart := hin.start_le
  have hin' : span.Within span.start (a ++ b).length :=
    ⟨Nat.le_refl _, hin.start_le, hin.bodyStart_le, hin.bodyStop_le, hin.stop_le⟩
  have hspan : span.withKeys [write] = span.add write.width := by
    rw [Span.withKeys_singleton, Span.insert_of_gt hin' (by omega)]
  have hmoved : Text.Moved (a ++ b) (a ++ (write.key.written ++ b)) write.width span.bodyStart
      span.bodyStop :=
    Text.moved_before (by omega) (Nat.le_trans hin.bodyStop_le hin.stop_le) _
  have hmove := scanSpan_move number hwords hpatterns hin hmoved
  rw [← splice_apply hwrite] at hmove
  have hall : ∀ c ∈ scanner.scanSpan number (a ++ b) span,
      c.Within span.bodyStart span.bodyStop ∧ c.text = a ++ b ∧ c.span = span := by
    intro c hc
    obtain ⟨hin, htext, hspan, -⟩ := within_of_mem_scanSpan hwords hpatterns hin hc
    exact ⟨hin, htext, hspan⟩
  have hmap := map_move_width (show write.column < span.bodyStart by omega) hall
  rw [hspan] at hmap ⊢
  rw [hmove, hmap]

/-- A key in a line of candidates moves the columns behind it and keeps their order. -/
theorem before_mono (write : KeyWrite) (m n : Nat) :
    m ≤ n ↔ m + before [write] m ≤ n + before [write] n := by
  rw [KeyWrite.before_singleton, KeyWrite.before_singleton]
  split <;> split <;> omega

/-- A line of candidates around a key that is written behind one of their signal words. -/
theorem scanLine_write {grammar : Grammar} (hwords : Signal.Capital scanner.words)
    (hpatterns : scanner.patterns = [ticketPattern])
    (hgrammar : ∀ w ∈ scanner.words, grammar.Ignores w write.key.written)
    (hkey : write.key.project ∉ scanner.words) {pending : Option Text}
    (hpending : grammar.Awaits pending) {c : Candidate}
    (hc : c ∈ scanner.scanLine number line (grammar.lineSpans pending line).1)
    (hsignal : c.signal.isSome) (hcarried : ∀ found ∈ c.carried, found.form = .bare)
    (hwrite : write.column = c.signalStop) :
    grammar.lineSpans pending (write.splice.apply line) =
        ((grammar.lineSpans pending line).1.map (Span.withKeys [write]),
          (grammar.lineSpans pending line).2) ∧
      scanner.scanLine number (write.splice.apply line)
          ((grammar.lineSpans pending line).1.map (Span.withKeys [write])) =
        (scanner.scanLine number line (grammar.lineSpans pending line).1).map fun d =>
          d.withKeys [write] (if d.signalStop = write.column then some write.key else none) := by
  rw [scanLine, List.mem_mergeSort] at hc
  obtain ⟨span, hspan, hc⟩ := List.mem_flatMap.1 hc
  obtain ⟨signal, hmem, last, rfl⟩ := exists_signal hc hsignal
  have hsignalStop : write.column = signal.stop := hwrite
  have hw : signal.word ∈ scanner.words := by
    rw [Signal.findAll] at hmem
    obtain ⟨_, _, _, _, _, hw, _⟩ := Signal.exists_of_mem_findFrom hmem
    exact hw
  have hg := hgrammar _ hw
  obtain ⟨hwithin, hpairwise⟩ := Grammar.lineSpans_ordered hg.toProper hpending line
  obtain ⟨u, v, left, right, hline, -, hu, hbodyStart, haround⟩ :=
    exists_around hwords (hwithin span hspan) hkey hmem
  have hcolumn : write.column = (u ++ signal.word).length := by
    rw [hsignalStop, haround.stop_eq]
  subst hline
  have hspans : grammar.lineSpans pending (write.splice.apply (u ++ signal.word ++ v)) =
      ((grammar.lineSpans pending (u ++ signal.word ++ v)).1.map (Span.withKeys [write]),
        (grammar.lineSpans pending (u ++ signal.word ++ v)).2) := by
    have hinsert : Span.withKeys [write] =
        Span.insert (u ++ signal.word).length write.key.written.length := by
      funext span
      rw [Span.withKeys_singleton, hcolumn, KeyWrite.width]
    have hinto : ∃ span ∈ (grammar.lineSpans pending (u ++ signal.word ++ v)).1,
        span.bodyStart ≤ u.length ∧ (u ++ signal.word).length ≤ span.bodyStop :=
      ⟨span, hspan, hbodyStart, haround.le_bodyStop⟩
    rw [splice_apply hcolumn, hinsert, Grammar.lineSpans_insert hg hpending hinto]
  have heach : ∀ d ∈ (grammar.lineSpans pending (u ++ signal.word ++ v)).1,
      scanner.scanSpan number (write.splice.apply (u ++ signal.word ++ v)) (d.withKeys [write]) =
        (scanner.scanSpan number (u ++ signal.word ++ v) d).map fun c =>
          c.withKeys [write] (if c.signalStop = write.column then some write.key else none) := by
    intro d hd
    have hin := hwithin d hd
    have hspanStart := (hwithin span hspan).start_le
    have hlt := haround.start_lt
    have hle := haround.le_bodyStop
    rcases Span.eq_or_precedes hpairwise hd hspan with rfl | ⟨-, hprecedes⟩ | ⟨hprecedes, -⟩
    · exact haround.scanSpan_write hcolumn hpatterns hc hwrite.symm
        (find?_segment_eq_none hcarried)
    · exact scanSpan_write_of_lt hwords hpatterns hcolumn hin (by omega)
    · exact scanSpan_write_of_gt hwords hpatterns hcolumn hin (by omega)
  refine ⟨hspans, ?_⟩
  rw [scanLine, scanLine, List.flatMap_map, List.flatMap_def, List.map_congr_left heach,
    ← List.flatMap_def, ← List.map_flatMap, List.map_mergeSort]
  intro a _ b _
  rw [Bool.eq_iff_iff, decide_eq_true_eq, decide_eq_true_eq]
  exact before_mono write a.column b.column

end Scanner

end TodoTracker
