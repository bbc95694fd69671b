import TodoTracker.Proofs.Comment.Insert
import TodoTracker.Proofs.Marker.CarriedKey
import TodoTracker.Proofs.Marker.SignalWord

/-!
# Candidates further on in a line

Where the columns of two lines agree up to a distance, so do their candidates.
-/

set_option autoImplicit false

namespace TodoTracker

/-- The columns of `line` from `first` to `last`, with the characters in front of them, are those of
`line'` that are `k` further on. -/
def Text.Moved (line line' : Text) (k first last : Nat) : Prop :=
  ∀ start stop, first ≤ start → start ≤ stop → stop ≤ last →
    ∃ before body, Text.Window line start stop before body ∧
      Text.Window line' (start + k) (stop + k) before body

namespace Text

variable {a b t : Text} {first last : Nat}

theorem moved_behind (hlast : last ≤ a.length) (t : Text) :
    Moved (a ++ b) (a ++ (t ++ b)) 0 first last := by
  intro start stop _ hle hstop
  have hwindow := Window.of_le (a ++ b) hle (by rw [List.length_append]; omega)
  exact ⟨_, _, hwindow, hwindow.insert_behind (by omega) t⟩

theorem moved_before (hfirst : a.length < first) (hlast : last ≤ (a ++ b).length) (t : Text) :
    Moved (a ++ b) (a ++ (t ++ b)) t.length first last := by
  intro start stop hstart hle hstop
  have hwindow := Window.of_le (a ++ b) hle (by omega)
  exact ⟨_, _, hwindow, hwindow.insert_before (by omega) t⟩

theorem Moved.mono {line line' : Text} {k first' last' : Nat}
    (h : Moved line line' k first last) (hfirst : first ≤ first') (hlast : last' ≤ last) :
    Moved line line' k first' last' :=
  fun start stop hstart hle hstop =>
    h start stop (Nat.le_trans hfirst hstart) hle (Nat.le_trans hstop hlast)

end Text

namespace FoundKey

def add (k : Nat) (found : FoundKey) : FoundKey := ⟨found.key, found.start + k, found.stop + k⟩

theorem insert_add (k : Nat) (keys : List FoundKey) (found : FoundKey) :
    insert (keys.map (add k)) (found.add k) = (insert keys found).map (add k) := by
  have hany : (keys.map (add k)).any (·.start == (found.add k).start) =
      keys.any (·.start == found.start) := by
    rw [List.any_map]
    congr 1
    funext other
    simp [add]
  have hkey : (found.add k).key = found.key := rfl
  rw [insert, insert, hany, hkey]
  split
  · rfl
  · rw [List.map_append, List.map_singleton]

theorem foldl_insert_add (k : Nat) (all keys : List FoundKey) :
    (all.map (add k)).foldl insert (keys.map (add k)) = (all.foldl insert keys).map (add k) := by
  induction all generalizing keys with
  | nil => rfl
  | cons found all ih => rw [List.map_cons, List.foldl_cons, List.foldl_cons, insert_add, ih]

theorem mem_of_mem_foldl_insert {all keys : List FoundKey} {found : FoundKey}
    (h : found ∈ all.foldl insert keys) : found ∈ all ∨ found ∈ keys := by
  induction all generalizing keys with
  | nil => exact .inr h
  | cons other all ih =>
    rcases ih h with h | h
    · exact .inl (List.mem_cons_of_mem _ h)
    · rw [insert] at h
      split at h
      · exact .inr h
      · rcases List.mem_append.1 h with h | h
        · exact .inr h
        · rw [List.mem_singleton] at h
          exact .inl (h ▸ List.mem_cons_self)

variable {line line' : Text} {k start stop : Nat}

theorem findAll_default (line : Text) (hle : start ≤ stop) :
    findAll [ticketPattern] line start stop =
      (((Pattern.keysFrom start 0 ((line.take stop).take start).getLast?
        (Text.slice line start stop)).map fun key =>
          ofMatch ticketPattern line (Pattern.keyMatch key.1 key.2)).foldl insert []).mergeSort
            fun a b => a.start ≤ b.start := by
  rw [findAll]
  simp only [List.flatMap_cons, List.flatMap_nil, List.append_nil,
    Pattern.findAll_ticketPattern hle, List.map_map]
  rfl

/-- The keys of a window are inside of it, and none is empty. -/
theorem lt_of_mem_findAll (hle : start ≤ stop) (hstop : stop ≤ line.length) {found : FoundKey}
    (h : found ∈ findAll [ticketPattern] line start stop) :
    start ≤ found.start ∧ found.start < found.stop ∧ found.stop ≤ stop := by
  rw [findAll_default line hle, List.mem_mergeSort] at h
  rcases mem_of_mem_foldl_insert h with h | h
  · obtain ⟨key, hkey, rfl⟩ := List.mem_map.1 h
    have hbounds := Pattern.le_of_mem_keysFrom hkey
    rw [Text.length_slice line hstop] at hbounds
    rw [ofMatch_keyMatch]
    dsimp only
    omega
  · cases h

theorem le_of_mem_findAll (hle : start ≤ stop) (hstop : stop ≤ line.length) {found : FoundKey}
    (h : found ∈ findAll [ticketPattern] line start stop) :
    start ≤ found.start ∧ found.start ≤ found.stop ∧ found.stop ≤ stop := by
  obtain ⟨hstart, hlt, hlast⟩ := lt_of_mem_findAll hle hstop h
  exact ⟨hstart, Nat.le_of_lt hlt, hlast⟩

/-- The keys of a window that moved on. -/
theorem findAll_move (h : Text.Moved line line' k start stop) (hle : start ≤ stop) :
    findAll [ticketPattern] line' (start + k) (stop + k) =
      (findAll [ticketPattern] line start stop).map (add k) := by
  obtain ⟨before, body, hwindow, hwindow'⟩ := h start stop (Nat.le_refl _) hle (Nat.le_refl _)
  have hkeys : ((Pattern.keysFrom start 0 before body).map fun key => (key.1 + k, key.2)).map
      (fun key => ofMatch ticketPattern line' (Pattern.keyMatch key.1 key.2)) =
      ((Pattern.keysFrom start 0 before body).map fun key =>
        ofMatch ticketPattern line (Pattern.keyMatch key.1 key.2)).map (add k) := by
    rw [List.map_map, List.map_map]
    apply List.map_congr_left
    intro key hkey
    have hbounds := Pattern.le_of_mem_keysFrom hkey
    have hstop := hwindow.stop_eq
    obtain ⟨_, _, hpart, hpart'⟩ := h key.1 (key.1 + key.2) hbounds.1 (by omega) (by omega)
    have hmove : key.1 + k + key.2 = key.1 + key.2 + k := by omega
    simp only [Function.comp_apply, ofMatch_keyMatch, add, hmove, hpart.slice_eq, hpart'.slice_eq]
  rw [findAll_default line hle, findAll_default line' (by omega), hwindow.before_eq_of_take,
    hwindow'.before_eq_of_take, hwindow.slice_eq, hwindow'.slice_eq, Pattern.keysFrom_add, hkeys]
  have hfold := foldl_insert_add k ((Pattern.keysFrom start 0 before body).map fun key =>
    ofMatch ticketPattern line (Pattern.keyMatch key.1 key.2)) []
  rw [List.map_nil] at hfold
  rw [hfold, List.map_mergeSort]
  intro a _ b _
  simp [add]

end FoundKey

namespace Signal

/-- Signal words that follow each other between two columns. -/
def Ordered (last : Nat) : Nat → List Signal → Prop
  | first, [] => first ≤ last
  | first, signal :: rest =>
    first ≤ signal.start ∧ signal.start < signal.stop ∧ Ordered last signal.stop rest

theorem Ordered.le {last first : Nat} {signals : List Signal} (h : Ordered last first signals) :
    first ≤ last := by
  induction signals generalizing first with
  | nil => exact h
  | cons signal rest ih =>
    obtain ⟨hstart, hstop, hrest⟩ := h
    have := ih hrest
    omega

theorem Ordered.mono {last first first' : Nat} {signals : List Signal}
    (h : Ordered last first signals) (hle : first' ≤ first) : Ordered last first' signals := by
  cases signals with
  | nil => exact Nat.le_trans hle h
  | cons signal rest => exact ⟨Nat.le_trans hle h.1, h.2⟩

theorem Ordered.head_le {last first : Nat} {signals : List Signal} (h : Ordered last first signals) :
    first ≤ (signals.head?.map Signal.start).getD last ∧
      (signals.head?.map Signal.start).getD last ≤ last := by
  cases signals with
  | nil => exact ⟨h, Nat.le_refl _⟩
  | cons signal rest =>
    have := h.2.2.le
    exact ⟨h.1, Nat.le_trans (Nat.le_of_lt h.2.1) this⟩

/-- The first signal word stands for the first column. -/
theorem Ordered.from_head {last first : Nat} {signals : List Signal}
    (h : Ordered last first signals) :
    Ordered last ((signals.head?.map Signal.start).getD last) signals := by
  cases signals with
  | nil => exact Nat.le_refl _
  | cons signal rest => exact ⟨Nat.le_refl _, h.2⟩

theorem ordered_findFrom {words : List Text} (hwords : ∀ w ∈ words, w ≠ []) (pos : Nat)
    (before : Option Char) {skip : Nat} {rest : Text} (h : skip ≤ rest.length) :
    Ordered (pos + rest.length) (pos + skip) (findFrom words pos skip before rest) := by
  induction rest generalizing pos skip before with
  | nil =>
    rw [List.length_nil] at h ⊢
    exact Nat.add_le_add_left h pos
  | cons c rest ih =>
    have hlast : pos + (c :: rest).length = pos + 1 + rest.length := by
      rw [List.length_cons]
      omega
    rw [hlast]
    cases skip with
    | succ skip =>
      have hfirst : pos + (skip + 1) = pos + 1 + skip := by omega
      rw [hfirst, findFrom]
      exact ih _ _ (by simpa using h)
    | zero =>
      rw [findFrom]
      cases hword : wordAt? words before (c :: rest) with
      | none => exact (ih _ _ (Nat.zero_le _)).mono (by omega)
      | some w =>
        obtain ⟨-, hw, hstarts, -⟩ := wordAt?_eq_some hword
        have hle := hstarts.length_le
        have hpos := List.length_pos_iff.2 (hwords w hw)
        rw [List.length_cons] at hle
        have hskip : w.length - 1 ≤ rest.length := by omega
        dsimp only
        refine ⟨Nat.le_refl _, by dsimp only; omega, (ih _ _ hskip).mono ?_⟩
        dsimp only
        omega

theorem findAll_window {words : List Text} {line body : Text} {start stop : Nat}
    {before : Option Char} (h : Text.Window line start stop before body) :
    findAll words line start stop = findFrom words start 0 before body := by
  rw [findAll, h.before_eq, h.slice_eq]

theorem ordered_findAll {words : List Text} (hwords : ∀ w ∈ words, w ≠ []) (line : Text)
    {start stop : Nat} (hle : start ≤ stop) (hstop : stop ≤ line.length) :
    Ordered stop start (findAll words line start stop) := by
  have hwindow := Text.Window.of_le line hle hstop
  have hordered := ordered_findFrom hwords start (line.take start).getLast?
    (Nat.zero_le (Text.slice line start stop).length)
  rw [← hwindow.stop_eq] at hordered
  rw [findAll_window hwindow]
  exact hordered

theorem findAll_move (words : List Text) {line line' : Text} {k start stop : Nat}
    (h : Text.Moved line line' k start stop) (hle : start ≤ stop) :
    findAll words line' (start + k) (stop + k) = (findAll words line start stop).map (add k) := by
  obtain ⟨before, body, hwindow, hwindow'⟩ := h start stop (Nat.le_refl _) hle (Nat.le_refl _)
  rw [findAll_window hwindow, findAll_window hwindow', findFrom_add]

end Signal

/-- A candidate `k` columns further on, in another line and comment. -/
def Candidate.move (k : Nat) (line : Text) (span : Span) (candidate : Candidate) : Candidate :=
  { candidate with
    column := candidate.column + k
    text := line
    span
    signalStop := candidate.signalStop + k
    segmentStop := candidate.segmentStop + k
    carried := candidate.carried.map (CarriedKey.add k) }

namespace Scanner

/-- The candidates of signal words of which the last one has its text up to `stop`. -/
def ofSignalsTo (scanner : Scanner) (number : Nat) (line : Text) (span : Span) (stop : Nat) :
    List Signal → List Candidate
  | [] => []
  | signal :: rest =>
    scanner.ofSignal number line span signal ((rest.head?.map Signal.start).getD stop) ::
      scanner.ofSignalsTo number line span stop rest

variable {scanner : Scanner} {number : Nat} {line line' : Text} {span span' : Span} {k : Nat}

theorem ofSignals_eq (signals : List Signal) :
    scanner.ofSignals number line span signals =
      scanner.ofSignalsTo number line span span.bodyStop signals := by
  induction signals with
  | nil => rfl
  | cons signal rest ih => rw [ofSignals, ofSignalsTo, ih]

theorem ofSignalsTo_append (stop : Nat) (left : List Signal) (signal : Signal)
    (right : List Signal) :
    scanner.ofSignalsTo number line span stop (left ++ signal :: right) =
      scanner.ofSignalsTo number line span signal.start left ++
        scanner.ofSignalsTo number line span stop (signal :: right) := by
  induction left with
  | nil => rfl
  | cons first left ih =>
    rw [List.cons_append, ofSignalsTo, ofSignalsTo, ih, List.cons_append]
    cases left <;> rfl

theorem ofSignal_move (hpatterns : scanner.patterns = [ticketPattern]) {signal : Signal}
    {segmentStop : Nat} (h : Text.Moved line line' k signal.stop segmentStop)
    (hle : signal.stop ≤ segmentStop) :
    scanner.ofSignal number line' span' (signal.add k) (segmentStop + k) =
      (scanner.ofSignal number line span signal segmentStop).move k line' span' := by
  obtain ⟨before, body, hwindow, hwindow'⟩ := h _ _ (Nat.le_refl _) hle (Nat.le_refl _)
  simp only [ofSignal, Signal.add, Candidate.move, hpatterns, hwindow.slice_eq, hwindow'.slice_eq,
    CarriedKey.inSegment?_window hwindow, CarriedKey.inSegment?_window hwindow',
    CarriedKey.keyIn_add, Candidate.titleOf_add]

theorem ofSignalsTo_move (number : Nat) (span span' : Span)
    (hpatterns : scanner.patterns = [ticketPattern]) {first stop : Nat} {signals : List Signal}
    (h : Text.Moved line line' k first stop)
    (hordered : Signal.Ordered stop first signals) :
    scanner.ofSignalsTo number line' span' (stop + k) (signals.map (Signal.add k)) =
      (scanner.ofSignalsTo number line span stop signals).map (Candidate.move k line' span') := by
  induction signals generalizing first with
  | nil => rfl
  | cons signal rest ih =>
    obtain ⟨hstart, hstop, hrest⟩ := hordered
    obtain ⟨hle, hle'⟩ := hrest.head_le
    have hnext : ((rest.map (Signal.add k)).head?.map Signal.start).getD (stop + k) =
        (rest.head?.map Signal.start).getD stop + k := by
      cases rest <;> rfl
    rw [List.map_cons, ofSignalsTo, ofSignalsTo, List.map_cons, hnext,
      ofSignal_move hpatterns (h.mono (by omega) hle') hle,
      ih (h.mono (by omega) (Nat.le_refl _)) hrest]

/-- The mentions between two columns that moved on. -/
theorem mentions_move (number : Nat) (span span' : Span) {start stop : Nat}
    (h : Text.Moved line line' k start stop)
    (hle : start ≤ stop) :
    (FoundKey.findAll [ticketPattern] line' (start + k) (stop + k)).map
        (ofMention number line' span' (stop + k)) =
      ((FoundKey.findAll [ticketPattern] line start stop).map
        (ofMention number line span stop)).map (Candidate.move k line' span') := by
  rw [FoundKey.findAll_move h hle, List.map_map, List.map_map]
  rfl

/-- The candidates of a comment that moved on. -/
theorem scanSpan_move (number : Nat) (hwords : Signal.Capital scanner.words)
    (hpatterns : scanner.patterns = [ticketPattern]) (hin : span.Within 0 line.length)
    (h : Text.Moved line line' k span.bodyStart span.bodyStop) :
    scanner.scanSpan number line' (span.add k) =
      (scanner.scanSpan number line span).map (Candidate.move k line' (span.add k)) := by
  have hle := hin.bodyStart_le
  have hstop : span.bodyStop ≤ line.length := Nat.le_trans hin.bodyStop_le hin.stop_le
  have hordered := Signal.ordered_findAll hwords.ne_nil line hle hstop
  have hsignals := Signal.findAll_move scanner.words h hle
  have hfirst : (((Signal.findAll scanner.words line span.bodyStart span.bodyStop).map
      (Signal.add k)).head?.map Signal.start).getD (span.bodyStop + k) =
      ((Signal.findAll scanner.words line span.bodyStart span.bodyStop).head?.map
        Signal.start).getD span.bodyStop + k := by
    cases Signal.findAll scanner.words line span.bodyStart span.bodyStop <;> rfl
  obtain ⟨hhead, hhead'⟩ := hordered.head_le
  rw [scanSpan, scanSpan, ofSignals_eq, ofSignals_eq]
  simp only [Span.add] at hsignals ⊢
  rw [hsignals, ofSignalsTo_move number span _ hpatterns h hordered, hfirst, List.map_append]
  congr 1
  split
  · rw [hpatterns, mentions_move number span _ (h.mono (Nat.le_refl _) hhead') hhead]
  · rfl

end Scanner

end TodoTracker
