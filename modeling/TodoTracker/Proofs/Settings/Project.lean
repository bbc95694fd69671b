import TodoTracker.Proofs.Files.Regular
import TodoTracker.Proofs.Marker.Occurrence
import TodoTracker.Proofs.Marker.TicketEntry
import TodoTracker.Proofs.Settings.Load
import TodoTracker.Scan.Decision

/-!
# Keys of the project that a directory suggests

A suggested project is a capital letter with capital letters and digits behind it. Its keys are
read back behind a signal word unless the project is a single letter, which the ticket pattern
takes for no project, or is a signal word itself, which ends the text of the marker inside the
parentheses.
-/

set_option autoImplicit false

namespace TodoTracker

open Text (isAsciiUpper isAsciiLower isAsciiDigit isAsciiWord)

/-! ### The project of a directory -/

/-- A capital letter with capital letters and digits behind it. -/
def IsProject (project : Text) : Prop :=
  ∃ c letters, project = c :: letters ∧ isAsciiUpper c = true ∧
    ∀ d ∈ letters, (isAsciiUpper d || isAsciiDigit d) = true

theorem keyChar_of_mem_upperChar {c d : Char}
    (hc : (isAsciiUpper c || isAsciiLower c || isAsciiDigit c) = true)
    (hd : d ∈ Text.upperChar c) : (isAsciiUpper d || isAsciiDigit d) = true := by
  rw [Text.upperChar] at hd
  by_cases hlower : isAsciiLower c = true
  · rw [if_pos hlower, List.mem_singleton] at hd
    simp only [isAsciiLower, Bool.and_eq_true, decide_eq_true_eq] at hlower
    have hnat : d.toNat = c.toNat - 32 := by
      rw [hd, Utf8.toNat_charOfNat (by omega)]
    simp only [isAsciiUpper, hnat, Bool.or_eq_true, Bool.and_eq_true, decide_eq_true_eq]
    omega
  · rw [Bool.not_eq_true] at hlower
    rw [hlower, Bool.or_false] at hc
    have hascii : Text.isAscii c = true := by
      simp only [isAsciiUpper, isAsciiDigit, Bool.or_eq_true, Bool.and_eq_true,
        decide_eq_true_eq] at hc
      simp only [Text.isAscii, decide_eq_true_eq]
      omega
    rw [hlower, if_neg Bool.false_ne_true, if_pos hascii, List.mem_singleton] at hd
    rwa [hd]

theorem isProject_projectOf (name : Text) : IsProject (projectOf name) := by
  have htask : IsProject "TASK".toList :=
    ⟨'T', "ASK".toList, rfl, by decide, List.all_eq_true.1 (by decide)⟩
  have hchars : ∀ d ∈ ((name.filter fun c =>
      isAsciiUpper c || isAsciiLower c || isAsciiDigit c).flatMap Text.upperChar).take 8,
      (isAsciiUpper d || isAsciiDigit d) = true := by
    intro d hd
    obtain ⟨c, hc, hd⟩ := List.mem_flatMap.1 (List.mem_of_mem_take hd)
    exact keyChar_of_mem_upperChar (List.mem_filter.1 hc).2 hd
  rw [projectOf]
  split
  · exact htask
  · rename_i c letters heq
    rw [heq] at hchars ⊢
    by_cases hc : isAsciiUpper c = true
    · rw [if_pos hc]
      exact ⟨c, letters, rfl, hc, fun d hd => hchars d (List.mem_cons_of_mem c hd)⟩
    · rw [if_neg hc]
      exact htask

theorem IsProject.keyChar {project : Text} (h : IsProject project) :
    ∀ c ∈ project, (isAsciiUpper c || isAsciiDigit c) = true := by
  obtain ⟨c, letters, rfl, hc, hletters⟩ := h
  refine List.forall_mem_cons.2 ⟨?_, hletters⟩
  rw [hc, Bool.true_or]

theorem IsProject.isAsciiWord {project : Text} (h : IsProject project) :
    ∀ c ∈ project, isAsciiWord c = true := by
  intro c hc
  have hkey := h.keyChar c hc
  rw [Bool.or_eq_true] at hkey
  rcases hkey with hkey | hkey <;> simp [Text.isAsciiWord, hkey]

theorem keyOf_natCast (project : Text) (n : Nat) :
    Document.keyOf project n = project ++ '-' :: Text.ofNat n := rfl

theorem IsProject.of_mem_keyOf {project : Text} (h : IsProject project) {n : Nat} {c : Char}
    (hc : c ∈ Document.keyOf project n) : (isAsciiUpper c || isAsciiDigit c) = true ∨ c = '-' := by
  rw [keyOf_natCast, List.mem_append, List.mem_cons] at hc
  rcases hc with hc | hc | hc
  · exact .inl (h.keyChar c hc)
  · exact .inr hc
  · left
    rw [Text.isAsciiDigit_of_asciiDigit (Text.asciiDigit_of_mem_ofNat hc), Bool.or_true]

/-- A text that starts with a key in parentheses. -/
def numbered (project : Text) (n : Nat) (rest : Text) : Text :=
  '(' :: (Document.keyOf project n ++ ')' :: rest)

theorem numbered_eq (project : Text) (n : Nat) (rest : Text) :
    numbered project n rest = '(' :: (project ++ '-' :: (Text.ofNat n ++ ')' :: rest)) := by
  simp [numbered, keyOf_natCast]

/-- A front part that is longer than the key in parentheses. -/
theorem take_numbered (project : Text) (n k : Nat) (rest : Text) :
    (numbered project n rest).take ((Document.keyOf project n).length + 2 + k) =
      numbered project n (rest.take k) := by
  have hcount : (Document.keyOf project n).length + 2 + k =
      (Document.keyOf project n).length + (k + 1) + 1 := by omega
  rw [numbered, hcount, List.take_succ_cons, List.take_length_add_append, List.take_succ_cons]
  rfl

/-! ### The key of a segment -/

namespace Pattern

theorem keyLength?_of_not_upper {c : Char} (hc : isAsciiUpper c = false) (before : Option Char)
    (rest : Text) : keyLength? before (c :: rest) = none := by
  rw [keyLength?.eq_def]
  split
  · rfl
  · simp [upperSet_contains, hc]

/-- A single letter in front of a hyphen is no project to the pattern. -/
theorem keyLength?_letter (c : Char) (before : Option Char) (rest : Text) :
    keyLength? before (c :: '-' :: rest) = none := by
  have hhyphen : keySet.contains '-' = false := by decide
  rw [keyLength?.eq_def]
  split
  · rfl
  · simp [hhyphen]

end Pattern

namespace CarriedKey

/-- A segment that starts with a parenthesis has no bare key. -/
theorem bareIn_paren (before : Option Char) (start : Nat) (segment : Text) :
    bareIn before start ('(' :: segment) = none := by
  have hlead : ('(' :: segment).takeWhile isLead = [] ∧
      ('(' :: segment).dropWhile isLead = '(' :: segment :=
    ⟨List.takeWhile_cons_of_neg (by decide), List.dropWhile_cons_of_neg (by decide)⟩
  rw [bareIn, hlead.1, hlead.2, Pattern.keyLength?_of_not_upper (by decide)]
  rfl

variable {project segment : Text}

theorem keyIn_paren_alone (before : Option Char) (start : Nat) :
    keyIn before start ['('] = none := by
  rw [keyIn, bareIn_paren]
  rfl

theorem keyIn_letter {c : Char} (hproject : IsProject [c]) (before : Option Char) (start n : Nat)
    (h : TicketAttribute.find? segment = none) :
    keyIn before start (numbered [c] n segment) = none := by
  have hbracket : '[' ∉ '(' :: (Document.keyOf [c] n ++ [')']) := by
    intro hmem
    simp only [List.mem_cons, List.mem_append, List.not_mem_nil, or_false] at hmem
    rcases hmem with hmem | hmem | hmem
    · exact absurd hmem (by decide)
    · exact absurd (hproject.of_mem_keyOf hmem) (by decide)
    · exact absurd hmem (by decide)
  have hnone : TicketAttribute.find? (numbered [c] n segment) = none := by
    have happend := TicketAttribute.find?_append hbracket h
    rwa [List.cons_append, List.append_assoc] at happend
  have hinner : ∀ d ∈ Document.keyOf [c] n, Parenthesis.isInner d = true := by
    intro d hd
    rcases hproject.of_mem_keyOf hd with hd | rfl
    · exact Parenthesis.isInner_of_keyChar hd
    · decide
  have hparen : Parenthesis.read? (numbered [c] n segment) =
      some ⟨(Document.keyOf [c] n).length + 2, 1, 1 + (Document.keyOf [c] n).length⟩ :=
    Parenthesis.read?_word (by simp [keyOf_natCast]) hinner segment
  have hword : Text.slice (numbered [c] n segment) 1 (1 + (Document.keyOf [c] n).length) =
      c :: '-' :: Text.ofNat n := by
    rw [numbered, Text.slice, Nat.add_comm 1, List.take_succ_cons, List.take_left]
    rfl
  have hbare : bareIn before start (numbered [c] n segment) = none := bareIn_paren before start _
  rw [keyIn, hnone]
  dsimp only
  rw [hbare, Option.or_none, parenIn, hparen]
  dsimp only [Option.bind_some]
  rw [hword, Pattern.keyLength?_letter]
  rfl

theorem key_keyIn_numbered (hproject : IsProject project) (hlength : 2 ≤ project.length)
    (before : Option Char) (start n : Nat) (h : TicketAttribute.find? segment = none) :
    (keyIn before start (numbered project n segment)).map CarriedKey.key =
      some (Document.keyOf project n) := by
  obtain ⟨key, rfl, rfl⟩ : ∃ key : TicketKey, key.project = project ∧ key.number = n := by
    obtain ⟨c, letters, rfl, hc, hletters⟩ := hproject
    have hne : letters ≠ [] := by
      rintro rfl
      simp at hlength
    exact ⟨⟨c :: letters, n, c, letters, rfl, hc, hne, hletters⟩, rfl, rfl⟩
  have hwritten : numbered key.project key.number segment = key.written ++ segment := by
    rw [numbered_eq]
    simp [TicketKey.written, TicketKey.text]
  rw [hwritten, key.keyIn_written before start h]
  rfl

end CarriedKey

namespace TicketAttribute

/-- A front part of a text without a ticket attribute has none. -/
theorem find?_take {t : Text} (h : find? t = none) (k : Nat) : find? (t.take k) = none := by
  rw [← Option.not_isSome_iff_eq_none, isSome_find?_iff] at h ⊢
  rintro ⟨key, front, entry, back, htake, hnames⟩
  refine h ⟨key, front, entry, back ++ t.drop k, ?_, hnames⟩
  calc
    t = t.take k ++ t.drop k := (List.take_append_drop k t).symm
    _ = front ++ '[' :: (entry ++ ']' :: (back ++ t.drop k)) := by simp [htake]

end TicketAttribute

/-! ### Where the text of a marker ends -/

namespace Signal

/-- The column of the next signal word in a text from column `pos` on, or of its end. -/
def next (words : List Text) (pos : Nat) (before : Option Char) (t : Text) : Nat :=
  ((findFrom words pos 0 before t).head?.map start).getD (pos + t.length)

variable {words : List Text} {project rest : Text}

theorem next_le (hwords : Capital words) (pos : Nat) (before : Option Char) (t : Text) :
    pos ≤ next words pos before t ∧ next words pos before t ≤ pos + t.length :=
  (ordered_findFrom hwords.ne_nil pos before (Nat.zero_le t.length)).head_le

/-- A project that is a signal word ends the text of the marker behind the parenthesis. -/
theorem take_next_of_mem (hwords : Capital words) (hmem : project ∈ words) (n pos : Nat)
    (before : Option Char) :
    (numbered project n rest).take (next words pos before (numbered project n rest) - pos) =
      ['('] := by
  have hnext : next words pos before (numbered project n rest) = pos + 1 := by
    rw [next, numbered_eq,
      findFrom_cons_of_none (wordAt?_cons_of_not_word hwords.wordly (by decide) _ _),
      findFrom_word hwords.wordly _ hmem rfl (isEdge_cons rfl _)]
    rfl
  rw [hnext, Nat.add_sub_cancel_left]
  rfl

/-- Behind a key whose project is no signal word the text of the marker goes on. -/
theorem take_next_of_not_mem (hwords : Capital words) (hproject : IsProject project)
    (hnot : project ∉ words) (hrest : isEdge rest.head? = true) (n pos : Nat)
    (before : Option Char) :
    ∃ k, (numbered project n rest).take (next words pos before (numbered project n rest) - pos) =
      numbered project n (rest.take k) := by
  have hlen : (Document.keyOf project n).length + 2 =
      project.length + (Text.ofNat n).length + 3 := by
    simp [keyOf_natCast]
    omega
  have hnext : next words pos before (numbered project n rest) =
      next words (pos + ((Document.keyOf project n).length + 2)) none rest := by
    rw [next, numbered_eq, findFrom_numbered hwords hproject.isAsciiWord hnot _ _ _ none hrest,
      next, hlen]
    congr 1
    simp only [List.length_cons, List.length_append]
    omega
  obtain ⟨k, hk⟩ := Nat.exists_eq_add_of_le
    (next_le hwords (pos + ((Document.keyOf project n).length + 2)) none rest).1
  refine ⟨k, ?_⟩
  rw [hnext, hk, Nat.add_assoc, Nat.add_sub_cancel_left, take_numbered]

end Signal

namespace Scanner

variable {scanner : Scanner} {number : Nat} {line : Text} {span : Span} {before : Option Char}
  {lead word tail : Text}

/-- A signal word between two edges is a marker. -/
theorem mem_scanSpan_of_window (number : Nat) (hwords : Signal.Capital scanner.words)
    (h : Text.Window line span.bodyStart span.bodyStop before (lead ++ (word ++ tail)))
    (hword : word ∈ scanner.words) (hlead : Signal.isEdge (lead.getLast?.or before) = true)
    (htail : Signal.isEdge tail.head? = true) :
    scanner.ofSignal number line span
      ⟨span.bodyStart + lead.length, span.bodyStart + lead.length + word.length, word⟩
      (Signal.next scanner.words (span.bodyStart + lead.length + word.length) word.getLast? tail) ∈
        scanner.scanSpan number line span := by
  have hstop := h.stop_eq
  simp only [List.length_append, ← Nat.add_assoc] at hstop
  rw [scanSpan, ofSignals_eq, Signal.findAll_window h,
    Signal.findFrom_around hwords.wordly _ hlead hword htail, ofSignalsTo_append, ofSignalsTo,
    Signal.next, ← hstop]
  simp

/-- The key of a marker depends on its segment. -/
theorem key_ofSignal (hpatterns : scanner.patterns = [ticketPattern]) {signal : Signal}
    {stop last : Nat} (h : Text.Window line signal.stop stop before tail)
    (hle : signal.stop ≤ last) (hle' : last ≤ stop) :
    (scanner.ofSignal number line span signal last).key =
      (CarriedKey.keyIn before signal.stop (tail.take (last - signal.stop))).map
        CarriedKey.key := by
  have hstop := h.stop_eq
  have hpart := h.slice (Nat.zero_le (last - signal.stop)) (by omega)
  rw [List.take_zero, List.getLast?_nil, Option.none_or, Nat.add_zero, Nat.add_sub_cancel' hle,
    Text.slice, List.drop_zero] at hpart
  rw [Candidate.key, ofSignal, hpatterns]
  dsimp only
  rw [CarriedKey.inSegment?_window hpart]

/-- The key behind a signal word is the key of the marker if its project has a second character and
is no signal word. Else the marker has no key. -/
theorem key_ofSignal_numbered (hwords : Signal.Capital scanner.words)
    (hpatterns : scanner.patterns = [ticketPattern]) {project rest : Text}
    (hproject : IsProject project) {signal : Signal} {stop n : Nat}
    (h : Text.Window line signal.stop stop before (numbered project n rest))
    (hrest : Signal.isEdge rest.head? = true) (hticket : TicketAttribute.find? rest = none) :
    (scanner.ofSignal number line span signal (Signal.next scanner.words signal.stop
      signal.word.getLast? (numbered project n rest))).key =
        if 2 ≤ project.length ∧ project ∉ scanner.words then some (Document.keyOf project n)
        else none := by
  obtain ⟨hle, hle'⟩ := Signal.next_le hwords signal.stop signal.word.getLast?
    (numbered project n rest)
  rw [← h.stop_eq] at hle'
  rw [key_ofSignal hpatterns h hle hle']
  -- A project that is a signal word ends the segment before the pattern could read anything.
  by_cases hmem : project ∈ scanner.words
  · rw [Signal.take_next_of_mem hwords hmem, CarriedKey.keyIn_paren_alone,
      if_neg fun hread => hread.2 hmem]
    rfl
  obtain ⟨k, hk⟩ := Signal.take_next_of_not_mem hwords hproject hmem hrest n signal.stop
    signal.word.getLast?
  have hnone := TicketAttribute.find?_take hticket k
  rw [hk]
  by_cases hlength : 2 ≤ project.length
  · rw [CarriedKey.key_keyIn_numbered hproject hlength before signal.stop n hnone,
      if_pos ⟨hlength, hmem⟩]
  · obtain ⟨c, rfl⟩ : ∃ c, project = [c] := by
      obtain ⟨c, letters, rfl, -⟩ := hproject
      cases letters with
      | nil => exact ⟨c, rfl⟩
      | cons d letters => simp at hlength
    rw [CarriedKey.keyIn_letter hproject before signal.stop n hnone,
      if_neg fun hread => hlength hread.1]
    rfl

/-- The marker of a signal word with a key in parentheses right behind it. -/
theorem exists_marker_numbered (hwords : Signal.Capital scanner.words)
    (hpatterns : scanner.patterns = [ticketPattern]) {grammar : Grammar} (hg : grammar.Proper)
    {project rest : Text} (hproject : IsProject project) {n : Nat} {lines : List Text} {i : Nat}
    {spans : List Span} (hline : lines[i]? = some line)
    (hspans : (grammar.spans lines)[i]? = some spans) (hspan : span ∈ spans)
    (hword : word ∈ scanner.words)
    (hedge : Signal.isEdge (line.take (span.bodyStart + lead.length)).getLast? = true)
    (hrest : Signal.isEdge rest.head? = true) (hticket : TicketAttribute.find? rest = none)
    (hbody : Text.slice line span.bodyStart span.bodyStop =
      lead ++ (word ++ numbered project n rest)) :
    ∃ c ∈ scanner.scan lines grammar, c.line = 1 + i ∧ c.column = span.bodyStart + lead.length ∧
      c.signal = some word ∧
      c.key = if 2 ≤ project.length ∧ project ∉ scanner.words then
        some (Document.keyOf project n) else none := by
  have hin := (ordered_of_spans hg hline hspans).1 span hspan
  have hwindow := Text.Window.of_le line hin.bodyStart_le
    (Nat.le_trans hin.bodyStop_le hin.stop_le)
  rw [hbody] at hwindow
  -- The same window is cut in front of the word, for its edge, and behind it, for its segment.
  have hbehind := hwindow
  rw [← List.append_nil (word ++ _)] at hwindow
  rw [hwindow.part.before_eq] at hedge
  rw [List.append_nil] at hwindow
  have hmem := mem_scanSpan_of_window (1 + i) hwords hwindow hword hedge
    (Signal.isEdge_cons (by decide) _)
  rw [← List.append_assoc, ← List.append_nil (numbered project n rest)] at hbehind
  have htail := hbehind.part
  rw [List.length_append, ← Nat.add_assoc] at htail
  exact ⟨_, mem_scan_iff.2 ⟨i, line, spans, hline, hspans, span, hspan, hmem⟩, rfl, rfl, rfl,
    key_ofSignal_numbered hwords hpatterns hproject htail hrest hticket⟩

/-- Candidates of a text at one place are the same. -/
theorem eq_of_place_eq {found : List Candidate} (h : found.Pairwise Candidate.Ahead)
    {c d : Candidate} (hc : c ∈ found) (hd : d ∈ found) :
    c.line = d.line → c.column = d.column → c = d := by
  have : Std.Symm fun c d : Candidate => c.line = d.line → c.column = d.column → c = d :=
    ⟨fun _ _ heq hline hcolumn => (heq hline.symm hcolumn.symm).symm⟩
  have hplaces : found.Pairwise fun c d => c.line = d.line → c.column = d.column → c = d := by
    refine h.imp fun {c d} hahead hline hcolumn => ?_
    rw [Candidate.Ahead] at hahead
    omega
  exact hplaces.forall_of_forall (fun _ _ _ _ => rfl) hc hd

end Scanner

/-- A marker whose key is that of a task asks for no further one. -/
theorem Decision.action_eq_create_iff {c : Candidate} {policy : Policy} {known : Text → Bool}
    (hsignal : c.signal.isSome) (hcreate : policy.createTasks = true)
    (hknown : ∀ key ∈ c.key, known key = true) :
    (Decision.decide c policy known).action = .create ↔ c.key = none := by
  rw [Decision.decide]
  cases hkey : c.key with
  | none =>
    have hmention : c.isMention = false := by
      rw [Candidate.isMention, Option.isNone_eq_false_iff]
      exact hsignal
    simp [withoutKey, hmention, hcreate, creation]
  | some key =>
    have hknown := hknown key hkey
    simp only [withKey, hknown, if_true]
    split <;> simp [ignored]

namespace Settings

variable {tree : FileTree} {repo : Path} {location : Location}

/-- Without a settings file the settings are the defaults, with the project of the directory. -/
theorem load_of_absent (hrepo : tree.resolve repo = .ok location)
    (habsent : ∀ name ∈ fileNames, tree.existsAt (repo.join ⟨0, [name]⟩) = .ok false) :
    load tree repo = .ok ({ project := projectOf (Path.ofLocation location).name }, []) := by
  have hnone : findFile tree repo fileNames = .ok ([], none, []) := by
    rw [← List.append_nil fileNames, findFile_of_absent [] habsent]
    rfl
  rw [load_of_found hrepo hnone, ofDocument_nil]
  rfl

theorem compiled_of_project (project : Text) :
    ({ project } : Settings).compiled = .ok [ticketPattern] := by
  rw [compiled]
  exact compilePatterns_default

theorem mem_prepare_default_iff {word : Text} :
    word ∈ Signal.prepare ({} : Settings).signalWords ↔ word ∈ ({} : Settings).signalWords := by
  refine ⟨mem_of_mem_prepare_default, fun h => ?_⟩
  rw [prepare_default]
  revert word
  decide

end Settings

/-- In a repository without a settings file, a key of the project that the directory suggests is
written in parentheses behind a signal word. The marker of the word is found, and its key is this
one exactly if the project has a second character and is no signal word. Otherwise the marker has no
key, and a scan that creates tasks takes it for a new one although the task is there. -/
theorem suggested_key_read_back {tree : FileTree} {repo : Path} {location : Location}
    (hrepo : tree.resolve repo = .ok location)
    (habsent : ∀ name ∈ Settings.fileNames,
      tree.existsAt (repo.join ⟨0, [name]⟩) = .ok false)
    {number : Int} (hnumber : 1 ≤ number) {grammar : Grammar} (hg : grammar ∈ Grammar.registry)
    {lines : List Text} {i : Nat} {line : Text} {spans : List Span} {span : Span}
    (hline : lines[i]? = some line) (hspans : (grammar.spans lines)[i]? = some spans)
    (hspan : span ∈ spans) {lead word rest : Text} (hword : word ∈ ({} : Settings).signalWords)
    (hedge : Signal.isEdge (line.take (span.bodyStart + lead.length)).getLast? = true)
    (hrest : rest.head? = some ':') (hticket : TicketAttribute.find? rest = none)
    (hbody : Text.slice line span.bodyStart span.bodyStop = lead ++ (word ++ '(' ::
      (Document.keyOf (projectOf (Path.ofLocation location).name) number ++ ')' :: rest))) :
    ∃ settings patterns, Settings.load tree repo = .ok (settings, []) ∧
      settings.compiled = .ok patterns ∧
      settings.project = projectOf (Path.ofLocation location).name ∧
      let found := (Scanner.make settings.allSignalWords patterns settings.mentions).scan lines
        grammar
      ∃ c ∈ found, c.line = 1 + i ∧ c.column = span.bodyStart + lead.length ∧
        c.signal = some word ∧
        (∀ d ∈ found, d.line = c.line → d.column = c.column → d = c) ∧
        c.key = (if 2 ≤ settings.project.length ∧ settings.project ∉ settings.signalWords then
          some (Document.keyOf settings.project number) else none) ∧
        ∀ policy known, policy.createTasks = true →
          known (Document.keyOf settings.project number) = true →
          ((Decision.decide c policy known).action = .create ↔
            ¬(2 ≤ settings.project.length ∧ settings.project ∉ settings.signalWords)) := by
  generalize hname : projectOf (Path.ofLocation location).name = project at hbody
  have hproject : IsProject project := hname ▸ isProject_projectOf _
  obtain ⟨n, rfl⟩ := Int.eq_ofNat_of_zero_le (Int.le_trans Int.one_nonneg hnumber)
  have hproper := Grammar.proper_registry hg
  have hload := Settings.load_of_absent hrepo habsent
  rw [hname] at hload
  have hwords : Signal.Capital
      (Scanner.make ({} : Settings).signalWords [ticketPattern] true).words := capital_default
  obtain ⟨c, hc, hcline, hcolumn, hsignal, hkey⟩ := Scanner.exists_marker_numbered hwords rfl
    hproper hproject hline hspans hspan (Settings.mem_prepare_default_iff.2 hword) hedge
    (by rw [hrest]; rfl) hticket hbody
  have hreads : project ∈ (Scanner.make ({} : Settings).signalWords [ticketPattern] true).words ↔
      project ∈ ({} : Settings).signalWords := Settings.mem_prepare_default_iff
  simp only [hreads] at hkey
  refine ⟨{ project }, [ticketPattern], hload, Settings.compiled_of_project project, rfl, c, hc,
    hcline, hcolumn, hsignal, ?_, hkey, ?_⟩
  · intro d hd
    exact Scanner.eq_of_place_eq (Scanner.pairwise_ahead_scan hproper hwords.ne_nil rfl lines) hd hc
  · intro policy known hcreate hknown
    have hkeys : ∀ key ∈ c.key, known key = true := by
      intro key hmem
      rw [hkey, Option.mem_def, Option.ite_none_right_eq_some, Option.some.injEq] at hmem
      rwa [← hmem.2]
    rw [Decision.action_eq_create_iff (by rw [hsignal]; rfl) hcreate hkeys, hkey]
    exact ite_eq_right_iff.trans (by simp)

/-- In a directory of one letter the key of a task is not read back, and the task is created once
more. -/
theorem suggested_key_read_back_letter :
    let tree : FileTree := ⟨[(["x".toList], .directory)], by decide⟩
    let ini : Grammar := .row "ini" "ini" [";", "#"] []
    (tree.resolve (.ofLocation ["x".toList]) = .ok ["x".toList] ∧
      projectOf "x".toList = "X".toList ∧
      ini.spans ["# TODO(X-1): fix".toList] = [[⟨0, 16, 1, 16⟩]]) ∧
    ∃ settings patterns, Settings.load tree (.ofLocation ["x".toList]) = .ok (settings, []) ∧
      settings.compiled = .ok patterns ∧
      ∃ c ∈ (Scanner.make settings.allSignalWords patterns settings.mentions).scan
          ["# TODO(X-1): fix".toList] ini,
        c.signal = some "TODO".toList ∧ c.key = none ∧
          (Decision.decide c { createTasks := true } fun key => key == "X-1".toList).action =
            .create := by
  intro tree ini
  have hregular : tree.Regular := by decide
  have hdirectory : tree.lookup? ["x".toList] = some .directory := by decide
  have hrepo := hregular.resolve hdirectory (by simp)
  have habsent : ∀ name ∈ Settings.fileNames,
      tree.existsAt ((Path.ofLocation ["x".toList]).join ⟨0, [name]⟩) = .ok false := by
    rw [Settings.fileNames, List.map_cons, List.map_cons, List.map_nil, List.forall_mem_cons,
      List.forall_mem_singleton]
    exact ⟨by cbv, by cbv⟩
  have hini : ini ∈ Grammar.registry := by decide +kernel
  have hspans : ini.spans ["# TODO(X-1): fix".toList] = [[⟨0, 16, 1, 16⟩]] := by decide +kernel
  have hproject : projectOf "x".toList = "X".toList := by decide
  have hrow : (ini.spans ["# TODO(X-1): fix".toList])[0]? = some [⟨0, 16, 1, 16⟩] := by
    rw [hspans]
    rfl
  have hedge : Signal.isEdge (("# TODO(X-1): fix".toList).take (1 + [' '].length)).getLast? =
      true := by
    decide
  have hrest : (": fix".toList).head? = some ':' := rfl
  have hbody : Text.slice "# TODO(X-1): fix".toList 1 16 = [' '] ++ ("TODO".toList ++ '(' ::
      (Document.keyOf (projectOf "x".toList) 1 ++ ')' :: ": fix".toList)) := by
    decide
  obtain ⟨settings, patterns, hload, hcompiled, hname, c, hc, -, -, hsignal, -, hkey, hcreate⟩ :=
    suggested_key_read_back hrepo habsent (Int.le_refl 1) hini rfl hrow List.mem_cons_self
      (by decide) hedge hrest (by decide) hbody
  have hletter : ¬(2 ≤ settings.project.length ∧ settings.project ∉ settings.signalWords) := by
    rintro ⟨hlength, -⟩
    rw [hname] at hlength
    exact absurd hlength (by decide)
  rw [if_neg hletter] at hkey
  refine ⟨⟨hrepo, hproject, hspans⟩, settings, patterns, hload, hcompiled, c, hc, hsignal, hkey, ?_⟩
  refine (hcreate _ _ rfl ?_).2 hletter
  rw [hname]
  decide

end TodoTracker
