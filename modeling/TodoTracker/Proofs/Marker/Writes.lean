import TodoTracker.Proofs.Marker.Order

/-!
# Several keys in one line

The keys of a line are written from the last to the first, so each one finds the columns in front
of it as they were. The candidates of the line stay the same ones through all of them.
-/

set_option autoImplicit false

namespace TodoTracker

open KeyWrite (before upTo)

namespace KeyWrite

variable {write : KeyWrite} {writes : List KeyWrite} {column : Nat}

theorem before_eq_zero (h : ∀ v ∈ writes, column ≤ v.column) : before writes column = 0 := by
  rw [before, List.filter_eq_nil_iff.2]
  · rfl
  · intro v hv
    have := h v hv
    simp only [decide_eq_true_eq]
    omega

theorem upTo_eq_zero (h : ∀ v ∈ writes, column < v.column) : upTo writes column = 0 := by
  rw [upTo, List.filter_eq_nil_iff.2]
  · rfl
  · intro v hv
    have := h v hv
    simp only [decide_eq_true_eq]
    omega

theorem before_cons (write : KeyWrite) (writes : List KeyWrite) (column : Nat) :
    before (write :: writes) column =
      (if write.column < column then write.width else 0) + before writes column := by
  rw [before, before]
  by_cases h : write.column < column
  · rw [List.filter_cons_of_pos (by simpa using h), if_pos h, List.map_cons, List.sum_cons]
  · rw [List.filter_cons_of_neg (by simpa using h), if_neg h, Nat.zero_add]

theorem upTo_cons (write : KeyWrite) (writes : List KeyWrite) (column : Nat) :
    upTo (write :: writes) column =
      (if write.column ≤ column then write.width else 0) + upTo writes column := by
  rw [upTo, upTo]
  by_cases h : write.column ≤ column
  · rw [List.filter_cons_of_pos (by simpa using h), if_pos h, List.map_cons, List.sum_cons]
  · rw [List.filter_cons_of_neg (by simpa using h), if_neg h, Nat.zero_add]

/-- What starts at a column moves on by the later keys and then by the first one. -/
theorem before_step (h : ∀ v ∈ writes, write.column < v.column) (column : Nat) :
    column + before writes column + before [write] (column + before writes column) =
      column + before (write :: writes) column := by
  rw [before_singleton, before_cons]
  by_cases hlt : write.column < column
  · rw [if_pos (by omega), if_pos hlt]
    omega
  · have hzero : before writes column = 0 := before_eq_zero fun v hv => by
      have := h v hv
      omega
    rw [hzero, Nat.add_zero, if_neg hlt, Nat.add_zero]

theorem upTo_step (h : ∀ v ∈ writes, write.column < v.column) (column : Nat) :
    column + upTo writes column + upTo [write] (column + upTo writes column) =
      column + upTo (write :: writes) column := by
  rw [upTo_singleton, upTo_cons]
  by_cases hle : write.column ≤ column
  · rw [if_pos (by omega), if_pos hle]
    omega
  · have hzero : upTo writes column = 0 := upTo_eq_zero fun v hv => by
      have := h v hv
      omega
    rw [hzero, Nat.add_zero, if_neg hle, Nat.add_zero]

theorem length_le_applyOrdered (line : Text) (writes : List KeyWrite) :
    line.length ≤ (Splice.applyOrdered line (writes.map splice)).length := by
  induction writes with
  | nil => exact Nat.le_refl _
  | cons write writes ih =>
    have happly : Splice.applyOrdered line ((write :: writes).map splice) =
        write.splice.apply (Splice.applyOrdered line (writes.map splice)) := rfl
    rw [happly, Splice.apply, splice]
    simp only [List.length_append, List.length_take, List.length_drop]
    omega

/-- Keys further on change nothing in front of them. -/
theorem take_applyOrdered {line : Text} (h : ∀ v ∈ writes, column ≤ v.column)
    (hcolumn : column ≤ line.length) :
    (Splice.applyOrdered line (writes.map splice)).take column = line.take column := by
  induction writes with
  | nil => rfl
  | cons write writes ih =>
    have happly : Splice.applyOrdered line ((write :: writes).map splice) =
        write.splice.apply (Splice.applyOrdered line (writes.map splice)) := rfl
    have hle := h write List.mem_cons_self
    have hlen := length_le_applyOrdered line writes
    rw [happly, Splice.apply, splice, List.append_assoc, List.take_append_of_le_length,
      List.take_take, Nat.min_eq_left hle, ih fun v hv => h v (List.mem_cons_of_mem _ hv)]
    rw [List.length_take]
    exact Nat.le_min.2 ⟨hle, Nat.le_trans hcolumn hlen⟩

end KeyWrite

variable {write : KeyWrite} {writes : List KeyWrite}

theorem Span.withKeys_step (h : ∀ v ∈ writes, write.column < v.column) (span : Span) :
    (span.withKeys writes).withKeys [write] = span.withKeys (write :: writes) := by
  simp only [withKeys, KeyWrite.before_step h, KeyWrite.upTo_step h]

theorem TicketKey.carried_add (key : TicketKey) (start k : Nat) :
    (key.carried start).add k = key.carried (start + k) := by
  simp only [carried, CarriedKey.add, CarriedKey.mk.injEq, true_and]
  omega

theorem CarriedKey.add_add (found : CarriedKey) (m n : Nat) :
    (found.add m).add n = found.add (m + n) := by
  simp only [add, mk.injEq, true_and]
  omega

/-- The key that is written at a column. -/
def KeyWrite.keyAt? (writes : List KeyWrite) (column : Nat) : Option TicketKey :=
  (writes.find? (·.column == column)).map KeyWrite.key

theorem KeyWrite.keyAt?_eq_none {column : Nat} (h : ∀ v ∈ writes, column < v.column) :
    keyAt? writes column = none := by
  rw [keyAt?, List.find?_eq_none.2]
  · rfl
  · intro v hv
    have := h v hv
    simp only [beq_iff_eq]
    omega

theorem Span.withKeys_nil (span : Span) : span.withKeys [] = span := rfl

namespace Candidate

theorem withKeys_nil (c : Candidate) : c.withKeys [] none = c := by
  have hzero : ∀ column, before [] column = 0 := fun _ => rfl
  have hcarried : c.carried.map (CarriedKey.add 0) = c.carried := by
    cases c.carried <;> rfl
  simp only [withKeys, hzero, hcarried]
  rfl

theorem before_offset (h : ∀ v ∈ writes, write.column < v.column) (column : Nat) :
    before writes column + before [write] (column + before writes column) =
      before (write :: writes) column := by
  have := KeyWrite.before_step h column
  omega

/-- A candidate without a key of its own in the first step. -/
theorem withKeys_step_none (h : ∀ v ∈ writes, write.column < v.column) (own : Option TicketKey)
    (c : Candidate) :
    (c.withKeys writes own).withKeys [write] none = c.withKeys (write :: writes) own := by
  have hspan := Span.withKeys_step h c.span
  simp only [withKeys, KeyWrite.before_step h, KeyWrite.upTo_step h, hspan, mk.injEq, true_and,
    and_true]
  refine ⟨rfl, ?_⟩
  cases own with
  | none =>
    dsimp only
    rw [Option.map_map]
    congr 1
    funext found
    rw [Function.comp_apply, CarriedKey.add_add, before_offset h]
  | some key =>
    dsimp only
    rw [Option.map_some, TicketKey.carried_add, KeyWrite.before_step h]

/-- A candidate that gets its own key in the first step. -/
theorem withKeys_step_some (h : ∀ v ∈ writes, write.column < v.column) {c : Candidate}
    (hsegment : ∀ v ∈ writes, c.segmentStop < v.column) (hle : c.signalStop ≤ c.segmentStop)
    (htext : c.segmentStop ≤ c.text.length) (key : TicketKey) :
    (c.withKeys writes none).withKeys [write] (some key) = c.withKeys (write :: writes) (some key) := by
  have hspan := Span.withKeys_step h c.span
  have hzero : before writes c.signalStop = 0 := KeyWrite.before_eq_zero fun v hv => by
    have := hsegment v hv
    omega
  have hzero' : upTo writes c.segmentStop = 0 := KeyWrite.upTo_eq_zero hsegment
  have hsegmentText : (c.withKeys writes none).segment = c.segment := by
    simp only [segment, withKeys, hzero, hzero', Nat.add_zero, Text.slice]
    rw [KeyWrite.take_applyOrdered (fun v hv => Nat.le_of_lt (hsegment v hv)) htext]
  have htitle : ∀ start, titleOf (c.withKeys writes none).segment start none =
      titleOf c.segment c.signalStop none := by
    intro start
    rw [hsegmentText]
    rfl
  rw [withKeys, htitle]
  simp only [withKeys, KeyWrite.before_step h, KeyWrite.upTo_step h, hspan, mk.injEq, true_and,
    and_true]
  rfl

/-- A candidate through the keys behind a column and then the key at that column. -/
theorem withKeys_step (h : ∀ v ∈ writes, write.column < v.column) {c : Candidate}
    (hsegment : c.signalStop = write.column → ∀ v ∈ writes, c.segmentStop < v.column)
    (hle : c.signalStop ≤ c.segmentStop) (htext : c.segmentStop ≤ c.text.length) :
    (c.withKeys writes (KeyWrite.keyAt? writes c.signalStop)).withKeys [write]
        (if (c.withKeys writes (KeyWrite.keyAt? writes c.signalStop)).signalStop = write.column
          then some write.key else none) =
      c.withKeys (write :: writes) (KeyWrite.keyAt? (write :: writes) c.signalStop) := by
  have hsignalStop : (c.withKeys writes (KeyWrite.keyAt? writes c.signalStop)).signalStop =
      c.signalStop + before writes c.signalStop := rfl
  rw [hsignalStop]
  by_cases hown : c.signalStop = write.column
  · have hlater : ∀ v ∈ writes, c.signalStop < v.column := fun v hv => hown ▸ h v hv
    have hzero : before writes c.signalStop = 0 :=
      KeyWrite.before_eq_zero fun v hv => Nat.le_of_lt (hlater v hv)
    have hkeyAt : KeyWrite.keyAt? (write :: writes) c.signalStop = some write.key := by
      rw [KeyWrite.keyAt?, List.find?_cons_of_pos (by simp [hown])]
      rfl
    rw [hzero, Nat.add_zero, if_pos hown, KeyWrite.keyAt?_eq_none hlater, hkeyAt]
    exact withKeys_step_some h (hsegment hown) hle htext write.key
  · have hkeyAt : KeyWrite.keyAt? (write :: writes) c.signalStop =
        KeyWrite.keyAt? writes c.signalStop := by
      rw [KeyWrite.keyAt?, List.find?_cons_of_neg (by simpa using Ne.symm hown)]
      rfl
    have hother : c.signalStop + before writes c.signalStop ≠ write.column := by
      intro heq
      have hlt : c.signalStop < write.column := by omega
      have hzero : before writes c.signalStop = 0 :=
        KeyWrite.before_eq_zero fun v hv => Nat.le_of_lt (Nat.lt_trans hlt (h v hv))
      omega
    rw [hkeyAt, if_neg hother]
    exact withKeys_step_none h _ c

end Candidate

namespace Scanner

variable {scanner : Scanner} {number : Nat} {line : Text} {span : Span} {grammar : Grammar}
  {pending : Option Text}

/-- The candidates of a line in which keys are written behind markers without a written key. -/
theorem scanLine_writes (hwords : Signal.Capital scanner.words)
    (hpatterns : scanner.patterns = [ticketPattern])
    (hgrammar : ∀ w ∈ scanner.words, ∀ key : TicketKey, grammar.Ignores w key.written)
    (hpending : grammar.Awaits pending)
    (hsorted : writes.Pairwise fun a b => a.column < b.column)
    (hmarks : ∀ write ∈ writes, write.key.project ∉ scanner.words ∧
      ∃ c ∈ scanner.scanLine number line (grammar.lineSpans pending line).1, c.signal.isSome ∧
        (∀ found ∈ c.carried, found.form = .bare) ∧ write.column = c.signalStop) :
    grammar.lineSpans pending (Splice.applyOrdered line (writes.map KeyWrite.splice)) =
        ((grammar.lineSpans pending line).1.map (Span.withKeys writes),
          (grammar.lineSpans pending line).2) ∧
      scanner.scanLine number (Splice.applyOrdered line (writes.map KeyWrite.splice))
          ((grammar.lineSpans pending line).1.map (Span.withKeys writes)) =
        (scanner.scanLine number line (grammar.lineSpans pending line).1).map fun d =>
          d.withKeys writes (KeyWrite.keyAt? writes d.signalStop) := by
  induction writes with
  | nil =>
    have hspans : (grammar.lineSpans pending line).1.map (Span.withKeys []) =
        (grammar.lineSpans pending line).1 := by
      rw [List.map_congr_left fun s _ => Span.withKeys_nil s, List.map_id']
    have hcandidates : ∀ candidates : List Candidate,
        candidates.map (fun d => d.withKeys [] (KeyWrite.keyAt? [] d.signalStop)) = candidates := by
      intro candidates
      have hsame : ∀ d ∈ candidates, d.withKeys [] (KeyWrite.keyAt? [] d.signalStop) = d :=
        fun d _ => Candidate.withKeys_nil d
      rw [List.map_congr_left hsame, List.map_id']
    rw [hspans, hcandidates]
    exact ⟨rfl, rfl⟩
  | cons write writes ih =>
    obtain ⟨hfirst, hsorted⟩ := List.pairwise_cons.1 hsorted
    obtain ⟨hspans, hline⟩ := ih hsorted fun w hw => hmarks w (List.mem_cons_of_mem _ hw)
    obtain ⟨hkey, c, hc, hsignal, hcarried, hwrite⟩ := hmarks write List.mem_cons_self
    obtain ⟨w, hw⟩ := exists_word_of_mem_scanLine hc hsignal
    obtain ⟨hwithin, hpairwise⟩ := Grammar.lineSpans_ordered (hgrammar w hw write.key).toProper hpending line
    -- the marker of the first key, as it is when the other keys are written
    have hbehind : ∀ v ∈ writes, c.signalStop < v.column := fun v hv => hwrite ▸ hfirst v hv
    have hnone := KeyWrite.keyAt?_eq_none hbehind
    have hzero : before writes c.signalStop = 0 :=
      KeyWrite.before_eq_zero fun v hv => Nat.le_of_lt (hbehind v hv)
    have hmem : c.withKeys writes none ∈ scanner.scanLine number
        (Splice.applyOrdered line (writes.map KeyWrite.splice))
        (grammar.lineSpans pending (Splice.applyOrdered line (writes.map KeyWrite.splice))).1 := by
      rw [hspans, hline]
      refine List.mem_map.2 ⟨c, hc, ?_⟩
      rw [hnone]
    have hbare : ∀ found ∈ (c.withKeys writes none).carried, found.form = .bare := by
      intro found hfound
      obtain ⟨other, hother, rfl⟩ := Option.map_eq_some_iff.1 hfound
      exact hcarried other hother
    have hcolumn : write.column = (c.withKeys writes none).signalStop := by
      rw [hwrite, Candidate.withKeys]
      dsimp only
      rw [hzero, Nat.add_zero]
    obtain ⟨hspans', hline'⟩ := scanLine_write hwords hpatterns
      (fun w hw => hgrammar w hw write.key) hkey hpending hmem hsignal hbare hcolumn
    have happly : Splice.applyOrdered line ((write :: writes).map KeyWrite.splice) =
        write.splice.apply (Splice.applyOrdered line (writes.map KeyWrite.splice)) := rfl
    have hmap : ((grammar.lineSpans pending line).1.map (Span.withKeys writes)).map
        (Span.withKeys [write]) = (grammar.lineSpans pending line).1.map
          (Span.withKeys (write :: writes)) := by
      rw [List.map_map]
      exact List.map_congr_left fun s _ => Span.withKeys_step hfirst s
    have heach : ∀ d ∈ scanner.scanLine number line (grammar.lineSpans pending line).1,
        (d.withKeys writes (KeyWrite.keyAt? writes d.signalStop)).withKeys [write]
            (if (d.withKeys writes (KeyWrite.keyAt? writes d.signalStop)).signalStop = write.column
              then some write.key else none) =
          d.withKeys (write :: writes) (KeyWrite.keyAt? (write :: writes) d.signalStop) := by
      intro d hd
      obtain ⟨hdin, htext, -⟩ := within_of_mem_scanLine hwords hpatterns hwithin hd
      apply Candidate.withKeys_step hfirst ?_ hdin.signalStop_le (htext ▸ hdin.segmentStop_le)
      intro hown v hv
      obtain ⟨-, e, he, hesignal, -, hecolumn⟩ := hmarks v (List.mem_cons_of_mem _ hv)
      have hlt := hfirst v hv
      rw [← hown, hecolumn] at hlt
      obtain ⟨hle, hlt'⟩ := segmentStop_le_of_mem_scanLine hwords hpatterns hwithin hpairwise hd
        he hesignal hlt
      omega
    rw [hspans] at hspans' hline'
    rw [hmap] at hspans' hline'
    rw [hline, List.map_map] at hline'
    rw [happly]
    refine ⟨hspans', ?_⟩
    rw [hline']
    exact List.map_congr_left heach

end Scanner

end TodoTracker
