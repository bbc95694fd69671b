import TodoTracker.Proofs.Edit.InTurn
import TodoTracker.Proofs.Marker.Brackets
import TodoTracker.Proofs.Marker.Turn

/-!
# Attributes that are removed from a line

Removing the attribute blocks of a marker from its line leaves what stripping leaves of the text of
the marker, but for one blank in front of some of the blocks. A block at the start of the text takes
nothing of the signal word with it, because no signal word ends in a blank.
-/

set_option autoImplicit false

namespace TodoTracker

namespace BlockPart

/-- The same part, or one that has lost a blank in front of a block with an equals sign. -/
structure Thinned (part thinned : BlockPart) : Prop where
  inner : thinned.inner = part.inner
  front : thinned.front = part.front ∨
    '=' ∈ part.inner ∧ ∃ gap, Splice.isGap gap = true ∧ part.front = thinned.front ++ [gap]

theorem Thinned.refl (part : BlockPart) : part.Thinned part := ⟨rfl, .inl rfl⟩

theorem Thinned.proper {part thinned : BlockPart} (h : part.Thinned thinned)
    (hpart : part.Proper) : thinned.Proper := by
  refine ⟨fun hmem => hpart.plain ?_, h.inner ▸ hpart.balanced⟩
  rcases h.front with hfront | ⟨-, gap, -, hfront⟩
  · rwa [← hfront]
  · rw [hfront]
    exact List.mem_append_left _ hmem

end BlockPart

/-- Parts that are thinned are those of the text that they make up. -/
theorem Layout.thinned {t : Text} {parts thinned : List BlockPart} {rest : Text}
    (h : Layout t parts rest) (hthinned : List.Forall₂ BlockPart.Thinned parts thinned) :
    Layout (thinned.flatMap BlockPart.text ++ rest) thinned rest := by
  refine ⟨rfl, ?_, h.rest⟩
  have hparts := h.parts
  clear h
  induction hthinned with
  | nil => nofun
  | cons hpart _ ih =>
    obtain ⟨hproper, hparts⟩ := List.forall_mem_cons.1 hparts
    exact List.forall_mem_cons.2 ⟨hpart.proper hproper, ih hparts⟩

/-- The blocks of parts that start further to the right. -/
theorem Block.blocksAt_add (k pos : Nat) (parts : List BlockPart) :
    blocksAt (k + pos) parts =
      (blocksAt pos parts).map fun b => ⟨k + b.start, k + b.stop, b.inner⟩ := by
  induction parts generalizing pos with
  | nil => rfl
  | cons part parts ih =>
    rw [blocksAt, blocksAt, List.map_cons, Nat.add_assoc, Nat.add_assoc, ih]

namespace Splice

variable {line front more : Text} {start stop : Nat} {parts : List BlockPart} {rest : Text}

/-- The splices that remove the attribute blocks of parts that start at column `pos`. -/
def removalsAt (line : Text) (limit pos : Nat) (parts : List BlockPart) : List Splice :=
  ((Block.blocksAt pos parts).filter Block.hasAttributes).map fun block =>
    columnRemoval line block.start block.stop limit

theorem attributeRemovals_layout (h : Layout (Text.slice line start stop) parts rest) :
    attributeRemovals line start stop = removalsAt line stop start parts := by
  have hblocks := Block.blocksAt_add start 0 parts
  rw [Nat.add_zero] at hblocks
  rw [attributeRemovals, removalsAt, Block.attributeBlocks_layout h, hblocks, List.filter_map,
    List.map_map]
  rfl

/-- A removal takes a blank at most from the text between a front that does not end in a blank and
the block. -/
theorem start_columnRemoval {between : Text} (hfront : ∀ c ∈ front.getLast?, isGap c = false)
    (hline : line = front ++ (between ++ more)) (stop limit : Nat) :
    ∃ left, (columnRemoval line (front.length + between.length) stop limit).start =
        (front ++ left).length ∧
      (left = between ∨ ∃ gap, isGap gap = true ∧ between = left ++ [gap]) := by
  rw [columnRemoval]
  split
  · rename_i hgaps
    simp only [Bool.and_eq_true, decide_eq_true_eq] at hgaps
    obtain ⟨⟨hpos, hbefore⟩, -⟩ := hgaps
    have hlast : (line)[front.length + between.length - 1]? = (front ++ between).getLast? := by
      rw [hline, ← List.append_assoc, List.getLast?_eq_getElem?, List.length_append,
        List.getElem?_append_left (by rw [List.length_append]; omega)]
    rw [hlast] at hbefore
    obtain ⟨gap, hgap, hisgap⟩ := Option.any_eq_true _ _ |>.1 hbefore
    rw [List.getLast?_append] at hgap
    cases hbetween : between.getLast? with
    | none =>
      rw [hbetween] at hgap
      rw [hfront gap hgap] at hisgap
      cases hisgap
    | some c =>
      rw [hbetween] at hgap
      cases hgap
      obtain ⟨left, rfl⟩ := List.getLast?_eq_some_iff.1 hbetween
      refine ⟨left, ?_, .inr ⟨gap, hisgap, rfl⟩⟩
      simp only [List.length_append, List.length_singleton]
      omega
  · exact ⟨between, List.length_append.symm, .inl rfl⟩

/-- A splice without a text deletes its columns. -/
theorem apply_delete {s : Splice} {a b : Text} (htext : s.text = []) (hstart : s.start = a.length)
    (hstop : s.stop = (a ++ b).length) (c : Text) : s.apply (a ++ b ++ c) = a ++ c := by
  rw [apply, htext, hstart, hstop, List.drop_left, List.append_nil, List.append_assoc,
    List.take_left]

/-- Behind a front that does not end in a blank, removing the attribute blocks of parts leaves the
thinned parts. -/
theorem applyOrdered_removalsAt (hfront : ∀ c ∈ front.getLast?, isGap c = false)
    (hline : line = front ++ (parts.flatMap BlockPart.text ++ more)) (limit : Nat) :
    ∃ thinned, List.Forall₂ BlockPart.Thinned parts thinned ∧
      applyOrdered line (removalsAt line limit front.length parts) =
        front ++ (thinned.flatMap BlockPart.kept ++ more) := by
  induction parts generalizing front with
  | nil => exact ⟨[], .nil, hline⟩
  | cons part parts ih =>
    have hlength : front.length + part.text.length = (front ++ part.text).length :=
      List.length_append.symm
    -- a part ends in a bracket
    have hpart : ∀ c ∈ (front ++ part.text).getLast?, isGap c = false := by
      have hlast : (front ++ part.text).getLast? = some ']' := by
        simp [BlockPart.text, List.getLast?_append, List.getLast?_cons]
      rw [hlast]
      rintro c ⟨⟩
      rfl
    obtain ⟨thinned, hthinned, hrest⟩ := ih hpart (by simpa using hline)
    rw [removalsAt, Block.blocksAt, hlength]
    by_cases hcut : '=' ∈ part.inner
    · have hblock : line = front ++ (part.front ++
          ('[' :: (part.inner ++ [']']) ++ (parts.flatMap BlockPart.text ++ more))) := by
        rw [hline]
        simp [BlockPart.text]
      obtain ⟨left, hstart, hleft⟩ :=
        start_columnRemoval hfront hblock (front ++ part.text).length limit
      obtain ⟨gaps, hgaps⟩ : ∃ gaps, part.front = left ++ gaps := by
        rcases hleft with rfl | ⟨gap, -, hgap⟩
        · exact ⟨[], (List.append_nil _).symm⟩
        · exact ⟨[gap], hgap⟩
      have htext : front ++ part.text =
          front ++ left ++ (gaps ++ '[' :: (part.inner ++ [']'])) := by
        rw [BlockPart.text, hgaps]
        simp
      refine ⟨⟨left, part.inner⟩ :: thinned, .cons ⟨rfl, hleft.imp_right (⟨hcut, ·⟩)⟩ hthinned, ?_⟩
      rw [List.filter_cons_of_pos (by simpa [Block.hasAttributes] using hcut), List.map_cons]
      change apply _ (applyOrdered line (removalsAt line limit _ parts)) = _
      rw [hrest, htext, apply_delete rfl (htext ▸ hstart) rfl, List.flatMap_cons, BlockPart.kept,
        if_pos hcut]
      simp
    · refine ⟨part :: thinned, .cons (.refl part) hthinned, ?_⟩
      rw [List.filter_cons_of_neg (by simpa [Block.hasAttributes] using hcut)]
      refine hrest.trans ?_
      rw [List.flatMap_cons, BlockPart.kept, if_neg hcut]
      simp

end Splice

namespace Candidate

variable {patterns : List Pattern} {c : Candidate} {parts : List BlockPart} {rest : Text}

/-- The line of a marker from which its attributes are removed. -/
theorem Marker.applyAll_attributeRemovals (h : c.Marker patterns)
    (hlayout : Layout c.segment parts rest) :
    ∃ thinned, List.Forall₂ BlockPart.Thinned parts thinned ∧
      Splice.applyAll c.text (Splice.attributeRemovals c.text c.signalStop c.segmentStop) =
        .ok (c.text.take c.signalStop ++ (thinned.flatMap BlockPart.kept ++ rest ++
          c.text.drop c.segmentStop)) := by
  have hturn :=
    Splice.attributeRemovals_inTurn h.signalStop_le h.segmentStop_le h.solid
  have hstop : c.signalStop ≤ c.text.length := Nat.le_trans h.signalStop_le h.segmentStop_le
  have hlength : (c.text.take c.signalStop).length = c.signalStop := List.length_take_of_le hstop
  have hfront : ∀ a ∈ (c.text.take c.signalStop).getLast?, Splice.isGap a = false := by
    intro a ha
    have hpos := h.column_lt
    rw [List.getLast?_eq_getElem?, hlength, List.getElem?_take_of_lt (by omega)] at ha
    exact h.solid a ha
  have hline : c.text = c.text.take c.signalStop ++
      (parts.flatMap BlockPart.text ++ (rest ++ c.text.drop c.segmentStop)) := by
    have hwhole := Text.take_slice_drop c.text h.signalStop_le
    change _ ++ (c.segment ++ _) = _ at hwhole
    rw [hlayout.text_eq, List.append_assoc] at hwhole
    exact hwhole.symm
  obtain ⟨thinned, hthinned, hall⟩ :=
    Splice.applyOrdered_removalsAt hfront hline c.segmentStop
  refine ⟨thinned, hthinned, ?_⟩
  rw [Splice.applyAll_eq (fun s hs => (hturn.within s hs).2.1) hturn.pairwise,
    Splice.attributeRemovals_layout hlayout]
  rw [hlength] at hall
  rw [hall, List.append_assoc]

/-- Stripping a text deletes its top-level blocks with an equals sign, and so does removing the
attributes of a marker from its line, but for at most one blank in front of each. Neither leaves an
attribute or anything else to be removed. -/
theorem strip_agrees_with_removals (words : List Text) (patterns : List Pattern) (mentions : Bool)
    (grammar : Grammar) (lines : List Text) :
    (∀ t, ∃ parts rest, Layout t parts rest) ∧
    (∀ t parts rest, Layout t parts rest →
      Attributes.strip t = parts.flatMap BlockPart.kept ++ rest) ∧
    (∀ t, Attributes.strip (Attributes.strip t) = Attributes.strip t) ∧
    ∀ c ∈ (Scanner.make words patterns mentions).scan lines grammar, c.signal.isSome →
      lines[c.line - 1]? = some c.text ∧
      ∀ parts rest, Layout c.segment parts rest →
        ∃ thinned, List.Forall₂ BlockPart.Thinned parts thinned ∧
          let segment := thinned.flatMap BlockPart.kept ++ rest
          let line := c.text.take c.signalStop ++ (segment ++ c.text.drop c.segmentStop)
          Splice.applyAll c.text
            (Splice.attributeRemovals c.text c.signalStop c.segmentStop) = .ok line ∧
          Attributes.parse segment = [] ∧
          Splice.attributeRemovals line c.signalStop (c.signalStop + segment.length) = [] := by
  refine ⟨exists_layout, fun t parts rest => Attributes.strip_layout, Attributes.strip_strip, ?_⟩
  intro c hc hsignal
  obtain ⟨hmarker, hline⟩ :=
    Scanner.marker_of_mem_scan (Signal.solid_prepare words) hc hsignal
  refine ⟨hline, fun parts rest hlayout => ?_⟩
  obtain ⟨thinned, hthinned, hall⟩ := hmarker.applyAll_attributeRemovals hlayout
  have hnone := Block.attributeBlocks_kept (hlayout.thinned hthinned)
  refine ⟨thinned, hthinned, hall, Attributes.parse_of_no_attributes hnone, ?_⟩
  have hstop : c.signalStop ≤ c.text.length :=
    Nat.le_trans hmarker.signalStop_le hmarker.segmentStop_le
  have hlength : (c.text.take c.signalStop).length = c.signalStop := List.length_take_of_le hstop
  have hwindow : Text.Window (c.text.take c.signalStop ++
      (thinned.flatMap BlockPart.kept ++ rest ++ c.text.drop c.segmentStop)) c.signalStop
      (c.signalStop + (thinned.flatMap BlockPart.kept ++ rest).length)
      (c.text.take c.signalStop).getLast? (thinned.flatMap BlockPart.kept ++ rest) :=
    ⟨_, _, rfl, hlength, by rw [hlength], rfl⟩
  rw [Splice.attributeRemovals, hwindow.slice_eq, hnone]
  rfl

end Candidate

end TodoTracker
