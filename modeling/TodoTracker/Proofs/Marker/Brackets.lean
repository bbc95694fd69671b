import TodoTracker.Marker.Attribute
import Mathlib.Data.List.Basic
import Mathlib.Tactic.Common

/-!
# The top-level brackets of a text

A text is divided into its top-level blocks, each with the text in front of it, and a rest in which
no bracket is closed. The scan finds these blocks, so stripping the attributes of a text deletes the
blocks with an equals sign and keeps all other characters. What is deleted is balanced, so the
brackets that are left belong together as before.
-/

set_option autoImplicit false

namespace TodoTracker

/-- Each bracket of a text has its counterpart in the text. -/
inductive Text.Balanced : Text → Prop
  | nil : Balanced []
  | plain {c : Char} {t : Text} (hopen : c ≠ '[') (hclose : c ≠ ']') (h : Balanced t) :
      Balanced (c :: t)
  | pair {inner t : Text} (hinner : Balanced inner) (h : Balanced t) :
      Balanced ('[' :: (inner ++ ']' :: t))

/-- A text behind `depth` open brackets that closes them all. -/
def Text.Closes : Nat → Text → Prop
  | 0, _ => True
  | depth + 1, t => ∃ inner after, t = inner ++ ']' :: after ∧ Balanced inner ∧ Closes depth after

/-- A top-level block with the text in front of it. -/
structure BlockPart where
  front : Text
  inner : Text

namespace BlockPart

def text (part : BlockPart) : Text := part.front ++ '[' :: (part.inner ++ [']'])

/-- What is left of the part when blocks with an equals sign are deleted. -/
def kept (part : BlockPart) : Text := if '=' ∈ part.inner then part.front else part.text

/-- The block is the first one, and it is closed. -/
structure Proper (part : BlockPart) : Prop where
  plain : '[' ∉ part.front
  balanced : Text.Balanced part.inner

theorem text_ne_nil (part : BlockPart) : part.text ≠ [] := by simp [text]

end BlockPart

/-- A text is divided into its top-level blocks and a rest without one. -/
structure Layout (t : Text) (parts : List BlockPart) (rest : Text) : Prop where
  text_eq : t = parts.flatMap BlockPart.text ++ rest
  parts : ∀ part ∈ parts, part.Proper
  rest : ∀ part : BlockPart, part.Proper → ¬part.text <+: rest

/-- Every text has top-level blocks, and a rest. -/
theorem exists_layout (t : Text) : ∃ parts rest, Layout t parts rest := by
  by_cases hfirst : ∃ part : BlockPart, part.Proper ∧ part.text <+: t
  · obtain ⟨part, hpart, after, rfl⟩ := hfirst
    have hshort : after.length < (part.text ++ after).length := by
      rw [List.length_append]
      exact Nat.lt_add_of_pos_left (List.length_pos_iff.2 part.text_ne_nil)
    obtain ⟨parts, rest, hlayout⟩ := exists_layout after
    exact ⟨part :: parts, rest, by rw [hlayout.text_eq, List.flatMap_cons, List.append_assoc],
      List.forall_mem_cons.2 ⟨hpart, hlayout.parts⟩, hlayout.rest⟩
  · exact ⟨[], t, rfl, nofun, fun part hpart hprefix => hfirst ⟨part, hpart, hprefix⟩⟩
termination_by t.length

namespace Block

variable {t inner front : Text} {parts : List BlockPart} {rest : Text}

/-- In an open block, balanced brackets are read over. -/
theorem scanFrom_balanced (h : Text.Balanced inner) (pos depth start : Nat) (read after : Text) :
    scanFrom pos (depth + 1) start read (inner ++ after) =
      scanFrom (pos + inner.length) (depth + 1) start (inner.reverse ++ read) after := by
  induction h generalizing pos depth read after with
  | nil => rfl
  | @plain c t hopen hclose _ ih =>
    rw [List.cons_append, scanFrom, if_neg hopen, if_neg fun h => hclose h.1,
      if_neg (Nat.succ_ne_zero _), ih, List.length_cons, List.reverse_cons, List.append_assoc,
      Nat.add_right_comm, Nat.add_assoc]
    rfl
  | @pair inner t _ _ ihinner ih =>
    have hclosing : scanFrom (pos + 1 + inner.length) (depth + 2) start
        (inner.reverse ++ '[' :: read) (']' :: (t ++ after)) =
        scanFrom (pos + 1 + inner.length + 1) (depth + 1) start
          (']' :: (inner.reverse ++ '[' :: read)) (t ++ after) := by
      rw [scanFrom, if_neg (by decide), if_pos ⟨rfl, Nat.succ_pos _⟩, if_neg (by omega)]
      rfl
    rw [List.cons_append, scanFrom, if_pos rfl, if_neg (Nat.succ_ne_zero _), List.append_assoc,
      ihinner, List.cons_append, hclosing, ih]
    congr 1
    · simp only [List.length_cons, List.length_append]
      omega
    · simp

/-- Outside of blocks, what does not open one is read over. -/
theorem scanFrom_plain (h : '[' ∉ front) (pos : Nat) (after : Text) :
    scanFrom pos 0 0 [] (front ++ after) = scanFrom (pos + front.length) 0 0 [] after := by
  induction front generalizing pos with
  | nil => rfl
  | cons c front ih =>
    obtain ⟨hc, hfront⟩ := not_or.1 (mt List.mem_cons.2 h)
    rw [List.cons_append, scanFrom, if_neg (Ne.symm hc), if_neg (by simp), if_pos rfl, ih hfront,
      List.length_cons, Nat.add_right_comm, Nat.add_assoc]

/-- A part is read as its block. -/
theorem scanFrom_part {part : BlockPart} (h : part.Proper) (pos : Nat) (after : Text) :
    scanFrom pos 0 0 [] (part.text ++ after) =
      ⟨pos + part.front.length, pos + part.text.length, part.inner⟩ ::
        scanFrom (pos + part.text.length) 0 0 [] after := by
  have htext : part.text ++ after = part.front ++ '[' :: (part.inner ++ ']' :: after) := by
    simp [BlockPart.text]
  have hlength : pos + part.front.length + 1 + part.inner.length + 1 =
      pos + part.text.length := by
    simp only [BlockPart.text, List.length_append, List.length_cons, List.length_nil]
    omega
  rw [htext, scanFrom_plain h.plain, scanFrom, if_pos rfl, if_pos rfl,
    scanFrom_balanced h.balanced, scanFrom, if_neg (by decide), if_pos ⟨rfl, Nat.one_pos⟩,
    if_pos rfl, hlength]
  simp

/-- A block that is found in a text is closed there. -/
theorem closes_of_scanFrom_ne_nil {pos depth start : Nat} {read : Text}
    (h : scanFrom pos (depth + 1) start read t ≠ []) : Text.Closes (depth + 1) t := by
  induction t generalizing pos depth start read with
  | nil => exact absurd rfl h
  | cons c t ih =>
    rw [scanFrom] at h
    split at h
    · rename_i hopen
      rw [if_neg (Nat.succ_ne_zero _)] at h
      obtain ⟨inner, _, rfl, hinner, inner', after, rfl, hinner', hafter⟩ := ih h
      exact ⟨'[' :: (inner ++ ']' :: inner'), after, by simp [hopen], .pair hinner hinner', hafter⟩
    · rename_i hopen
      split at h
      · rename_i hclose
        refine ⟨[], t, by rw [hclose.1]; rfl, .nil, ?_⟩
        cases depth with
        | zero => trivial
        | succ depth =>
          rw [if_neg (by omega)] at h
          exact ih h
      · rename_i hclose
        obtain ⟨inner, after, rfl, hinner, hafter⟩ := ih h
        exact ⟨c :: inner, after, rfl,
          .plain hopen (fun heq => hclose ⟨heq, Nat.succ_pos _⟩) hinner, hafter⟩

/-- Where a block is found, a part stands in front. -/
theorem exists_part_of_scanFrom_ne_nil {pos : Nat} (h : scanFrom pos 0 0 [] t ≠ []) :
    ∃ part : BlockPart, part.Proper ∧ part.text <+: t := by
  induction t generalizing pos with
  | nil => exact absurd rfl h
  | cons c t ih =>
    rw [scanFrom] at h
    split at h
    · rename_i hopen
      rw [if_pos rfl] at h
      obtain ⟨inner, after, rfl, hinner, -⟩ := closes_of_scanFrom_ne_nil h
      exact ⟨⟨[], inner⟩, ⟨List.not_mem_nil, hinner⟩, after, by simp [BlockPart.text, hopen]⟩
    · rename_i hopen
      rw [if_neg (by simp), if_pos rfl] at h
      obtain ⟨part, hpart, after, rfl⟩ := ih h
      refine ⟨⟨c :: part.front, part.inner⟩, ⟨?_, hpart.balanced⟩, after, ?_⟩
      · simpa using ⟨Ne.symm hopen, hpart.plain⟩
      · simp [BlockPart.text]

/-- The blocks of parts that start at column `pos`. -/
def blocksAt (pos : Nat) : List BlockPart → List Block
  | [] => []
  | part :: parts => ⟨pos + part.front.length, pos + part.text.length, part.inner⟩ ::
      blocksAt (pos + part.text.length) parts

/-- The scan of a text finds the blocks of its parts. -/
theorem scanFrom_layout (h : Layout t parts rest) (pos : Nat) :
    scanFrom pos 0 0 [] t = blocksAt pos parts := by
  obtain ⟨rfl, hparts, hrest⟩ := h
  induction parts generalizing pos with
  | nil =>
    by_contra hne
    obtain ⟨part, hpart, hprefix⟩ := exists_part_of_scanFrom_ne_nil hne
    exact hrest part hpart hprefix
  | cons part parts ih =>
    obtain ⟨hpart, hparts⟩ := List.forall_mem_cons.1 hparts
    rw [List.flatMap_cons, List.append_assoc, scanFrom_part hpart, ih _ hparts]
    rfl

theorem attributeBlocks_layout (h : Layout t parts rest) :
    attributeBlocks t = (blocksAt 0 parts).filter hasAttributes :=
  congrArg _ (scanFrom_layout h 0)

/-- What is kept of the parts of a text has none of its attributes left. -/
theorem attributeBlocks_kept (h : Layout t parts rest) :
    attributeBlocks (parts.flatMap BlockPart.kept ++ rest) = [] := by
  have hscan : ∀ pos, ∀ b ∈ scanFrom pos 0 0 [] (parts.flatMap BlockPart.kept ++ rest),
      '=' ∉ b.inner := by
    obtain ⟨-, hparts, hrest⟩ := h
    induction parts with
    | nil =>
      intro pos
      have hlayout : Layout rest [] rest := ⟨rfl, hparts, hrest⟩
      rw [List.flatMap_nil, List.nil_append, scanFrom_layout hlayout]
      nofun
    | cons part parts ih =>
      obtain ⟨hpart, hparts⟩ := List.forall_mem_cons.1 hparts
      intro pos
      rw [List.flatMap_cons, List.append_assoc, BlockPart.kept]
      split
      · rw [scanFrom_plain hpart.plain]
        exact ih hparts _
      · rename_i hnone
        rw [scanFrom_part hpart]
        exact List.forall_mem_cons.2 ⟨hnone, ih hparts _⟩
  rw [attributeBlocks, List.filter_eq_nil_iff]
  intro b hb
  simpa [hasAttributes] using hscan 0 b hb

end Block

namespace Attributes

variable {t : Text} {parts : List BlockPart} {rest : Text}

/-- Behind a front of which the characters from column `pos` on are to be kept, the blocks with an
equals sign are cut out. -/
theorem cutBlocks_parts (front : Text) (pos : Nat) (hpos : pos ≤ front.length) :
    cutBlocks (front ++ (parts.flatMap BlockPart.text ++ rest)) pos
        ((Block.blocksAt front.length parts).filter Block.hasAttributes) =
      front.drop pos ++ (parts.flatMap BlockPart.kept ++ rest) := by
  induction parts generalizing front pos with
  | nil => exact List.drop_append_of_le_length hpos
  | cons part parts ih =>
    have hline : front ++ ((part :: parts).flatMap BlockPart.text ++ rest) =
        (front ++ part.text) ++ (parts.flatMap BlockPart.text ++ rest) := by
      simp
    have hlength : front.length + part.text.length = (front ++ part.text).length :=
      List.length_append.symm
    rw [Block.blocksAt, hline, hlength, List.flatMap_cons, BlockPart.kept]
    by_cases hcut : '=' ∈ part.inner
    · have hslice : Text.slice ((front ++ part.text) ++ (parts.flatMap BlockPart.text ++ rest)) pos
          (front.length + part.front.length) = front.drop pos ++ part.front := by
        have hsplit : (front ++ part.text) ++ (parts.flatMap BlockPart.text ++ rest) =
            (front ++ part.front) ++ ('[' :: (part.inner ++ [']']) ++
              (parts.flatMap BlockPart.text ++ rest)) := by
          simp [BlockPart.text]
        rw [Text.slice, hsplit, ← List.length_append, List.take_left,
          List.drop_append_of_le_length hpos]
      rw [List.filter_cons_of_pos (by simpa [Block.hasAttributes] using hcut), cutBlocks, hslice,
        ih _ _ (Nat.le_refl _), List.drop_length, if_pos hcut]
      simp
    · rw [List.filter_cons_of_neg (by simpa [Block.hasAttributes] using hcut),
        ih _ _ (Nat.le_trans hpos (by simp)), List.drop_append_of_le_length hpos, if_neg hcut]
      simp

/-- Stripping deletes the top-level blocks with an equals sign, and nothing else. -/
theorem strip_layout (h : Layout t parts rest) :
    strip t = parts.flatMap BlockPart.kept ++ rest := by
  rw [strip, Block.attributeBlocks_layout h, h.text_eq]
  exact cutBlocks_parts [] 0 (Nat.le_refl _)

theorem strip_of_no_attributes (h : Block.attributeBlocks t = []) : strip t = t := by
  rw [strip, h, cutBlocks, List.drop_zero]

theorem parse_of_no_attributes (h : Block.attributeBlocks t = []) : parse t = [] := by
  rw [parse, h]
  rfl

theorem strip_strip (t : Text) : strip (strip t) = strip t := by
  obtain ⟨parts, rest, h⟩ := exists_layout t
  rw [strip_layout h, strip_of_no_attributes (Block.attributeBlocks_kept h)]

end Attributes

end TodoTracker
