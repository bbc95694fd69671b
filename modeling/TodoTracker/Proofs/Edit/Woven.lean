import TodoTracker.Proofs.Edit.Splice
import TodoTracker.Proofs.List.Sorted
import TodoTracker.Proofs.Text.Window

/-!
# Splices are applied as written

Splices that are put in order overlap somewhere only if two neighbours do, because one that starts
between two others that overlap overlaps the first of them too. If none overlap, applying the last
one first leaves everything in front of it as it is. So the line is woven from what lies between the
splices and from their texts, in turn.
-/

set_option autoImplicit false

namespace TodoTracker.Splice

/-- The columns of a splice are in the line. -/
def Fits (line : Text) (s : Splice) : Prop := s.start ≤ s.stop ∧ s.stop ≤ line.length
  deriving Decidable

def isAt (start stop : Nat) (s : Splice) : Bool := s.start == start && s.stop == stop

/-- The list `sorted` has the splices by start and stop, and those of the same columns in the order
in which they were given. -/
structure Arranged (splices sorted : List Splice) : Prop where
  perm : sorted.Perm splices
  ordered : sorted.Pairwise fun a b => a.start < b.start ∨ a.start = b.start ∧ a.stop ≤ b.stop
  stable : ∀ start stop, sorted.filter (isAt start stop) = splices.filter (isAt start stop)

/-- No splice starts before one in front of it stops. -/
def Apart (sorted : List Splice) : Prop := sorted.Pairwise fun a b => a.stop ≤ b.start
  deriving Decidable

/-- What lies in front of, between and behind splices, from a column of the line on. -/
def gaps (line : Text) : Nat → List Splice → List Text
  | column, [] => [line.drop column]
  | column, s :: rest => Text.slice line column s.start :: gaps line s.stop rest

/-- Gaps with texts between them. -/
def weave : List Text → List Text → Text
  | gap :: gaps, text :: texts => gap ++ (text ++ weave gaps texts)
  | gaps, _ => gaps.flatten

/-- No splice covers the column. -/
def isFree (splices : List Splice) (column : Nat) : Bool :=
  splices.all fun s => column < s.start || s.stop ≤ column

/-- The characters that no splice covers, of a text that starts at a column of the line. -/
def untouched (splices : List Splice) (column : Nat) (t : Text) : Text :=
  ((t.zipIdx column).filter fun place => isFree splices place.2).map Prod.fst

variable {line : Text} {splices sorted : List Splice} {column : Nat}

theorem arranged_mergeSort (splices : List Splice) :
    Arranged splices (splices.mergeSort order) where
  perm := List.mergeSort_perm splices order
  ordered := (pairwise_order splices).imp order_eq_true_iff.1
  stable := by
    intro start stop
    refine @filter_mergeSort _ order (fun _ _ _ => order_trans) order_total _ splices ?_
    intro a b ha hb
    rw [isAt, Bool.and_eq_true, beq_iff_eq, beq_iff_eq] at ha hb
    rw [order_eq_true_iff]
    omega

/-- There is only one such list. -/
theorem Arranged.unique {sorted' : List Splice} (h : Arranged splices sorted)
    (h' : Arranged splices sorted') : sorted = sorted' := by
  refine eq_of_filter_eq order_total (h.ordered.imp order_eq_true_iff.2)
    (h'.ordered.imp order_eq_true_iff.2) fun a => ?_
  have hplace : (fun b => order a b && order b a) = isAt a.start a.stop := by
    funext b
    rw [Bool.eq_iff_iff, Bool.and_eq_true, order_eq_true_iff, order_eq_true_iff, isAt,
      Bool.and_eq_true, beq_iff_eq, beq_iff_eq]
    omega
  rw [hplace, h.stable, h'.stable]

/-- An overlap that is found is one of two neighbours. -/
theorem overlap?_eq_some {o : Overlap} (h : overlap? splices = some o) :
    [o.left, o.right] <:+: splices ∧ o.right.start < o.left.stop := by
  induction splices with
  | nil => cases h
  | cons a rest ih =>
    cases rest with
    | nil => cases h
    | cons b rest =>
      rw [overlap?] at h
      by_cases hlt : b.start < a.stop
      · rw [if_pos hlt, Option.some.injEq] at h
        subst h
        exact ⟨⟨[], rest, rfl⟩, hlt⟩
      · rw [if_neg hlt] at h
        obtain ⟨hin, hover⟩ := ih h
        exact ⟨hin.trans (List.infix_cons (List.infix_refl _)), hover⟩

/-- If no two neighbours overlap, no two splices do. -/
theorem apart_of_overlap? (hsorted : splices.Pairwise fun a b => a.start ≤ b.start)
    (h : overlap? splices = none) : Apart splices := by
  induction splices with
  | nil => exact List.Pairwise.nil
  | cons a rest ih =>
    obtain ⟨-, hrest⟩ := List.pairwise_cons.1 hsorted
    cases rest with
    | nil => exact List.pairwise_singleton _ _
    | cons b rest =>
      rw [overlap?] at h
      by_cases hlt : b.start < a.stop
      · rw [if_pos hlt] at h
        cases h
      · rw [if_neg hlt] at h
        refine List.pairwise_cons.2 ⟨?_, ih hrest h⟩
        intro c hc
        rcases List.mem_cons.1 hc with rfl | hc
        · exact Nat.le_of_not_lt hlt
        · exact Nat.le_trans (Nat.le_of_not_lt hlt) ((List.pairwise_cons.1 hrest).1 c hc)

/-- Applying splices from the last to the first one weaves their texts into the line. -/
theorem applyOrdered_eq_weave (hfits : ∀ s ∈ sorted, Fits line s) (hapart : Apart sorted)
    (hbehind : ∀ s ∈ sorted, column ≤ s.start) :
    applyOrdered line sorted =
      line.take column ++ weave (gaps line column sorted) (sorted.map text) := by
  induction sorted generalizing column with
  | nil => simp [applyOrdered, gaps, weave]
  | cons s rest ih =>
    obtain ⟨hs, hfits⟩ := List.forall_mem_cons.1 hfits
    obtain ⟨hnext, hapart⟩ := List.pairwise_cons.1 hapart
    have hcolumn := hbehind s List.mem_cons_self
    have hrest := ih hfits hapart hnext
    have hstop : (line.take s.stop).length = s.stop := List.length_take_of_le hs.2
    have hfront : (line.take s.stop).take s.start =
        line.take column ++ Text.slice line column s.start := by
      have hcut : (line.take s.start).take column = line.take column := by
        rw [List.take_take, Nat.min_eq_left hcolumn]
      rw [List.take_take, Nat.min_eq_left hs.1, Text.slice, ← hcut, List.take_append_drop]
    have hcons : applyOrdered line (s :: rest) = s.apply (applyOrdered line rest) := rfl
    rw [hcons, hrest, apply, List.take_append_of_le_length (hstop.symm ▸ hs.1), hfront,
      List.drop_left' hstop, gaps, List.map_cons, weave]
    simp

theorem isFree_eq_true_iff : isFree splices column = true ↔
    ∀ s ∈ splices, column < s.start ∨ s.stop ≤ column := by
  simp [isFree]

theorem untouched_append (splices : List Splice) (column : Nat) (a b : Text) :
    untouched splices column (a ++ b) =
      untouched splices column a ++ untouched splices (column + a.length) b := by
  simp [untouched, List.zipIdx_append]

theorem untouched_congr {splices' : List Splice} {t : Text}
    (h : ∀ i, column ≤ i → isFree splices i = isFree splices' i) :
    untouched splices column t = untouched splices' column t := by
  rw [untouched, untouched]
  congr 1
  apply List.filter_congr
  intro place hplace
  exact h place.2 (List.mem_zipIdx hplace).1

theorem untouched_of_free {t : Text}
    (h : ∀ i, column ≤ i → i < column + t.length → isFree splices i = true) :
    untouched splices column t = t := by
  rw [untouched, List.filter_eq_self.2]
  · exact List.zipIdx_map_fst column t
  · intro place hplace
    have hin := List.mem_zipIdx hplace
    exact h place.2 hin.1 hin.2.1

theorem untouched_of_covered {t : Text}
    (h : ∀ i, column ≤ i → i < column + t.length → isFree splices i = false) :
    untouched splices column t = [] := by
  rw [untouched, List.map_eq_nil_iff, List.filter_eq_nil_iff]
  intro place hplace
  have hin := List.mem_zipIdx hplace
  simp [h place.2 hin.1 hin.2.1]

/-- The gaps have the characters that no splice covers. -/
theorem flatten_gaps (hfits : ∀ s ∈ sorted, Fits line s) (hapart : Apart sorted)
    (hbehind : ∀ s ∈ sorted, column ≤ s.start) :
    (gaps line column sorted).flatten = untouched sorted column (line.drop column) := by
  induction sorted generalizing column with
  | nil =>
    rw [untouched_of_free fun i _ _ => rfl]
    simp [gaps]
  | cons s rest ih =>
    obtain ⟨hs, hfits⟩ := List.forall_mem_cons.1 hfits
    obtain ⟨hnext, hapart⟩ := List.pairwise_cons.1 hapart
    have hcolumn := hbehind s List.mem_cons_self
    have hforward := hs.1
    have hgap : (Text.slice line column s.start).length = s.start - column :=
      Text.length_slice line (Nat.le_trans hforward hs.2)
    have hcover : (Text.slice line s.start s.stop).length = s.stop - s.start :=
      Text.length_slice line hs.2
    -- the line from the column on is a gap, what the splice covers, and the line behind it
    have hfront : untouched (s :: rest) column (Text.slice line column s.start) =
        Text.slice line column s.start := by
      apply untouched_of_free
      intro i _ hi
      rw [isFree_eq_true_iff, List.forall_mem_cons]
      refine ⟨.inl (by omega), fun b hb => .inl ?_⟩
      have := hnext b hb
      omega
    have hmiddle : untouched (s :: rest) s.start (Text.slice line s.start s.stop) = [] := by
      apply untouched_of_covered
      intro i _ hi
      rw [← Bool.not_eq_true, isFree_eq_true_iff, List.forall_mem_cons]
      rintro ⟨hfree, -⟩
      omega
    have hback : untouched (s :: rest) s.stop (line.drop s.stop) =
        untouched rest s.stop (line.drop s.stop) := by
      apply untouched_congr
      intro i hi
      rw [Bool.eq_iff_iff, isFree_eq_true_iff, isFree_eq_true_iff, List.forall_mem_cons]
      exact ⟨And.right, fun hrest => ⟨.inr hi, hrest⟩⟩
    have hstart : column + (s.start - column) = s.start := Nat.add_sub_cancel' hcolumn
    have hstop : s.start + (s.stop - s.start) = s.stop := Nat.add_sub_cancel' hforward
    rw [← Text.slice_append_drop line hcolumn, ← Text.slice_append_drop line hforward,
      untouched_append, untouched_append, hgap, hcover, hstart, hstop, hfront, hmiddle, hback,
      gaps, List.flatten_cons, ih hfits hapart hnext, List.nil_append]

/-- Splices that fit into a line and overlap somewhere are refused, and others are applied as they
are written: the texts stand between the parts of the line that no splice covers, by columns, and in
the order of the list at the same columns. -/
theorem applyAll_arranged (hfits : ∀ s ∈ splices, Fits line s) :
    ∃ sorted, Arranged splices sorted ∧
      (Apart sorted →
        applyAll line splices = .ok (weave (gaps line 0 sorted) (sorted.map text)) ∧
          (gaps line 0 sorted).flatten = untouched splices 0 line) ∧
      (¬Apart sorted → ∃ overlap, applyAll line splices = .error overlap ∧
        [overlap.left, overlap.right] <:+: sorted ∧ overlap.right.start < overlap.left.stop) := by
  have hsorted := arranged_mergeSort splices
  refine ⟨splices.mergeSort order, hsorted, ?_, ?_⟩
  · intro hapart
    have hfits' : ∀ s ∈ splices.mergeSort order, Fits line s := fun s hs =>
      hfits s (hsorted.perm.mem_iff.1 hs)
    have hweave := applyOrdered_eq_weave hfits' hapart (fun s _ => Nat.zero_le s.start)
    have hgaps := flatten_gaps hfits' hapart (fun s _ => Nat.zero_le s.start)
    constructor
    · simp [applyAll, overlap?_eq_none hapart, hweave]
    · rw [hgaps, List.drop_zero]
      apply untouched_congr
      intro i _
      exact hsorted.perm.all_eq
  · intro hapart
    have hstarts : (splices.mergeSort order).Pairwise fun a b => a.start ≤ b.start := by
      apply hsorted.ordered.imp
      omega
    cases hover : overlap? (splices.mergeSort order) with
    | none => exact absurd (apart_of_overlap? hstarts hover) hapart
    | some overlap => exact ⟨overlap, by simp [applyAll, hover], overlap?_eq_some hover⟩

/-- Insertions at both edges of a removal, two of them at the same column, and not by columns. -/
def edgeSplices : List Splice :=
  [⟨4, 4, ['+']⟩, ⟨1, 3, []⟩, ⟨3, 3, ['1']⟩, ⟨3, 3, ['2']⟩, ⟨1, 1, ['0']⟩]

theorem applyAll_arranged_edges : (∀ s ∈ edgeSplices, Fits "abcdef".toList s) ∧
    applyAll "abcdef".toList edgeSplices = .ok "a012d+ef".toList := by
  have hfits : ∀ s ∈ edgeSplices, Fits "abcdef".toList s := by decide
  obtain ⟨sorted, harranged, hwoven, -⟩ := applyAll_arranged hfits
  have hsorted : sorted =
      [⟨1, 1, ['0']⟩, ⟨1, 3, []⟩, ⟨3, 3, ['1']⟩, ⟨3, 3, ['2']⟩, ⟨4, 4, ['+']⟩] := by
    rw [harranged.unique (arranged_mergeSort edgeSplices)]
    simp [edgeSplices, List.mergeSort, List.MergeSort.Internal.splitInTwo, order]
  rw [hsorted] at hwoven
  exact ⟨hfits, (hwoven (by decide)).1⟩

end TodoTracker.Splice
