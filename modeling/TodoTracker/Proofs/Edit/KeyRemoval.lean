import TodoTracker.Proofs.Edit.Splice
import TodoTracker.Proofs.Marker.Writes

/-!
# Keys that are taken out again

The keys of a line are found where they were written, and the line is what it was when they are
taken out. No blank goes with them, since each one stands behind a letter of its signal word.
-/

set_option autoImplicit false

namespace TodoTracker

open KeyWrite (before upTo)

namespace KeyWrite

variable {write : KeyWrite} {writes : List KeyWrite} {line : Text}

/-- The splice that takes a key out of the line in which `writes` are written. -/
def removal (writes : List KeyWrite) (write : KeyWrite) : Splice :=
  ⟨write.column + before writes write.column,
    write.column + before writes write.column + write.width, []⟩

theorem removal_first (h : ∀ v ∈ writes, write.column < v.column) :
    removal (write :: writes) write = ⟨write.column, write.column + write.width, []⟩ := by
  have hzero : before (write :: writes) write.column = 0 := by
    apply before_eq_zero
    intro v hv
    rcases List.mem_cons.1 hv with rfl | hv
    · exact Nat.le_refl _
    · exact Nat.le_of_lt (h v hv)
  rw [removal, hzero, Nat.add_zero]

theorem removal_behind {v : KeyWrite} (h : write.column < v.column) :
    removal (write :: writes) v = (removal writes v).add write.width := by
  rw [removal, removal, Splice.add, before_cons, if_pos h]
  simp only [Splice.mk.injEq, and_true]
  omega

theorem map_removal_cons (h : ∀ v ∈ writes, write.column < v.column) :
    (write :: writes).map (removal (write :: writes)) =
      ⟨write.column, write.column + write.width, []⟩ ::
        (writes.map (removal writes)).map (Splice.add write.width) := by
  rw [List.map_cons, removal_first h, List.map_map]
  congr 1
  exact List.map_congr_left fun v hv => removal_behind (h v hv)

theorem ordered_splices (hsorted : writes.Pairwise fun a b => a.column < b.column) :
    Splice.Ordered (writes.map splice) := by
  rw [Splice.Ordered, List.pairwise_map]
  exact hsorted.imp fun hlt => ⟨hlt, Nat.le_of_lt hlt⟩

theorem ordered_removals (hsorted : writes.Pairwise fun a b => a.column < b.column) :
    Splice.Ordered (writes.map (removal writes)) := by
  induction writes with
  | nil => exact List.Pairwise.nil
  | cons write writes ih =>
    obtain ⟨hfirst, hsorted⟩ := List.pairwise_cons.1 hsorted
    rw [map_removal_cons hfirst]
    refine List.pairwise_cons.2 ⟨?_, ?_⟩
    · intro s hs
      rw [List.map_map] at hs
      obtain ⟨v, hv, rfl⟩ := List.mem_map.1 hs
      have hlt := hfirst v hv
      simp only [Function.comp_apply, Splice.add, removal]
      omega
    · rw [List.pairwise_map]
      exact (ih hsorted).imp fun h =>
        ⟨Nat.add_lt_add_right h.1 _, Nat.add_le_add_right h.2 _⟩

/-- The first key of a line, with the line behind it as the other keys make it. -/
theorem applyOrdered_cons (hfirst : ∀ v ∈ writes, write.column < v.column)
    (hcolumn : write.column ≤ line.length) :
    ∃ a b, line = a ++ b ∧ a.length = write.column ∧
      Splice.applyOrdered line (writes.map splice) =
        a ++ Splice.applyOrdered b ((writes.map splice).map (Splice.sub a.length)) ∧
      Splice.applyOrdered line ((write :: writes).map splice) =
        a ++ (write.key.written ++
          Splice.applyOrdered b ((writes.map splice).map (Splice.sub a.length))) := by
  have hlen : (line.take write.column).length = write.column := by
    rw [List.length_take, Nat.min_eq_left hcolumn]
  have hbehind : ∀ s ∈ writes.map splice,
      (line.take write.column).length ≤ s.start ∧ s.start ≤ s.stop := by
    intro s hs
    obtain ⟨v, hv, rfl⟩ := List.mem_map.1 hs
    rw [hlen]
    exact ⟨Nat.le_of_lt (hfirst v hv), Nat.le_refl _⟩
  have hrest := Splice.applyOrdered_append hbehind (line.drop write.column)
  rw [List.take_append_drop] at hrest
  refine ⟨line.take write.column, line.drop write.column, (List.take_append_drop _ _).symm, hlen,
    hrest, ?_⟩
  have happly : Splice.applyOrdered line ((write :: writes).map splice) =
      write.splice.apply (Splice.applyOrdered line (writes.map splice)) := rfl
  rw [happly, hrest, Scanner.splice_apply hlen.symm]

/-- A line is what it was when all keys are taken out. -/
theorem applyOrdered_removals (hsorted : writes.Pairwise fun a b => a.column < b.column)
    (hcolumn : ∀ write ∈ writes, write.column ≤ line.length) :
    Splice.applyOrdered (Splice.applyOrdered line (writes.map splice))
      (writes.map (removal writes)) = line := by
  induction writes with
  | nil => rfl
  | cons write writes ih =>
    obtain ⟨hfirst, hsorted⟩ := List.pairwise_cons.1 hsorted
    obtain ⟨a, b, rfl, hlen, hrest, hall⟩ :=
      applyOrdered_cons hfirst (hcolumn write List.mem_cons_self)
    have hbehind : ∀ s ∈ writes.map (removal writes), a.length ≤ s.start ∧ s.start ≤ s.stop := by
      intro s hs
      obtain ⟨v, hv, rfl⟩ := List.mem_map.1 hs
      have hlt := hfirst v hv
      rw [hlen, removal]
      dsimp only
      omega
    -- what the other removals do behind the first key, they do without it
    have hback := ih hsorted fun v hv => hcolumn v (List.mem_cons_of_mem _ hv)
    rw [hrest, Splice.applyOrdered_append hbehind, List.append_cancel_left_eq] at hback
    have hcons : ∀ (s : Splice) (rest : List Splice) (t : Text),
        Splice.applyOrdered t (s :: rest) = s.apply (Splice.applyOrdered t rest) :=
      fun _ _ _ => rfl
    rw [hall, map_removal_cons hfirst, hcons, width, Splice.applyOrdered_insert hbehind, hback,
      Splice.apply, ← hlen]
    dsimp only
    rw [List.take_left, List.append_nil, ← List.append_assoc, ← List.length_append,
      List.drop_left]

/-- A key is found where it was written. -/
theorem slice_removal (hsorted : writes.Pairwise fun a b => a.column < b.column)
    (hcolumn : ∀ write ∈ writes, write.column ≤ line.length) (hwrite : write ∈ writes) :
    Text.slice (Splice.applyOrdered line (writes.map splice)) (removal writes write).start
      (removal writes write).stop = write.key.written := by
  induction writes with
  | nil => cases hwrite
  | cons first writes ih =>
    obtain ⟨hfirst, hsorted⟩ := List.pairwise_cons.1 hsorted
    obtain ⟨a, b, rfl, hlen, hrest, hall⟩ :=
      applyOrdered_cons hfirst (hcolumn first List.mem_cons_self)
    rw [hall]
    rcases List.mem_cons.1 hwrite with rfl | hwrite
    · rw [removal_first hfirst, Text.slice, ← hlen]
      dsimp only
      rw [width, List.take_length_add_append, List.take_left, List.drop_left]
    · have hback := ih hsorted (fun v hv => hcolumn v (List.mem_cons_of_mem _ hv)) hwrite
      have hlt := hfirst write hwrite
      obtain ⟨m, hm⟩ : ∃ m, (removal writes write).start = a.length + m := by
        refine Nat.exists_eq_add_of_le ?_
        rw [hlen, removal]
        dsimp only
        omega
      have hstop : (removal writes write).stop = (removal writes write).start + write.width := rfl
      rw [hrest, hstop, hm, Text.slice, Nat.add_assoc, List.take_length_add_append,
        List.drop_length_add_append] at hback
      have hstart' : a.length + m + first.width = (a ++ first.key.written).length + m := by
        simp only [List.length_append, width]
        omega
      have hstop' : a.length + m + write.width + first.width =
          (a ++ first.key.written).length + (m + write.width) := by
        simp only [List.length_append, width]
        omega
      rw [removal_behind hlt, Splice.add, hstop, hm]
      dsimp only
      rw [hstart', hstop', ← List.append_assoc, Text.slice, List.take_length_add_append,
        List.drop_length_add_append]
      exact hback

end KeyWrite

/-- A removal behind a letter takes no blank with it. -/
theorem Splice.columnRemoval_behind {t : Text} {start : Nat} {c : Char}
    (hc : t[start - 1]? = some c) (hletter : isGap c = false) (stop limit : Nat) :
    columnRemoval t start stop limit = ⟨start, stop, []⟩ := by
  simp [columnRemoval, hc, hletter]

end TodoTracker
