import TodoTracker.Proofs.Edit.Splice
import TodoTracker.Proofs.Text.Window

/-!
# Splices that leave each other alone

The splices of a marker stay in its text, between the end of its signal word and the next marker. A
removal may reach one blank further to the left, but what is there, a signal word or the bracket of
another block, does not end in a blank.
-/

set_option autoImplicit false

namespace TodoTracker

namespace Splice

variable {first last : Nat} {left right : List Splice}

/-- Splices between two columns from left to right, none of them reaching into the next one. -/
structure InTurn (first last : Nat) (splices : List Splice) : Prop where
  within : ∀ s ∈ splices, first ≤ s.start ∧ s.start ≤ s.stop ∧ s.stop ≤ last
  pairwise : splices.Pairwise fun a b => a.stop ≤ b.start

theorem InTurn.nil (first last : Nat) : InTurn first last [] :=
  ⟨by simp, List.Pairwise.nil⟩

theorem InTurn.singleton {s : Splice} (hfirst : first ≤ s.start) (hle : s.start ≤ s.stop)
    (hlast : s.stop ≤ last) : InTurn first last [s] :=
  ⟨by simp [hfirst, hle, hlast], List.pairwise_singleton _ _⟩

theorem InTurn.append (hleft : InTurn first last left) (hright : InTurn first last right)
    (h : ∀ a ∈ left, ∀ b ∈ right, a.stop ≤ b.start) : InTurn first last (left ++ right) := by
  constructor
  · intro s hs
    rcases List.mem_append.1 hs with hs | hs
    · exact hleft.within s hs
    · exact hright.within s hs
  · exact List.pairwise_append.2 ⟨hleft.pairwise, hright.pairwise, h⟩

/-- Splices that do not reach into the next one are applied as they stand. -/
theorem applyAll_eq {splices : List Splice} (hle : ∀ s ∈ splices, s.start ≤ s.stop)
    (hpairwise : splices.Pairwise fun a b => a.stop ≤ b.start) (line : Text) :
    applyAll line splices = .ok (applyOrdered line splices) := by
  have hsorted : splices.mergeSort order = splices := by
    apply List.mergeSort_of_pairwise
    apply List.Pairwise.imp_of_mem _ hpairwise
    intro a b ha hb hab
    have := hle a ha
    have := hle b hb
    simp [order]
    omega
  simp [applyAll, hsorted, overlap?_eq_none hpairwise]

section Removal

variable {line : Text} {start stop limit column : Nat}

theorem columnRemoval_start_le : (columnRemoval line start stop limit).start ≤ start := by
  simp [columnRemoval]
  split <;> omega

theorem le_columnRemoval_start (hle : column ≤ start)
    (hgap : ∀ c ∈ (line)[column - 1]?, isGap c = false) :
    column ≤ (columnRemoval line start stop limit).start := by
  by_cases heq : column = start
  · have hno : ((line)[start - 1]?).any isGap = false := by
      rw [← heq]
      cases h : (line)[column - 1]? with
      | none => rfl
      | some c => exact hgap c h
    simp [columnRemoval, hno, heq]
  · simp [columnRemoval]
    split <;> omega

theorem columnRemoval_inTurn (hfirst : first ≤ start)
    (hgap : ∀ c ∈ (line)[first - 1]?, isGap c = false) (hle : start ≤ stop) (hlast : stop ≤ last) :
    InTurn first last [columnRemoval line start stop limit] :=
  .singleton (le_columnRemoval_start hfirst hgap) (Nat.le_trans columnRemoval_start_le hle) hlast

end Removal

end Splice

namespace Block

/-- The blocks from column `pos` on are behind the column where the open one starts, each one ends
with a bracket, and the next one starts behind it. -/
theorem scanFrom_inTurn {t : Text} (pos depth start : Nat) (inner : Text) {rest : Text}
    (hrest : t.drop pos = rest) (hopen : 0 < depth → start < pos) :
    (∀ b ∈ scanFrom pos depth start inner rest, (if depth = 0 then pos else start) ≤ b.start ∧
      b.start < b.stop ∧ t[b.stop - 1]? = some ']') ∧
    (scanFrom pos depth start inner rest).Pairwise fun a b => a.stop ≤ b.start := by
  induction rest generalizing pos depth start inner with
  | nil => simp [scanFrom]
  | cons c rest ih =>
    have hnext : t.drop (pos + 1) = rest := by
      rw [← List.drop_drop, hrest, List.drop_one, List.tail_cons]
    have hhere : t[pos]? = some c := by
      rw [← List.head?_drop, hrest, List.head?_cons]
    rw [scanFrom]
    split
    · split
      · rename_i hzero
        obtain ⟨hmem, hpairwise⟩ := ih (pos + 1) 1 pos [] hnext (by omega)
        exact ⟨by simpa [hzero] using hmem, hpairwise⟩
      · rename_i hdepth
        obtain ⟨hmem, hpairwise⟩ := ih (pos + 1) (depth + 1) start (c :: inner) hnext (by omega)
        exact ⟨by simpa [hdepth] using hmem, hpairwise⟩
    · split
      · rename_i hclose
        split
        · rename_i hone
          -- the open block ends here, and what follows is behind it
          obtain ⟨hmem, hpairwise⟩ := ih (pos + 1) 0 0 [] hnext (by omega)
          have hstart := hopen hclose.2
          constructor
          · intro b hb
            rcases List.mem_cons.1 hb with rfl | hb
            · simp [hone, hhere, hclose.1]
              omega
            · have := hmem b hb
              simp [hone] at this ⊢
              exact ⟨by omega, this.2⟩
          · refine List.pairwise_cons.2 ⟨?_, hpairwise⟩
            intro b hb
            have := hmem b hb
            simpa using this.1
        · rename_i hmany
          have hdepth : depth - 1 ≠ 0 := by omega
          have hdepth' : depth ≠ 0 := by omega
          obtain ⟨hmem, hpairwise⟩ :=
            ih (pos + 1) (depth - 1) start (c :: inner) hnext (by omega)
          exact ⟨by simpa [hdepth, hdepth'] using hmem, hpairwise⟩
      · obtain ⟨hmem, hpairwise⟩ :=
          ih (pos + 1) depth start (if depth = 0 then inner else c :: inner) hnext (by omega)
        refine ⟨?_, hpairwise⟩
        intro b hb
        obtain ⟨hstart, hrest⟩ := hmem b hb
        refine ⟨?_, hrest⟩
        split at hstart <;> simp [*] <;> omega

theorem of_mem_attributeBlocks {t : Text} {b : Block} (h : b ∈ attributeBlocks t) :
    b.start < b.stop ∧ t[b.stop - 1]? = some ']' := by
  have hscan := (scanFrom_inTurn 0 0 0 [] (List.drop_zero (l := t)) (by omega)).1 b
    (List.mem_filter.1 h).1
  exact hscan.2

theorem pairwise_attributeBlocks (t : Text) :
    (attributeBlocks t).Pairwise fun a b => a.stop ≤ b.start :=
  (scanFrom_inTurn 0 0 0 [] (List.drop_zero (l := t)) (by omega)).2.filter _

end Block

theorem TicketAttribute.within_of_read? {pos : Nat} {t : Text} {ticket : TicketAttribute}
    (h : read? pos t = some ticket) : pos = ticket.start ∧ ticket.start < ticket.stop ∧
      ticket.stop ≤ pos + 1 + t.length := by
  rw [read?] at h
  obtain ⟨afterWord, -, h⟩ := Option.bind_eq_some_iff.1 h
  dsimp only at h
  split at h
  · split at h
    · cases h
    · split at h
      · cases h
        dsimp only
        omega
      · cases h
  · cases h

theorem TicketAttribute.within_of_findFrom {pos : Nat} {t : Text} {ticket : TicketAttribute}
    (h : findFrom pos t = some ticket) : pos ≤ ticket.start ∧ ticket.start < ticket.stop ∧
      ticket.stop ≤ pos + t.length := by
  induction t generalizing pos with
  | nil => cases h
  | cons c t ih =>
    have hlater : findFrom (pos + 1) t = some ticket → pos ≤ ticket.start ∧
        ticket.start < ticket.stop ∧ ticket.stop ≤ pos + (c :: t).length := by
      intro h
      have := ih h
      simp
      omega
    rw [findFrom] at h
    split at h
    · cases hread : read? pos t with
      | none => exact hlater (by simpa [hread] using h)
      | some found =>
        have heq : found = ticket := by simpa [hread] using h
        have := within_of_read? (heq ▸ hread)
        simp
        omega
    · exact hlater h

theorem Parenthesis.stop_le {t : Text} {paren : Parenthesis} (h : read? t = some paren) :
    paren.stop ≤ t.length := by
  rw [read?] at h
  split at h
  · dsimp only at h
    split at h
    · split at h
      · cases h
      · cases h
        simp
    · cases h
  · cases h

/-- A key that is written on purpose has its form in the text of the marker, whatever the patterns
say about the key. -/
theorem CarriedKey.form_within {patterns : List Pattern} {line : Text} {start stop : Nat}
    {found : CarriedKey} (hstop : stop ≤ line.length) (hle : start ≤ stop)
    (h : inSegment? patterns line start stop = some found)
    (hwritten : found.form.isWritten = true) :
    start ≤ found.formStart ∧ found.formStart ≤ found.formStop ∧ found.formStop ≤ stop := by
  have hlen : (Text.slice line start stop).length = stop - start := Text.length_slice line hstop
  rw [inSegment?] at h
  split at h
  · rename_i ticket hticket
    cases h
    have := TicketAttribute.within_of_findFrom hticket
    simp [ofTicket]
    omega
  · split at h
    · rename_i hparen
      cases h
      obtain ⟨paren, hread, hfind⟩ := Option.bind_eq_some_iff.1 hparen
      obtain ⟨pattern, -, hmatch⟩ := List.exists_of_findSome?_eq_some hfind
      obtain ⟨m, -, rfl⟩ := Option.map_eq_some_iff.1 hmatch
      have := Parenthesis.stop_le hread
      simp
      omega
    · rw [bare?] at h
      obtain ⟨pattern, -, hmatch⟩ := List.exists_of_findSome?_eq_some h
      split at hmatch
      · split at hmatch
        · cases hmatch
          cases hwritten
        · cases hmatch
      · cases hmatch

namespace Splice

variable {line : Text} {start stop : Nat}

/-- The attribute blocks of a marker are removed each for itself. -/
theorem attributeRemovals_inTurn (hle : start ≤ stop) (hstop : stop ≤ line.length)
    (hgap : ∀ c ∈ (line)[start - 1]?, isGap c = false) :
    InTurn start stop (attributeRemovals line start stop) := by
  have hwindow := Text.Window.of_le line hle hstop
  have hlen : (Text.slice line start stop).length = stop - start := Text.length_slice line hstop
  -- the bracket that ends a block of the segment is found in the line
  have hblock : ∀ b ∈ Block.attributeBlocks (Text.slice line start stop),
      b.start < b.stop ∧ start + b.stop ≤ stop ∧ (line)[start + b.stop - 1]? = some ']' := by
    intro b hb
    obtain ⟨hlt, hclose⟩ := Block.of_mem_attributeBlocks hb
    obtain ⟨hin, -⟩ := List.getElem?_eq_some_iff.1 hclose
    have hcolumn : start + b.stop - 1 = start + (b.stop - 1) := by omega
    exact ⟨hlt, by omega, by rw [hcolumn, hwindow.getElem?_add hin, hclose]⟩
  constructor
  · intro s hs
    obtain ⟨b, hb, rfl⟩ := List.mem_map.1 hs
    obtain ⟨hlt, hlast, -⟩ := hblock b hb
    have hremoval : InTurn start stop
        [columnRemoval line (start + b.start) (start + b.stop) stop] :=
      columnRemoval_inTurn (Nat.le_add_right _ _) hgap (by omega) hlast
    exact hremoval.within _ List.mem_cons_self
  · rw [attributeRemovals, List.pairwise_map]
    apply List.Pairwise.imp_of_mem _ (Block.pairwise_attributeBlocks _)
    intro a b ha hb hab
    obtain ⟨-, -, hclose⟩ := hblock a ha
    have hno : ∀ c ∈ (line)[start + a.stop - 1]?, isGap c = false := by simp [hclose, isGap]
    exact le_columnRemoval_start (Nat.add_le_add_left hab start) hno

theorem keyRemoval_inTurn {patterns : List Pattern} {found : CarriedKey} (hle : start ≤ stop)
    (hstop : stop ≤ line.length) (hgap : ∀ c ∈ (line)[start - 1]?, isGap c = false)
    (hfound : CarriedKey.inSegment? patterns line start stop = some found)
    (hwritten : found.form.isWritten = true) :
    InTurn start stop [keyRemoval line found stop] := by
  obtain ⟨hfirst, hform, hlast⟩ := CarriedKey.form_within hstop hle hfound hwritten
  exact columnRemoval_inTurn hfirst hgap hform hlast

/-- The key of a new task goes in front of the attributes that are removed. -/
theorem insertion_inTurn {key format : Text} {removals : List Splice} (hle : start ≤ stop)
    (h : InTurn start stop removals) :
    InTurn start stop ((keyInsertion? line start key format).toList ++ removals) := by
  rw [keyInsertion?]
  split
  · simpa using h
  · have hinsertion : InTurn start stop [⟨start, start, keyText key format⟩] :=
      .singleton (Nat.le_refl _) (Nat.le_refl _) hle
    apply hinsertion.append h
    intro a ha b hb
    obtain rfl := List.mem_singleton.1 ha
    exact (h.within b hb).1

end Splice

end TodoTracker
