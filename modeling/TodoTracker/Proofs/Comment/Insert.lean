import TodoTracker.Proofs.Comment.Lexed

/-!
# Comments around an insertion

Something is inserted right behind a word in the body of a comment. If no delimiter can reach over
the word or start in the insertion, the comments are the same ones, and their columns behind the
insertion move on by its length.
-/

set_option autoImplicit false

namespace TodoTracker

namespace Grammar

/-- No delimiter has the whole word in it, and no closer can start in `t` or reach over the end of
the word. -/
structure Ignores (grammar : Grammar) (word t : Text) : Prop extends Proper grammar where
  opener_lacks : ∀ d ∈ grammar.delimiters, ∃ c ∈ word, c ∉ d.opener
  closer_lacks : ∀ d ∈ grammar.delimiters, ∀ closer ∈ d.closer,
    ∃ c, word.getLast? = some c ∧ c ∉ closer
  closer_free : ∀ d ∈ grammar.delimiters, ∀ closer ∈ d.closer, ∀ v, Text.FreeOf closer t v

variable {grammar : Grammar}

/-- Equal up to what is found behind column `i`. -/
def SameUpTo (i : Nat) (a b : Option (Nat × Delimiter)) : Prop :=
  a = b ∨ Behind i a ∧ Behind i b

theorem SameUpTo.join {i : Nat} {a b best other : Option (Nat × Delimiter)}
    (hfound : SameUpTo i a b) (hbest : SameUpTo i best other) :
    SameUpTo i (join a best) (join b other) := by
  rcases hfound with rfl | ⟨ha, hb⟩
  · rcases hbest with rfl | ⟨hbest, hother⟩
    · exact .inl rfl
    · by_cases ha : Behind i a
      · exact .inr ⟨ha.join hbest, ha.join hother⟩
      · left
        rw [join_behind ha hbest, join_behind ha hother]
  · rcases hbest with rfl | ⟨hbest, hother⟩
    · by_cases hbest : Behind i best
      · exact .inr ⟨ha.join hbest, hb.join hbest⟩
      · left
        rw [join_of_behind ha hbest, join_of_behind hb hbest]
    · exact .inr ⟨ha.join hbest, hb.join hother⟩

theorem sameUpTo_foldl_join {old new : Text} {i : Nat} {delimiters : List Delimiter}
    (hsame : ∀ d ∈ delimiters, SameUpTo i (foundIn old d) (foundIn new d))
    {a b : Option (Nat × Delimiter)} (hab : SameUpTo i a b) :
    SameUpTo i (delimiters.foldl (fun best d => join (foundIn old d) best) a)
      (delimiters.foldl (fun best d => join (foundIn new d) best) b) := by
  induction delimiters generalizing a b with
  | nil => exact hab
  | cons d delimiters ih =>
    exact ih (fun e he => hsame e (List.mem_cons_of_mem _ he))
      ((hsame d List.mem_cons_self).join hab)

/-- A delimiter that starts in front of the word does not reach behind it. -/
theorem Ignores.opener_fits {w t : Text} (hg : grammar.Ignores w t) {d : Delimiter}
    (hd : d ∈ grammar.delimiters) {u z : Text} {m : Nat} (hm : m ≤ u.length)
    (h : d.opener <+: (u ++ w ++ z).drop m) : m + d.opener.length ≤ (u ++ w).length := by
  refine Nat.le_of_not_lt fun hlong => ?_
  obtain ⟨c, hc, hlacks⟩ := hg.opener_lacks d hd
  have hcross := Text.drop_prefix_of_cross h (by rw [List.length_append]; omega) (by omega)
  rw [List.drop_append_of_le_length hm] at hcross
  exact hlacks (hcross.subset (List.mem_append_right _ hc))

/-- A delimiter found in front of the word is found there with the insertion. -/
theorem Ignores.indexOf?_opener {w t : Text} (hg : grammar.Ignores w t) {d : Delimiter}
    (hd : d ∈ grammar.delimiters) {u y z : Text} {m : Nat} (hm : m ≤ u.length)
    (h : Text.indexOf? d.opener (u ++ w ++ y) = some m) :
    Text.indexOf? d.opener (u ++ w ++ z) = some m :=
  Text.indexOf?_append_of_le h (hg.opener_fits hd hm (Text.indexOf?_eq_some h).1) z

/-- The first delimiter stays where it is if it is in front of the word. -/
theorem Ignores.firstOpener_insert {w t : Text} (hg : grammar.Ignores w t) {u y z : Text} {i : Nat}
    {d : Delimiter} (h : grammar.firstOpener (u ++ w ++ y) = some (i, d)) (hi : i ≤ u.length) :
    grammar.firstOpener (u ++ w ++ z) = some (i, d) := by
  have hsame : ∀ e ∈ grammar.delimiters,
      SameUpTo i (foundIn (u ++ w ++ y) e) (foundIn (u ++ w ++ z) e) := by
    intro e he
    have hbehind : ∀ {y z : Text}, Text.indexOf? e.opener (u ++ w ++ y) ≠
        Text.indexOf? e.opener (u ++ w ++ z) → Behind i (foundIn (u ++ w ++ y) e) := by
      intro y z hne f hf
      obtain ⟨m, hm, rfl⟩ := Option.map_eq_some_iff.1 hf
      refine Nat.lt_of_not_le fun hle => hne ?_
      rw [hm, hg.indexOf?_opener he (Nat.le_trans hle hi) hm]
    by_cases hne : Text.indexOf? e.opener (u ++ w ++ y) = Text.indexOf? e.opener (u ++ w ++ z)
    · left
      rw [foundIn, foundIn, hne]
    · exact .inr ⟨hbehind hne, hbehind (Ne.symm hne)⟩
  rw [firstOpener_eq] at h ⊢
  rcases sameUpTo_foldl_join hsame (.inl rfl) with heq | ⟨hbehind, -⟩
  · rw [← heq]
    exact h
  · exact absurd (hbehind (i, d) h) (Nat.lt_irrefl i)

/-- The closer of a comment with the word in it moves on with the insertion. -/
theorem Ignores.indexOf?_closer {w t : Text} (hg : grammar.Ignores w t) {d : Delimiter}
    (hd : d ∈ grammar.delimiters) {closer : Text} (hcloser : d.closer = some closer) {u v : Text}
    (h : ∀ j ∈ Text.indexOf? closer (u ++ w ++ v), (u ++ w).length ≤ j) :
    Text.indexOf? closer (u ++ w ++ (t ++ v)) =
      (Text.indexOf? closer (u ++ w ++ v)).map (· + t.length) := by
  obtain ⟨c, hlast, hc⟩ := hg.closer_lacks d hd closer hcloser
  have hlast' : (u ++ w).getLast? = some c := by
    rw [List.getLast?_append, hlast]
    rfl
  have hfront := Text.freeOf_of_indexOf? h
  have hboth : Text.FreeOf closer (u ++ w ++ t) v :=
    Text.freeOf_append (hfront.change hlast' hc (t ++ v)) (hg.closer_free d hd closer hcloser v)
  rw [← List.append_assoc, Text.indexOf?_append_of_free hboth,
    Text.indexOf?_append_of_free hfront, Option.map_map]
  congr 1
  funext j
  simp only [Function.comp_apply, List.length_append]
  omega

theorem Ignores.word_length_pos {w t : Text} (hg : grammar.Ignores w t) {d : Delimiter}
    (hd : d ∈ grammar.delimiters) : 0 < w.length := by
  obtain ⟨c, hc, -⟩ := hg.opener_lacks d hd
  exact List.length_pos_of_mem hc

end Grammar

namespace Text

/-- A column at which a part starts, after `k` characters were inserted at `cut`. -/
def moveStart (cut k column : Nat) : Nat := if cut < column then column + k else column

/-- A column at which a part stops. What stops at the cut takes the insertion in. -/
def moveStop (cut k column : Nat) : Nat := if cut ≤ column then column + k else column

end Text

namespace Span

def add (k : Nat) (span : Span) : Span :=
  ⟨span.start + k, span.stop + k, span.bodyStart + k, span.bodyStop + k⟩

/-- The span after `k` characters were inserted at `cut`. -/
def insert (cut k : Nat) (span : Span) : Span :=
  ⟨Text.moveStart cut k span.start, Text.moveStop cut k span.stop,
    Text.moveStart cut k span.bodyStart, Text.moveStop cut k span.bodyStop⟩

theorem insert_eq_self {cut k start stop bodyStart bodyStop : Nat} (hstart : start ≤ cut)
    (hbodyStart : bodyStart ≤ cut) (hbodyStop : bodyStop < cut) (hstop : stop < cut) :
    insert cut k ⟨start, stop, bodyStart, bodyStop⟩ = ⟨start, stop, bodyStart, bodyStop⟩ := by
  simp only [insert, Text.moveStart, Text.moveStop, mk.injEq]
  exact ⟨if_neg (by omega), if_neg (by omega), if_neg (by omega), if_neg (by omega)⟩

theorem insert_of_lt {first last cut k : Nat} {span : Span} (h : span.Within first last)
    (hlast : last < cut) : span.insert cut k = span := by
  have := h.start_le
  have := h.bodyStart_le
  have := h.bodyStop_le
  have := h.stop_le
  exact insert_eq_self (by omega) (by omega) (by omega) (by omega)

theorem insert_across {cut k start stop bodyStart bodyStop : Nat} (hstart : start ≤ cut)
    (hbodyStart : bodyStart ≤ cut) (hbodyStop : cut ≤ bodyStop) (hstop : cut ≤ stop) :
    insert cut k ⟨start, stop, bodyStart, bodyStop⟩ =
      ⟨start, stop + k, bodyStart, bodyStop + k⟩ := by
  simp only [insert, Text.moveStart, Text.moveStop, mk.injEq]
  exact ⟨if_neg (by omega), if_pos hstop, if_neg (by omega), if_pos hbodyStop⟩

theorem insert_of_gt {first last cut k : Nat} {span : Span} (h : span.Within first last)
    (hfirst : cut < first) : span.insert cut k = span.add k := by
  have := h.first_le
  have := h.start_le
  have := h.bodyStart_le
  have := h.bodyStop_le
  simp only [insert, add, Text.moveStart, Text.moveStop, mk.injEq]
  refine ⟨if_pos ?_, if_pos ?_, if_pos ?_, if_pos ?_⟩ <;> omega

end Span

namespace Grammar

variable {grammar : Grammar} {w t : Text}

theorem Lexed.add {pos : Nat} {rest : Text} {spans : List Span} {pending : Option Text}
    (h : grammar.Lexed pos rest spans pending) (k : Nat) :
    grammar.Lexed (pos + k) rest (spans.map (Span.add k)) pending := by
  induction h with
  | code h => exact .code h
  | @line pos i rest d h hcloser =>
    have hspan : (⟨pos + i, pos + rest.length, pos + i + d.opener.length, pos + rest.length⟩ :
        Span).add k = ⟨pos + k + i, pos + k + rest.length, pos + k + i + d.opener.length,
          pos + k + rest.length⟩ := by
      simp only [Span.add, Span.mk.injEq]
      omega
    rw [List.map_singleton, hspan]
    exact .line h hcloser
  | @opened pos i rest closer d h hcloser hj =>
    have hspan : (⟨pos + i, pos + rest.length, pos + i + d.opener.length, pos + rest.length⟩ :
        Span).add k = ⟨pos + k + i, pos + k + rest.length, pos + k + i + d.opener.length,
          pos + k + rest.length⟩ := by
      simp only [Span.add, Span.mk.injEq]
      omega
    rw [List.map_singleton, hspan]
    exact .opened h hcloser hj
  | @closed pos i j rest closer d spans pending h hcloser hj after ih =>
    have hspan : (⟨pos + i, pos + i + d.opener.length + j + closer.length,
        pos + i + d.opener.length, pos + i + d.opener.length + j⟩ : Span).add k =
        ⟨pos + k + i, pos + k + i + d.opener.length + j + closer.length,
          pos + k + i + d.opener.length, pos + k + i + d.opener.length + j⟩ := by
      simp only [Span.add, Span.mk.injEq]
      omega
    rw [List.map_cons, hspan]
    refine .closed h hcloser hj ?_
    have hpos : pos + i + d.opener.length + j + closer.length + k =
        pos + k + i + d.opener.length + j + closer.length := by omega
    exact hpos ▸ ih

theorem drop_front {u v : Text} {m : Nat} (hm : m ≤ u.length) :
    (u ++ w ++ v).drop m = u.drop m ++ w ++ v := by
  rw [List.append_assoc, List.drop_append_of_le_length hm, List.append_assoc]

theorem drop_insert {a v : Text} {n : Nat} (h : a.length ≤ n) :
    (a ++ (t ++ v)).drop (n + t.length) = (a ++ v).drop n := by
  obtain ⟨n, rfl⟩ := Nat.exists_eq_add_of_le h
  have hn : a.length + n + t.length = a.length + (t.length + n) := by omega
  rw [hn, List.drop_length_add_append, List.drop_length_add_append, List.drop_length_add_append]

/-- A closed comment around an insertion in it, with the comments behind it. -/
theorem Lexed.insert_closed (hg : grammar.Ignores w t) {u v : Text} {pos i j : Nat}
    {closer : Text} {d : Delimiter} {spans : List Span} {pending : Option Text}
    (h : grammar.firstOpener (u ++ w ++ v) = some (i, d)) (hcloser : d.closer = some closer)
    (hj : Text.indexOf? closer ((u ++ w ++ v).drop (i + d.opener.length)) = some j)
    (after : grammar.Lexed (pos + i + d.opener.length + j + closer.length)
      (((u ++ w ++ v).drop (i + d.opener.length)).drop (j + closer.length)) spans pending)
    (hstart : pos + i + d.opener.length ≤ pos + u.length)
    (hstop : pos + (u ++ w).length ≤ pos + i + d.opener.length + j) :
    grammar.Lexed pos (u ++ w ++ (t ++ v))
      ((⟨pos + i, pos + i + d.opener.length + j + closer.length, pos + i + d.opener.length,
        pos + i + d.opener.length + j⟩ :: spans).map
          (Span.insert (pos + (u ++ w).length) t.length)) pending := by
  have hd := (firstOpener_eq_some h).1
  have hm : i + d.opener.length ≤ u.length := by omega
  have hlen : (u ++ w).length = u.length + w.length := List.length_append
  have hcloserLen := List.length_pos_iff.2 (hg.closer_ne_nil d hd closer hcloser)
  have hfront : (u.drop (i + d.opener.length) ++ w).length ≤ j := by
    rw [List.length_append, List.length_drop]
    omega
  rw [drop_front hm] at hj after
  have hj' := hg.indexOf?_closer hd hcloser (u := u.drop (i + d.opener.length)) (v := v)
    (by rw [hj]; simpa using hfront)
  have hafter : (u.drop (i + d.opener.length) ++ w ++ (t ++ v)).drop
      (j + t.length + closer.length) =
      (u.drop (i + d.opener.length) ++ w ++ v).drop (j + closer.length) := by
    rw [Nat.add_right_comm]
    exact drop_insert (by omega)
  have hspans : spans.map (Span.insert (pos + (u ++ w).length) t.length) =
      spans.map (Span.add t.length) := by
    apply List.map_congr_left
    intro span hspan
    exact Span.insert_of_gt (after.within span hspan) (by omega)
  have hpos : pos + i + d.opener.length + j + closer.length + t.length =
      pos + i + d.opener.length + (j + t.length) + closer.length := by omega
  have hclosed := after.add t.length
  rw [hpos, ← hafter, ← drop_front hm] at hclosed
  have hlexed := Lexed.closed (hg.firstOpener_insert (z := t ++ v) h (by omega)) hcloser
    (by rw [drop_front hm, hj', hj]; rfl) hclosed
  rw [List.map_cons, hspans, Span.insert_across (by omega) (by omega) (by omega) (by omega)]
  have hbody : pos + i + d.opener.length + j + t.length =
      pos + i + d.opener.length + (j + t.length) := by omega
  rw [hpos, hbody]
  exact hlexed

/-- The comments of a line around an insertion behind a word in one of them. -/
theorem Lexed.insert (hg : grammar.Ignores w t) {u v : Text} {pos : Nat} {spans : List Span}
    {pending : Option Text} (h : grammar.Lexed pos (u ++ w ++ v) spans pending)
    (hspan : ∃ span ∈ spans, span.bodyStart ≤ pos + u.length ∧
      pos + (u ++ w).length ≤ span.bodyStop) :
    grammar.Lexed pos (u ++ w ++ (t ++ v))
      (spans.map (Span.insert (pos + (u ++ w).length) t.length)) pending := by
  generalize hrest : u ++ w ++ v = rest at h
  induction h generalizing u with
  | code h => simp at hspan
  | @line pos i rest d h hcloser =>
    subst hrest
    obtain ⟨span, hmem, hstart, hstop⟩ := hspan
    rw [List.mem_singleton] at hmem
    subst hmem
    dsimp only at hstart hstop
    rw [List.length_append] at hstop
    have hlen : pos + (u ++ w ++ v).length + t.length = pos + (u ++ w ++ (t ++ v)).length := by
      simp only [List.length_append]
      omega
    rw [List.map_singleton, List.length_append, Span.insert_across (by omega) (by omega) hstop hstop,
      hlen]
    exact .line (hg.firstOpener_insert h (by omega)) hcloser
  | @opened pos i rest closer d h hcloser hj =>
    subst hrest
    obtain ⟨span, hmem, hstart, hstop⟩ := hspan
    rw [List.mem_singleton] at hmem
    subst hmem
    dsimp only at hstart hstop
    rw [List.length_append] at hstop
    have hlen : pos + (u ++ w ++ v).length + t.length = pos + (u ++ w ++ (t ++ v)).length := by
      simp only [List.length_append]
      omega
    have hm : i + d.opener.length ≤ u.length := by omega
    rw [drop_front hm] at hj
    have hj' := hg.indexOf?_closer (firstOpener_eq_some h).1 hcloser
      (u := u.drop (i + d.opener.length)) (v := v) (by rw [hj]; simp)
    rw [List.map_singleton, List.length_append, Span.insert_across (by omega) (by omega) hstop hstop,
      hlen]
    refine .opened (hg.firstOpener_insert h (by omega)) hcloser ?_
    rw [drop_front hm, hj', hj]
    rfl
  | @closed pos i j rest closer d spans pending h hcloser hj after ih =>
    subst hrest
    obtain ⟨span, hmem, hstart, hstop⟩ := hspan
    rcases List.mem_cons.1 hmem with rfl | hmem
    · exact after.insert_closed hg h hcloser hj hstart hstop
    · have hin := after.within span hmem
      have hbefore : i + d.opener.length + (j + closer.length) ≤ u.length := by
        have := hin.first_le
        have := hin.start_le
        omega
      have hm : i + d.opener.length ≤ u.length := by omega
      have hn : j + closer.length ≤ (u.drop (i + d.opener.length)).length := by
        rw [List.length_drop]
        omega
      have hpos : pos + i + d.opener.length + j + closer.length +
          ((u.drop (i + d.opener.length)).drop (j + closer.length) ++ w).length =
            pos + (u ++ w).length := by
        simp only [List.length_append, List.length_drop]
        omega
      rw [drop_front hm] at hj ih
      have hw := hg.word_length_pos (firstOpener_eq_some h).1
      have hlen : (u ++ w).length = u.length + w.length := List.length_append
      rw [List.map_cons,
        Span.insert_eq_self (by omega) (by omega) (by omega) (by omega)]
      refine .closed (hg.firstOpener_insert h (by omega)) hcloser (j := j) ?_ ?_
      · rw [drop_front hm]
        apply Text.indexOf?_append_of_le hj
        rw [List.length_append]
        omega
      · rw [drop_front hm, drop_front hn, ← hpos]
        apply ih
        · refine ⟨span, hmem, ?_, ?_⟩
          · simp only [List.length_drop]
            omega
          · rw [hpos]
            exact hstop
        · rw [drop_front hn]

/-- The comments of a line around an insertion behind a word in one of them, and what the next line
starts with. -/
theorem lineSpans_insert (hg : grammar.Ignores w t) {pending : Option Text}
    (hpending : grammar.Awaits pending) {u v : Text}
    (hspan : ∃ span ∈ (grammar.lineSpans pending (u ++ w ++ v)).1,
      span.bodyStart ≤ u.length ∧ (u ++ w).length ≤ span.bodyStop) :
    grammar.lineSpans pending (u ++ w ++ (t ++ v)) =
      ((grammar.lineSpans pending (u ++ w ++ v)).1.map (Span.insert (u ++ w).length t.length),
        (grammar.lineSpans pending (u ++ w ++ v)).2) := by
  cases pending with
  | none =>
    have hlexed := (lexed_codeSpans hg.toProper 0 (u ++ w ++ v)).insert hg
      (by simpa [lineSpans] using hspan)
    rw [Nat.zero_add] at hlexed
    exact hlexed.eq hg.toProper
  | some closer =>
    obtain ⟨d, hd, hcloser⟩ := hpending closer rfl
    have hpos := List.length_pos_iff.2 (hg.closer_ne_nil d hd closer hcloser)
    have hw := hg.word_length_pos hd
    obtain ⟨span, hmem, hstart, hstop⟩ := hspan
    cases hi : Text.indexOf? closer (u ++ w ++ v) with
    | none =>
      have hi' := hg.indexOf?_closer hd hcloser (u := u) (v := v) (by rw [hi]; simp)
      rw [hi] at hi'
      have hlen : (u ++ w ++ v).length + t.length = (u ++ w ++ (t ++ v)).length := by
        simp only [List.length_append]
        omega
      rw [lineSpans_of_open hi, lineSpans_of_open hi']
      dsimp only
      rw [List.map_singleton, Span.insert_across (by omega) (by omega) (by simp) (by simp), hlen]
    | some i =>
      rw [lineSpans_of_closed hi] at hmem ⊢
      have hlexed := lexed_codeSpans hg.toProper (i + closer.length)
        ((u ++ w ++ v).drop (i + closer.length))
      rcases List.mem_cons.1 hmem with rfl | hmem
      · dsimp only at hstop
        have hi' := hg.indexOf?_closer hd hcloser (u := u) (v := v)
          (by rw [hi]; simpa using hstop)
        rw [hi] at hi'
        have hspans : (grammar.codeSpans (i + closer.length)
            ((u ++ w ++ v).drop (i + closer.length))).1.map (Span.insert (u ++ w).length t.length) =
            (grammar.codeSpans (i + closer.length)
              ((u ++ w ++ v).drop (i + closer.length))).1.map (Span.add t.length) := by
          apply List.map_congr_left
          intro span hspan
          exact Span.insert_of_gt (hlexed.within span hspan) (by omega)
        have hpos' : i + closer.length + t.length = i + t.length + closer.length := by omega
        have hdrop : (u ++ w ++ (t ++ v)).drop (i + t.length + closer.length) =
            (u ++ w ++ v).drop (i + closer.length) := by
          rw [← hpos']
          exact drop_insert (by omega)
        have hclosed := (hlexed.add t.length).eq hg.toProper
        rw [hpos'] at hclosed
        rw [lineSpans_of_closed hi', hdrop, hclosed, List.map_cons, hspans,
          Span.insert_across (by omega) (by omega) hstop (by omega), hpos']
      · have hin := hlexed.within span hmem
        have hbefore : i + closer.length ≤ u.length := by
          have := hin.first_le
          have := hin.start_le
          omega
        have hcut : i + closer.length + (u.drop (i + closer.length) ++ w).length =
            (u ++ w).length := by
          simp only [List.length_append, List.length_drop]
          omega
        have hi' := Text.indexOf?_append_of_le hi
          (by rw [List.length_append]; omega) (t ++ v)
        rw [drop_front hbefore] at hlexed hmem ⊢
        have hclosed := hlexed.insert hg ⟨span, hmem,
          by rw [List.length_drop]; omega, by rw [hcut]; exact hstop⟩
        rw [hcut] at hclosed
        have hlen : (u ++ w).length = u.length + w.length := List.length_append
        rw [lineSpans_of_closed hi', drop_front hbefore, hclosed.eq hg.toProper, List.map_cons,
          Span.insert_eq_self (by omega) (by omega) (by omega) (by omega)]

end Grammar

end TodoTracker