import TodoTracker.Text.Basic

/-!
# Windows of a line

What is read in a comment depends on some columns of a line and on the character in front of them.
Such a window keeps its content when something is inserted before or behind it, and moves on with
an insertion before it.
-/

set_option autoImplicit false

namespace TodoTracker.Text

/-- The columns from `start` to `stop` hold `body`, and `before` is the character in front of
them. -/
def Window (line : Text) (start stop : Nat) (before : Option Char) (body : Text) : Prop :=
  ∃ left right, line = left ++ (body ++ right) ∧ left.length = start ∧
    left.length + body.length = stop ∧ left.getLast? = before

theorem slice_append_drop (t : Text) {start stop : Nat} (h : start ≤ stop) :
    slice t start stop ++ t.drop stop = t.drop start := by
  obtain ⟨n, rfl⟩ := Nat.exists_eq_add_of_le h
  rw [slice, List.drop_take, Nat.add_sub_cancel_left, ← List.drop_drop, List.take_append_drop]

theorem take_slice_drop (t : Text) {start stop : Nat} (h : start ≤ stop) :
    t.take start ++ (slice t start stop ++ t.drop stop) = t := by
  rw [slice_append_drop t h, List.take_append_drop]

theorem length_slice (t : Text) {start stop : Nat} (h : stop ≤ t.length) :
    (slice t start stop).length = stop - start := by
  rw [slice, List.length_drop, List.length_take, Nat.min_eq_left h]

namespace Window

variable {line body : Text} {start stop : Nat} {before : Option Char}

theorem of_le (line : Text) (hstart : start ≤ stop) (hstop : stop ≤ line.length) :
    Window line start stop (line.take start).getLast? (slice line start stop) := by
  refine ⟨line.take start, line.drop stop, (take_slice_drop line hstart).symm, ?_, ?_, rfl⟩
  · rw [List.length_take]
    omega
  · rw [length_slice line hstop, List.length_take]
    omega

theorem stop_eq (h : Window line start stop before body) : stop = start + body.length := by
  obtain ⟨left, right, -, hstart, hstop, -⟩ := h
  omega

theorem slice_eq (h : Window line start stop before body) : slice line start stop = body := by
  obtain ⟨left, right, rfl, rfl, rfl, -⟩ := h
  rw [slice, List.take_length_add_append, List.drop_left, List.take_left]

-- Here and below `line` stands in parentheses before an index, since Mathlib has `line[` as a token.
theorem getElem?_add (h : Window line start stop before body) {n : Nat} (hn : n < body.length) :
    (line)[start + n]? = body[n]? := by
  obtain ⟨left, right, rfl, rfl, -, -⟩ := h
  rw [List.getElem?_append_right (Nat.le_add_right _ _), Nat.add_sub_cancel_left,
    List.getElem?_append_left hn]

theorem before_eq (h : Window line start stop before body) :
    (line.take start).getLast? = before := by
  obtain ⟨left, right, rfl, rfl, -, rfl⟩ := h
  rw [List.take_left]

theorem before_eq_of_take (h : Window line start stop before body) :
    ((line.take stop).take start).getLast? = before := by
  rw [List.take_take, Nat.min_eq_left (by have := h.stop_eq; omega), h.before_eq]

/-- A part of a window, with the last character of what is in front of it. -/
theorem part {x y : Text} (h : Window line start stop before (x ++ (body ++ y))) :
    Window line (start + x.length) (start + x.length + body.length) (x.getLast?.or before) body := by
  obtain ⟨left, right, rfl, rfl, -, rfl⟩ := h
  refine ⟨left ++ x, y ++ right, by simp, by simp, by simp, ?_⟩
  rw [List.getLast?_append]

/-- The window between two columns of a window. -/
theorem slice {s e : Nat} (h : Window line start stop before body) (hs : s ≤ e)
    (he : e ≤ body.length) :
    Window line (start + s) (start + e) ((body.take s).getLast?.or before)
      (Text.slice body s e) := by
  have hbody := take_slice_drop body hs
  rw [← hbody] at h
  have hpart := h.part
  rw [List.length_take, length_slice body he, Nat.min_eq_left (by omega)] at hpart
  have hstop : start + s + (e - s) = start + e := by omega
  rw [hstop] at hpart
  exact hpart

theorem insert_behind {a b : Text} (h : Window (a ++ b) start stop before body)
    (hstop : stop ≤ a.length) (t : Text) : Window (a ++ (t ++ b)) start stop before body := by
  obtain ⟨left, right, hline, rfl, rfl, rfl⟩ := h
  rw [← List.append_assoc] at hline
  obtain ⟨more, rfl⟩ : left ++ body <+: a :=
    List.prefix_of_prefix_length_le ⟨right, hline.symm⟩ (List.prefix_append a b)
      (by rw [List.length_append]; exact hstop)
  exact ⟨left, more ++ (t ++ b), by simp, rfl, rfl, rfl⟩

theorem insert_at {a b : Text} (h : Window (a ++ b) a.length stop before body) (t : Text) :
    Window (a ++ (t ++ b)) a.length (stop + t.length) before (t ++ body) := by
  obtain ⟨left, right, hline, hlen, rfl, rfl⟩ := h
  obtain ⟨rfl, rfl⟩ := List.append_inj hline hlen.symm
  refine ⟨a, right, by simp, rfl, ?_, rfl⟩
  rw [List.length_append]
  omega

theorem insert_before {a b : Text} (h : Window (a ++ b) start stop before body)
    (hstart : a.length < start) (t : Text) :
    Window (a ++ (t ++ b)) (start + t.length) (stop + t.length) before body := by
  obtain ⟨left, right, hline, rfl, rfl, rfl⟩ := h
  obtain ⟨more, rfl⟩ : a <+: left :=
    List.prefix_of_prefix_length_le (List.prefix_append a b) ⟨body ++ right, hline.symm⟩
      (Nat.le_of_lt hstart)
  have hb : b = more ++ (body ++ right) := by
    rw [List.append_assoc] at hline
    exact List.append_cancel_left hline
  refine ⟨a ++ (t ++ more), right, by simp [hb], ?_, ?_, ?_⟩
  · simp only [List.length_append]
    omega
  · simp only [List.length_append]
    omega
  · rw [List.length_append] at hstart
    obtain ⟨d, hd⟩ := Option.ne_none_iff_exists'.1
      (mt List.getLast?_eq_none_iff.1 (List.ne_nil_of_length_pos (by omega : 0 < more.length)))
    simp [List.getLast?_append, hd]

end Window

end TodoTracker.Text
