import TodoTracker.Proofs.Text.Decoded
import TodoTracker.Text.Line

/-!
# Previews are cut between characters

A preview cuts the bytes of a text and leaves out what is no character. In front of the cut all
characters are read as they were. What is left of a character at the cut is none: a shorter piece of
it is not the whole of another, and the bytes behind its first one start nothing. So what remains is
the longest beginning of the text whose bytes fit.
-/

set_option autoImplicit false

namespace TodoTracker

namespace Utf8

/-- The text `front` is the longest beginning of `t` that takes no more than `limit` bytes. -/
structure LongestFit (limit : Nat) (t front : Text) : Prop where
  begins : front <+: t
  fits : (encode front).length ≤ limit
  longest : ∀ other, other <+: t → (encode other).length ≤ limit → other <+: front

/-- The characters in front of the first one whose bytes no longer fit. -/
def fitting : Nat → Text → Text
  | _, [] => []
  | limit, c :: t =>
    if (encodeChar c).length ≤ limit then c :: fitting (limit - (encodeChar c).length) t else []

/-- The characters that are read from byte number `start` on, when `skip` bytes belong to the piece
before. -/
def charsFrom (start skip : Nat) (bytes : Bytes) : Text :=
  (piecesFrom start skip bytes).filterMap fun piece => piece.content.toOption

variable {b : UInt8} {bytes more : Bytes} {c : Char}

theorem encode_cons (c : Char) (t : Text) : encode (c :: t) = encodeChar c ++ encode t :=
  List.flatMap_cons

theorem longestFit_fitting (limit : Nat) (t : Text) : LongestFit limit t (fitting limit t) := by
  induction t generalizing limit with
  | nil => exact ⟨List.nil_prefix, Nat.zero_le _, fun other hbegins _ => hbegins⟩
  | cons c t ih =>
    rw [fitting]
    by_cases hfits : (encodeChar c).length ≤ limit
    · have htail := ih (limit - (encodeChar c).length)
      rw [if_pos hfits]
      refine ⟨(List.prefix_cons_inj c).2 htail.begins, ?_, ?_⟩
      · have := htail.fits
        simp only [encode_cons, List.length_append]
        omega
      · intro other hbegins hother
        cases other with
        | nil => exact List.nil_prefix
        | cons d other =>
          obtain ⟨rfl, hrest⟩ := List.cons_prefix_cons.1 hbegins
          rw [encode_cons, List.length_append] at hother
          exact (List.prefix_cons_inj d).2 (htail.longest other hrest (by omega))
    · rw [if_neg hfits]
      refine ⟨List.nil_prefix, Nat.zero_le _, ?_⟩
      intro other hbegins hother
      cases other with
      | nil => exact List.nil_prefix
      | cons d other =>
        obtain ⟨rfl, -⟩ := List.cons_prefix_cons.1 hbegins
        rw [encode_cons, List.length_append] at hother
        omega

/-- All bytes of a character but the first one continue it. -/
theorem continues_of_encodeChar (h : encodeChar c = b :: more) :
    ∀ d ∈ more, continues d = true := by
  rw [encodeChar] at h
  split_ifs at h
  all_goals
    obtain ⟨-, rfl⟩ := List.cons.inj h
    simp only [List.forall_mem_cons, continues_ofNat, List.not_mem_nil, false_imp_iff,
      implies_true, and_self]

theorem head_of_continues (h : continues b = true) (rest : Bytes) :
    head b rest = (.error .startByte, 1) := by
  have hbounds := bounds_of_continues h
  have hwidth : width b = 0 := by
    simp only [width]
    split_ifs <;> omega
  simp [head, hwidth]

/-- Bytes that continue a character are read as none. -/
theorem charsFrom_of_continues (h : ∀ d ∈ bytes, continues d = true) (start skip : Nat) :
    charsFrom start skip bytes = [] := by
  induction bytes generalizing start skip with
  | nil => rfl
  | cons d bytes ih =>
    obtain ⟨hd, hbytes⟩ := List.forall_mem_cons.1 h
    cases skip with
    | succ skip => exact ih hbytes _ _
    | zero =>
      rw [charsFrom, piecesFrom, head_of_continues hd]
      exact ih hbytes _ _

/-- The bytes of a character without the last ones are not read as a character: this one would have
its bytes and be read from all of them too. -/
theorem toOption_head_take (h : encodeChar c = b :: more) {k : Nat} (hk : k < more.length) :
    (head b (more.take k)).1.toOption = none := by
  cases hread : head b (more.take k) with
  | mk content size =>
  cases content with
  | error flaw => rfl
  | ok d =>
    obtain ⟨mid, left, hcut, -, hd⟩ := encodeChar_of_head hread
    obtain ⟨b', more', hb', hwhole⟩ := head_encodeChar c
    obtain ⟨rfl, rfl⟩ := List.cons.inj (h.symm.trans hb')
    obtain ⟨b', mid', hb', hother⟩ := head_encodeChar d
    obtain ⟨rfl, rfl⟩ := List.cons.inj (hd.symm.trans hb')
    have hmore : more = mid ++ (left ++ more.drop k) := by
      rw [← List.append_assoc, ← hcut, List.take_append_drop]
    have hsame : head b more = (.ok c, more.length + 1) := by
      simpa using hwhole []
    rw [hmore, hother, ← hmore] at hsame
    have hlength := congrArg List.length hcut
    simp only [Prod.mk.injEq, List.length_append, List.length_take] at hsame hlength
    omega

/-- A part of the bytes of a character is read as no character. -/
theorem charsFrom_take_encodeChar {k : Nat} (hk : k < (encodeChar c).length) (start : Nat) :
    charsFrom start 0 ((encodeChar c).take k) = [] := by
  cases k with
  | zero => rfl
  | succ k =>
    cases hbytes : encodeChar c with
    | nil => rfl
    | cons b more =>
      rw [hbytes, List.length_cons] at hk
      have htail : ∀ d ∈ more.take k, continues d = true := fun d hd =>
        continues_of_encodeChar hbytes d (List.mem_of_mem_take hd)
      rw [List.take_succ_cons, charsFrom, piecesFrom, List.filterMap_cons_none]
      · exact charsFrom_of_continues htail _ _
      · exact toOption_head_take hbytes (by omega)

/-- The bytes of a text up to a limit are read as the characters that fit. -/
theorem charsFrom_take_encode (t : Text) (limit start : Nat) :
    charsFrom start 0 ((encode t).take limit) = fitting limit t := by
  induction t generalizing limit start with
  | nil => simp [encode, fitting, charsFrom, piecesFrom]
  | cons c t ih =>
    rw [encode_cons, fitting]
    by_cases hfits : (encodeChar c).length ≤ limit
    · obtain ⟨b, more, hbytes, hhead⟩ := head_encodeChar c
      rw [if_pos hfits, List.take_append, List.take_of_length_le hfits, hbytes, List.cons_append,
        charsFrom, piecesFrom, hhead]
      show c :: (piecesFrom (start + 1) more.length (more ++ _)).filterMap _ = _
      rw [piecesFrom_append]
      exact congrArg (c :: ·) (ih _ _)
    · rw [if_neg hfits, List.take_append_of_le_length (by omega)]
      exact charsFrom_take_encodeChar (by omega) start

end Utf8

namespace Text

/-- A preview is the text itself if its bytes fit, and else the longest beginning that fits, with
three dots behind. -/
theorem preview_longestFit (t : Text) (limit : Nat) : ∃ front, Utf8.LongestFit limit t front ∧
    preview t limit =
      if (Utf8.encode t).length ≤ limit then t else front ++ "...".toList := by
  refine ⟨Utf8.fitting limit t, Utf8.longestFit_fitting limit t, ?_⟩
  have hcut : Utf8.decodeSkipping ((Utf8.encode t).take limit) = Utf8.fitting limit t :=
    Utf8.charsFrom_take_encode t limit 0
  by_cases hfits : (Utf8.encode t).length ≤ limit
  · simp [preview, hfits]
  · have hlimit : ¬ (limit : Int) < 0 := by omega
    simp [preview, hfits, hlimit, hcut]

/-- A cut through a character of each width, and one in front of each. -/
example : let t := "aé€𝄞".toList
    [0, 1, 2, 3, 5, 6, 9, 10].map (fun limit : Nat => preview t limit) =
      ["...".toList, "a...".toList, "a...".toList, "aé...".toList, "aé...".toList,
        "aé€...".toList, "aé€...".toList, t] := by
  decide +kernel

end Text

end TodoTracker
