import TodoTracker.Failure
import TodoTracker.Proofs.Text.Utf8

/-!
# Bytes and their texts

What is read as a character is what writes it: the first byte gives the width, and the bytes behind
it fill up the number. So bytes are read as a text only if they are the bytes of this text.
-/

set_option autoImplicit false

namespace TodoTracker.Utf8

variable {b d e f : UInt8} {rest : Bytes} {c : Char} {n size : Nat}

theorem bounds_of_width (h : width b = n) : (n = 1 → b.toNat < 0x80) ∧
    (n = 2 → 0xC2 ≤ b.toNat ∧ b.toNat < 0xE0) ∧ (n = 3 → 0xE0 ≤ b.toNat ∧ b.toNat < 0xF0) ∧
    (n = 4 → 0xF0 ≤ b.toNat ∧ b.toNat < 0xF5) := by
  simp only [width] at h
  split_ifs at h <;> omega

theorem bounds_of_continues (h : continues b = true) : 0x80 ≤ b.toNat ∧ b.toNat < 0xC0 := by
  simpa [continues] using h

/-- A second byte continues the first one, within the limits of the special first bytes. -/
theorem bounds_of_follows {a : UInt8} (h : follows a b = true) :
    (0x80 ≤ b.toNat ∧ b.toNat < 0xC0) ∧ (a.toNat = 0xE0 → 0xA0 ≤ b.toNat) ∧
      (a.toNat = 0xED → b.toNat < 0xA0) ∧ (a.toNat = 0xF0 → 0x90 ≤ b.toNat) ∧
      (a.toNat = 0xF4 → b.toNat < 0x90) := by
  rw [follows, Bool.and_eq_true] at h
  obtain ⟨hrange, hspecial⟩ := h
  refine ⟨bounds_of_continues hrange, ?_, ?_, ?_, ?_⟩ <;> intro ha <;> simpa [ha] using hspecial

theorem toNat_charOfNat (h : n < 0xD800 ∨ 0xDFFF < n ∧ n < 0x110000) :
    (Char.ofNat n).toNat = n := by
  have hvalid : n.isValidChar := h
  have hchar : Char.ofNat n = Char.ofNatAux n hvalid := dif_pos hvalid
  rw [hchar]
  rfl

theorem ofNat_eq (h : n = b.toNat) : UInt8.ofNat n = b := by
  rw [h, UInt8.ofNat_toNat]

theorem encodeChar_one (hb : b.toNat < 0x80) : encodeChar (.ofNat b.toNat) = [b] := by
  rw [encodeChar, toNat_charOfNat (by omega), if_pos hb, UInt8.ofNat_toNat]

theorem encodeChar_two (hb : 0xC2 ≤ b.toNat ∧ b.toNat < 0xE0) (hd : follows b d = true) :
    encodeChar (.ofNat (b.toNat % 0x20 * 0x40 + tailBits d)) = [b, d] := by
  have hd := bounds_of_follows hd
  simp only [tailBits]
  rw [encodeChar, toNat_charOfNat (by omega), if_neg (by omega), if_pos (by omega),
    ofNat_eq (b := b) (by omega), ofNat_eq (b := d) (by omega)]

theorem encodeChar_three (hb : 0xE0 ≤ b.toNat ∧ b.toNat < 0xF0) (hd : follows b d = true)
    (he : continues e = true) :
    encodeChar (.ofNat (b.toNat % 0x10 * 0x1000 + tailBits d * 0x40 + tailBits e)) =
      [b, d, e] := by
  have hd := bounds_of_follows hd
  have he := bounds_of_continues he
  simp only [tailBits]
  rw [encodeChar, toNat_charOfNat (by omega), if_neg (by omega), if_neg (by omega),
    if_pos (by omega), ofNat_eq (b := b) (by omega), ofNat_eq (b := d) (by omega),
    ofNat_eq (b := e) (by omega)]

theorem encodeChar_four (hb : 0xF0 ≤ b.toNat ∧ b.toNat < 0xF5) (hd : follows b d = true)
    (he : continues e = true) (hf : continues f = true) :
    encodeChar (.ofNat (b.toNat % 0x08 * 0x40000 + tailBits d * 0x1000 + tailBits e * 0x40 +
      tailBits f)) = [b, d, e, f] := by
  have hd := bounds_of_follows hd
  have he := bounds_of_continues he
  have hf := bounds_of_continues hf
  simp only [tailBits]
  rw [encodeChar, toNat_charOfNat (by omega), if_neg (by omega), if_neg (by omega),
    if_neg (by omega), ofNat_eq (b := b) (by omega), ofNat_eq (b := d) (by omega),
    ofNat_eq (b := e) (by omega), ofNat_eq (b := f) (by omega)]

/-- What is read as a character is what writes it. -/
theorem encodeChar_of_head (h : head b rest = (.ok c, size)) :
    ∃ more left, rest = more ++ left ∧ size = more.length + 1 ∧ encodeChar c = b :: more := by
  rw [head.eq_def] at h
  -- The cases are the widths, each with as many bytes behind the first as there still are.
  split at h
  · rename_i hwidth
    cases h
    exact ⟨[], _, rfl, rfl, encodeChar_one ((bounds_of_width hwidth).1 rfl)⟩
  · cases h
  · rename_i d left hwidth
    split_ifs at h with hd
    · cases h
      exact ⟨[d], left, rfl, rfl, encodeChar_two ((bounds_of_width hwidth).2.1 rfl) hd⟩
    · cases h
  · cases h
  · rename_i d left hwidth
    split_ifs at h with hd
    · cases h
    rw [Bool.not_eq_true', Bool.not_eq_false] at hd
    cases left with
    | nil => cases h
    | cons e left =>
      simp only at h
      split_ifs at h with he
      · cases h
        exact ⟨[d, e], left, rfl, rfl,
          encodeChar_three ((bounds_of_width hwidth).2.2.1 rfl) hd he⟩
      · cases h
  · cases h
  · rename_i d left hwidth
    split_ifs at h with hd
    · cases h
    rw [Bool.not_eq_true', Bool.not_eq_false] at hd
    cases left with
    | nil => cases h
    | cons e left =>
      simp only at h
      split_ifs at h with he
      · cases h
      rw [Bool.not_eq_true', Bool.not_eq_false] at he
      cases left with
      | nil => cases h
      | cons f left =>
        simp only at h
        split_ifs at h with hf
        · cases h
          exact ⟨[d, e, f], left, rfl, rfl,
            encodeChar_four ((bounds_of_width hwidth).2.2.2 rfl) hd he hf⟩
        · cases h
  · cases h

/-- Bytes whose pieces are the characters of a text are the bytes of the text. -/
theorem encode_of_content {t : Text} {bytes : Bytes} {start : Nat}
    (h : (piecesFrom start 0 bytes).map Piece.content = t.map .ok) : encode t = bytes := by
  induction t generalizing bytes start with
  | nil =>
    cases bytes with
    | nil => rfl
    | cons b rest => cases h
  | cons c t ih =>
    cases bytes with
    | nil => cases h
    | cons b rest =>
      cases hread : head b rest with
      | mk content size =>
      rw [piecesFrom, hread, List.map_cons, List.map_cons, List.cons.injEq] at h
      obtain ⟨hcontent, htail⟩ := h
      change content = _ at hcontent
      subst hcontent
      obtain ⟨more, left, rfl, rfl, hbytes⟩ := encodeChar_of_head hread
      change (piecesFrom (start + 1) more.length (more ++ left)).map Piece.content = _ at htail
      rw [piecesFrom_append] at htail
      have hrest := ih htail
      rw [encode, List.flatMap_cons, hbytes, ← hrest, encode, List.cons_append]

theorem content_of_mapM {pieces : List Piece} {t : Text} {error : Piece → Flaw → DecodeError}
    (h : (pieces.mapM fun piece => match piece.content with
      | .ok c => .ok c
      | .error flaw => .error (error piece flaw)) = Except.ok t) :
    pieces.map Piece.content = t.map .ok := by
  induction pieces generalizing t with
  | nil =>
    cases h
    rfl
  | cons piece pieces ih =>
    rw [List.mapM_cons] at h
    obtain ⟨c, hpiece, h⟩ := bind_eq_ok h
    obtain ⟨rest, hpieces, h⟩ := bind_eq_ok h
    cases h
    split at hpiece
    · rename_i hcontent
      cases hpiece
      rw [List.map_cons, hcontent, ih hpieces, List.map_cons]
    · cases hpiece

/-- Bytes are read as a text exactly if they are the bytes of this text. -/
theorem decode_eq_ok_iff {bytes : Bytes} {t : Text} : decode bytes = .ok t ↔ encode t = bytes := by
  constructor
  · intro h
    exact encode_of_content (content_of_mapM h)
  · intro h
    rw [← h, decode_encode]

end TodoTracker.Utf8
