import TodoTracker.Text.Utf8
import Mathlib.Tactic.Common

/-!
# Texts and their bytes

The bytes of a character are read as this character, whatever comes behind them. So every text is
read back from its bytes.
-/

set_option autoImplicit false

namespace TodoTracker.Utf8

variable {n : Nat}

/-- Code points are below the largest one, and none of them is a surrogate. -/
theorem toNat_bounds (c : Char) : c.toNat < 0xD800 ∨ 0xDFFF < c.toNat ∧ c.toNat < 0x110000 :=
  c.valid

theorem toNat_ofNat (h : n < 0x100) : (UInt8.ofNat n).toNat = n := by
  rw [UInt8.toNat_ofNat']
  exact Nat.mod_eq_of_lt h

theorem continues_ofNat (n : Nat) : continues (.ofNat (0x80 + n % 0x40)) = true := by
  rw [continues, toNat_ofNat (by omega)]
  simp only [Bool.and_eq_true, decide_eq_true_eq]
  omega

theorem tailBits_ofNat (n : Nat) : tailBits (.ofNat (0x80 + n % 0x40)) = n % 0x40 := by
  rw [tailBits, toNat_ofNat (by omega)]
  omega

theorem head_one (h : n < 0x80) (rest : Bytes) : head (.ofNat n) rest = (.ok (.ofNat n), 1) := by
  have hbyte : (UInt8.ofNat n).toNat = n := toNat_ofNat (by omega)
  have hwidth : width (.ofNat n) = 1 := by rw [width, hbyte, if_pos h]
  rw [head, hbyte]
  exact hwidth

theorem head_two (hlow : 0x80 ≤ n) (hhigh : n < 0x800) (rest : Bytes) :
    head (.ofNat (0xC0 + n / 0x40)) (.ofNat (0x80 + n % 0x40) :: rest) = (.ok (.ofNat n), 2) := by
  have hbyte : (UInt8.ofNat (0xC0 + n / 0x40)).toNat = 0xC0 + n / 0x40 := toNat_ofNat (by omega)
  have hwidth : width (.ofNat (0xC0 + n / 0x40)) = 2 := by
    simp only [width, hbyte]
    rw [if_neg (by omega), if_neg (by omega), if_pos (by omega)]
  have hfollows : follows (.ofNat (0xC0 + n / 0x40)) (.ofNat (0x80 + n % 0x40)) = true := by
    simp only [follows, continues_ofNat, hbyte, beq_iff_eq, Bool.true_and]
    rw [if_neg (by omega), if_neg (by omega), if_neg (by omega), if_neg (by omega)]
  have hvalue : (0xC0 + n / 0x40) % 0x20 * 0x40 + n % 0x40 = n := by omega
  simp only [head, hwidth, hfollows, hbyte, tailBits_ofNat, hvalue, if_true]

theorem head_three (hlow : 0x800 ≤ n) (hhigh : n < 0x10000) (hsurrogate : n < 0xD800 ∨ 0xDFFF < n)
    (rest : Bytes) :
    head (.ofNat (0xE0 + n / 0x1000))
      (.ofNat (0x80 + n / 0x40 % 0x40) :: .ofNat (0x80 + n % 0x40) :: rest) =
      (.ok (.ofNat n), 3) := by
  have hbyte : (UInt8.ofNat (0xE0 + n / 0x1000)).toNat = 0xE0 + n / 0x1000 :=
    toNat_ofNat (by omega)
  have hsecond : (UInt8.ofNat (0x80 + n / 0x40 % 0x40)).toNat = 0x80 + n / 0x40 % 0x40 :=
    toNat_ofNat (by omega)
  have hwidth : width (.ofNat (0xE0 + n / 0x1000)) = 3 := by
    simp only [width, hbyte]
    rw [if_neg (by omega), if_neg (by omega), if_neg (by omega), if_pos (by omega)]
  have hfollows :
      follows (.ofNat (0xE0 + n / 0x1000)) (.ofNat (0x80 + n / 0x40 % 0x40)) = true := by
    simp only [follows, continues_ofNat, hbyte, hsecond, beq_iff_eq, Bool.true_and]
    split
    · exact decide_eq_true (by omega)
    · split
      · exact decide_eq_true (by omega)
      · rw [if_neg (by omega), if_neg (by omega)]
  have hvalue : (0xE0 + n / 0x1000) % 0x10 * 0x1000 + n / 0x40 % 0x40 * 0x40 + n % 0x40 = n := by
    omega
  simp only [head, hwidth, hfollows, continues_ofNat, hbyte, tailBits_ofNat, hvalue, Bool.not_true,
    Bool.false_eq_true, if_false, if_true]

theorem head_four (hlow : 0x10000 ≤ n) (hhigh : n < 0x110000) (rest : Bytes) :
    head (.ofNat (0xF0 + n / 0x40000)) (.ofNat (0x80 + n / 0x1000 % 0x40) ::
      .ofNat (0x80 + n / 0x40 % 0x40) :: .ofNat (0x80 + n % 0x40) :: rest) =
      (.ok (.ofNat n), 4) := by
  have hbyte : (UInt8.ofNat (0xF0 + n / 0x40000)).toNat = 0xF0 + n / 0x40000 :=
    toNat_ofNat (by omega)
  have hsecond : (UInt8.ofNat (0x80 + n / 0x1000 % 0x40)).toNat = 0x80 + n / 0x1000 % 0x40 :=
    toNat_ofNat (by omega)
  have hwidth : width (.ofNat (0xF0 + n / 0x40000)) = 4 := by
    simp only [width, hbyte]
    rw [if_neg (by omega), if_neg (by omega), if_neg (by omega), if_neg (by omega),
      if_pos (by omega)]
  have hfollows :
      follows (.ofNat (0xF0 + n / 0x40000)) (.ofNat (0x80 + n / 0x1000 % 0x40)) = true := by
    simp only [follows, continues_ofNat, hbyte, hsecond, beq_iff_eq, Bool.true_and]
    rw [if_neg (by omega), if_neg (by omega)]
    split
    · exact decide_eq_true (by omega)
    · split
      · exact decide_eq_true (by omega)
      · rfl
  have hvalue : (0xF0 + n / 0x40000) % 0x08 * 0x40000 + n / 0x1000 % 0x40 * 0x1000 +
      n / 0x40 % 0x40 * 0x40 + n % 0x40 = n := by omega
  simp only [head, hwidth, hfollows, continues_ofNat, hbyte, tailBits_ofNat, hvalue, Bool.not_true,
    Bool.false_eq_true, if_false, if_true]

/-- The bytes of a character are read as this character, and as no more than their number. -/
theorem head_encodeChar (c : Char) : ∃ b more, encodeChar c = b :: more ∧
    ∀ rest, head b (more ++ rest) = (.ok c, more.length + 1) := by
  have hbounds := toNat_bounds c
  rw [encodeChar]
  split
  · rename_i hone
    exact ⟨_, [], rfl, fun rest => by simpa using head_one hone rest⟩
  split
  · rename_i hone htwo
    exact ⟨_, [_], rfl, fun rest => by
      simpa using head_two (n := c.toNat) (by omega) htwo rest⟩
  split
  · rename_i hone htwo hthree
    exact ⟨_, [_, _], rfl, fun rest => by
      simpa using head_three (n := c.toNat) (by omega) hthree (by omega) rest⟩
  · rename_i hone htwo hthree
    exact ⟨_, [_, _, _], rfl, fun rest => by
      simpa using head_four (n := c.toNat) (by omega) (by omega) rest⟩

theorem piecesFrom_append (more rest : Bytes) (start : Nat) :
    piecesFrom start more.length (more ++ rest) = piecesFrom (start + more.length) 0 rest := by
  induction more generalizing start with
  | nil => rfl
  | cons b more ih =>
    rw [List.length_cons, List.cons_append, piecesFrom, ih, Nat.add_right_comm, Nat.add_assoc]

/-- The pieces of the bytes of a text are its characters. -/
theorem content_piecesFrom (t : Text) (start : Nat) :
    (piecesFrom start 0 (encode t)).map Piece.content = t.map .ok := by
  induction t generalizing start with
  | nil => rfl
  | cons c t ih =>
    obtain ⟨b, more, hbytes, hhead⟩ := head_encodeChar c
    have hencode : encode (c :: t) = b :: (more ++ encode t) := by
      rw [encode, List.flatMap_cons, hbytes]
      rfl
    rw [hencode, piecesFrom, hhead, List.map_cons, Nat.add_sub_cancel, piecesFrom_append, ih,
      List.map_cons]

/-- Pieces without flaws are read as their characters. -/
theorem mapM_pieces {pieces : List Piece} {t : Text} (h : pieces.map Piece.content = t.map .ok)
    (error : Piece → Flaw → DecodeError) :
    (pieces.mapM fun piece => match piece.content with
      | .ok c => .ok c
      | .error flaw => .error (error piece flaw)) = Except.ok t := by
  induction pieces generalizing t with
  | nil =>
    rw [List.map_eq_nil_iff.1 h.symm]
    rfl
  | cons piece pieces ih =>
    cases t with
    | nil => cases h
    | cons c t =>
      obtain ⟨hpiece, hpieces⟩ := List.cons.inj h
      rw [List.mapM_cons, hpiece, ih hpieces]
      rfl

/-- Every text is read back from its bytes. -/
theorem decode_encode (t : Text) : decode (encode t) = .ok t :=
  mapM_pieces (content_piecesFrom t 0) _

end TodoTracker.Utf8
