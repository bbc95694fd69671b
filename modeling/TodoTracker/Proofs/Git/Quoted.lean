import TodoTracker.Git.Quoted
import TodoTracker.Proofs.Anchor.Code
import TodoTracker.Proofs.Text.Utf8

/-!
# Quoted paths are read back

Between the quotes of a path each character stands in one of three forms: a backslash and a letter,
its bytes in octal, or the character itself. Reading turns each form into the bytes of its
character and goes on right behind it, whatever follows. So the bytes of the whole path come out,
and decoding them gives the path.
-/

set_option autoImplicit false

namespace TodoTracker

namespace Utf8

theorem encode_append (s t : Text) : encode (s ++ t) = encode s ++ encode t :=
  List.flatMap_append

theorem encode_of_ascii {t : Text} (h : ∀ c ∈ t, c.toNat < 0x80) :
    encode t = t.map fun c => .ofNat c.toNat := by
  induction t with
  | nil => rfl
  | cons c t ih =>
    have hc : encodeChar c = [.ofNat c.toNat] := by
      rw [encodeChar]
      exact if_pos (h c List.mem_cons_self)
    rw [encode, List.flatMap_cons, hc, List.map_cons]
    exact congrArg _ (ih fun d hd => h d (List.mem_cons_of_mem _ hd))

/-- The bytes of a character outside of ASCII are no ASCII characters. -/
theorem le_of_mem_encodeChar {c : Char} (h : 0x80 ≤ c.toNat) {b : UInt8} (hb : b ∈ encodeChar c) :
    0x80 ≤ b.toNat := by
  have hbounds := toNat_bounds c
  have hbyte : ∀ n, 0x80 ≤ n → n < 0x100 → 0x80 ≤ (UInt8.ofNat n).toNat := by
    intro n hlow hhigh
    rw [toNat_ofNat hhigh]
    exact hlow
  rw [encodeChar, if_neg (by omega)] at hb
  split at hb
  · simp only [List.mem_cons, List.not_mem_nil, or_false] at hb
    rcases hb with rfl | rfl <;> exact hbyte _ (by omega) (by omega)
  split at hb
  · simp only [List.mem_cons, List.not_mem_nil, or_false] at hb
    rcases hb with rfl | rfl | rfl <;> exact hbyte _ (by omega) (by omega)
  · simp only [List.mem_cons, List.not_mem_nil, or_false] at hb
    rcases hb with rfl | rfl | rfl | rfl <;> exact hbyte _ (by omega) (by omega)

/-- Pieces without flaws are mapped to their characters. -/
theorem map_pieces {pieces : List Piece} {t : Text} (h : pieces.map Piece.content = t.map .ok)
    {f : Piece → Char} (hf : ∀ piece c, piece.content = .ok c → f piece = c) :
    pieces.map f = t := by
  induction pieces generalizing t with
  | nil =>
    rw [List.map_eq_nil_iff.1 h.symm]
    rfl
  | cons piece pieces ih =>
    cases t with
    | nil => cases h
    | cons c t =>
      obtain ⟨hpiece, hpieces⟩ := List.cons.inj h
      rw [List.map_cons, hf piece c hpiece, ih hpieces]

/-- Bytes without a flaw lose nothing when flaws are replaced. -/
theorem decodeReplacing_encode (t : Text) : decodeReplacing (encode t) = t := by
  rw [decodeReplacing]
  apply map_pieces (content_piecesFrom t 0)
  intro piece c hpiece
  rw [hpiece]

end Utf8

namespace Git

/-- The octal escape of a byte, always with three digits. -/
def octal (b : UInt8) : Text :=
  '\\' :: [b.toNat / 64, b.toNat / 8 % 8, b.toNat % 8].map Nat.digitChar

/-- The characters that have a letter, each with the letter that stands for it behind a
backslash. -/
def letters : List (Char × Char) :=
  [('"', '"'), ('\\', '\\'), ('\x07', 'a'), ('\x08', 'b'), ('\t', 't'), ('\n', 'n'), ('\x0b', 'v'),
    ('\x0c', 'f'), ('\r', 'r')]

def isControl (c : Char) : Bool := c.toNat < 0x20 || c.toNat == 0x7F

/-- The form of a character between quotes. One outside of ASCII has its bytes in octal if
`inOctal` says so and stands for itself else. -/
def form (inOctal : Bool) (c : Char) : Text :=
  match letters.lookup c with
  | some letter => ['\\', letter]
  | none =>
    if isControl c || (inOctal && !Text.isAscii c) then (Utf8.encodeChar c).flatMap octal else [c]

/-- The characters of a path from index `i` on in their forms. -/
def formsFrom (inOctal : Nat → Bool) (i : Nat) : Text → Text
  | [] => []
  | c :: path => form (inOctal i) c ++ formsFrom inOctal (i + 1) path

/-- A path between quotes. Whether the character at an index is in octal is chosen for each of
them. -/
def quoted (inOctal : Nat → Bool) (path : Text) : Text :=
  '"' :: (formsFrom inOctal 0 path ++ ['"'])

/-- The bytes `written` stand for the code points `points`, whatever follows. -/
def Writes (written : Bytes) (points : List Nat) : Prop :=
  ∀ pos rest, pointsFrom pos 0 (written ++ rest) =
    (points ++ ·) <$> pointsFrom (pos + written.length) 0 rest

theorem Writes.nil : Writes [] [] := by
  intro pos rest
  show pointsFrom pos 0 rest = (fun points => points) <$> pointsFrom pos 0 rest
  exact (id_map _).symm

theorem Writes.append {s t : Bytes} {points more : List Nat} (hs : Writes s points)
    (ht : Writes t more) : Writes (s ++ t) (points ++ more) := by
  intro pos rest
  rw [List.append_assoc, hs, ht, List.length_append, Nat.add_assoc]
  cases pointsFrom (pos + (s.length + t.length)) 0 rest with
  | error e => rfl
  | ok last => exact congrArg Except.ok (List.append_assoc _ _ _).symm

/-- Bytes that each are written in a form of their own. -/
theorem Writes.flatMap {bytes : Bytes} {write : UInt8 → Bytes}
    (h : ∀ b ∈ bytes, Writes (write b) [b.toNat]) :
    Writes (bytes.flatMap write) (bytes.map UInt8.toNat) := by
  induction bytes with
  | nil => exact .nil
  | cons b bytes ih =>
    rw [List.flatMap_cons, List.map_cons]
    exact (h b List.mem_cons_self).append (ih fun d hd => h d (List.mem_cons_of_mem _ hd))

/-- What is left of an escape is passed over. -/
theorem pointsFrom_skip (pos : Nat) (s rest : Bytes) :
    pointsFrom pos s.length (s ++ rest) = pointsFrom (pos + s.length) 0 rest := by
  induction s generalizing pos with
  | nil => rfl
  | cons b s ih =>
    rw [List.length_cons, List.cons_append, pointsFrom, ih, Nat.add_right_comm, Nat.add_assoc]

/-- An escape that is read as it stands, whatever follows. -/
theorem Writes.escape {s : Bytes} {points : List Nat}
    (h : ∀ rest, readEscape (s ++ rest) = .points points s.length) : Writes (92 :: s) points := by
  intro pos rest
  have hslash : (92 : UInt8).toNat = 92 := rfl
  rw [List.cons_append, pointsFrom, if_pos hslash, h]
  dsimp only
  rw [pointsFrom_skip, List.length_cons, Nat.add_assoc, Nat.add_comm 1]

theorem Writes.plain {b : UInt8} (h : b.toNat ≠ 92) : Writes [b] [b.toNat] := by
  intro pos rest
  rw [List.cons_append, pointsFrom, if_neg h]
  rfl

theorem toNat_charOf (b : UInt8) : (charOf b).toNat = b.toNat := by
  rw [charOf, Char.toNat_ofNat, if_pos]
  exact .inl (Nat.lt_of_lt_of_le b.toNat_lt (by decide))

/-- Three octal digits are all taken, whether a digit follows or not. -/
theorem readEscape_octal {a b c : UInt8} (ha : isOctal a = true) (hb : isOctal b = true)
    (hc : isOctal c = true) (rest : Bytes) :
    readEscape (a :: b :: c :: rest) =
      .points [64 * (a.toNat - 48) + 8 * (b.toNat - 48) + (c.toNat - 48)] 3 := by
  have hdigit : 48 ≤ (charOf a).toNat ∧ (charOf a).toNat ≤ 55 := by
    rw [toNat_charOf]
    simpa [isOctal] using ha
  have hne : ∀ d : Char, d.toNat < 48 ∨ 55 < d.toNat → charOf a ≠ d := by
    rintro d hd rfl
    omega
  rw [readEscape]
  dsimp only
  rw [if_neg (hne _ (by decide)), if_neg (by simp [hne]), if_pos ha]
  simp only [List.take_succ_cons, List.take_zero, List.takeWhile_cons, hb, hc, if_true,
    List.takeWhile_nil, List.foldl_cons, List.foldl_nil, List.length_cons, List.length_nil]
  congr 2
  omega

theorem toNat_digitChar : ∀ d < 8, (Nat.digitChar d).toNat = 48 + d := by decide

/-- The octal escape of a byte is read as this byte. -/
theorem writes_octal (b : UInt8) : Writes (Utf8.encode (octal b)) [b.toNat] := by
  have hb := b.toNat_lt
  have hdigit : ∀ d < 8, (UInt8.ofNat (48 + d)).toNat = 48 + d ∧
      isOctal (.ofNat (48 + d)) = true := by decide
  have hencode : Utf8.encode (octal b) = [92, .ofNat (48 + b.toNat / 64),
      .ofNat (48 + b.toNat / 8 % 8), .ofNat (48 + b.toNat % 8)] := by
    rw [Utf8.encode_of_ascii]
    · simp only [octal, List.map_cons, List.map_nil, toNat_digitChar (b.toNat / 64) (by omega),
        toNat_digitChar (b.toNat / 8 % 8) (by omega), toNat_digitChar (b.toNat % 8) (by omega)]
      rfl
    · intro c hc
      simp only [octal, List.map_cons, List.map_nil, List.mem_cons, List.not_mem_nil, or_false]
        at hc
      rcases hc with rfl | rfl | rfl | rfl
      · decide
      · rw [toNat_digitChar _ (by omega)]
        omega
      · rw [toNat_digitChar _ (by omega)]
        omega
      · rw [toNat_digitChar _ (by omega)]
        omega
  rw [hencode]
  refine .escape fun rest => ?_
  have h1 := hdigit (b.toNat / 64) (by omega)
  have h2 := hdigit (b.toNat / 8 % 8) (by omega)
  have h3 := hdigit (b.toNat % 8) (by omega)
  show readEscape (_ :: _ :: _ :: rest) = _
  rw [readEscape_octal h1.2 h2.2 h3.2, h1.1, h2.1, h3.1]
  congr 2
  omega

/-- Bytes in octal are read as these bytes. -/
theorem writes_octals (bytes : Bytes) :
    Writes (Utf8.encode (bytes.flatMap octal)) (bytes.map UInt8.toNat) := by
  rw [Utf8.encode, List.flatMap_assoc]
  exact .flatMap fun b _ => writes_octal b

/-- A character behind a backslash is read as what it stands for. -/
theorem writes_letter {c letter : Char} (h : letters.lookup c = some letter) :
    Writes (Utf8.encode ['\\', letter]) ((Utf8.encodeChar c).map UInt8.toNat) := by
  have hmem : (c, letter) ∈ letters := by
    obtain ⟨before, after, hsplit, -⟩ := List.lookup_eq_some_iff.1 h
    simp [hsplit]
  simp only [letters, List.mem_cons, List.not_mem_nil, or_false, Prod.mk.injEq] at hmem
  rcases hmem with ⟨rfl, rfl⟩ | ⟨rfl, rfl⟩ | ⟨rfl, rfl⟩ | ⟨rfl, rfl⟩ | ⟨rfl, rfl⟩ | ⟨rfl, rfl⟩ |
    ⟨rfl, rfl⟩ | ⟨rfl, rfl⟩ | ⟨rfl, rfl⟩ <;> exact .escape fun rest => rfl

/-- Only the backslash has the byte of a backslash. -/
theorem toNat_ne_of_mem_encodeChar {c : Char} (h : c ≠ '\\') {b : UInt8}
    (hb : b ∈ Utf8.encodeChar c) : b.toNat ≠ 92 := by
  by_cases hc : c.toNat < 0x80
  · rw [Utf8.encodeChar, if_pos hc, List.mem_singleton] at hb
    rw [hb, Utf8.toNat_ofNat (by omega)]
    exact fun hslash => h (Char.toNat_inj.1 hslash)
  · have := Utf8.le_of_mem_encodeChar (by omega) hb
    omega

/-- A character in its form is read as its bytes. -/
theorem writes_form (inOctal : Bool) (c : Char) :
    Writes (Utf8.encode (form inOctal c)) ((Utf8.encodeChar c).map UInt8.toNat) := by
  rw [form]
  split
  · rename_i letter hletter
    exact writes_letter hletter
  · rename_i hnone
    split
    · exact writes_octals _
    · have hslash : c ≠ '\\' := by
        rintro rfl
        cases hnone
      have hone : Utf8.encode [c] = (Utf8.encodeChar c).flatMap fun b => [b] := by
        simp [Utf8.encode]
      rw [hone]
      exact .flatMap fun b hb => .plain (toNat_ne_of_mem_encodeChar hslash hb)

/-- A path in its forms is read as its bytes. -/
theorem writes_formsFrom (inOctal : Nat → Bool) (i : Nat) (path : Text) :
    Writes (Utf8.encode (formsFrom inOctal i path)) ((Utf8.encode path).map UInt8.toNat) := by
  induction path generalizing i with
  | nil => exact .nil
  | cons c path ih =>
    have hbytes : Utf8.encode (c :: path) = Utf8.encodeChar c ++ Utf8.encode path :=
      List.flatMap_cons
    rw [formsFrom, Utf8.encode_append, hbytes, List.map_append]
    exact (writes_form (inOctal i) c).append (ih (i + 1))

theorem bytesOfPoints_map (bytes : Bytes) : bytesOfPoints (bytes.map UInt8.toNat) = .ok bytes := by
  have hbefore : (bytes.map UInt8.toNat).takeWhile (· < 256) = bytes.map UInt8.toNat := by
    rw [List.takeWhile_eq_self_iff]
    intro n hn
    obtain ⟨b, -, rfl⟩ := List.mem_map.1 hn
    exact decide_eq_true b.toNat_lt
  have hback : (bytes.map UInt8.toNat).map UInt8.ofNat = bytes := by
    simp [List.map_map, Function.comp_def]
  rw [bytesOfPoints, hbefore, List.drop_length, List.takeWhile_nil, hback]

/-- The quotes are taken off, and what is between them is read. -/
theorem readQuoted_eq (body : Text) : readQuoted ('"' :: (body ++ ['"'])) = (do
    let points ← pointsFrom 0 0 (Utf8.encode body)
    return Utf8.decodeReplacing (← bytesOfPoints points)) := by
  have hlast : ('"' :: (body ++ ['"'])).getLast? = some '"' := by
    rw [← List.cons_append, List.getLast?_concat]
  have htrim : Text.trim ('"' :: (body ++ ['"'])) = '"' :: (body ++ ['"']) := by
    apply Text.trim_eq_self
    · rfl
    · rw [hlast]
      rfl
  rw [readQuoted, htrim, hlast]
  cases body with
  | nil => rfl
  | cons c body =>
    show (do
      let points ← pointsFrom 0 0 (Utf8.encode (c :: body ++ ['"']).dropLast)
      return Utf8.decodeReplacing (← bytesOfPoints points)) = _
    rw [List.dropLast_concat]

/-- A path between quotes is read as this path, whichever of its characters are in octal. -/
theorem readQuoted_quoted (inOctal : Nat → Bool) (path : Text) :
    readQuoted (quoted inOctal path) = .ok path := by
  have hpoints : pointsFrom 0 0 (Utf8.encode (formsFrom inOctal 0 path)) =
      .ok ((Utf8.encode path).map UInt8.toNat) := by
    have hwrites := writes_formsFrom inOctal 0 path 0 []
    rw [List.append_nil, pointsFrom] at hwrites
    simpa using hwrites
  rw [quoted, readQuoted_eq, hpoints]
  show (do return Utf8.decodeReplacing (← bytesOfPoints _)) = _
  rw [bytesOfPoints_map]
  exact congrArg Except.ok (Utf8.decodeReplacing_encode path)

/-- One character in octal in front of a digit, one as it is, and a backslash in front of digits. -/
example : let path := "é1è\\303\"\n\x7f b".toList
    quoted (· == 0) path = "\"\\303\\2511è\\\\303\\\"\\n\\177 b\"".toList ∧
      readQuoted (quoted (· == 0) path) = .ok path := by
  decide +kernel

end Git

end TodoTracker
