import ImportAudit.Text.Utf8

/-! Text written as UTF-8 is read back: the one to four bytes of a code point are one well-formed
sequence, whatever comes behind them. -/
namespace ImportAudit.Text.Utf8

variable {byte : UInt8} {rest seen : Bytes} {bits low high further : Nat}

theorem toNat_toUInt8 {n : Nat} (small : n < 256) : n.toUInt8.toNat = n := by
  simp [Nat.mod_eq_of_lt small]

section Steps

theorem piecesFrom_single (leads : lead? byte.toNat = some ⟨0, low, high, bits⟩) :
    piecesFrom none (byte :: rest) = .scalar (Char.ofNat bits) :: piecesFrom none rest := by
  simp [piecesFrom, opening, leads]

theorem piecesFrom_leading (leads : lead? byte.toNat = some ⟨further + 1, low, high, bits⟩) :
    piecesFrom none (byte :: rest) =
      piecesFrom (some ⟨[byte], bits, low, high, further⟩) rest := by
  simp [piecesFrom, opening, leads]

theorem piecesFrom_inner (fits : low ≤ byte.toNat ∧ byte.toNat ≤ high) :
    piecesFrom (some ⟨seen, bits, low, high, further + 1⟩) (byte :: rest) =
      piecesFrom (some ⟨seen ++ [byte], bits * 64 + byte.toNat % 64, 0x80, 0xBF, further⟩) rest := by
  simp [piecesFrom, resume, fits]

theorem piecesFrom_last (fits : low ≤ byte.toNat ∧ byte.toNat ≤ high) :
    piecesFrom (some ⟨seen, bits, low, high, 0⟩) (byte :: rest) =
      .scalar (Char.ofNat (bits * 64 + byte.toNat % 64)) :: piecesFrom none rest := by
  simp [piecesFrom, resume, fits]

end Steps

section Leads

variable {code : Nat}

theorem lead?_two (least : 0x80 ≤ code) (most : code < 0x800) :
    lead? (0xC0 + code / 64) = some ⟨1, 0x80, 0xBF, code / 64⟩ := by
  have bits : (0xC0 + code / 64) % 32 = code / 64 := by omega
  rw [lead?, if_neg (by omega), if_neg (by omega), if_pos (by omega), bits]

/-- The second byte of three is in its range, since the code point is neither written too long nor a
surrogate. -/
theorem lead?_three (least : 0x800 ≤ code) (most : code < 0x10000)
    (valid : code < 0xD800 ∨ 0xDFFF < code) :
    ∃ low high, lead? (0xE0 + code / 4096) = some ⟨2, low, high, code / 4096⟩ ∧
      low ≤ 0x80 + code / 64 % 64 ∧ 0x80 + code / 64 % 64 ≤ high := by
  rw [lead?, if_neg (by omega), if_neg (by omega), if_neg (by omega)]
  by_cases first : code / 4096 = 0
  · rw [if_pos (by omega), first]
    exact ⟨_, _, rfl, by omega, by omega⟩
  · rw [if_neg (by omega)]
    by_cases surrogates : code / 4096 = 13
    · rw [if_pos (by omega), surrogates]
      exact ⟨_, _, rfl, by omega, by omega⟩
    · have bits : (0xE0 + code / 4096) % 16 = code / 4096 := by omega
      rw [if_neg (by omega), if_pos (by omega), bits]
      exact ⟨_, _, rfl, by omega, by omega⟩

/-- The second byte of four is in its range, since the code point is neither written too long nor past
the last one. -/
theorem lead?_four (least : 0x10000 ≤ code) (most : code < 0x110000) :
    ∃ low high, lead? (0xF0 + code / 262144) = some ⟨3, low, high, code / 262144⟩ ∧
      low ≤ 0x80 + code / 4096 % 64 ∧ 0x80 + code / 4096 % 64 ≤ high := by
  rw [lead?, if_neg (by omega), if_neg (by omega), if_neg (by omega), if_neg (by omega),
    if_neg (by omega), if_neg (by omega)]
  by_cases first : code / 262144 = 0
  · rw [if_pos (by omega), first]
    exact ⟨_, _, rfl, by omega, by omega⟩
  · rw [if_neg (by omega)]
    by_cases last : code / 262144 = 4
    · rw [if_neg (by omega), if_pos (by omega), last]
      exact ⟨_, _, rfl, by omega, by omega⟩
    · have bits : (0xF0 + code / 262144) % 8 = code / 262144 := by omega
      rw [if_pos (by omega), bits]
      exact ⟨_, _, rfl, by omega, by omega⟩

end Leads

theorem continuation_fits (n : Nat) : 0x80 ≤ (0x80 + n % 64).toUInt8.toNat ∧
    (0x80 + n % 64).toUInt8.toNat ≤ 0xBF := by
  rw [toNat_toUInt8 (by omega)]
  omega

theorem continuation_bits (n : Nat) : (0x80 + n % 64).toUInt8.toNat % 64 = n % 64 := by
  rw [toNat_toUInt8 (by omega)]
  omega

/-- The bytes of a code point are one piece, and what follows starts anew. -/
theorem pieces_encodeChar (c : Char) (rest : Bytes) :
    pieces (encodeChar c ++ rest) = .scalar c :: pieces rest := by
  have valid : c.toNat < 0xD800 ∨ 0xDFFF < c.toNat ∧ c.toNat < 0x110000 := c.valid
  have whole {n : Nat} (same : n = c.toNat) : Piece.scalar (Char.ofNat n) = .scalar c := by
    rw [same, Char.ofNat_toNat]
  unfold encodeChar pieces
  dsimp only
  split
  · rename_i most
    have leads : lead? c.toNat.toUInt8.toNat = some ⟨0, 0x80, 0xBF, c.toNat⟩ := by
      rw [toNat_toUInt8 (by omega), lead?, if_pos most]
    rw [List.singleton_append, piecesFrom_single leads, whole rfl]
  · split
    · rename_i least most
      have leads := lead?_two (Nat.le_of_not_lt least) most
      rw [← toNat_toUInt8 (n := 0xC0 + c.toNat / 64) (by omega)] at leads
      simp only [List.cons_append, List.nil_append]
      rw [piecesFrom_leading leads, piecesFrom_last (continuation_fits _), continuation_bits,
        whole (by omega)]
    · split
      · rename_i _ least most
        obtain ⟨low, high, leads, fits⟩ := lead?_three (Nat.le_of_not_lt least) most (by omega)
        rw [← toNat_toUInt8 (n := 0xE0 + c.toNat / 4096) (by omega)] at leads
        rw [← toNat_toUInt8 (n := 0x80 + c.toNat / 64 % 64) (by omega)] at fits
        simp only [List.cons_append, List.nil_append]
        rw [piecesFrom_leading leads, piecesFrom_inner fits, piecesFrom_last (continuation_fits _),
          continuation_bits, continuation_bits, whole (by omega)]
      · rename_i _ _ least
        obtain ⟨low, high, leads, fits⟩ := lead?_four (Nat.le_of_not_lt least) (by omega)
        rw [← toNat_toUInt8 (n := 0xF0 + c.toNat / 262144) (by omega)] at leads
        rw [← toNat_toUInt8 (n := 0x80 + c.toNat / 4096 % 64) (by omega)] at fits
        simp only [List.cons_append, List.nil_append]
        rw [piecesFrom_leading leads, piecesFrom_inner fits, piecesFrom_inner (continuation_fits _),
          piecesFrom_last (continuation_fits _), continuation_bits, continuation_bits,
          continuation_bits, whole (by omega)]

theorem pieces_encode (text : Text) : pieces (encode text) = text.map .scalar := by
  induction text with
  | nil => rfl
  | cons c text ih =>
      rw [encode, List.flatMap_cons, pieces_encodeChar, List.map_cons]
      exact congrArg _ ih

/-- Text is read back from its bytes. -/
theorem decodeLossy_encode (text : Text) : decodeLossy (encode text) = text := by
  rw [decodeLossy, pieces_encode, List.map_map]
  exact List.map_id text

/-- The bytes of a code point are those of the standard encoding. -/
theorem encodeChar_eq (c : Char) : encodeChar c = String.utf8EncodeChar c := by
  have valid : c.toNat < 0xD800 ∨ 0xDFFF < c.toNat ∧ c.toNat < 0x110000 := c.valid
  have two (most : c.toNat < 0x800) : 0xC0 + c.toNat / 64 = c.toNat / 64 % 32 + 192 := by omega
  have three (most : c.toNat < 0x10000) : 0xE0 + c.toNat / 4096 = c.toNat / 4096 % 16 + 224 := by omega
  have four : 0xF0 + c.toNat / 262144 = c.toNat / 262144 % 8 + 240 := by omega
  have continuation (n : Nat) : 0x80 + n % 64 = n % 64 + 128 := Nat.add_comm _ _
  unfold encodeChar String.utf8EncodeChar
  simp only [show c.val.toNat = c.toNat from rfl]
  by_cases one : c.toNat < 0x80
  · rw [if_pos one, if_pos (Nat.le_of_lt_succ one)]
  rw [if_neg one, if_neg (mt Nat.lt_succ_of_le one)]
  by_cases some : c.toNat < 0x800
  · rw [if_pos some, if_pos (Nat.le_of_lt_succ some), two some, continuation]
  rw [if_neg some, if_neg (mt Nat.lt_succ_of_le some)]
  by_cases many : c.toNat < 0x10000
  · rw [if_pos many, if_pos (Nat.le_of_lt_succ many), three many, continuation, continuation]
  rw [if_neg many, if_neg (mt Nat.lt_succ_of_le many), four, continuation, continuation, continuation]

theorem encode_eq_toUTF8 (text : Text) : encode text = (String.ofList text).toUTF8.data.toList := by
  have bytes : (String.ofList text).toUTF8.data.toList = text.flatMap String.utf8EncodeChar :=
    List.toList_data_toByteArray
  rw [bytes, encode, funext encodeChar_eq]

end ImportAudit.Text.Utf8
