import YapLang.Text.Utf8

/-!
# Encoded text is decoded

The bytes of a text are decoded to its characters. A character takes one to four bytes; in each case
the first one says how many follow, and the bounds of the second one leave out what would be too
short, a half of a pair, or beyond the last character.
-/
namespace YapLang.Text.Utf8

/-- The bytes of a text. -/
def encode (s : String) : List UInt8 :=
  s.toByteArray.data.toList

theorem encode_eq_flatMap (s : String) : encode s = s.toList.flatMap String.utf8EncodeChar := by
  have bytes : s.toByteArray = s.toList.utf8Encode := by
    rw [← String.toByteArray_ofList, String.ofList_toList]
  rw [encode, bytes, List.utf8Encode, List.toList_data_toByteArray]

theorem toNat_byte {n : Nat} (bound : n < 256) : (UInt8.ofNat n).toNat = n :=
  Nat.mod_eq_of_lt bound

/-- A byte that is within its bounds adds six bits to the number. -/
theorem follow_cons {least greatest value count n : Nat} {more : Follow} {bytes : List UInt8}
    (bound : n < 256) (within : least ≤ n ∧ n ≤ greatest) :
    follow value count ((least, greatest) :: more) (UInt8.ofNat n :: bytes) =
      follow (64 * value + (n - 0x80)) (count + 1) more bytes := by
  rw [follow, toNat_byte bound, if_pos within]

/-- What the bytes of a character are decoded to, given what the first one says. -/
theorem decodeFrom_cons {first value n : Nat} {more : Follow} {bytes rest : List UInt8} {c : Char}
    (bound : first < 256) (leads : lead? first = some (value, more))
    (follows : follow value 1 more bytes = .ok (n, rest)) (isChar : n = c.toNat) (fuel offset : Nat)
    (before : List Char) :
    decodeFrom (fuel + 1) offset before (UInt8.ofNat first :: bytes) =
      decodeFrom fuel (offset + 1 + more.length) (c :: before) rest := by
  rw [decodeFrom, toNat_byte bound, leads]
  simp only [follows, isChar, Char.ofNat_toNat]

/-! ### First bytes -/

theorem lead?_two {high : Nat} (least : 2 ≤ high) (greatest : high < 32) :
    lead? (high + 0xc0) = some (high, [(0x80, 0xbf)]) := by
  rw [lead?, if_neg (by omega), if_neg (by omega), if_pos (by omega), Nat.add_sub_cancel]

/-- The second of three bytes is bounded so that the number is neither too small nor that of a half
of a pair. -/
theorem lead?_three {high second : Nat} (greatest : high < 16) (byte : second < 64)
    (notShort : high = 0 → 32 ≤ second) (notHalf : high = 13 → second < 32) :
    ∃ bounds, lead? (high + 0xe0) = some (high, [bounds, (0x80, 0xbf)]) ∧
      bounds.1 ≤ second + 0x80 ∧ second + 0x80 ≤ bounds.2 := by
  unfold lead?
  rw [if_neg (by omega), if_neg (by omega), if_neg (by omega)]
  by_cases zero : high = 0
  · subst zero
    have long := notShort rfl
    exact ⟨(0xa0, 0xbf), rfl, by omega, by omega⟩
  · by_cases half : high = 13
    · subst half
      have short := notHalf rfl
      exact ⟨(0x80, 0x9f), rfl, by omega, by omega⟩
    · rw [if_neg (by omega), if_neg (by omega), if_pos (by omega), Nat.add_sub_cancel]
      exact ⟨(0x80, 0xbf), rfl, by omega, by omega⟩

/-- The second of four bytes is bounded so that the number is neither too small nor too great. -/
theorem lead?_four {high second : Nat} (greatest : high ≤ 4) (byte : second < 64)
    (notShort : high = 0 → 16 ≤ second) (notBeyond : high = 4 → second < 16) :
    ∃ bounds, lead? (high + 0xf0) = some (high, [bounds, (0x80, 0xbf), (0x80, 0xbf)]) ∧
      bounds.1 ≤ second + 0x80 ∧ second + 0x80 ≤ bounds.2 := by
  unfold lead?
  rw [if_neg (by omega), if_neg (by omega), if_neg (by omega), if_neg (by omega), if_neg (by omega),
    if_neg (by omega)]
  by_cases zero : high = 0
  · subst zero
    have long := notShort rfl
    exact ⟨(0x90, 0xbf), rfl, by omega, by omega⟩
  · by_cases last : high = 4
    · subst last
      have short := notBeyond rfl
      exact ⟨(0x80, 0x8f), rfl, by omega, by omega⟩
    · rw [if_neg (by omega), if_pos (by omega), Nat.add_sub_cancel]
      exact ⟨(0x80, 0xbf), rfl, by omega, by omega⟩

/-! ### Characters and texts -/

theorem decodeFrom_char (c : Char) (fuel offset : Nat) (before : List Char) (rest : List UInt8) :
    ∃ later, decodeFrom (fuel + 1) offset before (String.utf8EncodeChar c ++ rest) =
      decodeFrom fuel later (c :: before) rest := by
  -- no character has the number of a half or one beyond the last plane
  have valid : c.toNat < 0xd800 ∨ 0xdfff < c.toNat ∧ c.toNat < 0x110000 := c.valid
  have same : c.val.toNat = c.toNat := rfl
  unfold String.utf8EncodeChar
  rw [same]
  generalize number : c.toNat = v at valid
  dsimp only
  split
  next one =>
    have leads : lead? v = some (v, []) := by
      rw [lead?, if_pos (by omega)]
    have follows : follow v 1 [] rest = .ok (v, rest) := by
      rw [follow]
    exact ⟨_, decodeFrom_cons (by omega) leads follows number.symm fuel offset before⟩
  · split
    next two =>
      have high : v / 64 % 32 = v / 64 := by omega
      have leads := lead?_two (by omega : 2 ≤ v / 64) (by omega)
      have follows : follow (v / 64) 1 [(0x80, 0xbf)] (UInt8.ofNat (v % 64 + 128) :: rest) =
          .ok (v, rest) := by
        -- six bits come from each byte that follows
        have sum : 64 * (v / 64) + (v % 64 + 128 - 0x80) = v := by omega
        rw [follow_cons (by omega) (by omega), follow, sum]
      rw [high]
      exact ⟨_, decodeFrom_cons (by omega) leads follows number.symm fuel offset before⟩
    · split
      next three =>
        have high : v / 4096 % 16 = v / 4096 := by omega
        obtain ⟨bounds, leads, least, greatest⟩ :=
          lead?_three (by omega : v / 4096 < 16) (by omega : v / 64 % 64 < 64) (by omega) (by omega)
        have follows : follow (v / 4096) 1 [bounds, (0x80, 0xbf)]
            (UInt8.ofNat (v / 64 % 64 + 128) :: UInt8.ofNat (v % 64 + 128) :: rest) =
              .ok (v, rest) := by
          have sum : 64 * (64 * (v / 4096) + (v / 64 % 64 + 128 - 0x80)) + (v % 64 + 128 - 0x80) =
              v := by omega
          rw [follow_cons (by omega) ⟨least, greatest⟩, follow_cons (by omega) (by omega), follow,
            sum]
        rw [high]
        exact ⟨_, decodeFrom_cons (by omega) leads follows number.symm fuel offset before⟩
      next four =>
        have high : v / 262144 % 8 = v / 262144 := by omega
        obtain ⟨bounds, leads, least, greatest⟩ :=
          lead?_four (by omega : v / 262144 ≤ 4) (by omega : v / 4096 % 64 < 64) (by omega)
            (by omega)
        have follows : follow (v / 262144) 1 [bounds, (0x80, 0xbf), (0x80, 0xbf)]
            (UInt8.ofNat (v / 4096 % 64 + 128) :: UInt8.ofNat (v / 64 % 64 + 128) ::
              UInt8.ofNat (v % 64 + 128) :: rest) = .ok (v, rest) := by
          have sum : 64 * (64 * (64 * (v / 262144) + (v / 4096 % 64 + 128 - 0x80)) +
              (v / 64 % 64 + 128 - 0x80)) + (v % 64 + 128 - 0x80) = v := by omega
          rw [follow_cons (by omega) ⟨least, greatest⟩, follow_cons (by omega) (by omega),
            follow_cons (by omega) (by omega), follow, sum]
        rw [high]
        exact ⟨_, decodeFrom_cons (by omega) leads follows number.symm fuel offset before⟩

theorem decodeFrom_flatMap (cs : List Char) {fuel : Nat} (enough : cs.length ≤ fuel) (offset : Nat)
    (before : List Char) :
    decodeFrom fuel offset before (cs.flatMap String.utf8EncodeChar) =
      .ok (before.reverse ++ cs) := by
  induction cs generalizing fuel offset before with
  | nil => simp [decodeFrom]
  | cons c cs ih =>
    rw [List.length_cons] at enough
    obtain ⟨fuel, rfl⟩ := Nat.exists_eq_succ_of_ne_zero (by omega : fuel ≠ 0)
    obtain ⟨later, step⟩ :=
      decodeFrom_char c fuel offset before (cs.flatMap String.utf8EncodeChar)
    rw [List.flatMap_cons, step, ih (by omega)]
    simp

theorem length_le_flatMap (cs : List Char) :
    cs.length ≤ (cs.flatMap String.utf8EncodeChar).length := by
  induction cs with
  | nil => exact Nat.le_refl 0
  | cons c cs ih =>
    have one := c.utf8Size_pos
    rw [List.flatMap_cons, List.length_append, List.length_cons, String.length_utf8EncodeChar]
    omega

/-- The bytes of a text are decoded to its characters. -/
theorem decode_encode (s : String) : decode (encode s) = .ok s.toList := by
  rw [encode_eq_flatMap, decode, decodeFrom_flatMap s.toList (length_le_flatMap s.toList)]
  rfl

end YapLang.Text.Utf8
