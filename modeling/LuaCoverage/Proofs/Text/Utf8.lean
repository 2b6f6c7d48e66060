import LuaCoverage.Text.Utf8

/-!
# UTF-8 both ways

A byte string that is decoded is the encoding of what it is decoded to: the leading byte and the
bytes that trail it are those that the encoder writes for their character.

Results:
* `le_of_mem_encodeChar`: characters above ASCII are written without bytes of ASCII.
* `encode_of_decode`: encoding undoes decoding.
* `decode_encode`: decoding undoes encoding.
-/

namespace LuaCoverage.Text.Utf8

theorem toNat_lt (c : Char) : c.toNat < 0x110000 := by
  have hvalid : c.toNat < 0xd800 ∨ 0xdfff < c.toNat ∧ c.toNat < 0x110000 := c.valid
  omega

/-- The encoding of a character above ASCII has no byte of ASCII. -/
theorem le_of_mem_encodeChar {c : Char} (h : 0x80 ≤ c.toNat) {b : UInt8}
    (hb : b ∈ encodeChar c) : 0x80 ≤ b.toNat := by
  have hmax := toNat_lt c
  have hbyte : ∀ v, 0x80 ≤ v → v < 0x100 → 0x80 ≤ (UInt8.ofNat v).toNat := by
    intro v hlow hhigh
    rw [UInt8.toNat_ofNat']
    omega
  simp only [encodeChar, if_neg (Nat.not_lt.2 h)] at hb
  split at hb
  · simp only [List.mem_cons, List.not_mem_nil, or_false] at hb
    rcases hb with rfl | rfl <;> apply hbyte <;> omega
  · split at hb
    · simp only [List.mem_cons, List.not_mem_nil, or_false] at hb
      rcases hb with rfl | rfl | rfl <;> apply hbyte <;> omega
    · simp only [List.mem_cons, List.not_mem_nil, or_false] at hb
      rcases hb with rfl | rfl | rfl | rfl <;> apply hbyte <;> omega

theorem inRange_iff {low high b : UInt8} :
    (low ≤ b && b ≤ high) = true ↔ low.toNat ≤ b.toNat ∧ b.toNat ≤ high.toNat := by
  simp [UInt8.le_iff_toNat_le]

theorem beq_iff_toNat {b v : UInt8} : (b == v) = true ↔ b.toNat = v.toNat := by
  simp [UInt8.toNat_inj]

/-- What the lead byte of a longer character promises, by the number of bytes that trail it. -/
theorem lead?_cases {b : UInt8} {lead : Lead} (h : lead? b = some lead) :
    (lead.trailing = 1 ∧ lead.bits = b.toNat - 0xc0 ∧ 0xc2 ≤ b.toNat ∧ b.toNat ≤ 0xdf
      ∧ lead.low.toNat = 0x80 ∧ lead.high.toNat = 0xbf)
    ∨ (lead.trailing = 2 ∧ lead.bits = b.toNat - 0xe0 ∧ 0xe0 ≤ b.toNat ∧ b.toNat ≤ 0xef
      ∧ 0x80 ≤ lead.low.toNat ∧ lead.high.toNat ≤ 0xbf
      ∧ (b.toNat = 0xe0 → lead.low.toNat = 0xa0) ∧ (b.toNat = 0xed → lead.high.toNat = 0x9f))
    ∨ (lead.trailing = 3 ∧ lead.bits = b.toNat - 0xf0 ∧ 0xf0 ≤ b.toNat ∧ b.toNat ≤ 0xf4
      ∧ 0x80 ≤ lead.low.toNat ∧ lead.high.toNat ≤ 0xbf
      ∧ (b.toNat = 0xf0 → lead.low.toNat = 0x90) ∧ (b.toNat = 0xf4 → lead.high.toNat = 0x8f)) := by
  simp only [lead?, inRange_iff, beq_iff_toNat, UInt8.reduceToNat] at h
  split at h
  · cases h
    exact .inl (by simp; omega)
  · split at h
    · cases h
      exact .inr (.inl (by simp; omega))
    · split at h
      · cases h
        exact .inr (.inl (by simp; omega))
      · split at h
        · cases h
          exact .inr (.inl (by simp; omega))
        · split at h
          · cases h
            exact .inr (.inr (by simp; omega))
          · split at h
            · cases h
              exact .inr (.inr (by simp; omega))
            · split at h
              · cases h
                exact .inr (.inr (by simp; omega))
              · cases h

/-- A byte that trails stands in the range that was promised. -/
theorem trail_succ {missing code width total : Nat} {low high : UInt8} {bytes : Bytes} {c : Char}
    (h : trail (missing + 1) low high code width bytes = .char c total) :
    ∃ b rest, bytes = b :: rest ∧ low.toNat ≤ b.toNat ∧ b.toNat ≤ high.toNat
      ∧ trail missing 0x80 0xbf (code * 64 + (b.toNat - 0x80)) (width + 1) rest
        = .char c total := by
  cases bytes with
  | nil => cases h
  | cons b rest =>
    simp only [trail] at h
    split at h
    · next hb =>
      obtain ⟨hlow, hhigh⟩ := inRange_iff.1 hb
      exact ⟨b, rest, rfl, hlow, hhigh, h⟩
    · cases h

theorem toNat_ofNat {n : Nat} (h : n < 0xd800 ∨ 0xdfff < n ∧ n < 0x110000) :
    (Char.ofNat n).toNat = n := by
  have hvalid : n.isValidChar := h
  unfold Char.ofNat
  rw [dif_pos hvalid]
  rfl

theorem char_of_trail_zero {low high : UInt8} {code width total : Nat} {bytes : Bytes} {c : Char}
    (h : trail 0 low high code width bytes = .char c total)
    (hcode : code < 0xd800 ∨ 0xdfff < code ∧ code < 0x110000) :
    c.toNat = code ∧ width = total := by
  simp only [trail, Part.char.injEq] at h
  obtain ⟨rfl, rfl⟩ := h
  exact ⟨toNat_ofNat hcode, rfl⟩

theorem encodeChar_two {c : Char} (hlow : 0x80 ≤ c.toNat) (hhigh : c.toNat < 0x800) :
    encodeChar c = [UInt8.ofNat (0xc0 + c.toNat / 64), UInt8.ofNat (0x80 + c.toNat % 64)] := by
  simp only [encodeChar, if_neg (Nat.not_lt.2 hlow), if_pos hhigh]

theorem encodeChar_three {c : Char} (hlow : 0x800 ≤ c.toNat) (hhigh : c.toNat < 0x10000) :
    encodeChar c = [UInt8.ofNat (0xe0 + c.toNat / 4096), UInt8.ofNat (0x80 + c.toNat / 64 % 64),
      UInt8.ofNat (0x80 + c.toNat % 64)] := by
  have hascii : ¬c.toNat < 0x80 := by omega
  simp only [encodeChar, if_neg hascii, if_neg (Nat.not_lt.2 hlow), if_pos hhigh]

theorem encodeChar_four {c : Char} (hlow : 0x10000 ≤ c.toNat) :
    encodeChar c = [UInt8.ofNat (0xf0 + c.toNat / 262144),
      UInt8.ofNat (0x80 + c.toNat / 4096 % 64), UInt8.ofNat (0x80 + c.toNat / 64 % 64),
      UInt8.ofNat (0x80 + c.toNat % 64)] := by
  have hascii : ¬c.toNat < 0x80 := by omega
  have htwo : ¬c.toNat < 0x800 := by omega
  simp only [encodeChar, if_neg hascii, if_neg htwo, if_neg (Nat.not_lt.2 hlow)]

theorem ofNat_eq {b : UInt8} {n : Nat} (h : n = b.toNat) : UInt8.ofNat n = b := by
  rw [h, UInt8.ofNat_toNat]

/-- The bytes of a part that is a character are those that the encoder writes for it. -/
theorem encodeChar_of_part {b : UInt8} {rest : Bytes} {c : Char} {width : Nat}
    (h : part b rest = .char c width) : encodeChar c ++ rest.drop (width - 1) = b :: rest := by
  unfold part at h
  split at h
  · next hb =>
    have hlt : b.toNat < 0x80 := hb
    cases h
    rw [encodeChar, toNat_ofNat (by omega), if_pos hlt, UInt8.ofNat_toNat]
    rfl
  · split at h
    · next lead hlead =>
      rcases lead?_cases hlead with
        ⟨ht, hbits, hlow, hhigh, hl, hh⟩ | ⟨ht, hbits, hlow, hhigh, hl, hh, hfirst, hlast⟩
        | ⟨ht, hbits, hlow, hhigh, hl, hh, hfirst, hlast⟩
      · rw [ht] at h
        obtain ⟨b1, rest1, rfl, hl1, hh1, h⟩ := trail_succ h
        obtain ⟨hc, rfl⟩ := char_of_trail_zero h (by omega)
        rw [encodeChar_two (by omega) (by omega), ofNat_eq (b := b) (by omega),
          ofNat_eq (b := b1) (by omega)]
        rfl
      · rw [ht] at h
        obtain ⟨b1, rest1, rfl, hl1, hh1, h⟩ := trail_succ h
        obtain ⟨b2, rest2, rfl, hl2, hh2, h⟩ := trail_succ h
        simp only [UInt8.reduceToNat] at hl2 hh2
        obtain ⟨hc, rfl⟩ := char_of_trail_zero h (by omega)
        rw [encodeChar_three (by omega) (by omega), ofNat_eq (b := b) (by omega),
          ofNat_eq (b := b1) (by omega), ofNat_eq (b := b2) (by omega)]
        rfl
      · rw [ht] at h
        obtain ⟨b1, rest1, rfl, hl1, hh1, h⟩ := trail_succ h
        obtain ⟨b2, rest2, rfl, hl2, hh2, h⟩ := trail_succ h
        obtain ⟨b3, rest3, rfl, hl3, hh3, h⟩ := trail_succ h
        simp only [UInt8.reduceToNat] at hl2 hh2 hl3 hh3
        obtain ⟨hc, rfl⟩ := char_of_trail_zero h (by omega)
        rw [encodeChar_four (by omega), ofNat_eq (b := b) (by omega),
          ofNat_eq (b := b1) (by omega), ofNat_eq (b := b2) (by omega),
          ofNat_eq (b := b3) (by omega)]
        rfl
    · cases h

theorem encode_of_decodeFrom {skip start : Nat} {bytes : Bytes} {chars : List Char}
    (h : decodeFrom skip start bytes = .ok chars) : encode chars = bytes.drop skip := by
  induction bytes generalizing skip start chars with
  | nil =>
    simp only [decodeFrom] at h
    cases h
    simp [encode]
  | cons b rest ih =>
    cases skip with
    | succ skip => exact ih h
    | zero =>
      simp only [decodeFrom] at h
      split at h
      · cases h
      · next c width hpart =>
        cases hrest : decodeFrom (width - 1) (start + 1) rest with
        | error e => rw [hrest] at h; cases h
        | ok more =>
          rw [hrest] at h
          cases h
          have hmore := ih hrest
          rw [List.drop_zero, ← encodeChar_of_part hpart, ← hmore]
          rfl

/-- Encoding undoes decoding. -/
theorem encode_of_decode {bytes : Bytes} {chars : List Char} (h : decode bytes = .ok chars) :
    encode chars = bytes := by
  simpa using encode_of_decodeFrom h

/-! ## The other way -/

/-- What a byte promises if it can start a character of more than one byte. -/
theorem exists_lead {b : UInt8} (hlow : 0xc2 ≤ b.toNat) (hhigh : b.toNat ≤ 0xf4) :
    ∃ lead, lead? b = some lead
      ∧ (b.toNat ≠ 0xe0 → b.toNat ≠ 0xf0 → lead.low.toNat = 0x80)
      ∧ (b.toNat ≠ 0xed → b.toNat ≠ 0xf4 → lead.high.toNat = 0xbf) := by
  simp only [lead?, inRange_iff, beq_iff_toNat, UInt8.reduceToNat]
  split
  · exact ⟨_, rfl, by simp⟩
  · split
    · exact ⟨_, rfl, by simp; omega⟩
    · split
      · exact ⟨_, rfl, by simp; omega⟩
      · split
        · exact ⟨_, rfl, by simp⟩
        · split
          · exact ⟨_, rfl, by simp; omega⟩
          · split
            · exact ⟨_, rfl, by simp⟩
            · split
              · exact ⟨_, rfl, by simp; omega⟩
              · omega

theorem trail_of_mem {low high b : UInt8} (hlow : low.toNat ≤ b.toNat) (hhigh : b.toNat ≤ high.toNat)
    (missing code width : Nat) (rest : Bytes) :
    trail (missing + 1) low high code width (b :: rest)
      = trail missing 0x80 0xbf (code * 64 + (b.toNat - 0x80)) (width + 1) rest := by
  rw [trail, if_pos (inRange_iff.2 ⟨hlow, hhigh⟩)]

theorem part_of_lead {b : UInt8} {lead : Lead} (hb : 0x80 ≤ b.toNat) (h : lead? b = some lead)
    (rest : Bytes) :
    part b rest = trail lead.trailing lead.low lead.high lead.bits 1 rest := by
  have hlong : ¬b < 0x80 := Nat.not_lt.2 hb
  rw [part, if_neg hlong, h]

theorem ofNat_eq_char {n : Nat} {c : Char} (h : n = c.toNat) : Char.ofNat n = c := by
  rw [h, Char.ofNat_toNat]

theorem part_two {b b1 : UInt8} {c : Char} (hlow : 0x80 ≤ c.toNat) (hhigh : c.toNat < 0x800)
    (hb : b.toNat = 0xc0 + c.toNat / 64) (hb1 : b1.toNat = 0x80 + c.toNat % 64) (rest : Bytes) :
    part b (b1 :: rest) = .char c 2 := by
  obtain ⟨lead, hlead, hl, hh⟩ := exists_lead (b := b) (by omega) (by omega)
  rcases lead?_cases hlead with ⟨ht, hbits, -⟩ | ⟨-, -, h1, -⟩ | ⟨-, -, h1, -⟩
  · rw [part_of_lead (by omega) hlead, ht, trail_of_mem (by omega) (by omega), trail,
      ofNat_eq_char (c := c) (by omega)]
  · omega
  · omega

theorem part_three {b b1 b2 : UInt8} {c : Char} (hlow : 0x800 ≤ c.toNat)
    (hhigh : c.toNat < 0x10000) (hb : b.toNat = 0xe0 + c.toNat / 4096)
    (hb1 : b1.toNat = 0x80 + c.toNat / 64 % 64) (hb2 : b2.toNat = 0x80 + c.toNat % 64)
    (rest : Bytes) : part b (b1 :: b2 :: rest) = .char c 3 := by
  have hvalid : c.toNat < 0xd800 ∨ 0xdfff < c.toNat ∧ c.toNat < 0x110000 := c.valid
  obtain ⟨lead, hlead, hl, hh⟩ := exists_lead (b := b) (by omega) (by omega)
  rcases lead?_cases hlead with
    ⟨-, -, -, h1, -⟩ | ⟨ht, hbits, -, -, -, -, hfirst, hlast⟩ | ⟨-, -, h1, -⟩
  · omega
  · rw [part_of_lead (by omega) hlead, ht, trail_of_mem (by omega) (by omega),
      trail_of_mem (by simp; omega) (by simp; omega), trail, ofNat_eq_char (c := c) (by omega)]
  · omega

theorem part_four {b b1 b2 b3 : UInt8} {c : Char} (hlow : 0x10000 ≤ c.toNat)
    (hb : b.toNat = 0xf0 + c.toNat / 262144) (hb1 : b1.toNat = 0x80 + c.toNat / 4096 % 64)
    (hb2 : b2.toNat = 0x80 + c.toNat / 64 % 64) (hb3 : b3.toNat = 0x80 + c.toNat % 64)
    (rest : Bytes) : part b (b1 :: b2 :: b3 :: rest) = .char c 4 := by
  have hmax := toNat_lt c
  obtain ⟨lead, hlead, hl, hh⟩ := exists_lead (b := b) (by omega) (by omega)
  rcases lead?_cases hlead with
    ⟨-, -, -, h1, -⟩ | ⟨-, -, -, h1, -⟩ | ⟨ht, hbits, -, -, -, -, hfirst, hlast⟩
  · omega
  · omega
  · rw [part_of_lead (by omega) hlead, ht, trail_of_mem (by omega) (by omega),
      trail_of_mem (by simp; omega) (by simp; omega),
      trail_of_mem (by simp; omega) (by simp; omega), trail, ofNat_eq_char (c := c) (by omega)]

/-- The encoding of a character is a part of its own, whatever follows it. -/
theorem part_encodeChar (c : Char) : ∃ b tail, encodeChar c = b :: tail
    ∧ ∀ rest, part b (tail ++ rest) = .char c (tail.length + 1) := by
  have hmax := toNat_lt c
  have hbyte : ∀ v, v < 0x100 → (UInt8.ofNat v).toNat = v :=
    fun v hv => UInt8.toNat_ofNat_of_lt' hv
  by_cases hascii : c.toNat < 0x80
  · refine ⟨UInt8.ofNat c.toNat, [], by rw [encodeChar, if_pos hascii], fun rest => ?_⟩
    have hb := hbyte c.toNat (by omega)
    have hlt : UInt8.ofNat c.toNat < 0x80 := by
      rw [UInt8.lt_iff_toNat_lt, hb]
      exact hascii
    rw [part, if_pos hlt, hb, Char.ofNat_toNat]
    rfl
  by_cases htwo : c.toNat < 0x800
  · exact ⟨_, _, encodeChar_two (by omega) htwo,
      part_two (by omega) htwo (hbyte _ (by omega)) (hbyte _ (by omega))⟩
  by_cases hthree : c.toNat < 0x10000
  · exact ⟨_, _, encodeChar_three (by omega) hthree, part_three (by omega) hthree
      (hbyte _ (by omega)) (hbyte _ (by omega)) (hbyte _ (by omega))⟩
  · exact ⟨_, _, encodeChar_four (by omega), part_four (by omega) (hbyte _ (by omega))
      (hbyte _ (by omega)) (hbyte _ (by omega)) (hbyte _ (by omega))⟩

/-- An encoding starts with the part of its first character. -/
theorem exists_encode_cons (c : Char) (rest : List Char) : ∃ b tail,
    encode (c :: rest) = b :: (tail ++ encode rest)
      ∧ part b (tail ++ encode rest) = .char c (tail.length + 1) := by
  obtain ⟨b, tail, hencode, hpart⟩ := part_encodeChar c
  refine ⟨b, tail, ?_, hpart _⟩
  rw [encode, List.flatMap_cons, hencode]
  rfl

theorem decodeFrom_append (tail rest : Bytes) (start : Nat) :
    decodeFrom tail.length start (tail ++ rest) = decodeFrom 0 (start + tail.length) rest := by
  induction tail generalizing start with
  | nil => rfl
  | cons b tail ih =>
    rw [List.length_cons, List.cons_append, decodeFrom, ih]
    congr 1
    omega

theorem decodeFrom_encode (chars : List Char) (start : Nat) :
    decodeFrom 0 start (encode chars) = .ok chars := by
  induction chars generalizing start with
  | nil => rfl
  | cons c rest ih =>
    obtain ⟨b, tail, hcons, hpart⟩ := exists_encode_cons c rest
    rw [hcons, decodeFrom, hpart]
    simp only [Nat.add_sub_cancel, decodeFrom_append, ih]
    rfl

/-- Decoding undoes encoding. -/
theorem decode_encode (chars : List Char) : decode (encode chars) = .ok chars :=
  decodeFrom_encode chars 0

end LuaCoverage.Text.Utf8
