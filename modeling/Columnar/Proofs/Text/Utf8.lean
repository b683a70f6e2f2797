import Columnar.Text.Utf8
import Mathlib.Data.List.TakeWhile

/-!
# Decoding what was encoded

A character is written as one sequence of bytes, and decoding reads one sequence at a time. Every
written text is read back. An ASCII character is its own byte, and the bytes of all others are not
those of ASCII, so what is done to the ASCII characters of a text can be done to its bytes.
-/

namespace Columnar.Text.Utf8

/-- The bytes that write a text. -/
def encode (cs : List Char) : List UInt8 := cs.flatMap String.utf8EncodeChar

theorem encode_toList (text : String) : encode text.toList = text.toUTF8.data.toList := by
  rw [String.toUTF8, ← String.utf8Encode_toList, List.utf8Encode, List.data_toByteArray]
  rfl

@[simp] theorem encode_nil : encode [] = [] := rfl

@[simp] theorem encode_cons (c : Char) (cs : List Char) :
    encode (c :: cs) = String.utf8EncodeChar c ++ encode cs := List.flatMap_cons

@[simp] theorem encode_append (cs ds : List Char) : encode (cs ++ ds) = encode cs ++ encode ds :=
  List.flatMap_append

/-! ## Bytes as numbers -/

theorem following?_eq (b : UInt8) :
    following? b =
      if b.toNat < 0x80 then some 0
      else if b.toNat < 0xC2 then none
      else if b.toNat < 0xE0 then some 1
      else if b.toNat < 0xF0 then some 2
      else if b.toNat < 0xF5 then some 3
      else none := rfl

theorem continues_iff {b : UInt8} : continues b = true ↔ 0x80 ≤ b.toNat ∧ b.toNat ≤ 0xBF := by
  simp only [continues, Bool.and_eq_true, decide_eq_true_eq]
  rfl

/-- The second byte continues the sequence, and four first bytes leave it less room. -/
theorem secondFits_iff {first b : UInt8} : secondFits first b = true ↔
    0x80 ≤ b.toNat ∧ b.toNat ≤ 0xBF ∧
      (first.toNat = 0xE0 → 0xA0 ≤ b.toNat) ∧ (first.toNat = 0xF0 → 0x90 ≤ b.toNat) ∧
      (first.toNat = 0xED → b.toNat ≤ 0x9F) ∧ (first.toNat = 0xF4 → b.toNat ≤ 0x8F) := by
  have hfirst (n : UInt8) : first = n ↔ first.toNat = n.toNat := UInt8.toNat_inj.symm
  have hbytes : secondFits first b = true ↔
      (if first.toNat = 0xE0 then 0xA0 else if first.toNat = 0xF0 then 0x90 else 0x80) ≤ b.toNat ∧
      b.toNat ≤ if first.toNat = 0xED then 0x9F else if first.toNat = 0xF4 then 0x8F else 0xBF := by
    simp only [secondFits, Bool.and_eq_true, decide_eq_true_eq, UInt8.le_iff_toNat_le, hfirst,
      apply_ite UInt8.toNat]
    rfl
  rw [hbytes]
  split_ifs <;> omega

/-- The last six bits of a number, as a later byte of a sequence. -/
def laterByte (n : Nat) : UInt8 := UInt8.ofNat (n % 64 + 128)

theorem toNat_laterByte (n : Nat) : (laterByte n).toNat = n % 64 + 128 := by
  have hn : n % 64 < 64 := Nat.mod_lt n (by decide)
  exact UInt8.toNat_ofNat_of_lt' (by change _ < 256; omega)

theorem continues_laterByte (n : Nat) : continues (laterByte n) = true := by
  have hn : n % 64 < 64 := Nat.mod_lt n (by decide)
  rw [continues_iff, toNat_laterByte]
  omega

/-- All later bytes of a sequence are taken, whatever is behind them. -/
theorem continuation_append {first second : UInt8} {tail : List UInt8}
    (hsecond : secondFits first second = true) (htail : ∀ b ∈ tail, continues b = true)
    (rest : List UInt8) :
    continuation first (tail.length + 1) (second :: tail ++ rest) = second :: tail := by
  have htake : tail.takeWhile continues = tail := List.takeWhile_eq_self_iff.mpr htail
  simp [continuation, hsecond, htake]

/-- No later byte of a sequence is one of ASCII. -/
theorem le_of_mem_continuation {first b : UInt8} {count : Nat} {rest : List UInt8}
    (h : b ∈ continuation first count rest) : 0x80 ≤ b.toNat := by
  unfold continuation at h
  split at h
  · cases h
  · split at h
    · cases h
    · rename_i hfits
      rcases List.mem_cons.mp h with rfl | h
      · have hsecond : secondFits first b = true := by simpa using (not_or.mp hfits).2
        exact (secondFits_iff.mp hsecond).1
      · exact (continues_iff.mp (List.mem_takeWhile_imp h)).1

/-! ## One character -/

/-- The bytes of one character as decoding meets them. -/
structure Writes (c : Char) (first : UInt8) (tail : List UInt8) : Prop where
  bytes : String.utf8EncodeChar c = first :: tail
  following : following? first = some tail.length
  continuation : ∀ rest, continuation first tail.length (tail ++ rest) = tail
  codePoint : codePoint first tail = c.toNat

/-- ASCII characters apart, no byte is one of ASCII. -/
theorem Writes.le_of_mem {c : Char} {first : UInt8} {tail : List UInt8} (h : Writes c first tail)
    (hc : 0x80 ≤ c.toNat) : ∀ b ∈ first :: tail, 0x80 ≤ b.toNat := by
  intro b hb
  rcases List.mem_cons.mp hb with rfl | hb
  · -- A first byte of ASCII has nothing behind it and is the code point.
    by_contra hlow
    have hfollowing := h.following
    rw [following?_eq, if_pos (Nat.not_le.mp hlow)] at hfollowing
    obtain rfl : tail = [] := List.length_eq_zero_iff.mp (Option.some.inj hfollowing).symm
    have hpoint : b.toNat = c.toNat := h.codePoint
    exact hlow (hpoint ▸ hc)
  · have htail := h.continuation []
    rw [List.append_nil] at htail
    exact le_of_mem_continuation (htail.symm ▸ hb)

theorem toNat_valid (c : Char) : c.toNat < 0xD800 ∨ 0xDFFF < c.toNat ∧ c.toNat < 0x110000 := c.valid

variable {c : Char}

/-- An ASCII character as a byte. -/
theorem toNat_ofNat_of_ascii (h : c.toNat < 0x80) : (UInt8.ofNat c.toNat).toNat = c.toNat :=
  UInt8.toNat_ofNat_of_lt' (by change _ < 256; omega)

theorem writes_one (h : c.toNat < 0x80) : Writes c (UInt8.ofNat c.toNat) [] := by
  have hfirst : (UInt8.ofNat c.toNat).toNat = c.toNat := toNat_ofNat_of_ascii h
  constructor
  · have hone : c.val.toNat ≤ 0x7F := Nat.le_of_lt_succ h
    simp only [String.utf8EncodeChar, if_pos hone]
    rfl
  · rw [following?_eq, hfirst, if_pos h]
    rfl
  · intro rest
    cases rest with
    | nil => rfl
    | cons b rest => simp [Utf8.continuation]
  · exact hfirst

theorem writes_two (h : 0x80 ≤ c.toNat) (h' : c.toNat < 0x800) :
    Writes c (UInt8.ofNat (c.toNat / 64 % 32 + 192)) [laterByte c.toNat] := by
  have hfirst : (UInt8.ofNat (c.toNat / 64 % 32 + 192)).toNat = c.toNat / 64 + 192 := by
    rw [UInt8.toNat_ofNat_of_lt' (by change _ < 256; omega)]
    omega
  constructor
  · have hone : ¬ c.val.toNat ≤ 0x7F := Nat.not_le.mpr h
    have htwo : c.val.toNat ≤ 0x7FF := Nat.le_of_lt_succ h'
    simp only [String.utf8EncodeChar, if_neg hone, if_pos htwo]
    rfl
  · rw [following?_eq, hfirst, if_neg (by omega), if_neg (by omega), if_pos (by omega)]
    rfl
  · refine continuation_append ?_ (by simp)
    rw [secondFits_iff, hfirst, toNat_laterByte]
    omega
  · change (UInt8.ofNat (c.toNat / 64 % 32 + 192)).toNat % 32 * 64 + (laterByte c.toNat).toNat % 64
      = c.toNat
    rw [hfirst, toNat_laterByte]
    omega

theorem writes_three (h : 0x800 ≤ c.toNat) (h' : c.toNat < 0x10000) :
    Writes c (UInt8.ofNat (c.toNat / 4096 % 16 + 224))
      [laterByte (c.toNat / 64), laterByte c.toNat] := by
  have hfirst : (UInt8.ofNat (c.toNat / 4096 % 16 + 224)).toNat = c.toNat / 4096 + 224 := by
    rw [UInt8.toNat_ofNat_of_lt' (by change _ < 256; omega)]
    omega
  constructor
  · have hone : ¬ c.val.toNat ≤ 0x7F := by change ¬ c.toNat ≤ _; omega
    have htwo : ¬ c.val.toNat ≤ 0x7FF := Nat.not_le.mpr h
    have hthree : c.val.toNat ≤ 0xFFFF := Nat.le_of_lt_succ h'
    simp only [String.utf8EncodeChar, if_neg hone, if_neg htwo, if_pos hthree]
    rfl
  · rw [following?_eq, hfirst, if_neg (by omega), if_neg (by omega), if_neg (by omega),
      if_pos (by omega)]
    rfl
  · refine continuation_append ?_ (by simp [continues_laterByte])
    -- Behind 0xE0 nothing shorter is written, and behind 0xED no surrogate.
    have hvalid := toNat_valid c
    rw [secondFits_iff, hfirst, toNat_laterByte]
    omega
  · change ((UInt8.ofNat (c.toNat / 4096 % 16 + 224)).toNat % 16 * 64 +
      (laterByte (c.toNat / 64)).toNat % 64) * 64 + (laterByte c.toNat).toNat % 64 = c.toNat
    rw [hfirst, toNat_laterByte, toNat_laterByte]
    omega

theorem writes_four (h : 0x10000 ≤ c.toNat) :
    Writes c (UInt8.ofNat (c.toNat / 262144 % 8 + 240))
      [laterByte (c.toNat / 4096), laterByte (c.toNat / 64), laterByte c.toNat] := by
  have hvalid := toNat_valid c
  have hfirst : (UInt8.ofNat (c.toNat / 262144 % 8 + 240)).toNat = c.toNat / 262144 + 240 := by
    rw [UInt8.toNat_ofNat_of_lt' (by change _ < 256; omega)]
    omega
  constructor
  · have hone : ¬ c.val.toNat ≤ 0x7F := by change ¬ c.toNat ≤ _; omega
    have htwo : ¬ c.val.toNat ≤ 0x7FF := by change ¬ c.toNat ≤ _; omega
    have hthree : ¬ c.val.toNat ≤ 0xFFFF := Nat.not_le.mpr h
    simp only [String.utf8EncodeChar, if_neg hone, if_neg htwo, if_neg hthree]
    rfl
  · rw [following?_eq, hfirst, if_neg (by omega), if_neg (by omega), if_neg (by omega),
      if_neg (by omega), if_pos (by omega)]
    rfl
  · refine continuation_append ?_ (by simp [continues_laterByte])
    rw [secondFits_iff, hfirst, toNat_laterByte]
    omega
  · change (((UInt8.ofNat (c.toNat / 262144 % 8 + 240)).toNat % 8 * 64 +
      (laterByte (c.toNat / 4096)).toNat % 64) * 64 + (laterByte (c.toNat / 64)).toNat % 64) * 64 +
        (laterByte c.toNat).toNat % 64 = c.toNat
    rw [hfirst, toNat_laterByte, toNat_laterByte, toNat_laterByte]
    omega

/-- Every character is written as one sequence, as many bytes long as its code point needs. -/
theorem exists_writes (c : Char) : ∃ first tail, Writes c first tail := by
  by_cases h1 : c.toNat < 0x80
  · exact ⟨_, _, writes_one h1⟩
  by_cases h2 : c.toNat < 0x800
  · exact ⟨_, _, writes_two (Nat.not_lt.mp h1) h2⟩
  by_cases h3 : c.toNat < 0x10000
  · exact ⟨_, _, writes_three (Nat.not_lt.mp h2) h3⟩
  · exact ⟨_, _, writes_four (Nat.not_lt.mp h3)⟩

/-! ## A whole text -/

theorem decodeFrom_encode (cs : List Char) {fuel : Nat} (hfuel : (encode cs).length ≤ fuel)
    (position : Nat) : decodeFrom fuel position (encode cs) = .ok cs := by
  induction cs generalizing fuel position with
  | nil => cases fuel <;> rfl
  | cons c cs ih =>
    obtain ⟨first, tail, h⟩ := exists_writes c
    rw [encode_cons, h.bytes, List.cons_append] at hfuel ⊢
    cases fuel with
    | zero => cases hfuel
    | succ fuel =>
      have hrest : (encode cs).length ≤ fuel := by
        simp only [List.length_cons, List.length_append] at hfuel
        omega
      simp only [decodeFrom, h.following, h.continuation, if_true, List.drop_left, ih hrest,
        h.codePoint, Char.ofNat_toNat]
      rfl

/-- A written text is read back. -/
theorem decode_encode (cs : List Char) : decode (encode cs) = .ok cs :=
  decodeFrom_encode cs (Nat.le_refl _) 0

theorem encode_injective {cs ds : List Char} (h : encode cs = encode ds) : cs = ds := by
  have hdecode : decode (encode cs) = decode (encode ds) := congrArg decode h
  rw [decode_encode, decode_encode] at hdecode
  exact Except.ok.inj hdecode

/-! ## ASCII among other characters -/

theorem encodeChar_of_ascii (h : c.toNat < 0x80) :
    String.utf8EncodeChar c = [UInt8.ofNat c.toNat] := (writes_one h).bytes

theorem le_of_mem_encodeChar (h : 0x80 ≤ c.toNat) {b : UInt8}
    (hb : b ∈ String.utf8EncodeChar c) : 0x80 ≤ b.toNat := by
  obtain ⟨first, tail, hc⟩ := exists_writes c
  rw [hc.bytes] at hb
  exact hc.le_of_mem h b hb

/-- The byte of an ASCII character is found in the bytes of no other character. -/
theorem mem_encodeChar_iff {a : Char} (ha : a.toNat < 0x80) :
    UInt8.ofNat a.toNat ∈ String.utf8EncodeChar c ↔ a = c := by
  by_cases hc : c.toNat < 0x80
  · rw [encodeChar_of_ascii hc, List.mem_singleton, ← UInt8.toNat_inj,
      toNat_ofNat_of_ascii ha, toNat_ofNat_of_ascii hc]
    exact Char.toNat_inj
  · constructor
    · intro hmem
      have hhigh := le_of_mem_encodeChar (Nat.not_lt.mp hc) hmem
      rw [toNat_ofNat_of_ascii ha] at hhigh
      omega
    · rintro rfl
      exact absurd ha hc

theorem mem_encode_iff {a : Char} (ha : a.toNat < 0x80) {cs : List Char} :
    UInt8.ofNat a.toNat ∈ encode cs ↔ a ∈ cs := by
  simp only [encode, List.mem_flatMap, mem_encodeChar_iff ha, exists_eq_right']

end Columnar.Text.Utf8
