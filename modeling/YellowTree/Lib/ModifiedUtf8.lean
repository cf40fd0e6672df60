import Mathlib.Data.List.Basic
import Mathlib.Tactic.SplitIfs

/-!
# ModifiedUtf8 — UTF-16, and the modified UTF-8 of Java

`utf16 c` is a character as one or two 16-bit units, `modifiedUtf8 u` a unit as one to three bytes, where U+0000 takes
two.  Modified UTF-8 encodes each unit by itself, so it is UTF-8 for the characters of one unit except U+0000
(`modifiedUtf8_utf16`), and it never has the bytes that UTF-8 gives to the others: no byte of it is 0 or begins a
sequence of four (`modifiedUtf8_byte`).  `decode` reads it back (`decode_modifiedUtf8`).
-/

namespace ModifiedUtf8

/-! ## Encodings -/

section Encoding

/-- The UTF-16 code units of a character. -/
def utf16 (c : Char) : List UInt16 :=
  let n := c.val.toNat
  if n < 0x10000 then [.ofNat n]
  else [.ofNat (0xD800 + (n - 0x10000) / 0x400), .ofNat (0xDC00 + (n - 0x10000) % 0x400)]

/-- The modified UTF-8 encoding of a unit. -/
def modifiedUtf8 (u : UInt16) : List UInt8 :=
  let n := u.toNat
  if n = 0 then [0xC0, 0x80]
  else if n < 0x80 then [.ofNat n]
  else if n < 0x800 then [.ofNat (0xC0 + n / 64), .ofNat (0x80 + n % 64)]
  else [.ofNat (0xE0 + n / 4096), .ofNat (0x80 + n / 64 % 64), .ofNat (0x80 + n % 64)]

/-- The characters that modified UTF-8 encodes as UTF-8 does. -/
def Plain (c : Char) : Prop := c ≠ Char.ofNat 0 ∧ c.val.toNat < 0x10000

theorem val_ne_zero {c : Char} (h : c ≠ Char.ofNat 0) : c.val.toNat ≠ 0 := by
  intro h0
  exact h (Char.ext (UInt32.toNat_inj.mp h0))

theorem modifiedUtf8_utf16 {c : Char} (hc : Plain c) : (utf16 c).flatMap modifiedUtf8 = String.utf8EncodeChar c := by
  obtain ⟨h0, hlt⟩ := hc
  have hpos := val_ne_zero h0
  have hn : (UInt16.ofNat c.val.toNat).toNat = c.val.toNat := UInt16.toNat_ofNat_of_lt' hlt
  unfold utf16 String.utf8EncodeChar
  dsimp only
  rw [if_pos hlt, List.flatMap_singleton]
  unfold modifiedUtf8
  dsimp only
  rw [hn, if_neg hpos]
  generalize c.val.toNat = n at hlt hpos
  by_cases h1 : n < 0x80
  · rw [if_pos h1, if_pos (by omega)]
  · by_cases h2 : n < 0x800
    · have hlead : n / 64 % 32 + 0xC0 = 0xC0 + n / 64 := by omega
      rw [if_neg h1, if_pos h2, if_neg (by omega), if_pos (by omega), hlead, Nat.add_comm 0x80]
    · have hlead : n / 4096 % 16 + 0xE0 = 0xE0 + n / 4096 := by omega
      rw [if_neg h1, if_neg h2, if_neg (by omega), if_neg (by omega), if_pos (by omega), hlead, Nat.add_comm 0x80,
        Nat.add_comm 0x80]

/-- No byte of modified UTF-8 is 0, and none begins a sequence of four bytes. -/
theorem modifiedUtf8_byte {u : UInt16} {b : UInt8} (h : b ∈ modifiedUtf8 u) : b.toNat ≠ 0 ∧ b.toNat < 0xF0 := by
  have hu : u.toNat < 65536 := u.toNat_lt
  unfold modifiedUtf8 at h
  dsimp only at h
  split_ifs at h with h0 h1 h2
  · simp only [List.mem_cons, List.not_mem_nil, or_false] at h
    rcases h with rfl | rfl <;> decide
  · simp only [List.mem_singleton] at h
    subst h
    rw [UInt8.toNat_ofNat']
    omega
  · simp only [List.mem_cons, List.not_mem_nil, or_false] at h
    rcases h with rfl | rfl <;> rw [UInt8.toNat_ofNat'] <;> omega
  · simp only [List.mem_cons, List.not_mem_nil, or_false] at h
    rcases h with rfl | rfl | rfl <;> rw [UInt8.toNat_ofNat'] <;> omega

/-- UTF-8 uses such a byte for each of the other characters. -/
theorem utf8EncodeChar_byte {c : Char} (hc : ¬ Plain c) :
    ∃ b ∈ String.utf8EncodeChar c, b.toNat = 0 ∨ 0xF0 ≤ b.toNat := by
  unfold Plain at hc
  by_cases h0 : c = Char.ofNat 0
  · subst h0
    exact ⟨0, List.mem_cons_self, Or.inl rfl⟩
  · have hge : ¬ c.val.toNat < 0x10000 := fun hlt => hc ⟨h0, hlt⟩
    refine ⟨.ofNat (c.val.toNat / 262144 % 8 + 0xF0), ?_, Or.inr ?_⟩
    · unfold String.utf8EncodeChar
      dsimp only
      rw [if_neg (by omega), if_neg (by omega), if_neg (by omega)]
      exact List.mem_cons_self
    · rw [UInt8.toNat_ofNat']
      omega

end Encoding

/-! ## Decoding -/

section Decoding

def unit1 (a : UInt8) : UInt16 := .ofNat a.toNat
def unit2 (a b : UInt8) : UInt16 := .ofNat (a.toNat % 32 * 64 + b.toNat % 64)
def unit3 (a b c : UInt8) : UInt16 := .ofNat (a.toNat % 16 * 4096 + b.toNat % 64 * 64 + c.toNat % 64)

/-- The units of modified UTF-8 bytes; other bytes are read as they come. -/
def decode : List UInt8 → List UInt16
  | [] => []
  | [a] => [unit1 a]
  | [a, b] => if a.toNat < 0xC0 then unit1 a :: decode [b] else [unit2 a b]
  | a :: b :: c :: rest =>
    if a.toNat < 0xC0 then unit1 a :: decode (b :: c :: rest)
    else if a.toNat < 0xE0 then unit2 a b :: decode (c :: rest)
    else unit3 a b c :: decode rest

theorem decode_one {a : UInt8} (h : a.toNat < 0xC0) (rest : List UInt8) :
    decode (a :: rest) = unit1 a :: decode rest := by
  rcases rest with - | ⟨b, - | ⟨c, rest⟩⟩
  · rfl
  · show (if a.toNat < 0xC0 then unit1 a :: decode [b] else [unit2 a b]) = _
    rw [if_pos h]
  · rw [decode, if_pos h]

theorem decode_two {a b : UInt8} (h : 0xC0 ≤ a.toNat) (h' : a.toNat < 0xE0) (rest : List UInt8) :
    decode (a :: b :: rest) = unit2 a b :: decode rest := by
  rcases rest with - | ⟨c, rest⟩
  · show (if a.toNat < 0xC0 then unit1 a :: decode [b] else [unit2 a b]) = _
    rw [if_neg (by omega)]
    rfl
  · rw [decode, if_neg (by omega), if_pos h']

theorem decode_three {a b c : UInt8} (h : 0xE0 ≤ a.toNat) (rest : List UInt8) :
    decode (a :: b :: c :: rest) = unit3 a b c :: decode rest := by
  rw [decode, if_neg (by omega), if_neg (by omega)]

theorem decode_append (u : UInt16) (rest : List UInt8) : decode (modifiedUtf8 u ++ rest) = u :: decode rest := by
  have hu : u.toNat < 65536 := u.toNat_lt
  unfold modifiedUtf8
  dsimp only
  split_ifs with h0 h1 h2
  · obtain rfl : u = 0 := UInt16.toNat_inj.mp h0
    exact decode_two (by decide) (by decide) rest
  · rw [List.singleton_append, decode_one (by rw [UInt8.toNat_ofNat']; omega)]
    congr 1
    apply UInt16.toNat_inj.mp
    rw [unit1, UInt16.toNat_ofNat', UInt8.toNat_ofNat']
    omega
  · rw [List.cons_append, List.singleton_append,
      decode_two (by rw [UInt8.toNat_ofNat']; omega) (by rw [UInt8.toNat_ofNat']; omega)]
    congr 1
    apply UInt16.toNat_inj.mp
    rw [unit2, UInt16.toNat_ofNat', UInt8.toNat_ofNat', UInt8.toNat_ofNat']
    omega
  · rw [List.cons_append, List.cons_append, List.singleton_append,
      decode_three (by rw [UInt8.toNat_ofNat']; omega)]
    congr 1
    apply UInt16.toNat_inj.mp
    rw [unit3, UInt16.toNat_ofNat', UInt8.toNat_ofNat', UInt8.toNat_ofNat', UInt8.toNat_ofNat']
    omega

theorem decode_modifiedUtf8 : ∀ units : List UInt16, decode (units.flatMap modifiedUtf8) = units
  | [] => rfl
  | u :: units => by rw [List.flatMap_cons, decode_append, decode_modifiedUtf8 units]

end Decoding

end ModifiedUtf8
