import YellowTree.Lib.ListSplit

/-!
# BitFlags — words of named flags

A list of flags gives each name a bit of a word.  `decode` reads a word as a table of truth values, `encode` puts a
table together again.  `encode_decode`: what comes back is the word without the bits that no flag has.
-/

namespace BitFlags

variable {κ : Type*} {n m : ℕ}

/-! ## Words and tables -/

section Tables

/-- The word with the given bits set. -/
def mask (n : ℕ) (bits : List ℕ) : BitVec n := bits.foldr (fun i w => .twoPow n i ||| w) 0

/-- The table of a word. -/
def decode (flags : List (κ × ℕ)) (w : BitVec n) : List (κ × Bool) := flags.map fun f => (f.1, w.getLsbD f.2)

variable [BEq κ]

/-- The word of a table; a flag that the table does not have is not set. -/
def encode (n : ℕ) (flags : List (κ × ℕ)) (table : List (κ × Bool)) : BitVec n :=
  mask n ((flags.filter fun f => (table.lookup f.1).getD false).map Prod.snd)

end Tables

/-! ## One bit -/

section Bit

/-- A test of one bit whose result is narrowed. -/
theorem setWidth_and_twoPow_ne_zero (w : BitVec n) {i : ℕ} (hn : i < n) (hm : i < m) :
    ((w &&& .twoPow n i).setWidth m != 0) = w.getLsbD i := by
  rw [BitVec.and_twoPow]
  cases w.getLsbD i with
  | false => simp
  | true =>
    have hbit : (BitVec.setWidth m (BitVec.twoPow n i)).getLsbD i = true := by simp [hn, hm]
    rw [if_pos rfl, bne_iff_ne]
    intro heq
    rw [heq, BitVec.ofNat_eq_ofNat, BitVec.getLsbD_zero] at hbit
    cases hbit

/-- The word restricted to some bits is put together from those that are set. -/
theorem and_mask (w : BitVec n) (bits : List ℕ) : w &&& mask n bits = mask n (bits.filter w.getLsbD) := by
  induction bits with
  | nil => simp [mask]
  | cons i bits ih =>
    have hcons : ∀ bits, mask n (i :: bits) = .twoPow n i ||| mask n bits := fun _ => rfl
    rw [hcons, BitVec.and_or_distrib_left, ih, BitVec.and_twoPow, List.filter_cons]
    split_ifs
    · rw [hcons]
    · rw [BitVec.zero_or]

end Bit

/-! ## There and back -/

section Lookup

variable [BEq κ] [LawfulBEq κ] {flags : List (κ × ℕ)} {f : κ × ℕ}

/-- The entry of a flag. -/
theorem lookup_decode (w : BitVec n) (hnodup : (flags.map Prod.fst).Nodup) (hf : f ∈ flags) :
    (decode flags w).lookup f.1 = some (w.getLsbD f.2) := by
  have hnames : ((decode flags w).map Prod.fst).Nodup := by
    rw [decode, List.map_map]
    exact hnodup
  have hmem : (f.1, w.getLsbD f.2) ∈ decode flags w := List.mem_map_of_mem hf
  exact ListSplit.lookup_of_mem hnames hmem

theorem encode_decode (w : BitVec n) (hnodup : (flags.map Prod.fst).Nodup) :
    encode n flags (decode flags w) = w &&& mask n (flags.map Prod.snd) := by
  have hfilter : ∀ f ∈ flags, ((decode flags w).lookup f.1).getD false = w.getLsbD f.2 := by
    intro f hf
    rw [lookup_decode w hnodup hf]
    rfl
  rw [encode, and_mask, List.filter_congr hfilter, List.filter_map]
  rfl

end Lookup

end BitFlags
