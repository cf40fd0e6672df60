import YellowTree.Lib.BitFlags

/-!
# YellowTree.Bridge.Modifiers — the tables of field and method modifiers

`lj_get_field_modifiers_table` and `lj_get_method_modifiers_table` test a word of access flags bit by bit, with the
constants of the JDK's `classfile_constants.h`.  `fieldFlags` and `methodFlags` are the tables of JVMS 4.5 and 4.6.
Fields and methods share bits: 0x0020 is synchronized of a method, 0x0040 volatile of a field and bridge of a method,
0x0080 transient of a field and varargs of a method.

* `modifiers_iff`: both tables are right exactly when the bits 0x0020 and 0x0040 of the word agree, since `volatile`
  is read from JVM_ACC_SYNCHRONIZED.
-/

namespace YellowTree

open BitFlags

/-! ## The embedding -/

section Embedding

def jvmAccPublic : BitVec 64 := 0x0001
def jvmAccPrivate : BitVec 64 := 0x0002
def jvmAccProtected : BitVec 64 := 0x0004
def jvmAccStatic : BitVec 64 := 0x0008
def jvmAccFinal : BitVec 64 := 0x0010
def jvmAccSynchronized : BitVec 64 := 0x0020
def jvmAccBridge : BitVec 64 := 0x0040
def jvmAccVarargs : BitVec 64 := 0x0080
def jvmAccTransient : BitVec 64 := 0x0080
def jvmAccNative : BitVec 64 := 0x0100
def jvmAccAbstract : BitVec 64 := 0x0400
def jvmAccStrict : BitVec 64 := 0x0800
def jvmAccSynthetic : BitVec 64 := 0x1000
def jvmAccEnum : BitVec 64 := 0x4000

/-- `lua_pushboolean(L, modifiers & flag)`: the argument is an int. -/
def pushedFlag (modifiers flag : BitVec 64) : Bool := (modifiers &&& flag).setWidth 32 != 0

/-- A table made by `lua_pushboolean` and `lua_setfield`, entry by entry. -/
def modifiersTable (modifiers : BitVec 64) (fields : List (String × BitVec 64)) : List (String × Bool) :=
  fields.map fun field => (field.1, pushedFlag modifiers field.2)

/-- `lj_get_field_modifiers_table`. -/
def ljGetFieldModifiersTable (modifiers : BitVec 64) : List (String × Bool) :=
  modifiersTable modifiers
    [("public", jvmAccPublic), ("private", jvmAccPrivate), ("protected", jvmAccProtected), ("static", jvmAccStatic),
      ("final", jvmAccFinal), ("volatile", jvmAccSynchronized), ("transient", jvmAccTransient),
      ("synthetic", jvmAccSynthetic), ("enum", jvmAccEnum)]

/-- `lj_get_method_modifiers_table`. -/
def ljGetMethodModifiersTable (modifiers : BitVec 64) : List (String × Bool) :=
  modifiersTable modifiers
    [("public", jvmAccPublic), ("private", jvmAccPrivate), ("protected", jvmAccProtected), ("static", jvmAccStatic),
      ("final", jvmAccFinal), ("synchronized", jvmAccSynchronized), ("bridge", jvmAccBridge),
      ("varargs", jvmAccVarargs), ("native", jvmAccNative), ("abstract", jvmAccAbstract), ("strict", jvmAccStrict),
      ("synthetic", jvmAccSynthetic)]

end Embedding

/-! ## Access flags -/

section Spec

/-- JVMS 4.5: the modifiers of a field and their bits. -/
def fieldFlags : List (String × ℕ) :=
  [("public", 0), ("private", 1), ("protected", 2), ("static", 3), ("final", 4), ("volatile", 6), ("transient", 7),
    ("synthetic", 12), ("enum", 14)]

/-- JVMS 4.6: the modifiers of a method and their bits. -/
def methodFlags : List (String × ℕ) :=
  [("public", 0), ("private", 1), ("protected", 2), ("static", 3), ("final", 4), ("synchronized", 5), ("bridge", 6),
    ("varargs", 7), ("native", 8), ("abstract", 10), ("strict", 11), ("synthetic", 12)]

/-- A table has one entry for each flag, true when its bit is set, and gives back the defined bits of the word. -/
structure DecodesFlags (flags : List (String × ℕ)) (modifiers : BitVec 64) (table : List (String × Bool)) : Prop where
  names : table.map Prod.fst = flags.map Prod.fst
  entry : ∀ f ∈ flags, table.lookup f.1 = some (modifiers.getLsbD f.2)
  encoded : encode 64 flags table = modifiers &&& mask 64 (flags.map Prod.snd)

end Spec

/-! ## The tables -/

section Tables

variable {modifiers : BitVec 64}

theorem decodesFlags_decode {flags : List (String × ℕ)} (hnodup : (flags.map Prod.fst).Nodup) :
    DecodesFlags flags modifiers (decode flags modifiers) where
  names := by
    rw [decode, List.map_map]
    rfl
  entry _ hf := lookup_decode modifiers hnodup hf
  encoded := encode_decode modifiers hnodup

/-- A table whose tests are of single bits. -/
theorem modifiersTable_eq (flags : List (String × ℕ)) (h : ∀ f ∈ flags, f.2 < 32) :
    modifiersTable modifiers (flags.map fun f => (f.1, .twoPow 64 f.2)) = decode flags modifiers := by
  rw [modifiersTable, List.map_map]
  refine List.map_congr_left fun f hf => congrArg (Prod.mk f.1) ?_
  have hbit := h f hf
  exact setWidth_and_twoPow_ne_zero modifiers (by omega) hbit

theorem methodModifiers_eq : ljGetMethodModifiersTable modifiers = decode methodFlags modifiers :=
  modifiersTable_eq methodFlags (by decide)

/-- The flags that the field table tests. -/
def testedFieldFlags : List (String × ℕ) :=
  [("public", 0), ("private", 1), ("protected", 2), ("static", 3), ("final", 4), ("volatile", 5), ("transient", 7),
    ("synthetic", 12), ("enum", 14)]

theorem fieldModifiers_eq : ljGetFieldModifiersTable modifiers = decode testedFieldFlags modifiers :=
  modifiersTable_eq testedFieldFlags (by decide)

/-- The entry for `volatile`. -/
theorem lookup_volatile : (ljGetFieldModifiersTable modifiers).lookup "volatile" = some (modifiers.getLsbD 5) := by
  have hnames : (testedFieldFlags.map Prod.fst).Nodup := by decide
  have hmem : ("volatile", 5) ∈ testedFieldFlags := by decide
  rw [fieldModifiers_eq]
  exact lookup_decode modifiers hnames hmem

/-- **Both tables are right exactly when `volatile` and `synchronized` agree in the word.** -/
theorem modifiers_iff (modifiers : BitVec 64) :
    DecodesFlags fieldFlags modifiers (ljGetFieldModifiersTable modifiers) ∧
        DecodesFlags methodFlags modifiers (ljGetMethodModifiersTable modifiers) ↔
      modifiers.getLsbD 5 = modifiers.getLsbD 6 := by
  constructor
  · rintro ⟨hfield, -⟩
    have hvolatile := hfield.entry ("volatile", 6) (by decide)
    rw [lookup_volatile] at hvolatile
    exact Option.some.inj hvolatile
  · intro h
    have hfield : decode testedFieldFlags modifiers = decode fieldFlags modifiers := by
      simp only [decode, testedFieldFlags, fieldFlags, List.map_cons, List.map_nil, h]
    rw [fieldModifiers_eq, methodModifiers_eq, hfield]
    exact ⟨decodesFlags_decode (by decide), decodesFlags_decode (by decide)⟩

/-- A volatile field is not shown as one. -/
theorem volatileField_not_decodes :
    ¬ (DecodesFlags fieldFlags 0x0040 (ljGetFieldModifiersTable 0x0040) ∧
      DecodesFlags methodFlags 0x0040 (ljGetMethodModifiersTable 0x0040)) := by
  rintro ⟨h, -⟩
  exact absurd (h.entry ("volatile", 6) (by decide)) (by decide)

end Tables

end YellowTree
