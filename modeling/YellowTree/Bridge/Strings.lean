import YellowTree.Bridge.CallableMethod
import YellowTree.Lib.ModifiedUtf8

/-!
# YellowTree.Bridge.Strings — a Lua string to a Java string and back

A String argument is formatted with `%s` by `jcallable_method:__call`, handed to NewStringUTF as a C string by
`lj_call_method`, and read back by `new_string` from the bytes of GetStringUTFChars, which are modified UTF-8.  Each of
the C strings ends at the first NUL.  `Jni` is any NewStringUTF that reads modified UTF-8; what it makes of other bytes
is open.

* `newString_bytes`: what `new_string` gives has no NUL and no four-byte sequence, whatever the Java string.
* `survives_iff`: a text in UTF-8 comes back, and is its UTF-16 units in Java, exactly when each of its characters has
  one unit other than 0.
-/

namespace YellowTree

open ModifiedUtf8

variable {Class Method Ref : Type}

/-! ## Bytes and C strings -/

section Bytes

/-- A Java string: its UTF-16 code units. -/
abbrev JavaString := List UInt16

/-- The bytes of a Lua string. -/
def bytes (s : LuaString) : List UInt8 := s.map fun c => .ofNat c.toNat

def ofBytes (bs : List UInt8) : LuaString := bs.map Char.ofUInt8

/-- A Lua string as a C string. -/
def cString (s : LuaString) : LuaString := s.takeWhile (· ≠ Char.ofNat 0)

/-- The Lua string that holds a text in UTF-8. -/
def utf8 (text : List Char) : LuaString := ofBytes (text.flatMap String.utf8EncodeChar)

theorem bytes_ofBytes (bs : List UInt8) : bytes (ofBytes bs) = bs := by
  have hbyte : ∀ b : UInt8, UInt8.ofNat (Char.ofUInt8 b).toNat = b := by
    intro b
    apply UInt8.toNat_inj.mp
    rw [UInt8.toNat_ofNat']
    show b.toUInt32.toNat % 2 ^ 8 = b.toNat
    have hlt := b.toNat_lt
    rw [UInt8.toNat_toUInt32]
    omega
  have hid : (fun c : Char => UInt8.ofNat c.toNat) ∘ Char.ofUInt8 = id := funext hbyte
  rw [bytes, ofBytes, List.map_map, hid, List.map_id]

theorem cString_eq_self {s : LuaString} (h : Char.ofNat 0 ∉ s) : cString s = s := by
  rw [cString, List.takeWhile_eq_self_iff]
  intro c hc
  exact decide_eq_true fun h0 => h (h0 ▸ hc)

theorem zero_notMem_ofBytes {bs : List UInt8} (h : ∀ b ∈ bs, b.toNat ≠ 0) : Char.ofNat 0 ∉ ofBytes bs := by
  intro hmem
  obtain ⟨b, hb, hzero⟩ := List.mem_map.mp hmem
  refine h b hb ?_
  have hval := congrArg Char.toNat hzero
  change b.toUInt32.toNat = 0 at hval
  rwa [UInt8.toNat_toUInt32] at hval

end Bytes

/-! ## The way of a string -/

section Bridge

/-- NewStringUTF for zero-terminated bytes: it reads modified UTF-8. -/
structure Jni where
  newStringUTF : List UInt8 → JavaString
  newStringUTF_eq : ∀ u : JavaString, newStringUTF (u.flatMap modifiedUtf8) = u

/-- One that reads the units as they come. -/
def Jni.lenient : Jni := ⟨decode, decode_modifiedUtf8⟩

/-- `string.format("%s", s)`: a string of 100 bytes and more is kept as it is, a shorter one goes through `sprintf`. -/
def formatString (s : LuaString) : LuaString := if s.length < 100 then cString s else s

/-- `string.format("%s", v)`, with `tostring` for the other values. -/
def luaFormat (tostring : Value Class Ref → LuaString) : Value Class Ref → LuaString
  | .string s => formatString s
  | v => formatString (tostring v)

/-- The `STR` case of `lj_call_method`. -/
def stringArgument (jni : Jni) (arg : JArg Ref) : Option JavaString :=
  match arg.val with
  | .text s => if arg.tag = "STR".toList then some (jni.newStringUTF (bytes (cString s))) else none
  | _ => none

/-- `new_string`, from the bytes of GetStringUTFChars. -/
def newString (u : JavaString) : LuaString := cString (ofBytes (u.flatMap modifiedUtf8))

/-- A String parameter gets the UTF-16 units of the text, and they are read back as the string that was passed. -/
def Survives (jni : Jni) (env : CallEnv Class Method Ref) (text : List Char) : Prop :=
  ∃ arg u, encodeArg env stringType (.string (utf8 text)) = .ok (some arg) ∧ stringArgument jni arg = some u ∧
    newString u = utf8 text ∧ u = text.flatMap utf16

end Bridge

/-! ## What comes back -/

section Survives

variable {jni : Jni} {env : CallEnv Class Method Ref} {tostring : Value Class Ref → LuaString} {text : List Char}

/-- Nothing is cut from modified UTF-8, and it has no sequence of four bytes. -/
theorem newString_bytes (u : JavaString) :
    bytes (newString u) = u.flatMap modifiedUtf8 ∧ ∀ b ∈ bytes (newString u), b.toNat ≠ 0 ∧ b.toNat < 0xF0 := by
  have hbyte : ∀ b ∈ u.flatMap modifiedUtf8, b.toNat ≠ 0 ∧ b.toNat < 0xF0 := by
    intro b hb
    obtain ⟨_, -, hb⟩ := List.mem_flatMap.mp hb
    exact modifiedUtf8_byte hb
  have hnul := zero_notMem_ofBytes fun b hb => (hbyte b hb).1
  have heq : bytes (newString u) = u.flatMap modifiedUtf8 := by
    rw [newString, cString_eq_self hnul, bytes_ofBytes]
  exact ⟨heq, heq ▸ hbyte⟩

theorem flatMap_modifiedUtf8_utf16 : ∀ {text : List Char}, (∀ c ∈ text, Plain c) →
    (text.flatMap utf16).flatMap modifiedUtf8 = text.flatMap String.utf8EncodeChar
  | [], _ => rfl
  | c :: text, h => by
    rw [List.flatMap_cons, List.flatMap_append, modifiedUtf8_utf16 (h c List.mem_cons_self),
      flatMap_modifiedUtf8_utf16 fun d hd => h d (List.mem_cons_of_mem _ hd), List.flatMap_cons]

/-- Plain characters come back. -/
theorem newString_utf16 (h : ∀ c ∈ text, Plain c) : newString (text.flatMap utf16) = utf8 text := by
  have hbyte : ∀ b ∈ text.flatMap String.utf8EncodeChar, b.toNat ≠ 0 := by
    intro b hb
    rw [← flatMap_modifiedUtf8_utf16 h] at hb
    obtain ⟨_, -, hb⟩ := List.mem_flatMap.mp hb
    exact (modifiedUtf8_byte hb).1
  rw [newString, flatMap_modifiedUtf8_utf16 h]
  exact cString_eq_self (zero_notMem_ofBytes hbyte)

/-- A text that comes back from some Java string is plain. -/
theorem plain_of_newString {u : JavaString} (h : newString u = utf8 text) : ∀ c ∈ text, Plain c := by
  intro c hc
  by_contra hplain
  obtain ⟨b, hb, hbad⟩ := utf8EncodeChar_byte hplain
  have hmem : b ∈ bytes (newString u) := by
    rw [h, utf8, bytes_ofBytes]
    exact List.mem_flatMap.mpr ⟨c, hc, hb⟩
  have hgood := (newString_bytes u).2 b hmem
  omega

/-- A plain text has no NUL, so that the C strings on its way keep all of it. -/
theorem utf8_noNul (h : ∀ c ∈ text, Plain c) : Char.ofNat 0 ∉ utf8 text := by
  rw [← newString_utf16 h, newString]
  exact fun hmem => by simpa using List.mem_takeWhile_imp hmem

theorem formatString_utf8 (h : ∀ c ∈ text, Plain c) : formatString (utf8 text) = utf8 text := by
  unfold formatString
  split_ifs
  · exact cString_eq_self (utf8_noNul h)
  · rfl

/-- A plain text arrives as its UTF-16 units. -/
theorem newStringUTF_utf8 (h : ∀ c ∈ text, Plain c) :
    jni.newStringUTF (bytes (cString (formatString (utf8 text)))) = text.flatMap utf16 := by
  rw [formatString_utf8 h, cString_eq_self (utf8_noNul h), utf8, bytes_ofBytes, ← flatMap_modifiedUtf8_utf16 h,
    jni.newStringUTF_eq]

/-- **A string survives the bridge** exactly when each of its characters has one UTF-16 unit other than 0. -/
theorem survives_iff (jni : Jni) (env : CallEnv Class Method Ref) (tostring : Value Class Ref → LuaString)
    (text : List Char) :
    Survives jni { env with format := luaFormat tostring } text ↔ ∀ c ∈ text, Plain c := by
  constructor
  · rintro ⟨arg, u, -, -, hback, -⟩
    exact plain_of_newString hback
  · intro h
    refine ⟨⟨"STR".toList, .text (formatString (utf8 text))⟩, text.flatMap utf16, rfl, ?_, newString_utf16 h, rfl⟩
    show some (jni.newStringUTF (bytes (cString (formatString (utf8 text))))) = _
    rw [newStringUTF_utf8 h]

/-- U+1F600 takes four bytes in UTF-8 and six in modified UTF-8. -/
theorem grin_not_survives :
    ¬ Survives .lenient { printEnv with format := luaFormat fun _ => [] } [Char.ofNat 0x1F600] := by
  rintro ⟨arg, u, -, -, hback, -⟩
  exact absurd (plain_of_newString hback _ List.mem_cons_self).2 (by decide)

end Survives

end YellowTree
