import YellowTree.Bridge.Strings

/-!
# YellowTree.Bridge.ArrayElements — `a[i] = v` and `a[i]` on a Java array

`jarray:__newindex` looks at the last character of the component type: for a `;` it coerces the value and passes the
object reference on, otherwise the value as it is.  `lj_set_array_element` and `lj_get_array_element` look at the first
character.  The elements of an array have the type of its component, so a `JavaArray` cannot hold anything else.

* `readsBack_of_stored`: what is written is read back, whatever the other elements are.
* `readsBack_iff`: a legal value reads back as the component type demands exactly when no array is put into an array
  of primitive arrays, an integer survives the C conversion, and a string is plain text.
-/

namespace YellowTree

open ModifiedUtf8

variable {Class Ref : Type}

/-! ## Arrays -/

section JavaArray

/-- An element of component type `t`; a reference comes with its class. -/
def Elem (Class Ref : Type) : FieldType → Type
  | .prim .Z => Bool
  | .prim .B => ℤ
  | .prim .C => ℤ
  | .prim .S => ℤ
  | .prim .I => ℤ
  | .prim .J => ℤ
  | .prim .F => LuaNumber
  | .prim .D => LuaNumber
  | .cls _ => Option (Ref × Class)
  | .arr _ => Option (Ref × Class)

/-- A Java array with components of type `t`; its length is a `jsize`. -/
structure JavaArray (Class Ref : Type) (t : FieldType) where
  elems : List (Elem Class Ref t)
  length_lt : elems.length < 2 ^ 31

namespace JavaArray

variable {t : FieldType}

def length (a : JavaArray Class Ref t) : ℕ := a.elems.length

def set (a : JavaArray Class Ref t) (i : ℕ) (e : Elem Class Ref t) : JavaArray Class Ref t :=
  ⟨a.elems.set i e, by rw [List.length_set]; exact a.length_lt⟩

end JavaArray

/-- The component types of arrays of objects. -/
def FieldType.isReference : FieldType → Bool
  | .prim _ => false
  | _ => true

/-- An array of primitives, an array of such arrays, and so on. -/
def FieldType.primitiveRoot : FieldType → Bool
  | .prim _ => true
  | .cls _ => false
  | .arr t => t.primitiveRoot

/-- Only the descriptors with a class at the root end in `;`. -/
theorem FieldType.descriptor_getLast? : ∀ t : FieldType, (t.descriptor.getLast? = some ';') ↔ t.primitiveRoot = false
  | .prim p => by cases p <;> decide
  | .cls n => by
    have hlast : (FieldType.cls n).descriptor.getLast? = some ';' := by
      rw [descriptor, List.getLast?_cons, List.getLast?_append]
      rfl
    rw [hlast]
    exact iff_of_true rfl rfl
  | .arr t => by
    have hne : t.descriptor ≠ [] := by cases t <;> simp [descriptor]
    rw [descriptor, List.getLast?_cons, primitiveRoot, ← descriptor_getLast? t]
    cases h : t.descriptor.getLast? with
    | none => exact absurd (List.getLast?_eq_none_iff.mp h) hne
    | some c => rfl

end JavaArray

/-! ## Writing and reading -/

section Embedding

def objectType : LuaString := "Ljava/lang/Object;".toList

def integerType : LuaString := "Ljava/lang/Integer;".toList

/-- What the array functions use of C, Lua and Java.  `text` is the text of a Java String, `newString` the String made
from an argument pair, and `assignable` the check that Java makes when a reference is stored.  `wraps` says that
`create_jobject` makes a bridge object of a reference, for which a Class object has to stand for a prepared class.
`garbage` is what a local `val` holds that nothing is assigned to. -/
structure ArrayEnv (Class Ref : Type) where
  cast : IntegerCast
  toFloat : LuaNumber → LuaNumber
  tonumber : LuaString → Option LuaNumber
  tostring : Value Class Ref → LuaString
  jni : Jni
  newString : JArg Ref → Ref × Class
  newInteger : LuaNumber → Ref × Class
  newDouble : LuaNumber → Ref × Class
  text : Ref → Option JavaString
  assignable : LuaString → Class → Bool
  wraps : Ref → Bool
  garbage : ∀ p : PrimType, Elem Class Ref (.prim p)
  text_newString : ∀ arg, text (newString arg).1 = stringArgument jni arg
  assignable_newString : ∀ arg, assignable stringType (newString arg).2 = true ∧
    assignable objectType (newString arg).2 = true
  wraps_newString : ∀ arg, wraps (newString arg).1 = true

/-- The last argument of `lj_set_array_element`: an object reference, or a Lua value. -/
inductive SetArg (Class Ref : Type) where
  | objectRaw (raw : Ref) (cls : Class)
  | value (v : Value Class Ref)
  deriving DecidableEq

variable (env : ArrayEnv Class Ref)

/-- `raw_passthrough[target_type]`, as the test that the value has that Lua type. -/
def rawPassthrough (target : LuaString) (v : Value Class Ref) : Bool :=
  match v with
  | .boolean _ => target = ['Z']
  | .number _ => target ∈ [['B'], ['C'], ['S'], ['I'], ['J'], ['F'], ['D']]
  | _ => false

def coercionFailed : LuaError := .message "Coercion to jobject failed"

/-- `java.lang.String.new(s)`. -/
def stringNew (s : LuaString) : Value Class Ref :=
  let o := env.newString ⟨"STR".toList, .text (formatString s)⟩
  .object o.1 o.2

/-- `jobject.coerce`. -/
def coerce (val : Value Class Ref) (target : LuaString) : Except LuaError (Value Class Ref) :=
  if rawPassthrough target val then .ok val
  else
    match val with
    | .object raw cls => .ok (.object raw cls)
    | .string s =>
      if target = stringType then .ok (stringNew env s)
      else if target = objectType then .ok (stringNew env s)
      else if target ∈ [['B'], ['C'], ['S'], ['I'], ['J'], ['F'], ['D']] then
        .ok ((env.tonumber s).elim .nil .number)
      else .error coercionFailed
    | .number n =>
      if target = stringType then .ok (stringNew env (env.tostring val))
      else if target = integerType then .ok (.object (env.newInteger n.floor).1 (env.newInteger n.floor).2)
      else if target = objectType then .ok (.object (env.newDouble n).1 (env.newDouble n).2)
      else .error coercionFailed
    | v =>
      if target = stringType then .ok (stringNew env (env.tostring v))
      else if target ∈ [['B'], ['C'], ['S'], ['I'], ['J'], ['F'], ['D']] then .ok .nil
      else .error coercionFailed

/-- `luaL_checknumber`. -/
def checkNumber : SetArg Class Ref → Except LuaError LuaNumber
  | .value (.number n) => .ok n
  | .value (.string s) =>
    match env.tonumber s with
    | some n => .ok n
    | none => .error (.message "number expected, got string")
  | _ => .error (.message "number expected")

/-- `luaL_checkinteger`. -/
def checkInteger (arg : SetArg Class Ref) : Except LuaError ℤ := (checkNumber env arg).map env.cast.cast

/-- The conversion of a 64-bit integer to an integer type of Java. -/
def narrow : PrimType → ℤ → ℤ
  | .B, n => n.bmod (2 ^ 8)
  | .C, n => n % 2 ^ 16
  | .S, n => n.bmod (2 ^ 16)
  | .I, n => n.bmod (2 ^ 32)
  | _, n => n.bmod (2 ^ 64)

/-- The reference that `SetObjectArrayElement` is given. -/
def checkReference : SetArg Class Ref → Except LuaError (Option (Ref × Class))
  | .value .nil => .ok none
  | .objectRaw raw cls => .ok (some (raw, cls))
  | _ => .error (.message "jobject expected")

/-- The switch of `lj_set_array_element`: the element that JNI is given. -/
def toElem : (t : FieldType) → SetArg Class Ref → Except LuaError (Elem Class Ref t)
  | .prim .Z, .value (.boolean b) => .ok b
  | .prim .Z, _ => .error (.message "boolean expected")
  | .prim .B, arg => (checkInteger env arg).map (narrow .B)
  | .prim .C, arg => (checkInteger env arg).map (narrow .C)
  | .prim .S, arg => (checkInteger env arg).map (narrow .S)
  | .prim .I, arg => (checkInteger env arg).map (narrow .I)
  | .prim .J, arg => (checkInteger env arg).map (narrow .J)
  | .prim .F, arg => (checkNumber env arg).map env.toFloat
  | .prim .D, arg => checkNumber env arg
  | .cls _, arg => checkReference arg
  | .arr _, arg => checkReference arg

/-- A reference as `create_jobject` gives it to Lua. -/
def ofReference : Option (Ref × Class) → Except LuaError (Value Class Ref)
  | some (raw, cls) =>
    if env.wraps raw then .ok (.object raw cls) else .error (.jvmti "JVMTI_ERROR_CLASS_NOT_PREPARED")
  | none => .ok .nil

/-- The switch of `lj_get_array_element` on what JNI gave, with `create_return_value`. -/
def ofElem : (t : FieldType) → Elem Class Ref t → Except LuaError (Value Class Ref)
  | .prim .Z, b => .ok (.boolean b)
  | .prim .B, n => .ok (.number (.ofInteger n))
  | .prim .C, n => .ok (.number (.ofInteger n))
  | .prim .S, n => .ok (.number (.ofInteger n))
  | .prim .I, n => .ok (.number (.ofInteger n))
  | .prim .J, n => .ok (.number (.ofInteger n))
  | .prim .F, x => .ok (.number x)
  | .prim .D, x => .ok (.number x)
  | .cls _, o => ofReference env o
  | .arr _, o => ofReference env o

/-- `jsize index = luaL_checkinteger(L, 3) - 1`. -/
def jsizeIndex (key : ℤ) : ℤ := (env.cast.cast (.finite key) - 1).bmod (2 ^ 32)

/-- What is in `val` after JNI has thrown: null, or what was there. -/
def untouched : (t : FieldType) → Elem Class Ref t
  | .prim p => env.garbage p
  | .cls _ => none
  | .arr _ => none

/-- Java lets an element into the array; for a reference by its class. -/
def letsIn : (t : FieldType) → Elem Class Ref t → Bool
  | .prim _, _ => true
  | .cls n, (o : Option (Ref × Class)) => o.all fun r => env.assignable (FieldType.cls n).descriptor r.2
  | .arr t, (o : Option (Ref × Class)) => o.all fun r => env.assignable (FieldType.arr t).descriptor r.2

variable {t : FieldType}

/-- What is in `val` after the call of JNI; `EXCEPTION_CHECK` clears the exception for a bad index and goes on. -/
def getElement (a : JavaArray Class Ref t) (index : ℤ) : Elem Class Ref t :=
  if 0 ≤ index then a.elems[index.toNat]?.getD (untouched env t) else untouched env t

/-- The array after the call of JNI; here as well the exceptions are cleared. -/
def setElement (a : JavaArray Class Ref t) (index : ℤ) (e : Elem Class Ref t) : JavaArray Class Ref t :=
  if (0 ≤ index ∧ index < a.length) ∧ letsIn env t e = true then a.set index.toNat e else a

/-- `jarray:__index`, with a number. -/
def jarrayIndex (a : JavaArray Class Ref t) (key : ℤ) : Except LuaError (Value Class Ref) :=
  ofElem env t (getElement env a (jsizeIndex env key))

/-- The choice that `jarray:__newindex` makes by the last character of the component type. -/
def setArg (t : FieldType) (value : Value Class Ref) : Except LuaError (SetArg Class Ref) :=
  if value.isNil = false ∧ t.descriptor.getLast? = some ';' then
    match coerce env value t.descriptor with
    | .ok (.object raw cls) => .ok (.objectRaw raw cls)
    | .ok _ => .error (.message "attempt to index a value")
    | .error e => .error e
  else .ok (.value value)

/-- The element that an assignment gives to JNI. -/
def storedElem (t : FieldType) (value : Value Class Ref) : Except LuaError (Elem Class Ref t) :=
  (setArg env t value).bind (toElem env t)

/-- `jarray:__newindex`, with a number. -/
def jarrayNewindex (a : JavaArray Class Ref t) (key : ℤ) (value : Value Class Ref) :
    Except LuaError (JavaArray Class Ref t) :=
  (storedElem env t value).map (setElement env a (jsizeIndex env key))

end Embedding

/-! ## Legal values -/

section Legal

/-- The integer types of Java. -/
def PrimType.isIntegral : PrimType → Bool
  | .B | .C | .S | .I | .J => true
  | .Z | .F | .D => false

/-- A value that may be assigned to a component of type `t`: a boolean, an integer (a double, as all Lua numbers), a
number that the component represents exactly, null, an object that Java lets in, and a text in UTF-8. -/
inductive Legal (env : ArrayEnv Class Ref) : FieldType → Value Class Ref → Prop
  | boolean (b : Bool) : Legal env (.prim .Z) (.boolean b)
  | integer (p : PrimType) (n : ℤ) (hp : p ≠ .Z) (hn : LuaNumber.roundDouble n = n) :
      Legal env (.prim p) (.number (.finite n))
  | float (q : ℚ) (hq : env.toFloat (.finite q) = .finite q) : Legal env (.prim .F) (.number (.finite q))
  | double (q : ℚ) : Legal env (.prim .D) (.number (.finite q))
  | null (t : FieldType) (ht : t.isReference = true) : Legal env t .nil
  | object (t : FieldType) (ht : t.isReference = true) (raw : Ref) (cls : Class)
      (hcls : env.assignable t.descriptor cls = true) : Legal env t (.object raw cls)
  | string (t : FieldType) (ht : t.descriptor = stringType ∨ t.descriptor = objectType) (text : List Char) :
      Legal env t (.string (utf8 text))

/-- A number after Java's narrowing conversion. -/
def narrowed (env : ArrayEnv Class Ref) (p : PrimType) (x : LuaNumber) : LuaNumber :=
  match p, x with
  | .F, x => env.toFloat x
  | .D, x => x
  | p, .finite q => .finite (narrow p ⌊q⌋)
  | _, x => x

/-- `r`, read from a component of type `t`, is what `v` was written as: the number narrowed, the same object, or a
String with the text. -/
def ReadsAs (env : ArrayEnv Class Ref) (t : FieldType) (v r : Value Class Ref) : Prop :=
  match t, v with
  | .prim p, .number x => r = .number (narrowed env p x)
  | _, .string s => ∃ raw cls u text, r = .object raw cls ∧ env.text raw = some u ∧ s = utf8 text ∧
      u = text.flatMap utf16 ∧ newString u = s
  | _, v => r = v

/-- The assignment succeeds, the element reads as the value, and the others are what they were. -/
def ReadsBack (env : ArrayEnv Class Ref) (t : FieldType) (a : JavaArray Class Ref t) (i : ℕ) (v : Value Class Ref) :
    Prop :=
  ∃ a', jarrayNewindex env a i v = .ok a' ∧ (∃ r, jarrayIndex env a' i = .ok r ∧ ReadsAs env t v r) ∧
    a'.length = a.length ∧ ∀ j, j + 1 ≠ i → a'.elems[j]? = a.elems[j]?

/-- No array is stored in an array of primitive arrays, an object can be wrapped, an integer is the same after the C
conversion, and a string has no NUL and no supplementary character. -/
structure Stores (env : ArrayEnv Class Ref) (t : FieldType) (v : Value Class Ref) : Prop where
  reference : t.isReference = true → t.primitiveRoot = true → v = .nil
  object : ∀ raw cls, v = .object raw cls → env.wraps raw = true
  integer : ∀ p n, t = .prim p → p.isIntegral = true → v = .number (.finite (n : ℤ)) →
    LuaNumber.roundDouble (narrow p (env.cast.cast (.finite n))) = narrow p n
  string : ∀ text, v = .string (utf8 text) → ∀ c ∈ text, Plain c

end Legal

/-! ## One element -/

section Element

variable {env : ArrayEnv Class Ref} {t : FieldType} {v : Value Class Ref}

theorem jsizeIndex_eq {i : ℕ} (h : 1 ≤ i) (h' : i < 2 ^ 31) : jsizeIndex env i = i - 1 := by
  unfold jsizeIndex
  rw [env.cast.cast_int (by omega) (by omega), Int.bmod_eq_of_le]
  · omega
  · omega

/-- What the array lets in is read back, and only there. -/
theorem readsBack_of_stored {a : JavaArray Class Ref t} {i : ℕ} (hi : 1 ≤ i ∧ i ≤ a.length)
    (hlets : ∀ e, storedElem env t v = .ok e → letsIn env t e = true) :
    ReadsBack env t a i v ↔
      ∃ e, storedElem env t v = .ok e ∧ ∃ r, ofElem env t e = .ok r ∧ ReadsAs env t v r := by
  have hlen := a.length_lt
  have hidx : jsizeIndex env i = i - 1 := jsizeIndex_eq hi.1 (by unfold JavaArray.length at hi; omega)
  have hnat : (jsizeIndex env i).toNat = i - 1 := by omega
  have hin : 0 ≤ jsizeIndex env i ∧ jsizeIndex env i < a.length := by omega
  have hwrite : ∀ e, storedElem env t v = .ok e → jarrayNewindex env a i v = .ok (a.set (i - 1) e) := by
    intro e he
    unfold jarrayNewindex setElement
    rw [he, hnat]
    exact congrArg Except.ok (if_pos ⟨hin, hlets e he⟩)
  have hread : ∀ e, jarrayIndex env (a.set (i - 1) e) i = ofElem env t e := by
    intro e
    have helem : (a.set (i - 1) e).elems[i - 1]? = some e :=
      List.getElem?_set_self (by unfold JavaArray.length at hi; omega)
    unfold jarrayIndex getElement
    rw [if_pos hin.1, hnat, helem]
    rfl
  constructor
  · rintro ⟨a', ha', ⟨r, hr, hreads⟩, -⟩
    cases he : storedElem env t v with
    | error err =>
      unfold jarrayNewindex at ha'
      rw [he] at ha'
      cases ha'
    | ok e =>
      obtain rfl := Except.ok.inj ((hwrite e he).symm.trans ha')
      exact ⟨e, rfl, r, (hread e).symm.trans hr, hreads⟩
  · rintro ⟨e, he, r, hr, hreads⟩
    refine ⟨a.set (i - 1) e, hwrite e he, ⟨r, (hread e).trans hr, hreads⟩, List.length_set, fun j hj => ?_⟩
    exact List.getElem?_set_ne (by omega)

theorem setArg_value (h : v.isNil = true ∨ t.primitiveRoot = true) : setArg env t v = .ok (.value v) := by
  unfold setArg
  rw [if_neg]
  rintro ⟨hv, ht⟩
  rw [FieldType.descriptor_getLast?] at ht
  rcases h with h | h
  · rw [hv] at h
    simp at h
  · rw [ht] at h
    simp at h

theorem setArg_object (env : ArrayEnv Class Ref) (ht : t.primitiveRoot = false) (raw : Ref) (cls : Class) :
    setArg env t (.object raw cls) = .ok (.objectRaw raw cls) := by
  unfold setArg
  rw [if_pos ⟨rfl, (FieldType.descriptor_getLast? t).mpr ht⟩]
  rfl

/-- A Lua string is made a String. -/
theorem setArg_string (env : ArrayEnv Class Ref) (ht : t.descriptor = stringType ∨ t.descriptor = objectType)
    (s : LuaString) :
    setArg env t (.string s) = .ok (.objectRaw (env.newString ⟨"STR".toList, .text (formatString s)⟩).1
      (env.newString ⟨"STR".toList, .text (formatString s)⟩).2) := by
  have hlast : t.descriptor.getLast? = some ';' := by rcases ht with ht | ht <;> rw [ht] <;> rfl
  have hcoerce : coerce env (.string s) t.descriptor = .ok (stringNew env s) := by
    rcases ht with ht | ht <;> rw [ht] <;> rfl
  unfold setArg
  rw [if_pos ⟨rfl, hlast⟩, hcoerce]
  rfl

/-- A reference is given to JNI as it is. -/
theorem storedElem_objectRaw (ht : t.isReference = true) {raw : Ref} {cls : Class}
    (harg : setArg env t v = .ok (.objectRaw raw cls)) :
    ∃ e, storedElem env t v = .ok e ∧ letsIn env t e = env.assignable t.descriptor cls ∧
      ofElem env t e = ofReference env (some (raw, cls)) := by
  unfold storedElem
  rw [harg]
  cases t with
  | prim p => cases ht
  | cls n => exact ⟨some (raw, cls), rfl, rfl, rfl⟩
  | arr t => exact ⟨some (raw, cls), rfl, rfl, rfl⟩

/-- A Lua value other than nil is no reference. -/
theorem storedElem_value_error (ht : t.isReference = true) (hv : v.isNil = false)
    (harg : setArg env t v = .ok (.value v)) : ∀ e, storedElem env t v ≠ .ok e := by
  intro e he
  unfold storedElem at he
  rw [harg] at he
  cases t with
  | prim p => cases ht
  | cls n =>
    cases v with
    | nil => cases hv
    | _ => cases he
  | arr t =>
    cases v with
    | nil => cases hv
    | _ => cases he

theorem storedElem_nil (env : ArrayEnv Class Ref) (ht : t.isReference = true) :
    ∃ e, storedElem env t .nil = .ok e ∧ letsIn env t e = true ∧ ofElem env t e = .ok .nil := by
  unfold storedElem
  rw [setArg_value (Or.inl rfl)]
  cases t with
  | prim p => cases ht
  | cls n => exact ⟨none, rfl, rfl, rfl⟩
  | arr t => exact ⟨none, rfl, rfl, rfl⟩

/-- A primitive component takes the value as it is. -/
theorem storedElem_prim {p : PrimType} : storedElem env (.prim p) v = toElem env (.prim p) (.value v) := by
  rw [storedElem, setArg_value (Or.inr rfl)]
  rfl

/-- An integer is stored as the narrowed C integer. -/
theorem stored_integral {p : PrimType} (hp : p.isIntegral = true) (n : ℤ) :
    (∃ e, storedElem env (.prim p) (.number (.finite n)) = .ok e ∧
      ∃ r, ofElem env (.prim p) e = .ok r ∧ ReadsAs env (.prim p) (.number (.finite n)) r) ↔
    LuaNumber.roundDouble (narrow p (env.cast.cast (.finite n))) = narrow p n := by
  have hreads : ∀ m : ℤ, (Value.number (.ofInteger m) : Value Class Ref) = .number (.finite (narrow p ⌊(n : ℚ)⌋)) ↔
      LuaNumber.roundDouble m = narrow p n := by
    intro m
    rw [Int.floor_intCast, LuaNumber.ofInteger, Value.number.injEq, LuaNumber.finite.injEq, Int.cast_inj]
  rw [storedElem_prim]
  cases p with
  | Z => cases hp
  | F => cases hp
  | D => cases hp
  | _ =>
    constructor
    · rintro ⟨_, he, _, hof, hr⟩
      cases he
      cases hof
      exact (hreads _).mp hr
    · intro h
      exact ⟨_, rfl, _, rfl, (hreads _).mpr h⟩

end Element

/-! ## Exactness -/

section Exactness

variable {env : ArrayEnv Class Ref} {t : FieldType} {v : Value Class Ref}

/-- A primitive component asks for something of integers only. -/
theorem stores_prim {p : PrimType} (hstring : ∀ s, v ≠ .string s)
    (hobject : ∀ raw cls, v = .object raw cls → env.wraps raw = true)
    (hint : p.isIntegral = true → ∀ n : ℤ, v = .number (.finite n) →
      LuaNumber.roundDouble (narrow p (env.cast.cast (.finite n))) = narrow p n) : Stores env (.prim p) v where
  reference h := by cases h
  object := hobject
  integer p' n hp hint' hv := by
    cases hp
    exact hint hint' n hv
  string text hv := absurd hv (hstring _)

/-- A reference component asks for something of arrays and strings only. -/
theorem stores_reference (ht : t.isReference = true) (hroot : t.primitiveRoot = true → v = .nil)
    (hobject : ∀ raw cls, v = .object raw cls → env.wraps raw = true)
    (hstring : ∀ text, v = .string (utf8 text) → ∀ c ∈ text, Plain c) : Stores env t v where
  reference _ h := hroot h
  object := hobject
  integer p n hp := by
    rw [hp] at ht
    cases ht
  string := hstring

theorem isReference_of_object (ht : t.descriptor = stringType ∨ t.descriptor = objectType) :
    t.isReference = true := by
  cases t with
  | prim p => cases p <;> exact absurd ht (by decide)
  | cls n => rfl
  | arr t => rfl

/-- In a component of references a String with the text is read. -/
theorem readsAs_string (ht : t.isReference = true) (s : LuaString) (r : Value Class Ref) :
    ReadsAs env t (.string s) r ↔ ∃ raw cls u text, r = .object raw cls ∧ env.text raw = some u ∧ s = utf8 text ∧
      u = text.flatMap utf16 ∧ newString u = s := by
  cases t with
  | prim p => cases ht
  | cls n => exact Iff.rfl
  | arr t => exact Iff.rfl

/-- Any other reference is read as it is. -/
theorem readsAs_reference (ht : t.isReference = true) (hv : ∀ s, v ≠ .string s) (r : Value Class Ref) :
    ReadsAs env t v r ↔ r = v := by
  cases t with
  | prim p => simp [FieldType.isReference] at ht
  | cls n =>
    cases v with
    | string s => exact absurd rfl (hv s)
    | _ => exact Iff.rfl
  | arr t =>
    cases v with
    | string s => exact absurd rfl (hv s)
    | _ => exact Iff.rfl

/-- A reference that `create_jobject` wraps is read as it is. -/
theorem ofReference_iff {raw : Ref} {cls : Class} :
    (∃ r, ofReference env (some (raw, cls)) = .ok r ∧ r = .object raw cls) ↔ env.wraps raw = true := by
  by_cases h : env.wraps raw = true
  · exact iff_of_true ⟨_, if_pos h, rfl⟩ h
  · refine iff_of_false ?_ h
    rintro ⟨r, hr, -⟩
    cases (if_neg h).symm.trans hr

/-- An object is read back exactly when the component is no array of primitives, and the object can be wrapped. -/
theorem stored_object (ht : t.isReference = true) {raw : Ref} {cls : Class} :
    (∃ e, storedElem env t (.object raw cls) = .ok e ∧
      ∃ r, ofElem env t e = .ok r ∧ ReadsAs env t (.object raw cls) r) ↔
      t.primitiveRoot = false ∧ env.wraps raw = true := by
  simp only [readsAs_reference (v := .object raw cls) ht (by simp)]
  by_cases hroot : t.primitiveRoot = true
  · have harg : setArg env t (.object raw cls) = .ok (.value (.object raw cls)) := setArg_value (Or.inr hroot)
    refine iff_of_false ?_ (by simp [hroot])
    rintro ⟨e, he, -⟩
    exact storedElem_value_error ht rfl harg e he
  · have hfalse : t.primitiveRoot = false := by simpa using hroot
    obtain ⟨e, he, -, hof⟩ := storedElem_objectRaw ht (setArg_object env hfalse raw cls)
    constructor
    · rintro ⟨e', he', hr⟩
      obtain rfl := Except.ok.inj (he.symm.trans he')
      rw [hof] at hr
      exact ⟨hfalse, ofReference_iff.mp hr⟩
    · rintro ⟨-, hwraps⟩
      refine ⟨e, he, ?_⟩
      rw [hof]
      exact ofReference_iff.mpr hwraps

/-- A 64-bit integer is narrowed as it should be. -/
theorem roundDouble_narrow {p : PrimType} (hp : p.isIntegral = true) {n : ℤ} (hn : LuaNumber.roundDouble n = n)
    (hlow : -2 ^ 63 ≤ n) (hhigh : n < 2 ^ 63) :
    LuaNumber.roundDouble (narrow p (env.cast.cast (.finite n))) = narrow p n := by
  rw [env.cast.cast_int hlow hhigh]
  have hsmall : ∀ m : ℕ, 0 < m → m ≤ 2 ^ 32 → LuaNumber.roundDouble (n.bmod m) = n.bmod m := by
    intro m hm hle
    apply LuaNumber.roundDouble_of_lt
    have hlt := Int.bmod_lt (x := n) hm
    have hge := Int.le_bmod (x := n) hm
    omega
  cases p with
  | B => exact hsmall (2 ^ 8) (by decide) (by decide)
  | C =>
    apply LuaNumber.roundDouble_of_lt
    show (n % 2 ^ 16).natAbs < 2 ^ 53
    omega
  | S => exact hsmall (2 ^ 16) (by decide) (by decide)
  | I => exact hsmall (2 ^ 32) (by decide) (by decide)
  | J =>
    show LuaNumber.roundDouble (n.bmod (2 ^ 64)) = n.bmod (2 ^ 64)
    rw [Int.bmod_eq_of_le (by omega) (by omega), hn]
  | Z => cases hp
  | F => cases hp
  | D => cases hp

/-- A string is read back exactly when it is plain. -/
theorem stored_string (ht : t.descriptor = stringType ∨ t.descriptor = objectType) (text : List Char) :
    (∃ e, storedElem env t (.string (utf8 text)) = .ok e ∧
      ∃ r, ofElem env t e = .ok r ∧ ReadsAs env t (.string (utf8 text)) r) ↔ ∀ c ∈ text, Plain c := by
  have href := isReference_of_object ht
  obtain ⟨e, hstored, -, hof⟩ := storedElem_objectRaw href (setArg_string env ht (utf8 text))
  constructor
  · rintro ⟨e', he', r, -, hreads⟩
    obtain ⟨raw, cls, u, text', -, -, -, -, hback⟩ := (readsAs_string href _ _).mp hreads
    exact plain_of_newString hback
  · intro h
    refine ⟨e, hstored, _, hof.trans (if_pos (env.wraps_newString _)), (readsAs_string href _ _).mpr ?_⟩
    refine ⟨_, _, text.flatMap utf16, text, rfl, ?_, rfl, rfl, newString_utf16 h⟩
    rw [env.text_newString]
    show some (env.jni.newStringUTF (bytes (cString (formatString (utf8 text))))) = _
    rw [newStringUTF_utf8 h]

/-- Java lets a legal value in. -/
theorem letsIn_of_legal (hv : Legal env t v) {e : Elem Class Ref t} (he : storedElem env t v = .ok e) :
    letsIn env t e = true := by
  cases hv with
  | null t ht =>
    obtain ⟨e', he', hlets, -⟩ := storedElem_nil env ht
    obtain rfl := Except.ok.inj (he'.symm.trans he)
    exact hlets
  | object t ht raw cls hcls =>
    by_cases hroot : t.primitiveRoot = true
    · exact absurd he (storedElem_value_error ht rfl (setArg_value (Or.inr hroot)) e)
    · obtain ⟨e', he', hlets, -⟩ := storedElem_objectRaw ht (setArg_object env (by simpa using hroot) raw cls)
      obtain rfl := Except.ok.inj (he'.symm.trans he)
      exact hlets.trans hcls
  | string t ht text =>
    obtain ⟨e', he', hlets, -⟩ := storedElem_objectRaw (isReference_of_object ht) (setArg_string env ht (utf8 text))
    obtain rfl := Except.ok.inj (he'.symm.trans he)
    have hboth := env.assignable_newString ⟨"STR".toList, .text (formatString (utf8 text))⟩
    rw [hlets]
    rcases ht with ht | ht <;> rw [ht]
    · exact hboth.1
    · exact hboth.2
  | _ => rfl

/-- **Array elements read back** for a legal value exactly when it is `Stores`. -/
theorem readsBack_iff (env : ArrayEnv Class Ref) (t : FieldType) (a : JavaArray Class Ref t) (i : ℕ)
    (hi : 1 ≤ i ∧ i ≤ a.length) (v : Value Class Ref) (hv : Legal env t v) :
    ReadsBack env t a i v ↔ Stores env t v := by
  rw [readsBack_of_stored hi fun e he => letsIn_of_legal hv he]
  cases hv with
  | boolean b =>
    rw [storedElem_prim]
    exact iff_of_true ⟨b, rfl, _, rfl, rfl⟩ (stores_prim (by simp) (by simp) (by simp [PrimType.isIntegral]))
  | integer p n hp hn =>
    cases hint : p.isIntegral with
    | true =>
      rw [stored_integral hint]
      constructor
      · intro h
        refine stores_prim (by simp) (by simp) fun _ m hm => ?_
        obtain rfl : n = m := by simpa using hm
        exact h
      · exact fun h => h.integer p n rfl hint rfl
    | false =>
      refine iff_of_true ?_ (stores_prim (by simp) (by simp) (by simp [hint]))
      rw [storedElem_prim]
      cases p with
      | Z => exact absurd rfl hp
      | F => exact ⟨_, rfl, _, rfl, rfl⟩
      | D => exact ⟨_, rfl, _, rfl, rfl⟩
      | _ => cases hint
  | float q hq =>
    rw [storedElem_prim]
    exact iff_of_true ⟨env.toFloat (.finite q), rfl, _, rfl, rfl⟩
      (stores_prim (by simp) (by simp) (by simp [PrimType.isIntegral]))
  | double q =>
    rw [storedElem_prim]
    exact iff_of_true ⟨.finite q, rfl, _, rfl, rfl⟩ (stores_prim (by simp) (by simp) (by simp [PrimType.isIntegral]))
  | null t ht =>
    obtain ⟨e, he, -, hof⟩ := storedElem_nil env ht
    refine iff_of_true ⟨e, he, _, hof, (readsAs_reference ht (by simp) _).mpr rfl⟩ ?_
    exact stores_reference ht (fun _ => rfl) (by simp) (by simp)
  | object t ht raw cls hcls =>
    rw [stored_object ht]
    constructor
    · rintro ⟨hroot, hwraps⟩
      refine stores_reference ht (by simp [hroot]) (fun raw' cls' h => ?_) (by simp)
      obtain ⟨rfl, -⟩ := Value.object.inj h
      exact hwraps
    · intro h
      refine ⟨?_, h.object raw cls rfl⟩
      by_contra hroot
      have hnil := h.reference ht (by simpa using hroot)
      simp at hnil
  | string t ht text =>
    rw [stored_string ht text]
    have hroot : t.primitiveRoot = false := by
      rw [← FieldType.descriptor_getLast?]
      rcases ht with ht | ht <;> rw [ht] <;> rfl
    constructor
    · intro h
      refine stores_reference (isReference_of_object ht) (by simp [hroot]) (by simp) fun text' heq => ?_
      have hback := newString_utf16 h
      rw [Value.string.inj heq] at hback
      exact plain_of_newString hback
    · exact fun h => h.string text rfl

/-- A JVM whose classes are descriptors, and whose Strings are their text. -/
def textEnv : ArrayEnv LuaString (Option JavaString) where
  cast := .x86
  toFloat := id
  tonumber := fun _ => none
  tostring := fun _ => []
  jni := .lenient
  newString := fun arg => (stringArgument .lenient arg, stringType)
  newInteger := fun _ => (none, integerType)
  newDouble := fun _ => (none, objectType)
  text := id
  assignable := fun target cls => target = cls || target = objectType
  wraps := fun _ => true
  garbage := fun
    | .Z => false
    | .B | .C | .S | .I | .J => (0 : ℤ)
    | .F | .D => LuaNumber.finite 0
  text_newString := fun _ => rfl
  assignable_newString := fun _ => ⟨rfl, rfl⟩
  wraps_newString := fun _ => rfl

/-- An `int[]` cannot be stored in an `int[][]`. -/
theorem intArray_not_readsBack :
    Legal textEnv (.arr (.prim .I)) (.object none ['[', 'I']) ∧
    ¬ ReadsBack textEnv (.arr (.prim .I)) ⟨[none], by decide⟩ 1 (.object none ['[', 'I']) := by
  refine ⟨.object _ rfl _ _ rfl, ?_⟩
  rintro ⟨a', hwrite, -⟩
  cases hwrite

/-- A byte of 300 reads as 44, and the ones before and behind it stay. -/
theorem byte_readsBack :
    ReadsBack textEnv (.prim .B) ⟨[(7 : ℤ), (0 : ℤ), (-7 : ℤ)], by decide⟩ 2 (.number (.finite (300 : ℤ))) :=
  (readsBack_iff textEnv (.prim .B) ⟨[(7 : ℤ), (0 : ℤ), (-7 : ℤ)], by decide⟩ 2 (by decide) _
    (.integer .B 300 (by decide) (LuaNumber.roundDouble_of_lt (by decide)))).mpr
    (stores_prim (by simp) (by simp) fun hint n hn => by
      obtain rfl : (300 : ℤ) = n := Int.cast_injective (LuaNumber.finite.inj (Value.number.inj hn))
      exact roundDouble_narrow hint (LuaNumber.roundDouble_of_lt (by decide)) (by decide) (by decide))

end Exactness

end YellowTree
