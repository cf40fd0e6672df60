import YellowTree.Bridge.ReturnValues
import YellowTree.Bridge.Visibility

/-!
# YellowTree.Bridge.FieldValues — `o.f` and `C.f`, up to the value

`jfield_id:get_value` passes the receiver and the `static` modifier to `lj_get_field`, which chooses a JNI getter by the
descriptor, and `create_return_value` wraps what comes back.  What a getter gives is fixed only for the field's own type
and a receiver that has the field.

* `findField_of_instance`: an instance field that Java resolves is the one `find_field` finds.
* `indexValue_instance`, `indexValue_static`: a field that is not hidden is read, with its value.
-/

namespace YellowTree

open Relation

variable {Class Method Field Ref : Type}

/-! ## The getters -/

section Embedding

/-- Classes whose fields have a type; the fields of an interface are static. -/
structure TypedClasses (Class Method Field Ref : Type) extends LoadedClasses Class Method Field Ref where
  fieldType : Field → FieldType
  isThread : Class → Bool
  interface_static : ∀ c, ∀ d ∈ interfaces c, ∀ f ∈ fields d, (fieldInfo f).isStatic = true

/-- `GetObjectField` and `Get<Type>Field`, and those for static fields. -/
structure FieldJni (Class Field Ref : Type) where
  object (isStatic : Bool) (receiver : Ref) (f : Field) : Option (Ref × Class)
  prim (p : PrimType) (isStatic : Bool) (receiver : Ref) (f : Field) : Elem Class Ref (.prim p)

/-- The getter for fields of a type. -/
def FieldJni.get (jni : FieldJni Class Field Ref) (isStatic : Bool) (receiver : Ref) (f : Field) :
    (t : FieldType) → Elem Class Ref t
  | .prim p => jni.prim p isStatic receiver f
  | .cls _ => jni.object isStatic receiver f
  | .arr _ => jni.object isStatic receiver f

/-- `lj_get_field`, with `create_return_value`: both look for an `L` or a `[` at the head of the descriptor. -/
def ljGetField (env : ArrayEnv Class Ref) (jni : FieldJni Class Field Ref) (sig : LuaString) (isStatic : Bool)
    (receiver : Ref) (f : Field) : Except LuaError (Value Class Ref) :=
  if sig.head? = some 'L' ∨ sig.head? = some '[' then ofReference env (jni.object isStatic receiver f)
  else
    match primOfTag sig with
    | some p => ofElem env (.prim p) (jni.prim p isStatic receiver f)
    | none => .ok .nil

variable (h : TypedClasses Class Method Field Ref) (env : ArrayEnv Class Ref)

/-- `jfield_id:get_value`. -/
def getValue (jni : FieldJni Class Field Ref) (f : Field) (objectRaw : Ref) : Except LuaError (Value Class Ref) :=
  ljGetField env jni (h.fieldType f).descriptor (h.fieldInfo f).isStatic objectRaw f

/-- What `create_jobject` makes of an object, by the name of its class. -/
def bridgeValue (raw : Ref) (c : Class) : BridgeValue Class Ref :=
  if h.jvm.className c = "java.lang.Class".toList then (h.represents raw).elim (.jobject raw) .jclass
  else if h.jvm.className c = "java.lang.Thread".toList then .jthread raw
  else if (h.jvm.className c).take 1 = ['['] then .jarray raw
  else if h.isThread c then .jthread raw
  else .jobject raw

/-- `v[key]` for a bridge value; `other` is what comes of it when it is no field. -/
def indexValue (tables : BridgeTables Class) (jni : FieldJni Class Field Ref) (v : BridgeValue Class Ref)
    (key : LuaString) (other : Except LuaError (Value Class Ref)) : Except LuaError (Value Class Ref) :=
  match index h.toHierarchy (rawKeys tables) v key with
  | .field _ f receiver => getValue h env jni f receiver
  | _ => other

end Embedding

/-! ## Which field is found -/

section Found

variable {h : TypedClasses Class Method Field Ref} {c d : Class} {f : Field} {key : LuaString}

theorem findField_append {below l : List Class} (hchain : h.chain d = below ++ l)
    (hbelow : ∀ b ∈ below, ownField h.toHierarchy key b = none) :
    findField h.toHierarchy d key = l.findSome? (ownField h.toHierarchy key) := by
  show (h.chain d).findSome? (ownField h.toHierarchy key) = _
  rw [hchain, List.findSome?_append, List.findSome?_eq_none_iff.mpr hbelow, Option.none_or]

/-- What the superinterfaces of a class give is static. -/
theorem static_of_interfaces (hf : (h.interfaces c).findSome? (resolveField h.toLoadedClasses · key) = some f) :
    (h.fieldInfo f).isStatic = true := by
  obtain ⟨j, hj, hfound⟩ := List.exists_of_findSome?_eq_some hf
  obtain ⟨i, hreach, hown⟩ := DepthFirst.exists_of_firstFound hfound
  obtain ⟨b, -, hi⟩ := TransGen.tail'_iff.mp (implements_of_reach hj hreach)
  exact h.interface_static b i hi f (List.mem_of_find?_eq_some hown)

/-- **An instance field** that Java resolves is found. -/
theorem findField_of_instance (hf : resolveField h.toLoadedClasses c key = some f)
    (hinstance : (h.fieldInfo f).isStatic = false) : findField h.toHierarchy c key = some f := by
  -- by induction on the chain of `c`
  induction hl : h.chain c generalizing c with
  | nil =>
    rw [h.chain_eq c] at hl
    cases hl
  | cons a l ih =>
    rw [resolveField_eq] at hf
    rw [findField_eq]
    cases hown : ownField h.toHierarchy key c with
    | some g =>
      rw [hown, Option.some_or, Option.some_or] at hf
      exact hf
    | none =>
      cases hfound : (h.interfaces c).findSome? (resolveField h.toLoadedClasses · key) with
      | some g =>
        rw [hown, hfound, Option.none_or, Option.some_or] at hf
        obtain rfl := Option.some.inj hf
        rw [static_of_interfaces hfound] at hinstance
        cases hinstance
      | none =>
        rw [hown, hfound, Option.none_or, Option.none_or] at hf
        obtain ⟨d, hd, hfd⟩ := Option.bind_eq_some_iff.mp hf
        rw [h.chain_eq c, hd] at hl
        rw [Option.none_or, hd]
        exact ih hfd (List.cons.inj hl).2

end Found

/-! ## The value that is read -/

section Read

/-- The fields of the objects and classes, and what JNI gives of them: the value of the field, where the receiver and
the getter are proper. -/
structure FieldHeap (h : TypedClasses Class Method Field Ref) where
  jni : FieldJni Class Field Ref
  instanceField : Ref → (f : Field) → Elem Class Ref (h.fieldType f)
  staticField : (f : Field) → Elem Class Ref (h.fieldType f)
  get_instance : ∀ receiver f, fieldKind h.toHierarchy f = .instanceMember →
    ReceiverOk h.toHierarchy receiver (h.fieldClass f) .instanceMember →
      jni.get false receiver f (h.fieldType f) = instanceField receiver f
  get_static : ∀ receiver f, fieldKind h.toHierarchy f = .staticField →
    ReceiverOk h.toHierarchy receiver (h.fieldClass f) .staticField →
      jni.get true receiver f (h.fieldType f) = staticField f

variable {h : TypedClasses Class Method Field Ref} {env : ArrayEnv Class Ref} {heap : FieldHeap h}
  {tables : BridgeTables Class} {other : Except LuaError (Value Class Ref)} {c d : Class} {f : Field} {raw : Ref}
  {key : LuaString}

/-- The getter is the one for the type of the field. -/
theorem ljGetField_descriptor (env : ArrayEnv Class Ref) (jni : FieldJni Class Field Ref) (t : FieldType)
    (isStatic : Bool) (receiver : Ref) (f : Field) :
    ljGetField env jni t.descriptor isStatic receiver f = ofElem env t (jni.get isStatic receiver f t) := by
  cases t with
  | prim p => cases p <;> rfl
  | cls n => exact if_pos (Or.inl rfl)
  | arr t => exact if_pos (Or.inr rfl)

/-- The name is no key of the bridge, nor the name of a field of a class below `c`; and the object is no Class object
and no array. -/
structure Unhidden (h : TypedClasses Class Method Field Ref) (tables : BridgeTables Class) (raw : Ref) (c : Class)
    (key : LuaString) : Prop where
  notClass : h.jvm.className (h.classOf raw) ≠ "java.lang.Class".toList
  notArray : (h.jvm.className (h.classOf raw)).take 1 ≠ ['[']
  notThreadName : h.isThread (h.classOf raw) = true ∨ h.jvm.className (h.classOf raw) = "java.lang.Thread".toList →
    key ≠ "name".toList
  free : rawKeys tables (bridgeValue h raw (h.classOf raw)) key = false
  below : ∃ below, h.chain (h.classOf raw) = below ++ h.chain c ∧ ∀ b ∈ below, ownField h.toHierarchy key b = none

/-- An object that is no Class object and no array is indexed by `jobject:__index`. -/
theorem Unhidden.index_eq (hun : Unhidden h tables raw c key) :
    index h.toHierarchy (rawKeys tables) (bridgeValue h raw (h.classOf raw)) key =
      jobjectIndex h.toHierarchy ⟨raw, h.classOf raw⟩ key := by
  have hfree := hun.free
  unfold index
  rw [if_neg (by rw [hfree]; decide), bridgeValue, if_neg hun.notClass]
  by_cases hthread : h.jvm.className (h.classOf raw) = "java.lang.Thread".toList
  · rw [if_pos hthread]
    exact if_neg (hun.notThreadName (Or.inr hthread))
  rw [if_neg hthread, if_neg hun.notArray]
  by_cases hsub : h.isThread (h.classOf raw) = true
  · rw [if_pos hsub]
    exact if_neg (hun.notThreadName (Or.inl hsub))
  · rw [if_neg hsub]
    rfl

theorem fieldKind_instance (hf : (h.fieldInfo f).isStatic = false) :
    fieldKind h.toHierarchy f = .instanceMember := if_neg (by rw [hf]; decide)

theorem fieldKind_static (hf : (h.fieldInfo f).isStatic = true) : fieldKind h.toHierarchy f = .staticField := if_pos hf

/-- **An instance field** that is not hidden reads as its value. -/
theorem indexValue_instance (hun : Unhidden h tables raw c key) (hf : resolveField h.toLoadedClasses c key = some f)
    (hinstance : (h.fieldInfo f).isStatic = false) :
    indexValue h env tables heap.jni (bridgeValue h raw (h.classOf raw)) key other =
      ofElem env (h.fieldType f) (heap.instanceField raw f) := by
  obtain ⟨below, hchain, hbelow⟩ := hun.below
  have hfind : findField h.toHierarchy (h.classOf raw) key = some f :=
    (findField_append hchain hbelow).trans (findField_of_instance hf hinstance)
  have hindex : index h.toHierarchy (rawKeys tables) (bridgeValue h raw (h.classOf raw)) key =
      .field (h.classOf raw) f raw := by
    rw [hun.index_eq, jobjectIndex, resolveIn, hfind]
  rw [indexValue, hindex]
  show getValue h env heap.jni f raw = _
  rw [getValue, ljGetField_descriptor, hinstance,
    heap.get_instance raw f (fieldKind_instance hinstance) (findField_subclass hfind)]

/-- **A static field** of a class reads as its value. -/
theorem indexValue_static (hfree : rawKeys tables (.jclass c : BridgeValue Class Ref) key = false)
    (hf : findField h.toHierarchy c key = some f) (hstatic : (h.fieldInfo f).isStatic = true) :
    indexValue h env tables heap.jni (.jclass c) key other = ofElem env (h.fieldType f) (heap.staticField f) := by
  have hindex : index h.toHierarchy (rawKeys tables) (.jclass c) key = .field c f (h.objectRaw c) := by
    unfold index
    rw [if_neg (by rw [hfree]; decide)]
    show resolveIn h.toHierarchy c _ key _ = _
    rw [resolveIn, hf]
    rfl
  have hreceiver : ReceiverOk h.toHierarchy (h.objectRaw c) (h.fieldClass f) .staticField :=
    ⟨c, h.represents_objectRaw c, findField_subclass hf⟩
  rw [indexValue, hindex]
  show getValue h env heap.jni f (h.objectRaw c) = _
  rw [getValue, ljGetField_descriptor, hstatic, heap.get_static _ f (fieldKind_static hstatic) hreceiver]

end Read

end YellowTree
