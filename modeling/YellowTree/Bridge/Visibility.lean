import YellowTree.Bridge.MemberSearch

/-!
# YellowTree.Bridge.Visibility — which methods of an object can be named

`o[n]` tries the keys of the bridge's own tables first, then the fields of the object's class, then its methods.
`rawKeys` are the keys that a `rawget` finds in the table of a value, in the table of its type or in `jclass`.

* `visible_of_free`: where `n` is none of these keys, `o[n]` is the field of the name when there is one, and otherwise
  a callable method with all methods of the name.
* `visible_iff`: a method can be called exactly when its name is neither such a key nor the name of a field.
-/

namespace YellowTree

variable {Class Method Field Ref : Type}

/-! ## The keys of the bridge's tables -/

section Keys

/-- What the tables of the bridge hold only at times: `jclass.all_classes_raw` once a class was not found, and the
`sourcefile` of a class that has one. -/
structure BridgeTables (Class : Type) where
  allClassesLoaded : Bool
  hasSourcefile : Class → Bool

/-- The table `jclass`. -/
def jclassKeys (allClassesLoaded : Bool) : List LuaString :=
  ["classname".toList, "create".toList, "__index".toList, "__tostring".toList, "dump".toList, "__gc".toList,
    "__eq".toList, "init_internal".toList, "find".toList, "isAssignableFrom".toList, "find_methods".toList,
    "find_field".toList, "find_instances".toList, "java_lang_Class_instance".toList] ++
    (if allClassesLoaded then ["all_classes_raw".toList] else [])

/-- The table `jarray`; `jobject.__string` is nil. -/
def jarrayKeys : List LuaString :=
  ["classname".toList, "__eq".toList, "create".toList, "__len".toList, "__index".toList, "__newindex".toList]

/-- The table `jthread`. -/
def jthreadKeys : List LuaString :=
  ["classname".toList, "__eq".toList, "create".toList, "__gc".toList, "__index".toList, "__tostring".toList,
    "handle_events".toList, "frames".toList]

/-- What `jobject.create` stores in a value, and what the `create` of its own type adds. -/
def ownKeys (t : BridgeTables Class) : BridgeValue Class Ref → List LuaString
  | .jobject _ => ["object_raw".toList, "class".toList]
  | .jclass c => ["object_raw".toList, "class".toList, "name".toList, "internal_name".toList, "fields".toList,
      "fields_array".toList, "methods".toList, "methods_array".toList] ++
      (if t.hasSourcefile c then ["sourcefile".toList] else [])
  | .jarray _ => ["object_raw".toList, "class".toList, "component_type".toList]
  | .jthread _ => ["object_raw".toList, "class".toList, "event_queue".toList, "frames".toList]

/-- The table of the type of a value. -/
def typeKeys : BridgeValue Class Ref → List LuaString
  | .jarray _ => jarrayKeys
  | .jthread _ => jthreadKeys
  | .jobject _ | .jclass _ => []

/-- The keys that are found by a `rawget`, before any field or method. -/
def rawKeys (t : BridgeTables Class) (v : BridgeValue Class Ref) (key : LuaString) : Bool :=
  (ownKeys t v ++ typeKeys v ++ jclassKeys t.allClassesLoaded).contains key

end Keys

/-! ## Methods of an object -/

section Methods

variable (h : Hierarchy Class Method Field Ref) (t : BridgeTables Class)

/-- `o[n]` is a callable method with every method that `find_methods` returns for `n`. -/
def Visible (raw : Ref) (n : LuaString) : Prop :=
  ∃ searched object ms, index h (rawKeys t) (.jobject raw) n = .callable searched object ms ∧
    ∀ m ∈ findMethods h (h.classOf raw) n, m ∈ ms

/-- The class of an object, or a superclass, declares a method of the name. -/
def HasMethod (raw : Ref) (n : LuaString) : Prop := ∃ d ∈ h.chain (h.classOf raw), Declares h n d

variable {h t} {raw : Ref} {n : LuaString}

theorem findMethods_ne_nil (hmethod : HasMethod h raw n) : findMethods h (h.classOf raw) n ≠ [] := by
  obtain ⟨d, hd, m, hm, hname⟩ := hmethod
  obtain ⟨id, hid, -⟩ := (exists_mem_findMethods_iff hm hname).mpr (Or.inl hd)
  exact List.ne_nil_of_mem hid

theorem index_of_findField {f : Field} (hkey : rawKeys t (.jobject raw : BridgeValue Class Ref) n = false)
    (hf : findField h (h.classOf raw) n = some f) :
    index h (rawKeys t) (.jobject raw) n = .field (h.classOf raw) f raw := by
  unfold index
  rw [if_neg (by rw [hkey]; decide)]
  show resolveIn h (h.classOf raw) ⟨raw, h.classOf raw⟩ n .other = _
  unfold resolveIn
  rw [hf]

theorem index_of_findMethods (hkey : rawKeys t (.jobject raw : BridgeValue Class Ref) n = false)
    (hf : findField h (h.classOf raw) n = none) (hmethod : HasMethod h raw n) :
    index h (rawKeys t) (.jobject raw) n =
      .callable (h.classOf raw) ⟨raw, h.classOf raw⟩ (findMethods h (h.classOf raw) n) := by
  unfold index
  rw [if_neg (by rw [hkey]; decide)]
  show resolveIn h (h.classOf raw) ⟨raw, h.classOf raw⟩ n .other = _
  unfold resolveIn
  rw [hf]
  cases hm : findMethods h (h.classOf raw) n with
  | nil => exact absurd hm (findMethods_ne_nil hmethod)
  | cons m ms => rfl

/-- **A method is hidden by a field**, and otherwise can be called, when its name is no key of the bridge's tables. -/
theorem visible_of_free (h : Hierarchy Class Method Field Ref) (t : BridgeTables Class) (raw : Ref) (n : LuaString)
    (hmethod : HasMethod h raw n) (hkey : rawKeys t (.jobject raw : BridgeValue Class Ref) n = false) :
    index h (rawKeys t) (.jobject raw) n =
      match findField h (h.classOf raw) n with
      | some f => .field (h.classOf raw) f raw
      | none => .callable (h.classOf raw) ⟨raw, h.classOf raw⟩ (findMethods h (h.classOf raw) n) := by
  cases hf : findField h (h.classOf raw) n with
  | some f => exact index_of_findField hkey hf
  | none => exact index_of_findMethods hkey hf hmethod

/-- `toString` of a book. -/
theorem toString_visible : index bookClasses.toHierarchy (rawKeys ⟨false, fun _ => true⟩) (.jobject none)
      "toString".toList = .callable .book ⟨none, .book⟩ [⟨.bookToString, .book⟩, ⟨.objectToString, .book⟩] :=
  visible_of_free bookClasses.toHierarchy ⟨false, fun _ => true⟩ none "toString".toList
    ⟨.book, by decide, .bookToString, by decide, rfl⟩ rfl

/-- `size` of a book is its field. -/
theorem size_not_visible : HasMethod bookClasses.toHierarchy none "size".toList ∧
    ¬ Visible bookClasses.toHierarchy ⟨false, fun _ => true⟩ none "size".toList := by
  refine ⟨⟨.book, by decide, .bookSize, by decide, rfl⟩, ?_⟩
  rintro ⟨searched, object, ms, hindex, -⟩
  have hfield : index bookClasses.toHierarchy (rawKeys ⟨false, fun _ => true⟩) (.jobject none) "size".toList =
      .field .book .bookSize none := rfl
  rw [hfield] at hindex
  cases hindex

/-- A method can be called exactly when its name is neither a key of the bridge's tables nor the name of a field. -/
theorem visible_iff (hmethod : HasMethod h raw n) :
    Visible h t raw n ↔ rawKeys t (.jobject raw : BridgeValue Class Ref) n = false ∧
      findField h (h.classOf raw) n = none := by
  constructor
  · rintro ⟨searched, object, ms, hindex, -⟩
    have hkey : rawKeys t (.jobject raw : BridgeValue Class Ref) n = false := by
      by_contra hkey
      unfold index at hindex
      rw [if_pos (by simpa using hkey)] at hindex
      cases hindex
    refine ⟨hkey, ?_⟩
    by_contra hfield
    obtain ⟨f, hf⟩ := Option.ne_none_iff_exists'.mp hfield
    rw [index_of_findField hkey hf] at hindex
    cases hindex
  · rintro ⟨hkey, hfield⟩
    exact ⟨_, _, _, index_of_findMethods hkey hfield hmethod, fun _ hm => hm⟩

end Methods

end YellowTree
