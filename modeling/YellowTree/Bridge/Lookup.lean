import Mathlib.Logic.Relation
import YellowTree.Bridge.CallableMethod

/-!
# YellowTree.Bridge.Lookup — `v.key` on a bridge value

`jobject:__index` looks for a field, then for methods, along the superclasses of the value's class; `jclass:__index`
does so for the class it represents first, and then goes on with `jobject:__index`, on `java.lang.Class`.  A field is
read from the value itself, a method is called on it; only a static method that is called on something else than a
class is called on the class instead.

* `findField_subclass`, `findMethods_subclass`: what is found is declared by a supertype of the class searched.
* `conforming_iff`: the receiver of the JNI call fits the member exactly when no instance member of the represented
  class is used on a class, no static member or constructor of `java.lang.Class` on another class, and no static
  field or constructor on an object.
-/

namespace YellowTree

variable {Class Method Field Ref : Type}

/-! ## Classes and objects -/

section Hierarchy

structure FieldInfo where
  name : LuaString
  isStatic : Bool
  deriving DecidableEq

/-- The classes and objects of a JVM.  `chain` is a class with its superclasses; `fields` and `methods` are what a class
declares itself; `represents` tells the Class objects among the objects. -/
structure Hierarchy (Class Method Field Ref : Type) extends CallEnv Class Method Ref where
  superclass : Class → Option Class
  interfaces : Class → List Class
  chain : Class → List Class
  fields : Class → List Field
  methods : Class → List Method
  fieldInfo : Field → FieldInfo
  fieldClass : Field → Class
  classOf : Ref → Class
  represents : Ref → Option Class
  javaLangClass : Class
  chain_eq : ∀ c, chain c = c :: (superclass c).elim [] chain
  fieldClass_eq : ∀ c, ∀ f ∈ fields c, fieldClass f = c
  declaringClass_eq : ∀ c, ∀ m ∈ methods c, jvm.declaringClass m = c
  init_not_static : ∀ m, (jvm.info m).name = "<init>".toList → (jvm.info m).isStatic = false
  represents_objectRaw : ∀ c, represents (objectRaw c) = some c
  classOf_objectRaw : ∀ c, classOf (objectRaw c) = javaLangClass
  className_eq : ∀ c, jvm.className c = "java.lang.Class".toList ↔ c = javaLangClass

variable (h : Hierarchy Class Method Field Ref)

/-- `c` is `d` or a subclass of it, or implements it. -/
def Hierarchy.Subclass : Class → Class → Prop :=
  Relation.ReflTransGen fun c d => h.superclass c = some d ∨ d ∈ h.interfaces c

/-- A Lua value of the bridge: the class it represents, or its object. -/
inductive BridgeValue (Class Ref : Type) where
  | jclass (c : Class)
  | jobject (raw : Ref)
  | jarray (raw : Ref)
  | jthread (raw : Ref)
  deriving DecidableEq

/-- `self.object_raw` and `self.class`. -/
def Hierarchy.self : BridgeValue Class Ref → Receiver Class Ref
  | .jclass c => ⟨h.objectRaw c, h.javaLangClass⟩
  | .jobject raw => ⟨raw, h.classOf raw⟩
  | .jarray raw => ⟨raw, h.classOf raw⟩
  | .jthread raw => ⟨raw, h.classOf raw⟩

end Hierarchy

/-! ## The look-ups -/

section Lookup

variable (h : Hierarchy Class Method Field Ref)

/-- `jclass:find_field`. -/
def findField (c : Class) (key : LuaString) : Option Field :=
  (h.chain c).findSome? fun d => (h.fields d).find? fun f => (h.fieldInfo f).name = key

/-- The literal name, or `new` for a constructor. -/
def methodNamed (key : LuaString) (m : Method) : Bool :=
  (h.jvm.info m).name = key || ((h.jvm.info m).name = "<init>".toList && key = "new".toList)

/-- `jclass:find_methods`: of each class of the chain its methods, then those of its interfaces. -/
def findMethods (c : Class) (key : LuaString) : List (JmethodId Class Method) :=
  (h.chain c).flatMap fun d =>
    ((h.methods d ++ (h.interfaces d).flatMap h.methods).filter (methodNamed h key)).map fun m => ⟨m, c⟩

/-- What `v[key]` comes to: a field read from `receiver`, or a callable method.  `searched` is the class whose chain
has the member; `other` is a value of Lua alone. -/
inductive Resolved (Class Method Field Ref : Type) where
  | field (searched : Class) (f : Field) (receiver : Ref)
  | callable (searched : Class) (object : Receiver Class Ref) (methods : List (JmethodId Class Method))
  | other

/-- The field or the methods named `key` of the class `c`, used on `object`; `next` when there are none. -/
def resolveIn (c : Class) (object : Receiver Class Ref) (key : LuaString) (next : Resolved Class Method Field Ref) :
    Resolved Class Method Field Ref :=
  match findField h c key with
  | some f => .field c f object.raw
  | none =>
    match findMethods h c key with
    | [] => next
    | m :: ms => .callable c object (m :: ms)

/-- `jobject:__index`, where `rawget(jclass, key)` finds nothing. -/
def jobjectIndex (object : Receiver Class Ref) (key : LuaString) : Resolved Class Method Field Ref :=
  resolveIn h object.cls object key .other

/-- `jclass:__index`, where neither `rawget(jclass, key)` nor `rawget(self, key)` finds anything. -/
def jclassIndex (c : Class) (key : LuaString) : Resolved Class Method Field Ref :=
  resolveIn h c (h.self (.jclass c)) key (jobjectIndex h (h.self (.jclass c)) key)

/-- `v[key]`; `rawKey` are the keys that a `rawget` finds in the table of the value or in the tables of its type. -/
def index (rawKey : BridgeValue Class Ref → LuaString → Bool) (v : BridgeValue Class Ref) (key : LuaString) :
    Resolved Class Method Field Ref :=
  if rawKey v key then .other
  else
    match v with
    | .jclass c => jclassIndex h c key
    | .jobject raw => jobjectIndex h (h.self (.jobject raw)) key
    | .jarray raw => if key = "length".toList then .other else jobjectIndex h (h.self (.jarray raw)) key
    | .jthread raw => if key = "name".toList then .other else jobjectIndex h (h.self (.jthread raw)) key

/-- How JNI uses a member: an instance field or method on an object, the others on a class. -/
inductive MemberKind where
  | instanceMember
  | staticField
  | staticMethod
  | constructor
  deriving DecidableEq

def fieldKind (f : Field) : MemberKind := if (h.fieldInfo f).isStatic then .staticField else .instanceMember

def methodKind (m : Method) : MemberKind :=
  if (h.jvm.info m).name = "<init>".toList then .constructor
  else if (h.jvm.info m).isStatic then .staticMethod
  else .instanceMember

/-- The receiver is the Class object of `d` or of a subclass. -/
def IsClassOf (receiver : Ref) (d : Class) : Prop := ∃ c, h.represents receiver = some c ∧ h.Subclass c d

/-- The receiver that JNI demands for a member declared by `d`. -/
def ReceiverOk (receiver : Ref) (d : Class) : MemberKind → Prop
  | .instanceMember => h.Subclass (h.classOf receiver) d
  | .staticField => IsClassOf h receiver d
  | .staticMethod => IsClassOf h receiver d
  | .constructor => IsClassOf h receiver d

variable (rawKey : BridgeValue Class Ref → LuaString → Bool)

/-- The JNI access of `v[key]`, or of calling it with `args`, has a receiver that conforms to the member. -/
def Conforming (v : BridgeValue Class Ref) (key : LuaString) (args : List (Value Class Ref)) : Prop :=
  match index h rawKey v key with
  | .field _ f receiver => ReceiverOk h receiver (h.fieldClass f) (fieldKind h f)
  | .callable _ object ms => ∀ inv, call h.toCallEnv object ms args = .ok inv →
      ReceiverOk h inv.receiver (h.jvm.declaringClass inv.method.methodIdRaw) (methodKind h inv.method.methodIdRaw)
  | .other => True

/-- Which members, declared by `d` and found on the class `searched`, may be used on `v`. -/
def Usable (v : BridgeValue Class Ref) (searched d : Class) (kind : MemberKind) : Prop :=
  match v, kind with
  | .jclass c, .instanceMember => searched = c → h.Subclass h.javaLangClass d
  | .jclass c, _ => searched = h.javaLangClass → h.Subclass c d
  | _, .instanceMember => True
  | v, .staticMethod => (h.self v).cls = h.javaLangClass → IsClassOf h (h.self v).raw d
  | v, _ => IsClassOf h (h.self v).raw d

/-- The field that `v[key]` reads, or the method that a call with `args` invokes, is one that may be used on `v`. -/
def FindsUsable (v : BridgeValue Class Ref) (key : LuaString) (args : List (Value Class Ref)) : Prop :=
  match index h rawKey v key with
  | .field searched f _ => Usable h v searched (h.fieldClass f) (fieldKind h f)
  | .callable searched object ms => ∀ inv, call h.toCallEnv object ms args = .ok inv →
      Usable h v searched (h.jvm.declaringClass inv.method.methodIdRaw) (methodKind h inv.method.methodIdRaw)
  | .other => True

end Lookup

/-! ## What is found -/

section Found

variable {h : Hierarchy Class Method Field Ref} {c d : Class} {key : LuaString}

theorem Hierarchy.subclass_of_chain : ∀ {l : List Class} {c : Class}, h.chain c = l → ∀ d ∈ l, h.Subclass c d
  | [], c, hl => fun _ hd => by simp at hd
  | b :: l, c, hl => by
    rw [h.chain_eq c] at hl
    obtain ⟨rfl, htail⟩ := List.cons.inj hl
    intro d hd
    rcases List.mem_cons.mp hd with rfl | hd
    · exact Relation.ReflTransGen.refl
    · cases hsuper : h.superclass c with
      | none =>
        rw [hsuper] at htail
        rw [← htail] at hd
        simp at hd
      | some b =>
        rw [hsuper] at htail
        exact Relation.ReflTransGen.head (Or.inl hsuper) (subclass_of_chain htail d hd)

/-- A field that is found is declared by the class searched or by one of its superclasses. -/
theorem findField_subclass {f : Field} (hf : findField h c key = some f) : h.Subclass c (h.fieldClass f) := by
  obtain ⟨d, hd, hfind⟩ := List.exists_of_findSome?_eq_some hf
  rw [h.fieldClass_eq d f (List.mem_of_find?_eq_some hfind)]
  exact Hierarchy.subclass_of_chain rfl d hd

/-- A method that is found is declared by the class searched, one of its superclasses, or an interface of these. -/
theorem findMethods_subclass {m : JmethodId Class Method} (hm : m ∈ findMethods h c key) :
    h.Subclass c (h.jvm.declaringClass m.methodIdRaw) := by
  obtain ⟨d, hd, hm⟩ := List.mem_flatMap.mp hm
  obtain ⟨raw, hraw, rfl⟩ := List.mem_map.mp hm
  have hchain : h.Subclass c d := Hierarchy.subclass_of_chain rfl d hd
  rcases List.mem_append.mp (List.mem_of_mem_filter hraw) with hraw | hraw
  · rw [h.declaringClass_eq d raw hraw]
    exact hchain
  · obtain ⟨i, hi, hraw⟩ := List.mem_flatMap.mp hraw
    rw [h.declaringClass_eq i raw hraw]
    exact hchain.tail (Or.inr hi)

/-- The classes whose members are looked up for a value: its own class, and the class it represents. -/
def Searches (h : Hierarchy Class Method Field Ref) (v : BridgeValue Class Ref) (searched : Class) : Prop :=
  searched = (h.self v).cls ∨ v = .jclass searched

/-- A result of a look-up on `v`, used on `v` itself. -/
def FoundOn (h : Hierarchy Class Method Field Ref) (v : BridgeValue Class Ref) (key : LuaString) :
    Resolved Class Method Field Ref → Prop
  | .field searched f receiver =>
    Searches h v searched ∧ findField h searched key = some f ∧ receiver = (h.self v).raw
  | .callable searched object ms =>
    Searches h v searched ∧ findMethods h searched key = ms ∧ object = h.self v
  | .other => True

theorem foundOn_resolveIn {v : BridgeValue Class Ref} {next : Resolved Class Method Field Ref}
    (hc : Searches h v c) (hnext : FoundOn h v key next) : FoundOn h v key (resolveIn h c (h.self v) key next) := by
  unfold resolveIn
  split
  case h_1 f hf => exact ⟨hc, hf, rfl⟩
  case h_2 hf =>
    split
    case h_1 hm => exact hnext
    case h_2 m ms hm => exact ⟨hc, hm, rfl⟩

theorem foundOn_jobjectIndex (v : BridgeValue Class Ref) : FoundOn h v key (jobjectIndex h (h.self v) key) :=
  foundOn_resolveIn (Or.inl rfl) trivial

theorem foundOn_index (rawKey : BridgeValue Class Ref → LuaString → Bool) (v : BridgeValue Class Ref) :
    FoundOn h v key (index h rawKey v key) := by
  unfold index
  by_cases hraw : rawKey v key = true
  · rw [if_pos hraw]
    trivial
  · rw [if_neg hraw]
    cases v with
    | jclass c => exact foundOn_resolveIn (Or.inr rfl) (foundOn_jobjectIndex _)
    | jobject raw => exact foundOn_jobjectIndex _
    | _ =>
      dsimp only
      split_ifs
      · trivial
      · exact foundOn_jobjectIndex _

end Found

/-! ## The method that is invoked -/

section Invoked

variable {env : CallEnv Class Method Ref} {args : List (Value Class Ref)}

theorem filterMethods_mem {argc : ℕ} : ∀ {ms : List (JmethodId Class Method)} {r : Filtered Class Method},
    filterMethods env.jvm argc ms = .ok r →
      (∀ m, r = .invoke m → m ∈ ms) ∧ ∀ ms', r = .methods ms' → ∀ m ∈ ms', m ∈ ms
  | [], r, hr => by
    obtain rfl := Except.ok.inj hr
    refine ⟨(fun _ hm => by cases hm), fun ms' hms' m hm => ?_⟩
    cases hms'
    exact hm
  | m :: ms, r, hr => by
    unfold filterMethods at hr
    split_ifs at hr with hno
    · obtain rfl := Except.ok.inj hr
      refine ⟨fun m' hm' => ?_, fun ms' hms' => by cases hms'⟩
      cases hm'
      exact List.mem_cons_self
    · split at hr
      · cases hr
      case h_2 ts hts =>
        split at hr
        · cases hr
        case h_2 m' hrest =>
          obtain rfl := Except.ok.inj hr
          refine ⟨fun m'' hm'' => ?_, fun ms' hms' => by cases hms'⟩
          cases hm''
          exact List.mem_cons_of_mem _ ((filterMethods_mem hrest).1 _ rfl)
        case h_3 rest hrest =>
          obtain rfl := Except.ok.inj hr
          have htail := (filterMethods_mem hrest).2 rest rfl
          refine ⟨(fun _ hm' => by cases hm'), fun ms' hms' m' hm' => ?_⟩
          obtain rfl := Filtered.methods.inj hms'
          split_ifs at hm'
          · rcases List.mem_cons.mp hm' with rfl | hm'
            · exact List.mem_cons_self
            · exact List.mem_cons_of_mem _ (htail m' hm')
          · exact List.mem_cons_of_mem _ (htail m' hm')

theorem tryMethods_mem {argc : ℕ} : ∀ {ms : List (JmethodId Class Method)} {jargs jargs' : List (JArg Ref)}
    {m : JmethodId Class Method}, tryMethods env argc args ms jargs = .ok (some (m, jargs')) → m ∈ ms
  | [], _, _, _, hr => by cases hr
  | m :: ms, jargs, jargs', m', hr => by
    unfold tryMethods at hr
    split at hr
    · cases hr
    · cases hr
      exact List.mem_cons_self
    · exact List.mem_cons_of_mem _ (tryMethods_mem hr)

/-- A call invokes one of the candidates, on the receiver that `receiver` chooses. -/
theorem call_mem {object : Receiver Class Ref} {possible : List (JmethodId Class Method)}
    {inv : Invocation Class Method Ref} (hcall : call env object possible args = .ok inv) :
    inv.method ∈ possible ∧ inv.receiver = receiver env object inv.method := by
  unfold call at hcall
  dsimp only at hcall
  split at hcall
  · simp at hcall
  case h_2 m hfilter =>
    obtain rfl := Except.ok.inj hcall
    exact ⟨(filterMethods_mem hfilter).1 _ rfl, rfl⟩
  case h_3 possible2 hfilter =>
    split at hcall
    · simp at hcall
    case h_2 m jargs htry =>
      obtain rfl := Except.ok.inj hcall
      exact ⟨(filterMethods_mem hfilter).2 possible2 rfl m (tryMethods_mem htry), rfl⟩
    · simp at hcall

end Invoked

/-! ## Receivers -/

section Receivers

variable {h : Hierarchy Class Method Field Ref} {v : BridgeValue Class Ref} {searched d : Class}

theorem isClassOf_objectRaw (c : Class) : IsClassOf h (h.objectRaw c) d ↔ h.Subclass c d := by
  unfold IsClassOf
  rw [h.represents_objectRaw]
  simp

/-- The value itself as the receiver. -/
theorem receiverOk_self (hv : Searches h v searched) (hd : h.Subclass searched d) {kind : MemberKind}
    (hkind : kind = .staticMethod → (h.self v).cls = h.javaLangClass) :
    ReceiverOk h (h.self v).raw d kind ↔ Usable h v searched d kind := by
  cases v with
  | jclass c =>
    have hclass : (h.self (.jclass c)).cls = h.javaLangClass := rfl
    have hraw : (h.self (.jclass c)).raw = h.objectRaw c := rfl
    -- the class was searched itself, or `java.lang.Class` was
    have hsearched : searched = h.javaLangClass ∨ searched = c := by
      rcases hv with hv | hv
      · exact Or.inl hv
      · exact Or.inr (BridgeValue.jclass.inj hv).symm
    have hstatic : IsClassOf h (h.self (.jclass c)).raw d ↔ (searched = h.javaLangClass → h.Subclass c d) := by
      rw [hraw, isClassOf_objectRaw]
      constructor
      · exact fun hsub _ => hsub
      · intro hsub
        rcases hsearched with hclass | rfl
        · exact hsub hclass
        · exact hd
    cases kind with
    | instanceMember =>
      show h.Subclass (h.classOf (h.objectRaw c)) d ↔ (searched = c → h.Subclass h.javaLangClass d)
      rw [h.classOf_objectRaw]
      constructor
      · exact fun hsub _ => hsub
      · intro hsub
        rcases hsearched with rfl | hc
        · exact hd
        · exact hsub hc
    | _ => exact hstatic
  | _ =>
    rcases hv with rfl | hv
    · cases kind with
      | instanceMember => exact iff_of_true hd trivial
      | staticMethod => exact ⟨fun hok _ => hok, fun hok => hok (hkind rfl)⟩
      | _ => exact Iff.rfl
    · simp at hv

/-- The class of the value as the receiver of a static method. -/
theorem receiverOk_class (hv : Searches h v searched) (hd : h.Subclass searched d)
    (hcls : (h.self v).cls ≠ h.javaLangClass) :
    ReceiverOk h (h.objectRaw (h.self v).cls) d .staticMethod ↔ Usable h v searched d .staticMethod := by
  cases v with
  | jclass c => exact absurd rfl hcls
  | _ =>
    rcases hv with rfl | hv
    · exact iff_of_true ((isClassOf_objectRaw _).mpr hd) fun hclass => absurd hclass hcls
    · simp at hv

/-- The receiver that `jcallable_method:__call` chooses. -/
theorem receiverOk_receiver {m : JmethodId Class Method} (hv : Searches h v searched) (hd : h.Subclass searched d) :
    ReceiverOk h (receiver h.toCallEnv (h.self v) m) d (methodKind h m.methodIdRaw) ↔
      Usable h v searched d (methodKind h m.methodIdRaw) := by
  unfold receiver
  split_ifs with hstatic
  · obtain ⟨hstatic, hname⟩ := hstatic
    have hkind : methodKind h m.methodIdRaw = .staticMethod := by
      unfold methodKind
      rw [if_neg]
      · exact if_pos hstatic
      · intro hinit
        rw [JmethodId.info, h.init_not_static _ hinit] at hstatic
        simp at hstatic
    rw [hkind]
    exact receiverOk_class hv hd fun hcls => hname ((h.className_eq _).mpr hcls)
  · refine receiverOk_self hv hd fun hkind => ?_
    by_contra hcls
    refine hstatic ⟨?_, fun hname => hcls ((h.className_eq _).mp hname)⟩
    unfold methodKind at hkind
    split_ifs at hkind with hinit hs
    exact hs

/-- **The receivers of the JNI accesses conform** exactly where the member found is one that may be used on the
value. -/
theorem conforming_iff (h : Hierarchy Class Method Field Ref) (rawKey : BridgeValue Class Ref → LuaString → Bool)
    (v : BridgeValue Class Ref) (key : LuaString) (args : List (Value Class Ref)) :
    Conforming h rawKey v key args ↔ FindsUsable h rawKey v key args := by
  have hfound : FoundOn h v key (index h rawKey v key) := foundOn_index rawKey v
  unfold Conforming FindsUsable
  cases hindex : index h rawKey v key with
  | field searched f receiver =>
    rw [hindex] at hfound
    obtain ⟨hv, hf, rfl⟩ := hfound
    refine receiverOk_self hv (findField_subclass hf) fun hkind => ?_
    unfold fieldKind at hkind
    split_ifs at hkind
  | callable searched object ms =>
    rw [hindex] at hfound
    obtain ⟨hv, rfl, rfl⟩ := hfound
    refine forall_congr' fun inv => forall_congr' fun hcall => ?_
    obtain ⟨hmem, hreceiver⟩ := call_mem hcall
    rw [hreceiver]
    exact receiverOk_receiver hv (findMethods_subclass hmem)
  | other => exact Iff.rfl

/-- `java.lang.Class` (`false`) and a class `Point` (`true`) with a static field `ORIGIN`; `none` is a point, the other
objects are the Class objects. -/
def pointHierarchy : Hierarchy Bool Unit Unit (Option Bool) where
  jvm := {
    className := fun c => if c then "Point".toList else "java.lang.Class".toList
    declaringClass := fun _ => true
    info := fun _ => ⟨"norm".toList, [], some (.prim .D), false, none⟩
    findClass := fun _ => some true
    getMethodID := fun _ _ _ => none
    getStaticMethodID := fun _ _ _ => none }
  isAssignableFrom := fun c d => c = d
  format := fun _ => []
  objectRaw := some
  superclass := fun _ => none
  interfaces := fun _ => []
  chain := fun c => [c]
  fields := fun c => if c then [()] else []
  methods := fun c => if c then [()] else []
  fieldInfo := fun _ => ⟨"ORIGIN".toList, true⟩
  fieldClass := fun _ => true
  classOf := fun o => o.isNone
  represents := id
  javaLangClass := false
  chain_eq := fun _ => rfl
  fieldClass_eq := by decide
  declaringClass_eq := by decide
  init_not_static := fun _ _ => rfl
  represents_objectRaw := fun _ => rfl
  classOf_objectRaw := fun _ => rfl
  className_eq := by decide

/-- A static field read through a point: the receiver is the point, not the class. -/
theorem staticField_not_conforming :
    ¬ Conforming pointHierarchy (fun _ _ => false) (.jobject none) "ORIGIN".toList [] := by
  rintro ⟨c, hc, -⟩
  cases hc

end Receivers

end YellowTree
