import YellowTree.Bridge.Lookup
import YellowTree.Lib.DepthFirst

/-!
# YellowTree.Bridge.MemberSearch — what `find_methods` and `find_field` see of a class hierarchy

`jclass:find_methods` climbs the superclasses and takes the methods of each class and of its direct superinterfaces;
`jclass:find_field` climbs the superclasses only.  `LoadedClasses` is a hierarchy as the JVM loads it: no cycles,
interfaces without a superclass, one method for a name and descriptor in each class.

* `seesInherited_iff`: the search sees every inherited method of a name exactly when no superinterface of a
  superinterface declares one, unless a class also implements it directly.
* `findField_eq_resolveField_iff`: the field found is the one of JVM field resolution exactly when no superinterface
  of a class before the first one with such a field declares it.
-/

namespace YellowTree

open DepthFirst Relation

variable {Class Method Field Ref : Type}

/-! ## Loaded classes -/

section LoadedClasses

/-- A hierarchy of loaded classes.  `getMethodID` and `getStaticMethodID` find declared methods. -/
structure LoadedClasses (Class Method Field Ref : Type) extends Hierarchy Class Method Field Ref where
  rank : Class → ℕ
  rank_superclass : ∀ c d, superclass c = some d → rank d < rank c
  rank_interface : ∀ c, ∀ d ∈ interfaces c, rank d < rank c
  superclass_interface : ∀ c, ∀ d ∈ interfaces c, superclass d = none
  not_interface_superclass : ∀ c d, superclass c = some d → ∀ e, d ∉ interfaces e
  methods_unique : ∀ c, ∀ m ∈ methods c, ∀ m' ∈ methods c, (jvm.info m).name = (jvm.info m').name →
    (jvm.info m).sig = (jvm.info m').sig → m = m'
  getMethodID_declared : ∀ c name sig m, jvm.getMethodID c name sig = some m → m ∈ methods (jvm.declaringClass m)
  getStaticMethodID_declared : ∀ c name sig m, jvm.getStaticMethodID c name sig = some m →
    m ∈ methods (jvm.declaringClass m)

variable (h : Hierarchy Class Method Field Ref)

/-- `d` is a direct superinterface of `c`. -/
def Hierarchy.Implements (c d : Class) : Prop := d ∈ h.interfaces c

/-- `d` is the superclass of `c`. -/
def Hierarchy.Extends (c d : Class) : Prop := h.superclass c = some d

/-- `d` is `c`, a superclass of it, or a direct or indirect superinterface of one of these. -/
def Hierarchy.Supertype (c d : Class) : Prop := ∃ b ∈ h.chain c, ReflTransGen h.Implements b d

variable {h} {c d : Class}

/-- The classes of a chain, one after the other, are superclasses. -/
theorem Hierarchy.pairwise_chain : ∀ {l : List Class} {c : Class}, h.chain c = l → l.Pairwise (TransGen h.Extends) ∧
    ∀ d ∈ l, ReflTransGen h.Extends c d
  | [], _, _ => ⟨List.Pairwise.nil, fun _ hd => by simp at hd⟩
  | b :: l, c, hl => by
    rw [h.chain_eq c] at hl
    obtain ⟨rfl, htail⟩ := List.cons.inj hl
    cases hsuper : h.superclass c with
    | none =>
      rw [hsuper] at htail
      subst htail
      refine ⟨List.pairwise_singleton _ _, fun d hd => ?_⟩
      obtain rfl := List.mem_singleton.mp hd
      exact .refl
    | some b =>
      rw [hsuper] at htail
      obtain ⟨hpair, hreach⟩ := pairwise_chain htail
      refine ⟨List.pairwise_cons.mpr ⟨fun d hd => .head' hsuper (hreach d hd), hpair⟩, fun d hd => ?_⟩
      rcases List.mem_cons.mp hd with rfl | hd
      · exact .refl
      · exact .head hsuper (hreach d hd)

end LoadedClasses

/-! ## A class that implements an interface which extends another -/

section Book

inductive BookClass where
  | object | javaLangClass | named | titled | book
  deriving DecidableEq

inductive BookMethod where
  | objectInit | objectToString | bookInit | bookToString | bookSize | namedName
  deriving DecidableEq

inductive BookField where
  | namedMax | bookSize
  deriving DecidableEq

def BookClass.name : BookClass → LuaString
  | .object => "java.lang.Object".toList
  | .javaLangClass => "java.lang.Class".toList
  | .named => "Named".toList
  | .titled => "Titled".toList
  | .book => "Book".toList

def BookMethod.declaringClass : BookMethod → BookClass
  | .objectInit | .objectToString => .object
  | .bookInit | .bookToString | .bookSize => .book
  | .namedName => .named

theorem stringName_legal : "java/lang/String".toList ≠ [] ∧
    ∀ c ∈ "java/lang/String".toList, c ≠ ';' ∧ c ≠ '.' ∧ c ≠ '[' := by simp

def BookMethod.info : BookMethod → MethodInfo
  | .objectInit => ⟨"<init>".toList, [], none, false, some [⟨0, 37⟩]⟩
  | .objectToString => ⟨"toString".toList, [], some string, false, some [⟨0, 236⟩]⟩
  | .bookInit => ⟨"<init>".toList, [.prim .I], none, false, some [⟨0, 5⟩]⟩
  | .bookToString => ⟨"toString".toList, [], some string, false, some [⟨0, 10⟩, ⟨5, 11⟩]⟩
  | .bookSize => ⟨"size".toList, [], some (.prim .I), false, some [⟨0, 14⟩]⟩
  | .namedName => ⟨"name".toList, [], some string, false, some [⟨0, 4⟩]⟩
where
  string : FieldType := .cls ⟨"java/lang/String".toList, stringName_legal⟩

/-- `class Book implements Titled` and `interface Titled extends Named`.  The object `none` is a book, `some c` is the
Class object of `c`. -/
def bookClasses : LoadedClasses BookClass BookMethod BookField (Option BookClass) where
  jvm := {
    className := BookClass.name
    declaringClass := BookMethod.declaringClass
    info := BookMethod.info
    findClass := fun _ => none
    getMethodID := fun _ _ _ => none
    getStaticMethodID := fun _ _ _ => none }
  isAssignableFrom := fun c d => c = d
  format := fun _ => []
  objectRaw := some
  superclass
    | .javaLangClass | .book => some .object
    | _ => none
  interfaces
    | .book => [.titled]
    | .titled => [.named]
    | _ => []
  chain
    | .javaLangClass => [.javaLangClass, .object]
    | .book => [.book, .object]
    | c => [c]
  fields
    | .named => [.namedMax]
    | .book => [.bookSize]
    | _ => []
  methods
    | .object => [.objectInit, .objectToString]
    | .book => [.bookInit, .bookToString, .bookSize]
    | .named => [.namedName]
    | _ => []
  fieldInfo
    | .namedMax => ⟨"MAX".toList, true⟩
    | .bookSize => ⟨"size".toList, false⟩
  fieldClass
    | .namedMax => .named
    | .bookSize => .book
  classOf o := if o = none then .book else .javaLangClass
  represents := id
  javaLangClass := .javaLangClass
  rank
    | .object | .named => 0
    | .javaLangClass | .titled => 1
    | .book => 2
  chain_eq c := by cases c <;> rfl
  fieldClass_eq c := by cases c <;> decide
  declaringClass_eq c := by cases c <;> decide
  init_not_static m := by cases m <;> decide
  represents_objectRaw _ := rfl
  classOf_objectRaw _ := rfl
  className_eq c := by cases c <;> decide
  rank_superclass c d h := by cases c <;> cases h <;> decide
  rank_interface c := by cases c <;> decide
  superclass_interface c := by cases c <;> decide
  not_interface_superclass c d h e := by cases c <;> cases h <;> cases e <;> decide
  methods_unique c := by cases c <;> decide
  getMethodID_declared _ _ _ _ h := by cases h
  getStaticMethodID_declared _ _ _ _ h := by cases h

end Book

/-! ## Methods -/

section Methods

variable (h : Hierarchy Class Method Field Ref)

/-- `d` declares a method of the name `key`. -/
def Declares (key : LuaString) (d : Class) : Prop := ∃ m ∈ h.methods d, (h.jvm.info m).name = key

/-- `find_methods` returns every inherited method of the name, and those of a class before those of its superclasses. -/
structure SeesInherited (c : Class) (key : LuaString) : Prop where
  complete : ∀ d, h.Supertype c d → ∀ m ∈ h.methods d, (h.jvm.info m).name = key →
    ∃ id ∈ findMethods h c key, id.methodIdRaw = m
  ordered : (findMethods h c key).Pairwise fun m m' =>
    ¬ TransGen h.Extends (h.jvm.declaringClass m'.methodIdRaw) (h.jvm.declaringClass m.methodIdRaw)

variable {h} {c d : Class} {key : LuaString}

theorem mem_findMethods {id : JmethodId Class Method} : id ∈ findMethods h c key ↔ id.cls = c ∧
    methodNamed h key id.methodIdRaw = true ∧
      ∃ b ∈ h.chain c, id.methodIdRaw ∈ h.methods b ∨ ∃ i ∈ h.interfaces b, id.methodIdRaw ∈ h.methods i := by
  unfold findMethods
  rw [List.mem_flatMap]
  constructor
  · rintro ⟨b, hb, hid⟩
    obtain ⟨m, hm, rfl⟩ := List.mem_map.mp hid
    obtain ⟨hm, hnamed⟩ := List.mem_filter.mp hm
    refine ⟨rfl, hnamed, b, hb, ?_⟩
    rwa [List.mem_append, List.mem_flatMap] at hm
  · rintro ⟨rfl, hnamed, b, hb, hm⟩
    refine ⟨b, hb, List.mem_map.mpr ⟨id.methodIdRaw, List.mem_filter.mpr ⟨?_, hnamed⟩, rfl⟩⟩
    rwa [List.mem_append, List.mem_flatMap]

theorem methodNamed_of_name {m : Method} (hm : (h.jvm.info m).name = key) : methodNamed h key m = true := by
  unfold methodNamed
  rw [hm]
  simp

/-- A supertype of which the search sees the methods. -/
def Hierarchy.Near (h : Hierarchy Class Method Field Ref) (c d : Class) : Prop :=
  d ∈ h.chain c ∨ ∃ b ∈ h.chain c, d ∈ h.interfaces b

theorem exists_mem_findMethods_iff {m : Method} (hm : m ∈ h.methods d) (hname : (h.jvm.info m).name = key) :
    (∃ id ∈ findMethods h c key, id.methodIdRaw = m) ↔ h.Near c d := by
  constructor
  · rintro ⟨id, hid, rfl⟩
    obtain ⟨-, -, b, hb, hfound | ⟨i, hi, hfound⟩⟩ := mem_findMethods.mp hid
    · have hd : d = b := (h.declaringClass_eq d _ hm).symm.trans (h.declaringClass_eq b _ hfound)
      exact Or.inl (hd ▸ hb)
    · have hd : d = i := (h.declaringClass_eq d _ hm).symm.trans (h.declaringClass_eq i _ hfound)
      exact Or.inr ⟨b, hb, hd ▸ hi⟩
  · intro hnear
    refine ⟨⟨m, c⟩, mem_findMethods.mpr ⟨rfl, methodNamed_of_name hname, ?_⟩, rfl⟩
    rcases hnear with hd | ⟨b, hb, hd⟩
    · exact ⟨d, hd, Or.inl hm⟩
    · exact ⟨b, hb, Or.inr ⟨d, hd, hm⟩⟩

/-- What is found at a class of the chain is declared by it or by one of its superinterfaces. -/
theorem declaringClass_of_mem {b : Class} {id : JmethodId Class Method}
    (hid : id ∈ ((h.methods b ++ (h.interfaces b).flatMap h.methods).filter (methodNamed h key)).map
      fun m => ⟨m, c⟩) :
    h.jvm.declaringClass id.methodIdRaw = b ∨ h.jvm.declaringClass id.methodIdRaw ∈ h.interfaces b := by
  obtain ⟨m, hm, rfl⟩ := List.mem_map.mp hid
  rcases List.mem_append.mp (List.mem_filter.mp hm).1 with hm | hm
  · exact Or.inl (h.declaringClass_eq b m hm)
  · obtain ⟨i, hi, hm⟩ := List.mem_flatMap.mp hm
    exact Or.inr ((h.declaringClass_eq i m hm).symm ▸ hi)

/-- A class that has a superclass, or is one, is no interface. -/
theorem LoadedClasses.not_mem_interfaces (h : LoadedClasses Class Method Field Ref) {b : Class}
    (hb : TransGen h.Extends c d) : d ∉ h.interfaces b ∧ c ∉ h.interfaces b := by
  refine ⟨?_, fun hc => ?_⟩
  · obtain ⟨e, -, hd⟩ := TransGen.tail'_iff.mp hb
    exact h.not_interface_superclass e d hd b
  · obtain ⟨e, hc', -⟩ := TransGen.head'_iff.mp hb
    have hnone := h.superclass_interface b c hc
    rw [Hierarchy.Extends, hnone] at hc'
    simp at hc'

theorem LoadedClasses.rank_lt (h : LoadedClasses Class Method Field Ref) (hext : TransGen h.Extends c d) :
    h.rank d < h.rank c := by
  induction hext with
  | single hd => exact h.rank_superclass _ _ hd
  | tail _ hd ih => exact (h.rank_superclass _ _ hd).trans ih

/-- The methods of a class come before those of its superclasses. -/
theorem findMethods_ordered (h : LoadedClasses Class Method Field Ref) (c : Class) (key : LuaString) :
    (findMethods h.toHierarchy c key).Pairwise fun m m' =>
      ¬ TransGen h.Extends (h.jvm.declaringClass m'.methodIdRaw) (h.jvm.declaringClass m.methodIdRaw) := by
  -- what two classes of the chain contribute, the first of them the same or before
  have hlevels : ∀ a b : Class, a = b ∨ TransGen h.Extends a b → ∀ da db, (da = a ∨ da ∈ h.interfaces a) →
      (db = b ∨ db ∈ h.interfaces b) → ¬ TransGen h.Extends db da := by
    intro a b hab da db hda hdb hext
    obtain rfl : da = a := hda.resolve_right (h.not_mem_interfaces hext).1
    obtain rfl : db = b := hdb.resolve_right (h.not_mem_interfaces hext).2
    have hlt := h.rank_lt hext
    rcases hab with rfl | hab
    · exact lt_irrefl _ hlt
    · exact lt_asymm hlt (h.rank_lt hab)
  unfold findMethods
  rw [List.pairwise_flatMap]
  constructor
  · intro b _
    refine List.pairwise_of_forall_mem_list fun m hm m' hm' => ?_
    exact hlevels b b (Or.inl rfl) _ _ (declaringClass_of_mem hm) (declaringClass_of_mem hm')
  · refine (Hierarchy.pairwise_chain rfl).1.imp fun hab m hm m' hm' => ?_
    exact hlevels _ _ (Or.inr hab) _ _ (declaringClass_of_mem hm) (declaringClass_of_mem hm')

/-- **Method search sees every inherited method** of a name exactly when each supertype that declares one is a class
of the chain or a direct superinterface of one. -/
theorem seesInherited_iff (h : LoadedClasses Class Method Field Ref) (c : Class) (key : LuaString) :
    SeesInherited h.toHierarchy c key ↔
      ∀ d, h.Supertype c d → Declares h.toHierarchy key d → h.Near c d := by
  constructor
  · rintro ⟨hcomplete, -⟩ d hd ⟨m, hm, hname⟩
    exact (exists_mem_findMethods_iff hm hname).mp (hcomplete d hd m hm hname)
  · intro hnear
    refine ⟨fun d hd m hm hname => ?_, findMethods_ordered h c key⟩
    exact (exists_mem_findMethods_iff hm hname).mpr (hnear d hd ⟨m, hm, hname⟩)

/-- A default method that a class inherits through two interfaces is not found. -/
theorem name_not_seen : ¬ SeesInherited bookClasses.toHierarchy .book "name".toList := by
  intro hsees
  have hnamed : bookClasses.toHierarchy.Supertype .book .named := by
    have htitled : bookClasses.Implements .book .titled := List.mem_cons_self
    have hnamed : bookClasses.Implements .titled .named := List.mem_cons_self
    exact ⟨.book, by decide, .head htitled (.single hnamed)⟩
  obtain ⟨id, hid, -⟩ := hsees.complete .named hnamed .namedName (by decide) rfl
  have hnone : findMethods bookClasses.toHierarchy .book "name".toList = [] := rfl
  rw [hnone] at hid
  simp at hid

end Methods

/-! ## Fields -/

section Fields

/-- The field of the name that a class declares itself. -/
def ownField (h : Hierarchy Class Method Field Ref) (key : LuaString) (c : Class) : Option Field :=
  (h.fields c).find? fun f => (h.fieldInfo f).name = key

/-- The supertypes of a class in the order of field resolution: the superinterfaces, then the superclass. -/
def LoadedClasses.supertypes (h : LoadedClasses Class Method Field Ref) : Ranked Class where
  next c := h.interfaces c ++ (h.superclass c).toList
  rank := h.rank
  rank_lt c d hd := by
    rcases List.mem_append.mp hd with hd | hd
    · exact h.rank_interface c d hd
    · exact h.rank_superclass c d (Option.mem_toList.mp hd)

/-- Field resolution by name. -/
def resolveField (h : LoadedClasses Class Method Field Ref) (c : Class) (key : LuaString) : Option Field :=
  firstFound h.supertypes (ownField h.toHierarchy key) c

variable {h : LoadedClasses Class Method Field Ref} {c d : Class} {key : LuaString}

/-- The class itself, then its direct superinterfaces, recursively, then its superclass, recursively. -/
theorem resolveField_eq : resolveField h c key =
    ((ownField h.toHierarchy key c).or ((h.interfaces c).findSome? (resolveField h · key))).or
      ((h.superclass c).bind (resolveField h · key)) := by
  rw [Option.or_assoc]
  show firstFound _ _ _ = _
  rw [firstFound_eq]
  congr 1
  show (h.interfaces c ++ (h.superclass c).toList).findSome? (resolveField h · key) = _
  rw [List.findSome?_append]
  cases h.superclass c with
  | none => rfl
  | some d => cases hd : resolveField h d key <;> simp [hd]

/-- `find_field` climbs the superclasses. -/
theorem findField_eq : findField h.toHierarchy c key =
    (ownField h.toHierarchy key c).or ((h.superclass c).bind (findField h.toHierarchy · key)) := by
  have hfind : ∀ d, findField h.toHierarchy d key = (h.chain d).findSome? (ownField h.toHierarchy key) := fun _ => rfl
  rw [hfind, h.chain_eq]
  cases hown : ownField h.toHierarchy key c with
  | some f =>
    rw [List.findSome?_cons_of_isSome (by rw [hown]; rfl), hown]
    rfl
  | none =>
    rw [List.findSome?_cons_of_isNone (by rw [hown]; rfl)]
    cases h.superclass c <;> rfl

/-- From an interface only interfaces are reached. -/
theorem implements_of_reach {i d : Class} (hi : h.Implements c i)
    (hreach : ReflTransGen (fun a b => b ∈ h.supertypes.next a) i d) : TransGen h.Implements c d := by
  induction hreach with
  | refl => exact .single hi
  | tail _ hd ih =>
    rcases List.mem_append.mp hd with hd | hd
    · exact ih.tail hd
    · -- an interface has no superclass
      obtain ⟨e, -, he⟩ := TransGen.tail'_iff.mp ih
      rw [h.superclass_interface e _ he] at hd
      simp at hd

theorem reach_of_implements (hreach : ReflTransGen h.Implements c d) :
    ReflTransGen (fun a b => b ∈ h.supertypes.next a) c d :=
  ReflTransGen.mono (fun _ _ hab => List.mem_append_left _ hab) c d hreach

theorem ownField_class {f : Field} (hf : ownField h.toHierarchy key c = some f) : h.fieldClass f = c :=
  h.fieldClass_eq c f (List.mem_of_find?_eq_some hf)

/-- No field of the superinterfaces of `c` is resolved exactly when none of them declares one. -/
theorem interfaces_resolve_none : (h.interfaces c).findSome? (resolveField h · key) = none ↔
    ∀ i, TransGen h.Implements c i → ownField h.toHierarchy key i = none := by
  rw [List.findSome?_eq_none_iff]
  constructor
  · intro hnone i hi
    obtain ⟨j, hj, hreach⟩ := TransGen.head'_iff.mp hi
    exact own_eq_none_of_firstFound (hnone j hj) (reach_of_implements hreach)
  · intro hnone j hj
    by_contra hsome
    obtain ⟨f, hf⟩ := Option.ne_none_iff_exists'.mp hsome
    obtain ⟨i, hreach, hi⟩ := exists_of_firstFound hf
    rw [hnone i (implements_of_reach hj hreach)] at hi
    simp at hi

/-- The field that `find_field` finds is declared by a class of the chain. -/
theorem exists_of_findField {f : Field} (hf : findField h.toHierarchy c key = some f) :
    ReflTransGen h.Extends c (h.fieldClass f) := by
  obtain ⟨d, hd, hown⟩ := List.exists_of_findSome?_eq_some hf
  have hclass : h.fieldClass f = d := h.fieldClass_eq d f (List.mem_of_find?_eq_some hown)
  rw [hclass]
  exact (Hierarchy.pairwise_chain rfl).2 d hd

/-- The classes of the chain before the first that declares a field of the name. -/
def classesBefore (h : Hierarchy Class Method Field Ref) (c : Class) (key : LuaString) : List Class :=
  (h.chain c).takeWhile fun b => (ownField h key b).isNone

theorem classesBefore_of_some {f : Field} (hf : ownField h.toHierarchy key c = some f) :
    classesBefore h.toHierarchy c key = [] := by
  unfold classesBefore
  rw [h.chain_eq c, List.takeWhile_cons, hf]
  rfl

theorem classesBefore_of_none (hnone : ownField h.toHierarchy key c = none) :
    classesBefore h.toHierarchy c key = c :: (h.superclass c).elim [] (classesBefore h.toHierarchy · key) := by
  unfold classesBefore
  rw [h.chain_eq c, List.takeWhile_cons, hnone]
  cases h.superclass c <;> rfl

/-- A field of a superinterface is never found. -/
theorem findField_ne_of_interface {i : Class} {f : Field} (hnone : ownField h.toHierarchy key c = none)
    (hi : TransGen h.Implements c i) (hf : ownField h.toHierarchy key i = some f) :
    findField h.toHierarchy c key ≠ some f := by
  intro hfound
  have hext := exists_of_findField hfound
  rw [ownField_class hf] at hext
  obtain ⟨e, -, he⟩ := TransGen.tail'_iff.mp hi
  rcases reflTransGen_iff_eq_or_transGen.mp hext with rfl | hext
  · rw [hnone] at hf
    simp at hf
  · exact (h.not_mem_interfaces hext).1 he

/-- **Field search agrees with field resolution** exactly when, of the classes of the chain before the first that
declares a field of the name, no superinterface declares one. -/
theorem findField_eq_resolveField_iff (h : LoadedClasses Class Method Field Ref) (c : Class) (key : LuaString) :
    findField h.toHierarchy c key = resolveField h c key ↔
      ∀ b ∈ classesBefore h.toHierarchy c key, ∀ i, TransGen h.Implements b i →
        ownField h.toHierarchy key i = none := by
  -- by induction on the chain of `c`
  induction hl : h.chain c generalizing c with
  | nil =>
    rw [h.chain_eq c] at hl
    simp at hl
  | cons a l ih =>
    rw [findField_eq, resolveField_eq]
    cases hown : ownField h.toHierarchy key c with
    | some f =>
      rw [classesBefore_of_some hown]
      simp
    | none =>
      rw [classesBefore_of_none hown]
      simp only [Option.none_or, List.forall_mem_cons]
      cases hfound : (h.interfaces c).findSome? (resolveField h · key) with
      | some f =>
        obtain ⟨j, hj, hjf⟩ := List.exists_of_findSome?_eq_some hfound
        obtain ⟨i, hreach, hi⟩ := exists_of_firstFound hjf
        have himpl : TransGen h.Implements c i := implements_of_reach hj hreach
        constructor
        · intro heq
          rw [Option.some_or] at heq
          have hne := findField_ne_of_interface hown himpl hi
          rw [findField_eq, hown, Option.none_or] at hne
          exact absurd heq hne
        · rintro ⟨hnone, -⟩
          rw [hnone i himpl] at hi
          simp at hi
      | none =>
        have hnone := interfaces_resolve_none.mp hfound
        rw [Option.none_or, and_iff_right hnone]
        rw [h.chain_eq c] at hl
        have htail := (List.cons.inj hl).2
        cases hsuper : h.superclass c with
        | none => simp
        | some d =>
          rw [hsuper] at htail
          exact ih d htail

/-- A constant of an interface is not found. -/
theorem max_not_found :
    findField bookClasses.toHierarchy .book "MAX".toList ≠ resolveField bookClasses .book "MAX".toList := by decide

end Fields

end YellowTree
