import YellowTree.Bridge.ArrayElements

/-!
# YellowTree.Bridge.ReturnValues — what `jmethod_id:__call` makes of a return value

`get_preferred_ret_type` chooses a tag by the name of the method and the first character of its return type, as
`jmethod_id.create` cut it out of the descriptor.  `lj_call_method` chooses a JNI call and a conversion by the tag, and
`create_return_value` wraps what comes back.  A JNI call of another type than the method's, and GetStringUTFChars on
anything but a String, are undefined.

* `parsedRet_of_split`: with a parenthesis in a parameter, the text taken for the return type begins behind it.
* `decodes_iff`: a value is decoded by the real return type exactly under `DecodesWhen`.
-/

namespace YellowTree

variable {Class Ref : Type}

/-! ## The embedding -/

section Embedding

/-- A result, a Lua error, or no defined behaviour. -/
inductive Outcome (α : Type) where
  | ok (a : α)
  | error (e : LuaError)
  | undefined

def Outcome.bind {α β : Type} (x : Outcome α) (f : α → Outcome β) : Outcome β :=
  match x with
  | .ok a => f a
  | .error e => .error e
  | .undefined => .undefined

/-- The classes of objects: their names, whether java.lang.Thread is assignable from them; the text of a String; and
whether the class that a Class object stands for is prepared, without which JVMTI does not give its fields. -/
structure ReturnEnv (Class Ref : Type) where
  className : Class → LuaString
  isThread : Class → Bool
  text : Ref → Option JavaString
  prepared : Ref → Bool

/-- What a method returns; a reference comes with its class. -/
inductive JavaResult (Class Ref : Type) where
  | void
  | boolean (b : Bool)
  | integer (n : ℤ)
  | floating (x : LuaNumber)
  | reference (o : Option (Ref × Class))

/-- The return types that JNI has calls for. -/
inductive RetKind where
  | void
  | object
  | prim (p : PrimType)
  deriving DecidableEq

/-- A JNI call: NewObjectA, or `Call<Kind>MethodA` and `CallStatic<Kind>MethodA`. -/
inductive JniCall where
  | newObject
  | method (isStatic : Bool) (kind : RetKind)
  deriving DecidableEq

/-- A value that `lj_call_method` pushes. -/
inductive Pushed (Class Ref : Type) where
  | nil
  | boolean (b : Bool)
  | number (x : LuaNumber)
  | string (s : LuaString)
  | jobject (raw : Ref) (cls : Class)

inductive Wrapper where
  | jobject | jclass | jthread | jarray
  deriving DecidableEq

/-- A value that `jmethod_id:__call` returns. -/
inductive ReturnValue (Class Ref : Type) where
  | nil
  | boolean (b : Bool)
  | number (x : LuaNumber)
  | string (s : LuaString)
  | userdata (raw : Ref) (cls : Class)
  | wrapped (w : Wrapper) (raw : Ref) (cls : Class)

def toStringName : LuaString := "toString".toList

def initName : LuaString := "<init>".toList

/-- `self.ret`, as `jmethod_id.create` cuts it out: what follows the first `)`. -/
def MethodInfo.parsedRet (m : MethodInfo) : LuaString := ((m.sig.drop 1).dropWhile (· ≠ ')')).drop 1

/-- `jmethod_id:get_preferred_ret_type`. -/
def preferredRetType (m : MethodInfo) : LuaString :=
  if m.name = toStringName then "STR".toList
  else if m.parsedRet.take 1 = ['L'] then ['L']
  else if m.name = initName then ['L']
  else m.parsedRet

/-- The tests for a primitive return type. -/
def primOfTag (ret : LuaString) : Option PrimType :=
  if ret = ['Z'] then some .Z
  else if ret = ['B'] then some .B
  else if ret = ['C'] then some .C
  else if ret = ['S'] then some .S
  else if ret = ['I'] then some .I
  else if ret = ['J'] then some .J
  else if ret = ['F'] then some .F
  else if ret = ['D'] then some .D
  else none

/-- The call that `lj_call_method` makes; `none` for an unknown return type. -/
def jniCall (m : MethodInfo) (ret : LuaString) : Option JniCall :=
  if ret = ['V'] then some (.method m.isStatic .void)
  else if ret.head? = some 'L' ∨ ret.head? = some '[' ∨ ret = "STR".toList then
    if m.name = initName then some .newObject else some (.method m.isStatic .object)
  else (primOfTag ret).map fun p => .method m.isStatic (.prim p)

def retKind : Option FieldType → RetKind
  | none => .void
  | some (.prim p) => .prim p
  | some _ => .object

/-- The call that belongs to the method: a constructor creates an object, any other method is called by its type. -/
def properCall (m : MethodInfo) : JniCall :=
  if m.name = initName then .newObject else .method m.isStatic (retKind m.ret)

/-- `new_string`: GetStringUTFChars wants a String. -/
def pushString (env : ReturnEnv Class Ref) : Option (Ref × Class) → Outcome (List (Pushed Class Ref))
  | none => .undefined
  | some (raw, _) =>
    match env.text raw with
    | some u => .ok [.string (newString u)]
    | none => .undefined

/-- `new_jobject`. -/
def pushJobject : Option (Ref × Class) → Pushed Class Ref
  | none => .nil
  | some (raw, cls) => .jobject raw cls

/-- The result of an object call is made a string unless the tag is `L` or begins with `[`. -/
def pushesString (ret : LuaString) : Bool := ret ≠ ['L'] && ret.head? ≠ some '['

/-- What is pushed for a result. -/
def pushResult (env : ReturnEnv Class Ref) (ret : LuaString) :
    JavaResult Class Ref → Outcome (List (Pushed Class Ref))
  | .void => .ok []
  | .boolean b => .ok [.boolean b]
  | .integer n => .ok [.number (.ofInteger n)]
  | .floating x => .ok [.number x]
  | .reference o => if pushesString ret then pushString env o else .ok [pushJobject o]

/-- `lj_call_method`, on a method that returns `r` when it is called by the proper call. -/
def ljCallMethod (env : ReturnEnv Class Ref) (m : MethodInfo) (ret : LuaString) (r : JavaResult Class Ref) :
    Outcome (List (Pushed Class Ref)) :=
  match jniCall m ret with
  | none => .error (.message "Unknown return type")
  | some c => if c = properCall m then pushResult env ret r else .undefined

/-- The end of `create_jobject`: discriminate based on name.  `jclass.create` asks JVMTI for the fields of the class
that the object stands for. -/
def wrapObject (env : ReturnEnv Class Ref) (raw : Ref) (c : Class) : Outcome (ReturnValue Class Ref) :=
  if env.className c = "java.lang.Class".toList then
    if env.prepared raw then .ok (.wrapped .jclass raw c) else .error (.jvmti "JVMTI_ERROR_CLASS_NOT_PREPARED")
  else if env.className c = "java.lang.Thread".toList then .ok (.wrapped .jthread raw c)
  else if (env.className c).take 1 = ['['] then .ok (.wrapped .jarray raw c)
  else if env.isThread c then .ok (.wrapped .jthread raw c)
  else .ok (.wrapped .jobject raw c)

/-- `create_jobject`. -/
def createJobject (env : ReturnEnv Class Ref) : Pushed Class Ref → Outcome (ReturnValue Class Ref)
  | .nil => .ok .nil
  | .boolean false => .ok .nil
  | .jobject raw c => wrapObject env raw c
  | _ => .error (.message "jobject expected")

/-- `create_return_value`. -/
def createReturnValue (env : ReturnEnv Class Ref) (v : Pushed Class Ref) (type : LuaString) :
    Outcome (ReturnValue Class Ref) :=
  if type.take 1 = ['L'] ∨ type.take 1 = ['['] then createJobject env v
  else
    match v with
    | .nil => .ok .nil
    | .boolean b => .ok (.boolean b)
    | .number x => .ok (.number x)
    | .string s => .ok (.string s)
    | .jobject raw cls => .ok (.userdata raw cls)

/-- `jmethod_id:__call`: no result is nil. -/
def methodCall (env : ReturnEnv Class Ref) (m : MethodInfo) (r : JavaResult Class Ref) :
    Outcome (ReturnValue Class Ref) :=
  (ljCallMethod env m (preferredRetType m) r).bind fun vs =>
    createReturnValue env (vs.headD .nil) (preferredRetType m)

end Embedding

/-! ## Decoding a return value -/

section Spec

variable (env : ReturnEnv Class Ref) (m : MethodInfo)

/-- The values of a return type; an object of type String is a String. -/
inductive ReturnsType : Option FieldType → JavaResult Class Ref → Prop
  | void : ReturnsType none .void
  | boolean (b : Bool) : ReturnsType (some (.prim .Z)) (.boolean b)
  | integer (p : PrimType) (hp : p.isIntegral = true) (n : ℤ) : ReturnsType (some (.prim p)) (.integer n)
  | floating (p : PrimType) (hp : p = .F ∨ p = .D) (x : LuaNumber) : ReturnsType (some (.prim p)) (.floating x)
  | null (t : FieldType) (ht : t.isReference = true) : ReturnsType (some t) (.reference none)
  | object (t : FieldType) (ht : t.isReference = true) (raw : Ref) (c : Class)
      (hstring : t.descriptor = stringType → ∃ u, env.text raw = some u) :
      ReturnsType (some t) (.reference (some (raw, c)))

/-- What a call of `m` can return: a constructor the new object. -/
def Returns (r : JavaResult Class Ref) : Prop :=
  if m.name = initName then ∃ raw c, r = .reference (some (raw, c)) else ReturnsType env m.ret r

/-- The return type is java.lang.String. -/
def ReturnsString : Prop := ∃ t, m.ret = some t ∧ t.descriptor = stringType

/-- The Lua value that corresponds to a result. -/
def AsLua (r : JavaResult Class Ref) (v : ReturnValue Class Ref) : Prop :=
  match r with
  | .void => v = .nil
  | .boolean b => v = .boolean b
  | .integer n => v = .number (.ofInteger n)
  | .floating x => v = .number x
  | .reference none => v = .nil
  | .reference (some (raw, c)) =>
    (m.name = toStringName ∧ ReturnsString m ∧ ∃ u, env.text raw = some u ∧ v = .string (newString u)) ∨
      (¬ (m.name = toStringName ∧ ReturnsString m) ∧
        ∃ w, v = .wrapped w raw c ∧ (w = .jarray ↔ (env.className c).take 1 = ['[']))

/-- The call is the one of the method, its result is made a string only when it is one, and the value corresponds. -/
structure Decodes (r : JavaResult Class Ref) : Prop where
  family : jniCall m (preferredRetType m) = some (properCall m)
  stringOnly : ∀ o, r = .reference o → pushesString (preferredRetType m) = true → ReturnsString m
  value : ∃ v, methodCall env m r = .ok v ∧ AsLua env m r v

/-- The text taken for the return type begins as the return type does: no parameter has a parenthesis, or what follows
the first one begins with `L` or `[` and the return type is a reference. -/
def ParsesRet : Prop :=
  ')' ∉ m.params.flatMap FieldType.descriptor ∨
    ((∃ t, m.ret = some t ∧ t.isReference = true) ∧ (m.parsedRet.take 1 = ['L'] ∨ m.parsedRet.take 1 = ['[']))

/-- `toString` returns a String and not null; another method that is no constructor has its return type found; and a
Class object that is to be wrapped stands for a prepared class. -/
def DecodesWhen (r : JavaResult Class Ref) : Prop :=
  if m.name = toStringName then ReturnsString m ∧ r ≠ .reference none
  else (m.name = initName ∨ ParsesRet m) ∧
    ∀ raw c, r = .reference (some (raw, c)) → env.className c = "java.lang.Class".toList → env.prepared raw = true

end Spec

/-! ## The tag -/

section Tag

variable {m : MethodInfo}

theorem parsedRet_of_notMem (h : ')' ∉ m.params.flatMap FieldType.descriptor) : m.parsedRet = retText m.ret := by
  have hall : ∀ c ∈ m.params.flatMap FieldType.descriptor, (decide (c ≠ ')')) = true := fun c hc =>
    decide_eq_true fun heq => h (heq ▸ hc)
  have hsig : m.sig.drop 1 = m.params.flatMap FieldType.descriptor ++ ')' :: retText m.ret := rfl
  rw [MethodInfo.parsedRet, hsig, List.dropWhile_append_of_pos hall, List.dropWhile_cons_of_neg (by simp)]
  rfl

/-- With a parenthesis in a parameter the text goes on from there. -/
theorem parsedRet_of_split {u v : LuaString} (hu : ')' ∉ u)
    (h : m.params.flatMap FieldType.descriptor = u ++ ')' :: v) : m.parsedRet = v ++ ')' :: retText m.ret := by
  have hall : ∀ c ∈ u, (decide (c ≠ ')')) = true := fun c hc => decide_eq_true fun heq => hu (heq ▸ hc)
  have hsig : m.sig.drop 1 = u ++ ')' :: (v ++ ')' :: retText m.ret) := by
    rw [MethodInfo.sig, List.drop_one, List.tail_cons, h, List.append_assoc, List.cons_append]
  rw [MethodInfo.parsedRet, hsig, List.dropWhile_append_of_pos hall, List.dropWhile_cons_of_neg (by simp)]
  rfl

theorem parsedRet_of_mem (h : ')' ∈ m.params.flatMap FieldType.descriptor) : ')' ∈ m.parsedRet := by
  obtain ⟨u, v, huv, hu⟩ := List.eq_append_cons_of_mem h
  rw [parsedRet_of_split hu huv]
  simp

theorem preferredRetType_toString (h : m.name = toStringName) : preferredRetType m = "STR".toList := if_pos h

theorem preferredRetType_init (h : m.name = initName) : preferredRetType m = ['L'] := by
  have hne : m.name ≠ toStringName := by rw [h]; decide
  rw [preferredRetType, if_neg hne]
  split_ifs
  · rfl
  · rfl

theorem preferredRetType_other (htoString : m.name ≠ toStringName) (hinit : m.name ≠ initName) :
    preferredRetType m = if m.parsedRet.take 1 = ['L'] then ['L'] else m.parsedRet := by
  rw [preferredRetType, if_neg htoString, if_neg hinit]

/-- The tag of a return type is known, with the call of that type. -/
theorem jniCall_retText (hinit : m.name ≠ initName) (ret : Option FieldType) :
    jniCall m (if (retText ret).take 1 = ['L'] then ['L'] else retText ret) =
      some (.method m.isStatic (retKind ret)) := by
  rcases ret with _ | p | n | t
  · rfl
  · cases p <;> rfl
  · have htag : (if (retText (some (.cls n))).take 1 = ['L'] then ['L'] else retText (some (.cls n))) = ['L'] :=
      if_pos rfl
    rw [htag]
    exact if_neg hinit
  · have htag : (if (retText (some (.arr t))).take 1 = ['L'] then ['L'] else retText (some (.arr t))) =
        '[' :: t.descriptor := if_neg (by decide : ¬ (['['] : LuaString) = ['L'])
    rw [htag, jniCall, if_neg (by simp), if_pos (by simp), if_neg hinit]
    rfl

/-- A tag that makes `lj_call_method` push an object, and `create_return_value` wrap it. -/
def IsObjectTag (ret : LuaString) : Prop := ret = ['L'] ∨ ret.take 1 = ['[']

theorem head?_iff {c : Char} {s : LuaString} : s.head? = some c ↔ s.take 1 = [c] := by
  cases s <;> simp

theorem jniCall_object {ret : LuaString} (h : IsObjectTag ret) :
    jniCall m ret = if m.name = initName then some .newObject else some (.method m.isStatic .object) := by
  have hhead : ret.head? = some 'L' ∨ ret.head? = some '[' ∨ ret = "STR".toList := by
    rcases h with rfl | h
    · exact Or.inl rfl
    · exact Or.inr (Or.inl (head?_iff.mpr h))
  have hV : ret ≠ ['V'] := by
    rintro rfl
    rcases h with h | h
    · exact absurd h (by decide)
    · exact absurd h (by decide)
  rw [jniCall, if_neg hV, if_pos hhead]

/-- What begins with `L` or `[` is taken for the type of an object. -/
theorem isObjectTag_of_head (htoString : m.name ≠ toStringName) (hinit : m.name ≠ initName)
    (hhead : m.parsedRet.take 1 = ['L'] ∨ m.parsedRet.take 1 = ['[']) : IsObjectTag (preferredRetType m) := by
  rw [preferredRetType_other htoString hinit]
  split_ifs with hL
  · exact Or.inl rfl
  · exact Or.inr (hhead.resolve_left hL)

theorem retKind_eq_object_iff {ret : Option FieldType} :
    retKind ret = .object ↔ ∃ t, ret = some t ∧ t.isReference = true := by
  rcases ret with _ | p | n | t
  · exact iff_of_false (fun h => by cases h) fun ⟨t, ht, _⟩ => by cases ht
  · exact iff_of_false (fun h => by cases h) fun ⟨t, ht, href⟩ => by cases ht; cases href
  · exact iff_of_true rfl ⟨_, rfl, rfl⟩
  · exact iff_of_true rfl ⟨_, rfl, rfl⟩

theorem properCall_eq (hinit : m.name ≠ initName) : properCall m = .method m.isStatic (retKind m.ret) := if_neg hinit

/-- A method that is called as one that returns an object is called properly when it does. -/
theorem object_eq_properCall_iff (hinit : m.name ≠ initName) :
    some (JniCall.method m.isStatic .object) = some (properCall m) ↔
      ∃ t, m.ret = some t ∧ t.isReference = true := by
  rw [properCall_eq hinit, Option.some.injEq, JniCall.method.injEq, ← retKind_eq_object_iff]
  exact ⟨fun h => h.2.symm, fun h => ⟨rfl, h.symm⟩⟩

/-- No other known tag has a parenthesis. -/
theorem jniCall_of_mem {ret : LuaString} (h : ')' ∈ ret) (hobj : ¬ (ret.take 1 = ['L'] ∨ ret.take 1 = ['['])) :
    jniCall m ret = none := by
  have hne : ∀ s : LuaString, ')' ∉ s → ret ≠ s := fun s hs heq => hs (heq ▸ h)
  have hhead : ¬ (ret.head? = some 'L' ∨ ret.head? = some '[' ∨ ret = "STR".toList) := by
    rintro (hL | hA | hS)
    · exact hobj (Or.inl (head?_iff.mp hL))
    · exact hobj (Or.inr (head?_iff.mp hA))
    · exact hne _ (by decide) hS
  rw [jniCall, if_neg (hne ['V'] (by decide)), if_neg hhead, primOfTag, if_neg (hne _ (by decide)),
    if_neg (hne _ (by decide)), if_neg (hne _ (by decide)), if_neg (hne _ (by decide)), if_neg (hne _ (by decide)),
    if_neg (hne _ (by decide)), if_neg (hne _ (by decide)), if_neg (hne _ (by decide))]
  rfl

end Tag

/-! ## One kind of method after the other -/

section Decodes

variable {env : ReturnEnv Class Ref} {m : MethodInfo} {r : JavaResult Class Ref}

/-- References are the values of reference types. -/
theorem ReturnsType.reference_iff {ret : Option FieldType} (h : ReturnsType env ret r) :
    (∃ o, r = .reference o) ↔ ∃ t, ret = some t ∧ t.isReference = true := by
  cases h with
  | null t ht => exact iff_of_true ⟨_, rfl⟩ ⟨t, rfl, ht⟩
  | object t ht raw c => exact iff_of_true ⟨_, rfl⟩ ⟨t, rfl, ht⟩
  | void => exact iff_of_false (fun ⟨o, ho⟩ => by cases ho) fun ⟨t, ht, _⟩ => by cases ht
  | _ => exact iff_of_false (fun ⟨o, ho⟩ => by cases ho) fun ⟨t, ht, href⟩ => by cases ht; cases href

/-- A reference is wrapped unless it is a Class object of a class that is not prepared. -/
theorem wrapObject_iff {raw : Ref} {c : Class} :
    (∃ v, wrapObject env raw c = .ok v ∧
      ∃ w, v = .wrapped w raw c ∧ (w = .jarray ↔ (env.className c).take 1 = ['['])) ↔
    (env.className c = "java.lang.Class".toList → env.prepared raw = true) := by
  unfold wrapObject
  by_cases hclass : env.className c = "java.lang.Class".toList
  · rw [if_pos hclass]
    by_cases hprep : env.prepared raw = true
    · rw [if_pos hprep]
      refine iff_of_true ⟨_, rfl, .jclass, rfl, iff_of_false (by decide) ?_⟩ fun _ => hprep
      rw [hclass]
      decide
    · rw [if_neg hprep]
      exact iff_of_false (fun ⟨v, hv, _⟩ => by cases hv) fun h => hprep (h hclass)
  rw [if_neg hclass]
  refine iff_of_true ?_ fun h => absurd h hclass
  by_cases hthread : env.className c = "java.lang.Thread".toList
  · rw [if_pos hthread]
    refine ⟨_, rfl, .jthread, rfl, iff_of_false (by decide) ?_⟩
    rw [hthread]
    decide
  rw [if_neg hthread]
  by_cases harr : (env.className c).take 1 = ['[']
  · rw [if_pos harr]
    exact ⟨_, rfl, .jarray, rfl, iff_of_true rfl harr⟩
  rw [if_neg harr]
  by_cases hsub : env.isThread c = true
  · rw [if_pos hsub]
    exact ⟨_, rfl, .jthread, rfl, iff_of_false (by decide) harr⟩
  · rw [if_neg hsub]
    exact ⟨_, rfl, .jobject, rfl, iff_of_false (by decide) harr⟩

/-- With the proper call, what is pushed is made the return value. -/
theorem methodCall_of_proper (h : jniCall m (preferredRetType m) = some (properCall m)) :
    methodCall env m r = (pushResult env (preferredRetType m) r).bind fun vs =>
      createReturnValue env (vs.headD .nil) (preferredRetType m) := by
  rw [methodCall, ljCallMethod, h]
  exact congrArg (Outcome.bind · _) (if_pos rfl)

theorem pushesString_object {ret : LuaString} (h : IsObjectTag ret) : pushesString ret = false := by
  rcases h with rfl | h
  · rfl
  · simp [pushesString, head?_iff.mpr h]

/-- A reference under an object tag is wrapped, and null is nil. -/
theorem decodes_object (hfamily : jniCall m (preferredRetType m) = some (properCall m))
    (htag : IsObjectTag (preferredRetType m)) (hname : m.name ≠ toStringName) (o : Option (Ref × Class)) :
    Decodes env m (.reference o) ↔
      ∀ raw c, o = some (raw, c) → env.className c = "java.lang.Class".toList → env.prepared raw = true := by
  have hstring := pushesString_object htag
  have htype : (preferredRetType m).take 1 = ['L'] ∨ (preferredRetType m).take 1 = ['['] := by
    rcases htag with h | h
    · exact Or.inl (by rw [h]; rfl)
    · exact Or.inr h
  have hcall : methodCall env m (.reference o) = createJobject env (pushJobject o) := by
    rw [methodCall_of_proper hfamily, pushResult, if_neg (by rw [hstring]; decide)]
    exact if_pos htype
  have hno : ¬ (m.name = toStringName ∧ ReturnsString m) := fun h => hname h.1
  have honly : ∀ o' : Option (Ref × Class), (JavaResult.reference o : JavaResult Class Ref) = .reference o' →
      pushesString (preferredRetType m) = true → ReturnsString m := by
    intro o' _ hpush
    rw [hstring] at hpush
    cases hpush
  cases o with
  | none => exact iff_of_true ⟨hfamily, honly, .nil, hcall, rfl⟩ fun raw c h => by cases h
  | some p =>
    obtain ⟨raw, c⟩ := p
    constructor
    · rintro ⟨-, -, v, hv, hlua⟩ raw' c' hp
      obtain ⟨rfl, rfl⟩ := Prod.mk.inj (Option.some.inj hp)
      rcases hlua with ⟨hname', hret, -⟩ | ⟨-, hw⟩
      · exact absurd ⟨hname', hret⟩ hno
      · exact wrapObject_iff.mp ⟨v, hcall.symm.trans hv, hw⟩
    · intro h
      obtain ⟨v, hv, hw⟩ := wrapObject_iff.mpr (h raw c rfl)
      exact ⟨hfamily, honly, v, hcall.trans hv, Or.inr ⟨hno, hw⟩⟩

/-- `toString`. -/
theorem decodes_toString (hname : m.name = toStringName) (hr : Returns env m r) :
    Decodes env m r ↔ ReturnsString m ∧ r ≠ .reference none := by
  have htag := preferredRetType_toString hname
  have hinit : m.name ≠ initName := by rw [hname]; decide
  have hjni : jniCall m (preferredRetType m) = some (.method m.isStatic .object) := by
    rw [htag]
    exact if_neg hinit
  have hpush : pushesString (preferredRetType m) = true := by rw [htag]; rfl
  rw [Returns, if_neg hinit] at hr
  constructor
  · rintro ⟨hfamily, honly, v, hv, hlua⟩
    obtain ⟨o, rfl⟩ := hr.reference_iff.mpr ((object_eq_properCall_iff hinit).mp (hjni.symm.trans hfamily))
    refine ⟨honly o rfl hpush, ?_⟩
    rintro hnull
    obtain rfl := JavaResult.reference.inj hnull
    rw [methodCall_of_proper hfamily, pushResult, if_pos hpush] at hv
    cases hv
  · rintro ⟨⟨t, hret, hdesc⟩, hnull⟩
    have href := isReference_of_object (Or.inl hdesc)
    have hfamily : jniCall m (preferredRetType m) = some (properCall m) :=
      hjni.trans ((object_eq_properCall_iff hinit).mpr ⟨t, hret, href⟩)
    rw [hret] at hr
    cases hr with
    | null t ht => exact absurd rfl hnull
    | object t ht raw c hstring =>
      obtain ⟨u, hu⟩ := hstring hdesc
      refine ⟨hfamily, fun _ _ _ => ⟨t, hret, hdesc⟩, .string (newString u), ?_, ?_⟩
      · rw [methodCall_of_proper hfamily, pushResult, if_pos hpush, pushString, hu, htag]
        rfl
      · exact Or.inl ⟨hname, ⟨t, hret, hdesc⟩, u, hu, rfl⟩
    | _ => cases href

/-- A constructor. -/
theorem decodes_init (hname : m.name = initName) (hr : Returns env m r) :
    Decodes env m r ↔
      ∀ raw c, r = .reference (some (raw, c)) → env.className c = "java.lang.Class".toList →
        env.prepared raw = true := by
  have htag := preferredRetType_init hname
  have hobj : IsObjectTag (preferredRetType m) := Or.inl htag
  have hfamily : jniCall m (preferredRetType m) = some (properCall m) := by
    rw [jniCall_object hobj, if_pos hname, properCall, if_pos hname]
  rw [Returns, if_pos hname] at hr
  obtain ⟨raw, c, rfl⟩ := hr
  have hne : m.name ≠ toStringName := by rw [hname]; decide
  rw [decodes_object hfamily hobj hne]
  simp

/-- Any other method that returns references, under `L` or under a tag that begins with a bracket. -/
theorem decodes_reference (htoString : m.name ≠ toStringName) (hinit : m.name ≠ initName) (hparses : ParsesRet m)
    (href : ∃ t, m.ret = some t ∧ t.isReference = true) (hr : ReturnsType env m.ret r) :
    Decodes env m r ↔
      ∀ raw c, r = .reference (some (raw, c)) → env.className c = "java.lang.Class".toList →
        env.prepared raw = true := by
  have hhead : m.parsedRet.take 1 = ['L'] ∨ m.parsedRet.take 1 = ['['] := by
    rcases hparses with hno | ⟨-, hhead⟩
    · obtain ⟨t, hret, ht⟩ := href
      rw [parsedRet_of_notMem hno, hret]
      cases t with
      | prim p => cases ht
      | cls n => exact Or.inl rfl
      | arr t => exact Or.inr rfl
    · exact hhead
  have hobj := isObjectTag_of_head htoString hinit hhead
  have hfamily : jniCall m (preferredRetType m) = some (properCall m) := by
    rw [jniCall_object hobj, if_neg hinit]
    exact (object_eq_properCall_iff hinit).mpr href
  obtain ⟨o, rfl⟩ := hr.reference_iff.mpr href
  rw [decodes_object hfamily hobj htoString]
  simp

/-- Any other method that returns none. -/
theorem decodes_prim (htoString : m.name ≠ toStringName) (hinit : m.name ≠ initName)
    (hno : ')' ∉ m.params.flatMap FieldType.descriptor) (href : ¬ ∃ t, m.ret = some t ∧ t.isReference = true)
    (hr : ReturnsType env m.ret r) : Decodes env m r := by
  have htag := preferredRetType_other htoString hinit
  have hfamily : jniCall m (preferredRetType m) = some (properCall m) := by
    rw [htag, parsedRet_of_notMem hno, jniCall_retText hinit, properCall_eq hinit]
  have hcall : methodCall env m r = _ := methodCall_of_proper hfamily
  rw [htag, parsedRet_of_notMem hno] at hcall
  refine ⟨hfamily, fun o ho => absurd (hr.reference_iff.mp ⟨o, ho⟩) href, ?_⟩
  generalize m.ret = ret at hr hcall href
  cases hr with
  | void => exact ⟨.nil, hcall, rfl⟩
  | boolean b => exact ⟨.boolean b, hcall, rfl⟩
  | integer p hp n =>
    refine ⟨.number (.ofInteger n), ?_, rfl⟩
    rw [hcall]
    cases p <;> rfl
  | floating p hp x =>
    refine ⟨.number x, ?_, rfl⟩
    rw [hcall]
    cases p <;> rfl
  | null t ht => exact absurd ⟨t, rfl, ht⟩ href
  | object t ht => exact absurd ⟨t, rfl, ht⟩ href

/-- Any other method whose return type is found. -/
theorem decodes_parsed (htoString : m.name ≠ toStringName) (hinit : m.name ≠ initName) (hparses : ParsesRet m)
    (hr : Returns env m r) :
    Decodes env m r ↔
      ∀ raw c, r = .reference (some (raw, c)) → env.className c = "java.lang.Class".toList →
        env.prepared raw = true := by
  rw [Returns, if_neg hinit] at hr
  by_cases href : ∃ t, m.ret = some t ∧ t.isReference = true
  · exact decodes_reference htoString hinit hparses href hr
  · have hno : ')' ∉ m.params.flatMap FieldType.descriptor := hparses.resolve_right fun h => href h.1
    exact iff_of_true (decodes_prim htoString hinit hno href hr) fun raw c hrc =>
      absurd (hr.reference_iff.mp ⟨_, hrc⟩) href

/-- A method whose return type is not found is called in another way than its own, or not at all. -/
theorem not_decodes_of_not_parsed (htoString : m.name ≠ toStringName) (hinit : m.name ≠ initName)
    (hparses : ¬ ParsesRet m) : ¬ Decodes env m r := by
  intro h
  have hmem : ')' ∈ m.params.flatMap FieldType.descriptor := by
    by_contra hno
    exact hparses (Or.inl hno)
  have hfamily := h.family
  by_cases hhead : m.parsedRet.take 1 = ['L'] ∨ m.parsedRet.take 1 = ['[']
  · rw [jniCall_object (isObjectTag_of_head htoString hinit hhead), if_neg hinit] at hfamily
    exact hparses (Or.inr ⟨(object_eq_properCall_iff hinit).mp hfamily, hhead⟩)
  · rw [preferredRetType_other htoString hinit, if_neg fun hL => hhead (Or.inl hL),
      jniCall_of_mem (parsedRet_of_mem hmem) hhead] at hfamily
    cases hfamily

/-- **Return values are decoded by the method's real return type** exactly under `DecodesWhen`. -/
theorem decodes_iff (env : ReturnEnv Class Ref) (m : MethodInfo) (r : JavaResult Class Ref) (hr : Returns env m r) :
    Decodes env m r ↔ DecodesWhen env m r := by
  unfold DecodesWhen
  by_cases htoString : m.name = toStringName
  · rw [if_pos htoString]
    exact decodes_toString htoString hr
  rw [if_neg htoString]
  by_cases hinit : m.name = initName
  · rw [decodes_init hinit hr]
    exact ⟨fun h => ⟨Or.inl hinit, h⟩, fun h => h.2⟩
  by_cases hparses : ParsesRet m
  · rw [decodes_parsed htoString hinit hparses hr]
    exact ⟨fun h => ⟨Or.inr hparses, h⟩, fun h => h.2⟩
  · exact iff_of_false (not_decodes_of_not_parsed htoString hinit hparses) fun h => hparses (h.1.resolve_left hinit)

/-- A program whose objects are Strings, named by their text. -/
def stringsEnv : ReturnEnv Unit JavaString := ⟨fun _ => "java.lang.String".toList, fun _ => false, some, fun _ => true⟩

/-- `toString(int)`, which returns an int. -/
def intToString : MethodInfo := ⟨toStringName, [.prim .I], some (.prim .I), true, none⟩

/-- It is called as a method that returns an object. -/
theorem intToString_not_decodes :
    Returns stringsEnv intToString (.integer 7) ∧ ¬ Decodes stringsEnv intToString (.integer 7) := by
  have hret : ReturnsType stringsEnv intToString.ret (.integer 7) := .integer .I rfl 7
  refine ⟨?_, fun h => ?_⟩
  · rw [Returns, if_neg (by decide)]
    exact hret
  · exact absurd h.family (by decide)

/-- `length()` is not. -/
theorem length_decodes :
    Decodes stringsEnv ⟨"length".toList, [], some (.prim .I), false, none⟩ (.integer 7) := by
  refine (decodes_iff stringsEnv ⟨"length".toList, [], some (.prim .I), false, none⟩ (.integer 7) ?_).mpr ?_
  · rw [Returns, if_neg (by decide)]
    exact .integer .I rfl 7
  · rw [DecodesWhen, if_neg (by decide)]
    exact ⟨Or.inr (Or.inl (by simp)), fun raw c h => by cases h⟩

end Decodes

end YellowTree
