import YellowTree.Bridge.ArrayElements

/-!
# YellowTree.Bridge.ArrayBounds — `a[k]` and `a[k] = v` outside the array

The index is shifted by one and narrowed to 32 bits, and after a Java exception the array functions go on with what
their local `val` holds.

* `getElement_eq`, `setElement_eq_self_iff`: what JNI does with the narrowed index.
* `staysInside_iff`: an access outside the array yields and changes nothing exactly when it is `IndexGuarded`.
-/

namespace YellowTree

variable {Class Ref : Type}

/-! ## Inside and outside -/

section Spec

variable (env : ArrayEnv Class Ref) {t : FieldType}

/-- The element at an index that may be outside of the array. -/
def JavaArray.at (a : JavaArray Class Ref t) (i : ℤ) : Option (Elem Class Ref t) :=
  if 0 ≤ i then a.elems[i.toNat]? else none

def JavaArray.InBounds (a : JavaArray Class Ref t) (k : ℤ) : Prop := 1 ≤ k ∧ k ≤ a.length

/-- An element as a Lua value. -/
def asLua : (t : FieldType) → Elem Class Ref t → Value Class Ref
  | .prim .Z, b => .boolean b
  | .prim .B, n => .number (.ofInteger n)
  | .prim .C, n => .number (.ofInteger n)
  | .prim .S, n => .number (.ofInteger n)
  | .prim .I, n => .number (.ofInteger n)
  | .prim .J, n => .number (.ofInteger n)
  | .prim .F, x => .number x
  | .prim .D, x => .number x
  | .cls _, (o : Option (Ref × Class)) => o.elim .nil fun r => .object r.1 r.2
  | .arr _, (o : Option (Ref × Class)) => o.elim .nil fun r => .object r.1 r.2

def NilOrError (r : Except LuaError (Value Class Ref)) : Prop := r = .ok .nil ∨ ∃ e, r = .error e

/-- Inside the array `a[k]` is the element; outside it is nil or an error, and `a[k] = v` leaves the array as it is. -/
structure StaysInside (a : JavaArray Class Ref t) (k : ℤ) (v : Value Class Ref) : Prop where
  inside : a.InBounds k → ∃ e, a.at (k - 1) = some e ∧ jarrayIndex env a k = .ok (asLua t e)
  read : ¬ a.InBounds k → NilOrError (jarrayIndex env a k)
  write : ¬ a.InBounds k → ∀ a', jarrayNewindex env a k v = .ok a' → a' = a

/-- `create_jobject` wraps what the element refers to, if anything. -/
def Readable : (t : FieldType) → Elem Class Ref t → Prop
  | .prim _, _ => True
  | .cls _, (o : Option (Ref × Class)) => ∀ r, o = some r → env.wraps r.1 = true
  | .arr _, (o : Option (Ref × Class)) => ∀ r, o = some r → env.wraps r.1 = true

/-- Lua sees nothing of the element: it is null or cannot be wrapped. -/
def Unseen : (t : FieldType) → Elem Class Ref t → Prop
  | .prim _, _ => False
  | .cls _, (o : Option (Ref × Class)) => ∀ r, o = some r → env.wraps r.1 = false
  | .arr _, (o : Option (Ref × Class)) => ∀ r, o = some r → env.wraps r.1 = false

/-- `k` is an index and its element can be wrapped; or the components are references, and at the index that is left of
`k - 1` in 32 bits there is no element, or one that Lua sees nothing of and that `v` does not replace by another. -/
def IndexGuarded (a : JavaArray Class Ref t) (k : ℤ) (v : Value Class Ref) : Prop :=
  (a.InBounds k ∧ ∀ e, a.at (k - 1) = some e → Readable env t e) ∨
    (¬ a.InBounds k ∧ t.isReference = true ∧ ∀ e, a.at ((k - 1).bmod (2 ^ 32)) = some e →
      Unseen env t e ∧ ∀ e', storedElem env t v = .ok e' → letsIn env t e' = true → e' = e)

end Spec

/-! ## What JNI does -/

section Jni

variable {env : ArrayEnv Class Ref} {t : FieldType} {a : JavaArray Class Ref t}

theorem jsizeIndex_eq_bmod {k : ℤ} (hlow : -2 ^ 63 ≤ k) (hhigh : k < 2 ^ 63) :
    jsizeIndex env k = (k - 1).bmod (2 ^ 32) := by
  unfold jsizeIndex
  rw [env.cast.cast_int hlow hhigh]

theorem at_eq_some_iff {i : ℤ} {e : Elem Class Ref t} :
    a.at i = some e ↔ 0 ≤ i ∧ a.elems[i.toNat]? = some e := by
  unfold JavaArray.at
  split_ifs with h
  · exact (and_iff_right h).symm
  · exact iff_of_false (by simp) fun hi => h hi.1

/-- There is an element exactly at the indices from 0 on below the length. -/
theorem exists_at_iff {i : ℤ} : (∃ e, a.at i = some e) ↔ 0 ≤ i ∧ i < a.length := by
  constructor
  · rintro ⟨e, he⟩
    obtain ⟨h0, hi⟩ := at_eq_some_iff.mp he
    have hlt : i.toNat < a.elems.length := (List.getElem?_eq_some_iff.mp hi).1
    refine ⟨h0, ?_⟩
    show i < (a.elems.length : ℤ)
    omega
  · rintro ⟨h0, hlt⟩
    have hnat : i.toNat < a.elems.length := by
      have : i < (a.elems.length : ℤ) := hlt
      omega
    exact ⟨_, at_eq_some_iff.mpr ⟨h0, List.getElem?_eq_getElem hnat⟩⟩

/-- `val` holds the element if there is one. -/
theorem getElement_eq (i : ℤ) : getElement env a i = (a.at i).getD (untouched env t) := by
  unfold getElement JavaArray.at
  split_ifs <;> rfl

/-- The array stays as it is exactly when the element that is let in is there already. -/
theorem setElement_eq_self_iff {i : ℤ} {e' : Elem Class Ref t} :
    setElement env a i e' = a ↔ ∀ e, a.at i = some e → letsIn env t e' = true → e' = e := by
  unfold setElement
  split_ifs with h
  · obtain ⟨hin, hlets⟩ := h
    obtain ⟨e, he⟩ := exists_at_iff.mpr hin
    obtain ⟨-, hget⟩ := at_eq_some_iff.mp he
    have hlt : i.toNat < a.elems.length := (List.getElem?_eq_some_iff.mp hget).1
    have hself : (a.set i.toNat e').elems[i.toNat]? = some e' := List.getElem?_set_self hlt
    constructor
    · intro hset e'' he'' _
      obtain rfl : e = e'' := Option.some.inj (he.symm.trans he'')
      rw [hset, hget] at hself
      exact (Option.some.inj hself).symm
    · intro hall
      obtain rfl := hall e he hlets
      obtain ⟨elems, hlen⟩ := a
      show JavaArray.mk (elems.set i.toNat e') _ = _
      congr 1
      apply List.ext_getElem?
      intro j
      by_cases hj : i.toNat = j
      · subst hj
        exact hself.trans hget.symm
      · exact List.getElem?_set_ne hj
  · refine iff_of_true rfl fun e he hlets => ?_
    exact absurd ⟨exists_at_iff.mp ⟨e, he⟩, hlets⟩ h

end Jni

/-! ## What Lua sees -/

section Lua

variable {env : ArrayEnv Class Ref} {t : FieldType}

theorem ofReference_eq_ok_iff {o : Option (Ref × Class)} :
    ofReference env o = .ok (o.elim .nil fun r => .object r.1 r.2) ↔ ∀ r, o = some r → env.wraps r.1 = true := by
  cases o with
  | none => exact iff_of_true rfl (by simp)
  | some r =>
    unfold ofReference
    by_cases h : env.wraps r.1 = true <;> simp [h]

theorem nilOrError_ofReference_iff {o : Option (Ref × Class)} :
    NilOrError (ofReference env o) ↔ ∀ r, o = some r → env.wraps r.1 = false := by
  cases o with
  | none => exact iff_of_true (Or.inl rfl) (by simp)
  | some r =>
    unfold NilOrError ofReference
    by_cases h : env.wraps r.1 = true <;> simp [h]

theorem ofElem_eq_ok_iff : ∀ (t : FieldType) (e : Elem Class Ref t),
    ofElem env t e = .ok (asLua t e) ↔ Readable env t e
  | .prim p, _ => by cases p <;> exact iff_of_true rfl trivial
  | .cls _, _ => ofReference_eq_ok_iff
  | .arr _, _ => ofReference_eq_ok_iff

/-- A primitive is a number or a boolean in Lua, whatever it is. -/
theorem nilOrError_ofElem_iff : ∀ (t : FieldType) (e : Elem Class Ref t),
    NilOrError (ofElem env t e) ↔ Unseen env t e
  | .prim p, _ => by cases p <;> exact iff_of_false (by rintro (h | ⟨_, h⟩) <;> cases h) id
  | .cls _, _ => nilOrError_ofReference_iff
  | .arr _, _ => nilOrError_ofReference_iff

/-- After an exception the value is null for references, and garbage for primitives. -/
theorem unseen_untouched_iff : ∀ t : FieldType, Unseen env t (untouched env t) ↔ t.isReference = true
  | .prim _ => iff_of_false id (by simp [FieldType.isReference])
  | .cls _ => iff_of_true (fun _ h => by cases h) rfl
  | .arr _ => iff_of_true (fun _ h => by cases h) rfl

theorem isReference_of_unseen : ∀ {t : FieldType} {e : Elem Class Ref t}, Unseen env t e → t.isReference = true
  | .prim _, _, h => h.elim
  | .cls _, _, _ => rfl
  | .arr _, _, _ => rfl

end Lua

/-! ## Accesses -/

section Access

variable {env : ArrayEnv Class Ref} {t : FieldType} {a : JavaArray Class Ref t} {k : ℤ} {v : Value Class Ref}

/-- Inside the array nothing is lost of the index. -/
theorem bmod_of_inBounds (h : a.InBounds k) : (k - 1).bmod (2 ^ 32) = k - 1 := by
  have hlen := a.length_lt
  obtain ⟨hlow, hhigh⟩ := h
  unfold JavaArray.length at hhigh
  apply Int.bmod_eq_of_le <;> omega

theorem exists_at_of_inBounds (h : a.InBounds k) : ∃ e, a.at (k - 1) = some e := by
  obtain ⟨hlow, hhigh⟩ := h
  exact exists_at_iff.mpr ⟨by omega, by omega⟩

/-- A read yields nothing exactly when Lua sees nothing of what is at the narrowed index. -/
theorem nilOrError_jarrayIndex_iff (hlow : -2 ^ 63 ≤ k) (hhigh : k < 2 ^ 63) :
    NilOrError (jarrayIndex env a k) ↔
      t.isReference = true ∧ ∀ e, a.at ((k - 1).bmod (2 ^ 32)) = some e → Unseen env t e := by
  unfold jarrayIndex
  rw [nilOrError_ofElem_iff, getElement_eq, jsizeIndex_eq_bmod hlow hhigh]
  cases hat : a.at ((k - 1).bmod (2 ^ 32)) with
  | none => simp [unseen_untouched_iff]
  | some e =>
    constructor
    · intro h
      refine ⟨isReference_of_unseen h, fun e' he' => ?_⟩
      obtain rfl := Option.some.inj he'
      exact h
    · exact fun h => h.2 e rfl

/-- A write changes nothing exactly when what it stores is there already. -/
theorem unchanged_iff (hlow : -2 ^ 63 ≤ k) (hhigh : k < 2 ^ 63) :
    (∀ a', jarrayNewindex env a k v = .ok a' → a' = a) ↔
      ∀ e, a.at ((k - 1).bmod (2 ^ 32)) = some e →
        ∀ e', storedElem env t v = .ok e' → letsIn env t e' = true → e' = e := by
  unfold jarrayNewindex
  rw [jsizeIndex_eq_bmod hlow hhigh]
  cases hstored : storedElem env t v with
  | error err => exact iff_of_true (fun _ h => by cases h) fun _ _ _ h => by cases h
  | ok e' =>
    constructor
    · intro h e he e'' he''
      obtain rfl := Except.ok.inj he''
      exact setElement_eq_self_iff.mp (h _ rfl) e he
    · intro h a' ha'
      obtain rfl := Except.ok.inj ha'
      exact setElement_eq_self_iff.mpr fun e he => h e he e' rfl

/-- **Access outside the array never yields or changes a value** exactly when it is `IndexGuarded`. -/
theorem staysInside_iff (env : ArrayEnv Class Ref) (t : FieldType) (a : JavaArray Class Ref t) (k : ℤ)
    (hlow : -2 ^ 63 ≤ k) (hhigh : k < 2 ^ 63) (v : Value Class Ref) :
    StaysInside env a k v ↔ IndexGuarded env a k v := by
  by_cases hin : a.InBounds k
  · obtain ⟨e, he⟩ := exists_at_of_inBounds hin
    have hread : jarrayIndex env a k = ofElem env t e := by
      unfold jarrayIndex
      rw [getElement_eq, jsizeIndex_eq_bmod hlow hhigh, bmod_of_inBounds hin, he]
      rfl
    constructor
    · intro h
      obtain ⟨e', he', hval⟩ := h.inside hin
      obtain rfl : e = e' := Option.some.inj (he.symm.trans he')
      refine Or.inl ⟨hin, fun e' he' => ?_⟩
      obtain rfl : e = e' := Option.some.inj (he.symm.trans he')
      exact (ofElem_eq_ok_iff t e).mp (hread.symm.trans hval)
    · rintro (⟨-, h⟩ | ⟨hout, -⟩)
      · have hval := hread.trans ((ofElem_eq_ok_iff t e).mpr (h e he))
        exact ⟨fun _ => ⟨e, he, hval⟩, fun hout => absurd hin hout, fun hout => absurd hin hout⟩
      · exact absurd hin hout
  · constructor
    · intro h
      obtain ⟨href, hunseen⟩ := (nilOrError_jarrayIndex_iff hlow hhigh).mp (h.read hin)
      have hkept := (unchanged_iff hlow hhigh).mp (h.write hin)
      exact Or.inr ⟨hin, href, fun e he => ⟨hunseen e he, hkept e he⟩⟩
    · rintro (⟨hin', -⟩ | ⟨-, href, h⟩)
      · exact absurd hin' hin
      · exact ⟨fun hin' => absurd hin' hin,
          fun _ => (nilOrError_jarrayIndex_iff hlow hhigh).mpr ⟨href, fun e he => (h e he).1⟩,
          fun _ => (unchanged_iff hlow hhigh).mpr fun e he => (h e he).2⟩

/-- `new int[] { 5 }`. -/
def fiveArray : JavaArray LuaString (Option JavaString) (.prim .I) := ⟨[(5 : ℤ)], by decide⟩

/-- `a[2]` is whatever `val` holds. -/
theorem five_not_staysInside : ¬ StaysInside textEnv fiveArray 2 .nil := by
  intro h
  have hout : ¬ fiveArray.InBounds 2 := fun hin => absurd hin.2 (by decide)
  have href := ((nilOrError_jarrayIndex_iff (by decide) (by decide)).mp (h.read hout)).1
  simp [FieldType.isReference] at href

/-- `new int[1][]`. -/
def nullArray : JavaArray LuaString (Option JavaString) (.arr (.prim .I)) := ⟨[none], by decide⟩

/-- Here it is nil. -/
theorem null_staysInside : StaysInside textEnv nullArray 2 .nil :=
  (staysInside_iff textEnv (.arr (.prim .I)) nullArray 2 (by decide) (by decide) .nil).mpr
    (Or.inr ⟨fun hin => absurd hin.2 (by decide), rfl, fun e he => by cases he⟩)

end Access

end YellowTree
