import YellowTree.Debugger.LocalVariables
import YellowTree.Bridge.ClassFind

/-!
# YellowTree.Debugger.ClassSearch — dotted class names at the prompt

`__index` of the environment starts a search with a table that remembers a package, and every further name looks for a
class before it makes a table for the longer package.  The field `pkg` of such a table hides a component of that name,
and a local variable of the method hides the first component wherever it is in scope.

* `index_search`: one step of the search, in terms of the components so far.
* `follow_search`, `follow_pkg`: the rest of a name leads to the class, or to nothing once `pkg` is among it.
* `resolves_iff`: a dotted name resolves to its class exactly under `ResolvesWhen`.
-/

namespace YellowTree

variable {Class Ref : Type}

/-! ## The embedding -/

section Embedding

/-- What indexing gives: a value, or a table of `fq_class_search` with its field `pkg`. -/
inductive Indexed (Class Ref : Type) where
  | value (v : Value Class Ref)
  | search (pkg : LuaString)

/-- `java_pkg_tlds`. -/
def javaPkgTlds : List LuaString :=
  ["java".toList, "javax".toList, "com".toList, "org".toList, "net".toList, "testsuite".toList]

/-- `s[k]` on a string: a function of the library `string`. -/
def stringField (k : LuaString) : Value Class Ref :=
  match ["byte", "char", "dump", "find", "format", "gmatch", "gsub", "len", "lower", "match", "rep", "reverse", "sub",
    "upper"].idxOf? (String.ofList k) with
  | some i => .function i
  | none => .nil

/-- The environment, and what a name gives on an object or another table. -/
structure SearchEnv (Class Ref : Type) extends Environment Class Ref where
  member : Value Class Ref → LuaString → Except LuaError (Value Class Ref)

variable (env : SearchEnv Class Ref)

/-- `v[k]`.  On a table of `fq_class_search` it is the raw field, else its `__index`. -/
def Indexed.index : Indexed Class Ref → LuaString → Except LuaError (Indexed Class Ref)
  | .search pkg, k =>
    if k = "pkg".toList then .ok (.value (.string pkg))
    else if (env.find (gsubDots (pkg ++ ['.'] ++ k))).isNil then .ok (.search (pkg ++ ['.'] ++ k))
    else .ok (.value (env.find (gsubDots (pkg ++ ['.'] ++ k))))
  | .value (.string _), k => .ok (.value (stringField k))
  | .value .nil, _ => .error (.message "attempt to index a nil value")
  | .value (.boolean _), _ => .error (.message "attempt to index a boolean value")
  | .value (.number _), _ => .error (.message "attempt to index a number value")
  | .value (.function _), _ => .error (.message "attempt to index a function value")
  | .value v, k => (env.member v k).map .value

/-- `v[k1][k2]...`. -/
def Indexed.follow (v : Indexed Class Ref) : List LuaString → Except LuaError (Indexed Class Ref)
  | [] => .ok v
  | k :: ks => (v.index env k).bind (Indexed.follow · ks)

/-- `get_local_variable`, with the frame that `frames[depth]` gives, if any. -/
def getLocal (frame : Option (LocalFrame Class Ref)) (k : LuaString) : Except LuaError (Value Class Ref) × Bool :=
  match frame with
  | none => (.ok .nil, false)
  | some f => f.getLocalVariable env.toEnvironment k

/-- A global name: the entry of `_ENV`, else `mt.__index` of `init_locals_environment`. -/
def globalIndex (frame : Option (LocalFrame Class Ref)) (k : LuaString) : Except LuaError (Indexed Class Ref) :=
  match env.globals k with
  | .nil =>
    if k = "this".toList then
      match frame with
      | none => .error (.message "attempt to index a nil value")
      | some f => (f.localSlot env.toEnvironment 0 "Ljava/lang/Object;".toList).map .value
    else if (getLocal env frame k).2 then (getLocal env frame k).1.map .value
    else if (env.find k).isNil then
      if javaPkgTlds.contains k then .ok (.search k) else .ok (.value .nil)
    else .ok (.value (env.find k))
  | v => .ok (.value v)

/-- `p.k1.k2...` at the prompt. -/
def dotted (frame : Option (LocalFrame Class Ref)) (p : LuaString) (ks : List LuaString) :
    Except LuaError (Indexed Class Ref) :=
  (globalIndex env frame p).bind (Indexed.follow env · ks)

end Embedding

/-! ## Dotted names -/

section Spec

/-- The name of a class with slashes. -/
def slashed (path : List LuaString) : LuaString := ['/'].intercalate path

variable (env : SearchEnv Class Ref) (frame : Option (LocalFrame Class Ref)) (p : LuaString) (rest : List LuaString)

/-- A name of at least two components whose first is the name of a top-level package, but of no global and no local
variable in scope, and none of whose proper prefixes is the name of a class. -/
structure Unshadowed : Prop where
  tld : p ∈ javaPkgTlds
  rest_ne_nil : rest ≠ []
  legal : ∀ k ∈ rest, '.' ∉ k
  global : env.globals p = .nil
  noLocal : ∀ f, frame = some f → ∀ e, ¬ f.Names p e
  prefixes : ∀ pre post, pre ≠ [] → post ≠ [] → p :: rest = pre ++ post → env.find (slashed pre) = .nil

/-- The name leads to the class. -/
def Resolves (raw : Ref) (cls : Class) : Prop := dotted env frame p rest = .ok (.value (.object raw cls))

/-- No later component is called `pkg`, and the method of the frame has no local variable with the name of the first
component, at any location; or the slot of the variable has something whose members lead to the class. -/
def ResolvesWhen (raw : Ref) (cls : Class) : Prop :=
  ("pkg".toList ∉ rest ∧ ∀ f, frame = some f → lastEntry f.entries p = none) ∨
    ∃ f e v, frame = some f ∧ lastEntry f.entries p = some e ∧ f.readSlot env.toEnvironment e = .ok v ∧
      Indexed.follow env (.value v) rest = .ok (.value (.object raw cls))

end Spec

/-! ## One step -/

section Step

variable {env : SearchEnv Class Ref} {frame : Option (LocalFrame Class Ref)} {p k : LuaString}
  {path rest : List LuaString}

/-- A dotted name with slashes for its dots. -/
theorem gsubDots_intercalate (h : ∀ k ∈ path, '.' ∉ k) : gsubDots (['.'].intercalate path) = slashed path := by
  unfold gsubDots slashed
  rw [ListSplit.map_intercalate]
  congr 1
  exact (List.map_congr_left fun k hk => gsubDots_of_notMem (h k hk)).trans (List.map_id path)

/-- One name further in a search: the field, a class, or the search in the longer package. -/
theorem index_search (hne : path ≠ []) (hlegal : ∀ k' ∈ path ++ [k], '.' ∉ k') :
    Indexed.index env (.search (['.'].intercalate path)) k =
      if k = "pkg".toList then .ok (.value (.string (['.'].intercalate path)))
      else if (env.find (slashed (path ++ [k]))).isNil then .ok (.search (['.'].intercalate (path ++ [k])))
      else .ok (.value (env.find (slashed (path ++ [k])))) := by
  rw [← gsubDots_intercalate hlegal, ListSplit.intercalate_concat hne]
  rfl

/-- On a value that is a string nothing leads to an object. -/
theorem follow_string (s : LuaString) (raw : Ref) (cls : Class) :
    ∀ rest, Indexed.follow env (.value (.string s)) rest ≠ .ok (.value (.object raw cls))
  | [], h => by cases h
  | k :: ks, h => by
    change Indexed.follow env (.value (stringField k)) ks = _ at h
    unfold stringField at h
    cases hidx : List.idxOf? (String.ofList k) ["byte", "char", "dump", "find", "format", "gmatch", "gsub", "len",
      "lower", "match", "rep", "reverse", "sub", "upper"] with
    | none =>
      rw [hidx] at h
      cases ks <;> cases h
    | some i =>
      rw [hidx] at h
      cases ks <;> cases h

/-- A top-level package as a global name, when no local variable has its name. -/
theorem globalIndex_search (hp : p ∈ javaPkgTlds) (hglobal : env.globals p = .nil) (hfind : env.find p = .nil)
    (hlocal : (getLocal env frame p).2 = false) : globalIndex env frame p = .ok (.search p) := by
  have hthis : p ≠ "this".toList := by
    rintro rfl
    exact absurd hp (by decide)
  unfold globalIndex
  rw [hglobal]
  simp only [if_neg hthis, hlocal, hfind]
  exact if_pos (List.contains_iff_mem.mpr hp)

/-- The name of a local variable, in scope or not. -/
theorem globalIndex_local {f : LocalFrame Class Ref} {e : LocalEntry} (hp : p ∈ javaPkgTlds)
    (hglobal : env.globals p = .nil) (hlast : lastEntry f.entries p = some e) :
    globalIndex env (some f) p = (f.readSlot env.toEnvironment e).map .value := by
  have hthis : p ≠ "this".toList := by
    rintro rfl
    exact absurd hp (by decide)
  have hfield : f.field p = none := by
    simp only [javaPkgTlds, List.mem_cons, List.not_mem_nil, or_false] at hp
    rcases hp with rfl | rfl | rfl | rfl | rfl | rfl <;> rfl
  have hget : getLocal env (some f) p = (f.readSlot env.toEnvironment e, true) := by
    rw [← LocalFrame.index_of_last hfield hlast]
    exact LocalFrame.getLocalVariable_of_last hlast
  unfold globalIndex
  rw [hglobal]
  simp only [if_neg hthis, hget]
  rfl

/-- Then the name goes on from what is in its slot. -/
theorem dotted_local_iff {f : LocalFrame Class Ref} {e : LocalEntry} {raw : Ref} {cls : Class} (hp : p ∈ javaPkgTlds)
    (hglobal : env.globals p = .nil) (hlast : lastEntry f.entries p = some e) :
    dotted env (some f) p rest = .ok (.value (.object raw cls)) ↔
      ∃ v, f.readSlot env.toEnvironment e = .ok v ∧
        Indexed.follow env (.value v) rest = .ok (.value (.object raw cls)) := by
  unfold dotted
  rw [globalIndex_local hp hglobal hlast]
  cases f.readSlot env.toEnvironment e with
  | error err => exact iff_of_false (fun h => by cases h) fun ⟨v, hv, _⟩ => by cases hv
  | ok v =>
    constructor
    · exact fun h => ⟨v, rfl, h⟩
    · rintro ⟨v', hv', h⟩
      obtain rfl := Except.ok.inj hv'
      exact h

/-- Otherwise it is a search. -/
theorem dotted_search (hp : p ∈ javaPkgTlds) (hglobal : env.globals p = .nil) (hfind : env.find p = .nil)
    (hnone : ∀ f, frame = some f → lastEntry f.entries p = none) :
    dotted env frame p rest = Indexed.follow env (.search (['.'].intercalate [p])) rest := by
  have hlocal : (getLocal env frame p).2 = false := by
    cases frame with
    | none => rfl
    | some f => exact congrArg Prod.snd (LocalFrame.getLocalVariable_of_none (hnone f rfl))
  unfold dotted
  rw [globalIndex_search hp hglobal hfind hlocal, List.intercalate_singleton]
  rfl

/-- A table of `fq_class_search` as a value of the environment. -/
def Indexed.toValue (env : Environment Class Ref) : Indexed Class Ref → Value Class Ref
  | .value v => v
  | .search pkg => env.package pkg

/-- `globalIndex` is what a bare name gives, with the searches named by their packages. -/
theorem bareName_eq_globalIndex (f : LocalFrame Class Ref) (hpackage : ∀ q, q ∉ javaPkgTlds → env.package q = .nil) :
    f.bareName env.toEnvironment k = (globalIndex env (some f) k).map (Indexed.toValue env.toEnvironment) := by
  have hmap : ∀ r : Except LuaError (Value Class Ref),
      (r.map .value).map (Indexed.toValue env.toEnvironment) = r := by
    rintro (_ | _) <;> rfl
  unfold LocalFrame.bareName globalIndex getLocal
  cases env.globals k with
  | nil =>
    dsimp only
    by_cases hthis : k = "this".toList
    · rw [if_pos hthis, if_pos hthis, hmap]
    rw [if_neg hthis, if_neg hthis]
    by_cases hlocal : (f.getLocalVariable env.toEnvironment k).2 = true
    · rw [if_pos hlocal, if_pos hlocal, hmap]
    rw [if_neg hlocal, if_neg hlocal]
    by_cases hfind : (env.find k).isNil = true
    · rw [if_pos hfind, if_pos hfind]
      by_cases htld : javaPkgTlds.contains k = true
      · rw [if_pos htld]
        rfl
      · rw [if_neg htld, hpackage k (mt List.contains_iff_mem.mpr htld)]
        rfl
    · rw [if_neg hfind, if_neg hfind]
      rfl
  | _ => rfl

end Step

/-! ## Names of any length -/

section Follow

variable {env : SearchEnv Class Ref} {frame : Option (LocalFrame Class Ref)} {p : LuaString} {rest : List LuaString}
  {raw : Ref} {cls : Class}

/-- Every name but the last leads to a longer package, and the last to the class. -/
theorem follow_search : ∀ {rest done : List LuaString}, done ≠ [] → rest ≠ [] → (∀ k ∈ done ++ rest, '.' ∉ k) →
    "pkg".toList ∉ rest →
    (∀ pre post, pre ≠ [] → post ≠ [] → done ++ rest = pre ++ post → env.find (slashed pre) = .nil) →
    env.find (slashed (done ++ rest)) = .object raw cls →
    Indexed.follow env (.search (['.'].intercalate done)) rest = .ok (.value (.object raw cls))
  | k :: rest, done, hdone, _, hlegal, hpkg, hbefore, hfound => by
    have hsplit : done ++ k :: rest = (done ++ [k]) ++ rest := List.append_cons ..
    rw [hsplit] at hlegal hfound hbefore
    obtain ⟨hk, hpkg⟩ := not_or.mp (mt List.mem_cons.mpr hpkg)
    unfold Indexed.follow
    rw [index_search hdone fun k' hk' => hlegal k' (List.mem_append_left _ hk'), if_neg (Ne.symm hk)]
    cases rest with
    | nil =>
      rw [List.append_nil] at hfound
      rw [hfound]
      rfl
    | cons k' rest =>
      rw [hbefore (done ++ [k]) (k' :: rest) (by simp) (by simp) rfl]
      exact follow_search (by simp) (by simp) hlegal hpkg hbefore hfound

/-- With a component `pkg` the search ends in the text of a package. -/
theorem follow_pkg : ∀ {rest done : List LuaString}, done ≠ [] → (∀ k ∈ done ++ rest, '.' ∉ k) →
    "pkg".toList ∈ rest →
    (∀ pre post, pre ≠ [] → post ≠ [] → done ++ rest = pre ++ post → env.find (slashed pre) = .nil) →
    Indexed.follow env (.search (['.'].intercalate done)) rest ≠ .ok (.value (.object raw cls))
  | k :: rest, done, hdone, hlegal, hpkg, hbefore => by
    have hsplit : done ++ k :: rest = (done ++ [k]) ++ rest := List.append_cons ..
    rw [hsplit] at hlegal hbefore
    unfold Indexed.follow
    rw [index_search hdone fun k' hk' => hlegal k' (List.mem_append_left _ hk')]
    by_cases hk : k = "pkg".toList
    · rw [if_pos hk]
      exact follow_string _ raw cls rest
    · have hrest : "pkg".toList ∈ rest := (List.mem_cons.mp hpkg).resolve_left (Ne.symm hk)
      rw [if_neg hk, hbefore (done ++ [k]) rest (by simp) (List.ne_nil_of_mem hrest) rfl]
      exact follow_pkg (by simp) hlegal hrest hbefore

theorem dot_notMem_of_tld : ∀ p ∈ javaPkgTlds, '.' ∉ p := by decide

/-- **Dotted class names resolve** exactly under `ResolvesWhen`. -/
theorem resolves_iff (env : SearchEnv Class Ref) (frame : Option (LocalFrame Class Ref)) (p : LuaString)
    (rest : List LuaString) (h : Unshadowed env frame p rest) (raw : Ref) (cls : Class)
    (hfound : env.find (slashed (p :: rest)) = .object raw cls) :
    Resolves env frame p rest raw cls ↔ ResolvesWhen env frame p rest raw cls := by
  have hlegal : ∀ k ∈ [p] ++ rest, '.' ∉ k := by
    intro k hk
    rcases List.mem_cons.mp hk with rfl | hk
    · exact dot_notMem_of_tld k h.tld
    · exact h.legal k hk
  have hfindp : env.find p = .nil := by
    have := h.prefixes [p] rest (by simp) h.rest_ne_nil rfl
    rwa [slashed, List.intercalate_singleton] at this
  unfold Resolves
  by_cases hlast : ∃ f e, frame = some f ∧ lastEntry f.entries p = some e
  · obtain ⟨f, e, rfl, hlast⟩ := hlast
    rw [dotted_local_iff h.tld h.global hlast]
    constructor
    · rintro ⟨v, hread, hres⟩
      exact Or.inr ⟨f, e, v, rfl, hlast, hread, hres⟩
    · rintro (⟨-, hnone⟩ | ⟨f', e', v, hf, he, hread, hres⟩)
      · cases (hnone f rfl).symm.trans hlast
      · obtain rfl := Option.some.inj hf
        obtain rfl := Option.some.inj (hlast.symm.trans he)
        exact ⟨v, hread, hres⟩
  · have hnone : ∀ f, frame = some f → lastEntry f.entries p = none := by
      intro f hf
      by_contra hne
      obtain ⟨e, he⟩ := Option.ne_none_iff_exists'.mp hne
      exact hlast ⟨f, e, hf, he⟩
    rw [dotted_search h.tld h.global hfindp hnone]
    constructor
    · intro hres
      refine Or.inl ⟨fun hpkg => ?_, hnone⟩
      exact follow_pkg (by simp) hlegal hpkg h.prefixes hres
    · rintro (⟨hpkg, -⟩ | ⟨f, e, v, hf, he, -⟩)
      · exact follow_search (by simp) h.rest_ne_nil hlegal hpkg h.prefixes hfound
      · exact absurd ⟨f, e, hf, he⟩ hlast

/-- A program with one class, and no frame selected. -/
def oneClass (name : LuaString) : SearchEnv Unit Unit where
  currentThread := ()
  frameSlots _ _ := sevenEnvironment.frameSlots () 0
  globals _ := .nil
  find s := if s = name then .object () () else .nil
  package _ := .nil
  program _ := .ok .nil
  member _ _ := .ok .nil

theorem unshadowed_oneClass (hp : p ∈ javaPkgTlds) (hrest : rest ≠ []) (hlegal : ∀ k ∈ rest, '.' ∉ k)
    (hne : ∀ n < (p :: rest).length, slashed ((p :: rest).take n) ≠ slashed (p :: rest)) :
    Unshadowed (oneClass (slashed (p :: rest))) none p rest where
  tld := hp
  rest_ne_nil := hrest
  legal := hlegal
  global := rfl
  noLocal _ hf := by cases hf
  prefixes pre post _ hpost h := by
    have htake : (p :: rest).take pre.length = pre := by rw [h, List.take_left]
    have hlt : pre.length < (p :: rest).length := by
      rw [h, List.length_append]
      have := List.length_pos_iff.mpr hpost
      omega
    refine if_neg ?_
    rw [← htake]
    exact hne pre.length hlt

theorem oneClass_find (name : LuaString) : (oneClass name).find name = .object () () := if_pos rfl

/-- A program with the class `java.pkg.C`. -/
def pkgClass : SearchEnv Unit Unit := oneClass (slashed ["java".toList, "pkg".toList, "C".toList])

/-- `java.pkg.C` does not give it. -/
theorem pkg_not_resolves :
    Unshadowed pkgClass none "java".toList ["pkg".toList, "C".toList] ∧
    pkgClass.find (slashed ["java".toList, "pkg".toList, "C".toList]) = .object () () ∧
    ¬ Resolves pkgClass none "java".toList ["pkg".toList, "C".toList] () () := by
  refine ⟨unshadowed_oneClass (by decide) (by simp) (by decide) (by decide), oneClass_find _, fun h => ?_⟩
  cases h

/-- `java.lang.Object` gives the class. -/
theorem object_resolves : Resolves (oneClass (slashed ["java".toList, "lang".toList, "Object".toList])) none
    "java".toList ["lang".toList, "Object".toList] () () :=
  (resolves_iff _ none "java".toList ["lang".toList, "Object".toList]
    (unshadowed_oneClass (by decide) (by simp) (by decide) (by decide)) () () (oneClass_find _)).mpr
    (Or.inl ⟨by decide, fun f hf => by cases hf⟩)

end Follow

end YellowTree
