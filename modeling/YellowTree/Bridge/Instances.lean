import Mathlib.Algebra.Group.Nat.Defs
import Mathlib.Data.List.Nodup
import YellowTree.Lib.Transition

/-!
# YellowTree.Bridge.Instances — `jclass:find_instances`

A search takes a new tag, has the heap iteration write it on every instance of the class, and asks for the objects
with that tag.  Tags are never cleared.  Between two searches objects are allocated, without a tag, and die.  The order
in which the heap is visited and in which tagged objects are returned is left open.

* `Tagged`: after `k` searches no tag is above the counter, which is `1000 + k`.
* `findInstances_exact`: a search returns the objects that its heap iteration visits.
-/

namespace YellowTree

open Transition

variable {Class Obj : Type} [DecidableEq Obj]

/-! ## The heap -/

section Heap

/-- A live object, with its class and the tag it carries (0 for none). -/
structure HeapObject (Class Obj : Type) where
  obj : Obj
  cls : Class
  tag : BitVec 64

/-- The live objects, each once. -/
structure Heap (Class Obj : Type) where
  objects : List (HeapObject Class Obj)
  nodup : (objects.map HeapObject.obj).Nodup

namespace Heap

/-- An object is live and an instance of exactly this class. -/
def IsInstance (heap : Heap Class Obj) (c : Class) (o : Obj) : Prop := ∃ x ∈ heap.objects, x.obj = o ∧ x.cls = c

/-- An object is live and carries a tag. -/
def HasTag (heap : Heap Class Obj) (tag : BitVec 64) (o : Obj) : Prop := ∃ x ∈ heap.objects, x.obj = o ∧ x.tag = tag

/-- `getClass()`. -/
def getClass (heap : Heap Class Obj) (o : Obj) : Option Class :=
  (heap.objects.find? (·.obj = o)).map HeapObject.cls

/-- A callback writes `*tag_ptr` of one object. -/
def retag (heap : Heap Class Obj) (f : BitVec 64 → BitVec 64) (o : Obj) : Heap Class Obj where
  objects := heap.objects.map fun x => if x.obj = o then { x with tag := f x.tag } else x
  nodup := by
    have hobj : (HeapObject.obj ∘ fun x : HeapObject Class Obj => if x.obj = o then { x with tag := f x.tag } else x) =
        HeapObject.obj := by
      funext x
      show (if x.obj = o then { x with tag := f x.tag } else x).obj = x.obj
      split_ifs <;> rfl
    rw [List.map_map, hobj]
    exact heap.nodup

/-- An object is allocated. -/
def alloc (heap : Heap Class Obj) (o : Obj) (c : Class) (h : o ∉ heap.objects.map HeapObject.obj) :
    Heap Class Obj where
  objects := ⟨o, c, 0⟩ :: heap.objects
  nodup := List.nodup_cons.mpr ⟨h, heap.nodup⟩

/-- An object dies. -/
def die (heap : Heap Class Obj) (o : Obj) : Heap Class Obj where
  objects := heap.objects.filter (·.obj ≠ o)
  nodup := heap.nodup.sublist (List.filter_sublist.map _)

end Heap

/-- What JVMTI documents of its heap functions: IterateThroughHeap, with a class to filter by, visits each live
instance of exactly that class once; GetObjectsWithTags returns each object that carries the tag once. -/
structure HeapFunctions (Class Obj : Type) where
  visited : Heap Class Obj → Class → List Obj
  visited_nodup : ∀ heap c, (visited heap c).Nodup
  mem_visited : ∀ heap c o, o ∈ visited heap c ↔ heap.IsInstance c o
  getObjectsWithTags : Heap Class Obj → BitVec 64 → List Obj
  getObjectsWithTags_nodup : ∀ heap tag, (getObjectsWithTags heap tag).Nodup
  mem_getObjectsWithTags : ∀ heap tag o, o ∈ getObjectsWithTags heap tag ↔ heap.HasTag tag o

end Heap

/-! ## The search -/

section Search

variable (jvmti : HeapFunctions Class Obj)

/-- IterateThroughHeap calls the callback on the objects it visits. -/
def HeapFunctions.iterateThroughHeap (heap : Heap Class Obj) (c : Class) (callback : BitVec 64 → BitVec 64) :
    Heap Class Obj :=
  (jvmti.visited heap c).foldl (fun heap o => heap.retag callback o) heap

/-- `class_instances_search_tag` and the heap. -/
structure SearchState (Class Obj : Type) where
  searchTag : BitVec 64
  heap : Heap Class Obj

/-- `class_instances_search_tag` as it is initialized; the first objects are allocated. -/
def SearchState.init : SearchState Class Obj := ⟨1000, ⟨[], List.nodup_nil⟩⟩

/-- `heap_iter_tag_item`: `*tag_ptr = class_instances_search_tag`. -/
def heapIterTagItem (searchTag : BitVec 64) (_tag : BitVec 64) : BitVec 64 := searchTag

/-- `lj_get_class_instances`. -/
def ljGetClassInstances (s : SearchState Class Obj) (c : Class) : SearchState Class Obj × List Obj :=
  -- get a new tag for this search
  let searchTag := s.searchTag + 1
  let heap := jvmti.iterateThroughHeap s.heap c (heapIterTagItem searchTag)
  -- get all tagged objects
  (⟨searchTag, heap⟩, jvmti.getObjectsWithTags heap searchTag)

/-- A jobject: the raw object and its class. -/
structure Jobject (Class Obj : Type) where
  objectRaw : Obj
  cls : Option Class
  deriving DecidableEq

/-- `jobject.create`. -/
def jobjectCreate (heap : Heap Class Obj) (objectRaw : Obj) : Jobject Class Obj := ⟨objectRaw, heap.getClass objectRaw⟩

/-- `jclass:find_instances`. -/
def findInstances (s : SearchState Class Obj) (c : Class) : SearchState Class Obj × List (Jobject Class Obj) :=
  let r := ljGetClassInstances jvmti s c
  (r.1, r.2.map (jobjectCreate r.1.heap))

/-- A search, or what happens to the heap between searches. -/
inductive HeapEvent (Class Obj : Type) where
  | alloc (o : Obj) (c : Class)
  | die (o : Obj)
  | find (c : Class)
  deriving DecidableEq

def HeapEvent.isFind : HeapEvent Class Obj → Bool
  | .find _ => true
  | _ => false

def searchStep (s : SearchState Class Obj) : HeapEvent Class Obj → Option (SearchState Class Obj)
  | .alloc o c => if h : o ∈ s.heap.objects.map HeapObject.obj then none else some { s with heap := s.heap.alloc o c h }
  | .die o => if o ∈ s.heap.objects.map HeapObject.obj then some { s with heap := s.heap.die o } else none
  | .find c => some (findInstances jvmti s c).1

/-- The number of searches in a list of events. -/
def searches (es : List (HeapEvent Class Obj)) : ℕ := es.countP HeapEvent.isFind

end Search

/-! ## What a search does to the heap -/

section Tagging

variable {heap : Heap Class Obj} {c : Class} {o : Obj} {tag : BitVec 64}

namespace Heap

omit [DecidableEq Obj] in
theorem mem_objects_inj {x y : HeapObject Class Obj} (hx : x ∈ heap.objects) (hy : y ∈ heap.objects)
    (h : x.obj = y.obj) : x = y :=
  List.inj_on_of_nodup_map heap.nodup hx hy h

/-- An object has one class. -/
theorem getClass_of_isInstance (h : heap.IsInstance c o) : heap.getClass o = some c := by
  obtain ⟨x, hx, rfl, rfl⟩ := h
  cases hfind : heap.objects.find? (·.obj = x.obj) with
  | none =>
    have hno := List.find?_eq_none.mp hfind x hx
    simp at hno
  | some y =>
    have hy : y.obj = x.obj := by simpa using List.find?_some hfind
    have heq := mem_objects_inj (List.mem_of_find?_eq_some hfind) hx hy
    rw [getClass, hfind, heq]
    rfl

end Heap

/-- Objects are tagged one after the other. -/
theorem foldl_retag_objects : ∀ (os : List Obj) (heap : Heap Class Obj),
    (os.foldl (fun heap o => heap.retag (heapIterTagItem tag) o) heap).objects =
      heap.objects.map fun x => if os.contains x.obj then { x with tag := tag } else x
  | [], heap => by simp
  | o :: os, heap => by
    rw [List.foldl_cons, foldl_retag_objects os, Heap.retag, List.map_map]
    refine List.map_congr_left fun x _ => ?_
    by_cases hx : x.obj = o
    · simp [hx, heapIterTagItem]
    · simp [hx]

variable (jvmti : HeapFunctions Class Obj)

theorem iterateThroughHeap_objects : (jvmti.iterateThroughHeap heap c (heapIterTagItem tag)).objects =
    heap.objects.map fun x => if (jvmti.visited heap c).contains x.obj then { x with tag := tag } else x := by
  rw [HeapFunctions.iterateThroughHeap, foldl_retag_objects]

omit [DecidableEq Obj] in
theorem mem_visited_iff {x : HeapObject Class Obj} (hx : x ∈ heap.objects) :
    x.obj ∈ jvmti.visited heap c ↔ x.cls = c := by
  rw [jvmti.mem_visited]
  constructor
  · rintro ⟨y, hy, hobj, hcls⟩
    rwa [← Heap.mem_objects_inj hy hx hobj]
  · intro hc
    exact ⟨x, hx, rfl, hc⟩

/-- The instances of the class carry the tag, the other objects what they carried. -/
theorem mem_iterateThroughHeap {y : HeapObject Class Obj}
    (hy : y ∈ (jvmti.iterateThroughHeap heap c (heapIterTagItem tag)).objects) :
    ∃ x ∈ heap.objects, y.obj = x.obj ∧ y.cls = x.cls ∧ (x.cls = c ∧ y.tag = tag ∨ x.cls ≠ c ∧ y.tag = x.tag) := by
  rw [iterateThroughHeap_objects] at hy
  obtain ⟨x, hx, rfl⟩ := List.mem_map.mp hy
  refine ⟨x, hx, ?_⟩
  by_cases hc : x.cls = c
  · rw [if_pos (List.contains_iff_mem.mpr ((mem_visited_iff jvmti hx).mpr hc))]
    exact ⟨rfl, rfl, Or.inl ⟨hc, rfl⟩⟩
  · rw [if_neg (mt List.contains_iff_mem.mp (mt (mem_visited_iff jvmti hx).mp hc))]
    exact ⟨rfl, rfl, Or.inr ⟨hc, rfl⟩⟩

/-- An instance is still there, with the tag. -/
theorem exists_mem_iterateThroughHeap (h : heap.IsInstance c o) :
    ∃ y ∈ (jvmti.iterateThroughHeap heap c (heapIterTagItem tag)).objects, y.obj = o ∧ y.cls = c ∧ y.tag = tag := by
  obtain ⟨x, hx, hobj, hcls⟩ := h
  rw [iterateThroughHeap_objects]
  refine ⟨{ x with tag := tag }, List.mem_map.mpr ⟨x, hx, ?_⟩, hobj, hcls, rfl⟩
  exact if_pos (List.contains_iff_mem.mpr ((mem_visited_iff jvmti hx).mpr hcls))

/-- With a tag that no object carries, the tagged objects are the ones visited. -/
theorem hasTag_iterateThroughHeap (hfresh : ∀ x ∈ heap.objects, x.tag ≠ tag) :
    (jvmti.iterateThroughHeap heap c (heapIterTagItem tag)).HasTag tag o ↔ heap.IsInstance c o := by
  constructor
  · rintro ⟨y, hy, rfl, htag⟩
    obtain ⟨x, hx, hobj, -, ⟨hc, -⟩ | ⟨-, hxtag⟩⟩ := mem_iterateThroughHeap jvmti hy
    · exact ⟨x, hx, hobj.symm, hc⟩
    · exact absurd (hxtag.symm.trans htag) (hfresh x hx)
  · intro h
    obtain ⟨y, hy, hobj, -, htag⟩ := exists_mem_iterateThroughHeap jvmti h
    exact ⟨y, hy, hobj, htag⟩

end Tagging

/-! ## Runs -/

section Runs

variable (jvmti : HeapFunctions Class Obj) {s s' : SearchState Class Obj} {k : ℕ}

/-- After `k` searches the counter is `1000 + k`, and no object carries a tag above it. -/
structure Tagged (s : SearchState Class Obj) (k : ℕ) : Prop where
  searchTag : s.searchTag.toNat = 1000 + k
  tag_le : ∀ x ∈ s.heap.objects, x.tag.toNat ≤ 1000 + k

omit [DecidableEq Obj] in
theorem tagged_init : Tagged (SearchState.init : SearchState Class Obj) 0 :=
  ⟨rfl, fun x hx => by simp [SearchState.init] at hx⟩

omit [DecidableEq Obj] in
/-- The next tag is above all others. -/
theorem Tagged.next (h : Tagged s k) (hk : k < 2 ^ 63 - 1001) : (s.searchTag + 1).toNat = 1000 + (k + 1) := by
  rw [BitVec.toNat_add, h.searchTag]
  show (1000 + k + 1) % 2 ^ 64 = 1000 + (k + 1)
  omega

omit [DecidableEq Obj] in
theorem Tagged.fresh (h : Tagged s k) (hk : k < 2 ^ 63 - 1001) : ∀ x ∈ s.heap.objects, x.tag ≠ s.searchTag + 1 := by
  intro x hx heq
  have hle := h.tag_le x hx
  rw [heq, h.next hk] at hle
  omega

theorem Tagged.find (h : Tagged s k) (hk : k < 2 ^ 63 - 1001) (c : Class) :
    Tagged (findInstances jvmti s c).1 (k + 1) := by
  refine ⟨h.next hk, fun y hy => ?_⟩
  obtain ⟨x, hx, -, -, ⟨-, hytag⟩ | ⟨-, hytag⟩⟩ := mem_iterateThroughHeap jvmti hy
  · rw [hytag]
    exact (h.next hk).le
  · have hle := h.tag_le x hx
    rw [hytag]
    omega

theorem Tagged.step {e : HeapEvent Class Obj} (h : Tagged s k) (hk : k + searches [e] < 2 ^ 63 - 1001)
    (hstep : searchStep jvmti s e = some s') : Tagged s' (k + searches [e]) := by
  cases e with
  | alloc o c =>
    rw [searchStep] at hstep
    split_ifs at hstep with ho
    obtain rfl := Option.some.inj hstep
    refine ⟨h.searchTag, fun x hx => ?_⟩
    rcases List.mem_cons.mp hx with rfl | hx
    · exact Nat.zero_le _
    · exact h.tag_le x hx
  | die o =>
    rw [searchStep, Option.ite_none_right_eq_some] at hstep
    obtain rfl := Option.some.inj hstep.2
    exact ⟨h.searchTag, fun x hx => h.tag_le x (List.mem_of_mem_filter hx)⟩
  | find c =>
    obtain rfl := Option.some.inj hstep
    have hone : searches [(HeapEvent.find c : HeapEvent Class Obj)] = 1 := rfl
    rw [hone] at hk ⊢
    exact h.find jvmti (by omega) c

theorem Tagged.run : ∀ {es : List (HeapEvent Class Obj)} {s : SearchState Class Obj} {k : ℕ}, Tagged s k →
    k + searches es < 2 ^ 63 - 1001 → run (searchStep jvmti) s es = some s' → Tagged s' (k + searches es)
  | [], s, k, h, _, hrun => by
    obtain rfl := Option.some.inj hrun
    exact h
  | e :: es, s, k, h, hk, hrun => by
    rw [run_cons, Option.bind_eq_some_iff] at hrun
    obtain ⟨t, ht, hrun⟩ := hrun
    have hcount : searches ([e] ++ es) = searches [e] + searches es := List.countP_append
    rw [List.singleton_append] at hcount
    rw [hcount, ← Nat.add_assoc] at hk ⊢
    exact Tagged.run (h.step jvmti (by omega) ht) hk hrun

/-- Every search returns exactly the objects that its heap iteration visits, each once: the live instances of the
class. -/
theorem findInstances_exact (es : List (HeapEvent Class Obj)) (c : Class)
    (hfew : searches (es ++ [.find c]) < 2 ^ 63 - 1001) (s : SearchState Class Obj)
    (hrun : run (searchStep jvmti) .init es = some s) :
    ((findInstances jvmti s c).2.map Jobject.objectRaw).Perm (jvmti.visited s.heap c) ∧
      ∀ x ∈ (findInstances jvmti s c).2, s.heap.IsInstance c x.objectRaw ∧ x.cls = some c := by
  have hcount : searches (es ++ [.find c]) = searches es + 1 := List.countP_append
  have htagged : Tagged s (0 + searches es) := tagged_init.run jvmti (by omega) hrun
  have hmem : ∀ o, o ∈ (ljGetClassInstances jvmti s c).2 ↔ s.heap.IsInstance c o := by
    intro o
    rw [ljGetClassInstances, jvmti.mem_getObjectsWithTags]
    exact hasTag_iterateThroughHeap jvmti (htagged.fresh (by omega))
  have hraw : (findInstances jvmti s c).2.map Jobject.objectRaw = (ljGetClassInstances jvmti s c).2 := by
    rw [findInstances, List.map_map]
    exact List.map_id _
  constructor
  · rw [hraw]
    refine (List.perm_ext_iff_of_nodup (jvmti.getObjectsWithTags_nodup ..) (jvmti.visited_nodup ..)).mpr fun o => ?_
    exact (hmem o).trans (jvmti.mem_visited ..).symm
  · intro x hx
    obtain ⟨o, ho, rfl⟩ := List.mem_map.mp hx
    have hinstance := (hmem o).mp ho
    obtain ⟨y, hy, hobj, hcls, -⟩ := exists_mem_iterateThroughHeap jvmti hinstance
    exact ⟨hinstance, Heap.getClass_of_isInstance ⟨y, hy, hobj, hcls⟩⟩

/-- Heap functions that go through the objects in the order of the heap. -/
def HeapFunctions.inOrder : HeapFunctions Bool ℕ where
  visited heap c := (heap.objects.filter (·.cls == c)).map HeapObject.obj
  visited_nodup heap c := heap.nodup.sublist (List.filter_sublist.map _)
  mem_visited heap c o := by
    simp only [List.mem_map, List.mem_filter, beq_iff_eq, Heap.IsInstance]
    exact exists_congr fun x => by rw [and_assoc, and_comm (a := x.cls = c)]
  getObjectsWithTags heap tag := (heap.objects.filter (·.tag == tag)).map HeapObject.obj
  getObjectsWithTags_nodup heap tag := heap.nodup.sublist (List.filter_sublist.map _)
  mem_getObjectsWithTags heap tag o := by
    simp only [List.mem_map, List.mem_filter, beq_iff_eq, Heap.HasTag]
    exact exists_congr fun x => by rw [and_assoc, and_comm (a := x.tag = tag)]

/-- The second search does not return the object that only the first one tagged. -/
theorem twoSearches_exact : ∃ s, run (searchStep .inOrder) .init
      [.alloc 1 true, .alloc 2 false, .find true, .alloc 3 false, .alloc 4 false, .die 4] = some s ∧
    (findInstances .inOrder s false).2 = [⟨3, some false⟩, ⟨2, some false⟩] ∧
      ((findInstances .inOrder s false).2.map Jobject.objectRaw).Perm (HeapFunctions.inOrder.visited s.heap false) := by
  have hexact := findInstances_exact .inOrder
    [.alloc 1 true, .alloc 2 false, .find true, .alloc 3 false, .alloc 4 false, .die 4] false (by decide) _ rfl
  exact ⟨_, rfl, by decide, hexact.1⟩

end Runs

end YellowTree
