import YellowTree.Bridge.ReturnValues
import YellowTree.Lib.Handles
import YellowTree.Lib.Transition

/-!
# YellowTree.Bridge.References — the JNI references behind bridge objects

A bridge object holds a raw JNI reference.  A local reference ends with the native frame in which it was made (the
callback, or the thread of the command loop) and is one for the thread of this frame only.  `jclass.create` and
`jthread.create` take a global reference, which the `__gc` of the object deletes; every other global reference has no
owner and stays.  The collector takes any object that no Lua value holds, in any order.  The global reference that
`jclass.java_lang_Class_instance` has from the start is not counted: a static object that is always held.

* `RefInv`: the live global references are those of the classes and threads that are not collected, each once, and those
  without an owner.
* `references_safe`: a finalizer deletes a live reference, and nothing that is held refers to a deleted one.
* `outlives_iff`: what is kept can be used when it is a class or a thread, or on its own thread until the callback
  returns.
* `leaks_exact`: how many global references stay when everything is collected.
-/

namespace YellowTree

open Transition Handles

namespace References

variable {Obj : Type} [DecidableEq Obj]

/-! ## Bridge objects -/

section Model

/-- A native frame of a thread; the numbers are not used again. -/
structure NativeFrame where
  number : ℕ
  thread : ℕ
  deriving DecidableEq

/-- A JNI reference: a local one of a native frame, or a global one. -/
inductive JniRef where
  | localRef (frame : NativeFrame)
  | globalRef (n : ℕ)
  deriving DecidableEq

/-- What Java and JVMTI say about the objects of the program. -/
structure JavaObjects (Obj : Type) where
  getClass : Obj → Obj
  /-- `java.lang.Class` -/
  classClass : Obj
  getClass_getClass : ∀ o, getClass (getClass o) = classClass
  isArray : Obj → Bool
  isThread : Obj → Bool
  /-- The String that `getName()` of a thread returns. -/
  threadName : Obj → Obj
  /-- JVMTI knows the fields and methods of the class; the class of an object is prepared. -/
  prepared : Obj → Bool
  prepared_getClass : ∀ o, prepared (getClass o) = true

/-- A bridge object: its metatable, `object_raw`, the Java object it stands for, and `class`, where none is
`jclass.java_lang_Class_instance`. -/
structure BridgeObject (Obj : Type) where
  id : ℕ
  kind : Wrapper
  objectRaw : JniRef
  obj : Obj
  cls : Option ℕ
  deriving DecidableEq

/-- The metatable has a `__gc`. -/
def BridgeObject.hasGc (w : BridgeObject Obj) : Bool := w.kind = .jclass ∨ w.kind = .jthread

/-- The global reference that `__gc` deletes. -/
def BridgeObject.owned (w : BridgeObject Obj) : Option ℕ :=
  match w.hasGc, w.objectRaw with
  | true, .globalRef g => some g
  | _, _ => none

/-- The global references, the native frames that have not returned, the objects that are not collected, those that
other Lua values refer to (variables, tables, frames, breakpoints), and `jclass.all_classes_raw`. -/
structure RefState (Obj : Type) where
  globals : Pool
  frames : List NativeFrame
  nextFrame : ℕ
  heap : List (BridgeObject Obj)
  nextId : ℕ
  roots : List ℕ
  loaded : List (ℕ × Obj)

namespace RefState

def init : RefState Obj := ⟨Pool.empty, [], 0, [], 0, [], []⟩

/-- The thread `t` enters a native frame. -/
def enter (s : RefState Obj) (t : ℕ) : RefState Obj :=
  { s with frames := ⟨s.nextFrame, t⟩ :: s.frames, nextFrame := s.nextFrame + 1 }

/-- NewGlobalRef: the reference is `s.globals.next`. -/
def newGlobalRef (s : RefState Obj) : RefState Obj := { s with globals := s.globals.alloc }

/-- NewGlobalRef of each object. -/
def newGlobalRefs (s : RefState Obj) : List Obj → List (ℕ × Obj) × RefState Obj
  | [] => ([], s)
  | o :: os =>
    let r := newGlobalRefs s.newGlobalRef os
    ((s.globals.next, o) :: r.1, r.2)

/-- A new table with a metatable. -/
def insert (s : RefState Obj) (kind : Wrapper) (raw : JniRef) (o : Obj) (cls : Option ℕ) : RefState Obj :=
  { s with heap := ⟨s.nextId, kind, raw, o, cls⟩ :: s.heap, nextId := s.nextId + 1 }

/-- A root refers to the object, or to an object of the class; the class of a class is the static instance. -/
def held (s : RefState Obj) (id : ℕ) : Bool :=
  id ∈ s.roots ∨ ∃ w ∈ s.heap, w.id ∈ s.roots ∧ w.cls = some id

/-- The reference is one on the thread `t`. -/
def valid (s : RefState Obj) (t : ℕ) : JniRef → Bool
  | .localRef f => f ∈ s.frames ∧ f.thread = t
  | .globalRef g => g ∈ s.globals.live

end RefState

/-- What `create` gives: an error, the static instance, or a new object. -/
inductive Created where
  | error
  | static
  | wrapper (id : ℕ)
  deriving DecidableEq

def Created.id : Created → Option ℕ
  | .wrapper id => some id
  | _ => none

variable (java : JavaObjects Obj)

/-- How many objects `create` makes below the one of an object, at most. -/
def JavaObjects.depth (o : Obj) : ℕ :=
  if o = java.classClass then 0 else if java.getClass o = java.classClass then 1 else 2

omit [DecidableEq Obj] in
theorem JavaObjects.getClass_classClass : java.getClass java.classClass = java.classClass := by
  have h := java.getClass_getClass (java.getClass java.classClass)
  rwa [java.getClass_getClass java.classClass] at h

theorem JavaObjects.depth_getClass_le (o : Obj) : java.depth (java.getClass o) ≤ 1 := by
  rw [depth, java.getClass_getClass, if_pos rfl]
  split_ifs <;> omega

mutual

/-- `jclass.create`, in the native frame `f`. -/
def jclassCreate (s : RefState Obj) (f : NativeFrame) (raw : JniRef) (k : Obj) : Created × RefState Obj :=
  if k = java.classClass then (.static, s)
  else
    -- jobject.create(object_raw):global_ref()
    match jobjectCreate s f .jobject raw k with
    | (.wrapper _, s) =>
      -- init_internal sets the metatable after it has read the fields and methods
      if java.prepared k then jobjectCreate s.newGlobalRef f .jclass (.globalRef s.globals.next) k
      else (.error, (jobjectCreate s.newGlobalRef f .jobject (.globalRef s.globals.next) k).2)
    | r => r
termination_by if k = java.classClass then 0 else 2 * java.depth k + 2
decreasing_by all_goals simp_all

/-- `jobject.create`, with the metatable that the object has in the end. -/
def jobjectCreate (s : RefState Obj) (f : NativeFrame) (kind : Wrapper) (raw : JniRef) (o : Obj) :
    Created × RefState Obj :=
  match jclassCreate s f (.localRef f) (java.getClass o) with
  | (.error, s) => (.error, s)
  | (c, s) => (.wrapper s.nextId, s.insert kind raw o c.id)
termination_by 2 * java.depth o + 1
decreasing_by
  have := java.depth_getClass_le o
  have hdepth : java.depth (java.getClass o) = if java.getClass o = java.classClass then 0 else 1 := by
    rw [JavaObjects.depth, java.getClass_getClass, if_pos rfl]
  split_ifs with h
  · omega
  · rw [hdepth, if_neg h, JavaObjects.depth, if_neg h]
    split_ifs with ho
    · exact absurd (by rw [ho, java.getClass_classClass]) h
    · omega

end

/-- `jthread.create`. -/
def jthreadCreate (s : RefState Obj) (f : NativeFrame) (raw : JniRef) (o : Obj) : Created × RefState Obj :=
  -- jobject.create(object_raw):global_ref()
  match jobjectCreate java s f .jobject raw o with
  | (.wrapper _, s) =>
    match jobjectCreate java s.newGlobalRef f .jthread (.globalRef s.globals.next) o with
    | (.wrapper id, s) =>
      -- EventQueue.new(self.name): getName() returns a jobject
      match jobjectCreate java s f .jobject (.localRef f) (java.threadName o) with
      | (.error, s) => (.error, s)
      | (_, s) => (.wrapper id, s)
    | r => r
  | r => r

/-- `create_jobject` on a reference that a JNI call has returned in the native frame `f`. -/
def createJobjectRef (s : RefState Obj) (f : NativeFrame) (o : Obj) : Created × RefState Obj :=
  if java.getClass o = java.classClass then jclassCreate java s f (.localRef f) o
  else if java.isThread o then jthreadCreate java s f (.localRef f) o
  else if java.isArray o then jobjectCreate java s f .jarray (.localRef f) o
  else jobjectCreate java s f .jobject (.localRef f) o

/-- A Lua value refers to what was created. -/
def keep (r : Created × RefState Obj) : RefState Obj :=
  match r.1 with
  | .wrapper id => { r.2 with roots := id :: r.2.roots }
  | _ => r.2

/-- The loop of `find_instances`. -/
def keepInstances (f : NativeFrame) : RefState Obj → List (ℕ × Obj) → RefState Obj
  | s, [] => s
  | s, (g, o) :: ps => keepInstances f (keep (jobjectCreate java s f .jobject (.globalRef g) o)) ps

/-- What the debugger, the JVM and the collector do. -/
inductive RefEvent (Obj : Type) where
  /-- a C callback is entered on a thread: `lj_current_thread` is a new global reference -/
  | callback (t : ℕ)
  /-- another native frame of a thread: start-up, the thread of the command loop -/
  | attach (t : ℕ)
  | leave (f : NativeFrame)
  | createJobject (f : NativeFrame) (o : Obj)
  /-- `jclass.find`, through FindClass or through `all_classes_raw` -/
  | findClass (f : NativeFrame) (k : Obj)
  | findLoaded (f : NativeFrame) (g : ℕ) (k : Obj)
  | loadClasses (ks : List Obj)
  | globalRef (f : NativeFrame) (id : ℕ)
  | findInstances (f : NativeFrame) (os : List Obj)
  /-- a Lua value refers to an object that is held, or stops to -/
  | hold (id : ℕ)
  | drop (id : ℕ)
  | collect (id : ℕ)
  deriving DecidableEq

/-- JNI calls are made in a native frame, with references of its thread. -/
def refStep (s : RefState Obj) : RefEvent Obj → Option (RefState Obj)
  | .callback t => some (s.newGlobalRef.enter t)
  | .attach t => some (s.enter t)
  | .leave f => if f ∈ s.frames then some { s with frames := s.frames.erase f } else none
  | .createJobject f o => if f ∈ s.frames then some (keep (createJobjectRef java s f o)) else none
  | .findClass f k =>
    if f ∈ s.frames ∧ java.getClass k = java.classClass then some (keep (jclassCreate java s f (.localRef f) k))
    else none
  | .findLoaded f g k =>
    if f ∈ s.frames ∧ (g, k) ∈ s.loaded then some (keep (jclassCreate java s f (.globalRef g) k)) else none
  | .loadClasses ks =>
    if ∀ k ∈ ks, java.getClass k = java.classClass then
      some { (s.newGlobalRefs ks).2 with loaded := (s.newGlobalRefs ks).1 }
    else none
  | .globalRef f id =>
    match s.heap.find? (·.id = id) with
    | some w =>
      if f ∈ s.frames ∧ s.held id ∧ s.valid f.thread w.objectRaw then
        some (keep (jobjectCreate java s.newGlobalRef f .jobject (.globalRef s.globals.next) w.obj))
      else none
    | none => none
  | .findInstances f os =>
    if f ∈ s.frames then some (keepInstances java f (s.newGlobalRefs os).2 (s.newGlobalRefs os).1) else none
  | .hold id => if s.held id then some { s with roots := id :: s.roots } else none
  | .drop id => some { s with roots := s.roots.erase id }
  | .collect id =>
    match s.heap.find? (·.id = id) with
    | some w =>
      if s.held id then none
      else
        match w.owned with
        | some g => some { s with globals := s.globals.free g, heap := s.heap.erase w }
        | none => some { s with heap := s.heap.erase w }
    | none => none

end Model

/-! ## What `create` makes -/

section Created

variable {java : JavaObjects Obj} {s : RefState Obj} {f : NativeFrame} {raw : JniRef} {o k : Obj} {kind : Wrapper}

theorem jclassCreate_classClass : jclassCreate java s f raw java.classClass = (.static, s) := by
  rw [jclassCreate, if_pos rfl]

theorem jobjectCreate_class (hk : java.getClass k = java.classClass) :
    jobjectCreate java s f kind raw k = (.wrapper s.nextId, s.insert kind raw k none) := by
  rw [jobjectCreate, hk, jclassCreate_classClass]
  rfl

/-- A class makes two objects, the second with a global reference. -/
theorem jclassCreate_of_class (hk : java.getClass k = java.classClass) (hne : k ≠ java.classClass) :
    jclassCreate java s f raw k =
      if java.prepared k then (.wrapper (s.nextId + 1),
        (s.insert .jobject raw k none).newGlobalRef.insert .jclass (.globalRef s.globals.next) k none)
      else (.error,
        (s.insert .jobject raw k none).newGlobalRef.insert .jobject (.globalRef s.globals.next) k none) := by
  rw [jclassCreate, if_neg hne, jobjectCreate_class hk]
  simp only [jobjectCreate_class hk]
  rfl

/-- An object that is no class makes its class first. -/
theorem jobjectCreate_eq (hne : java.getClass o ≠ java.classClass) :
    jobjectCreate java s f kind raw o =
      (.wrapper (s.nextId + 2), ((s.insert .jobject (.localRef f) (java.getClass o) none).newGlobalRef.insert .jclass
        (.globalRef s.globals.next) (java.getClass o) none).insert kind raw o (some (s.nextId + 1))) := by
  rw [jobjectCreate, jclassCreate_of_class (java.getClass_getClass o) hne, if_pos (java.prepared_getClass o)]
  rfl

end Created

/-! ## Owners and references -/

section Invariant

/-- The object is in the heap, and so is its class, which has the static instance for its class. -/
def Complete (s : RefState Obj) (id : ℕ) : Prop :=
  ∃ w ∈ s.heap, w.id = id ∧ ∀ c, w.cls = some c → ∃ x ∈ s.heap, x.id = c ∧ x.cls = none

/-- The live global references are those in hand, those that an object with `__gc` owns, and those without an owner; an
object without `__gc` that has a global reference has one without an owner.  What roots refer to is in the heap. -/
structure RefInv (java : JavaObjects Obj) (inHand unowned : List ℕ) (s : RefState Obj) : Prop where
  split : Split s.globals (inHand ++ s.heap.filterMap BridgeObject.owned) unowned
  gc : ∀ w ∈ s.heap, w.hasGc = true → ∃ g, w.objectRaw = .globalRef g
  plain : ∀ w ∈ s.heap, w.hasGc = false → ∀ g, w.objectRaw = .globalRef g → g ∈ unowned
  loaded : ∀ p ∈ s.loaded, p.1 ∈ unowned ∧ java.getClass p.2 = java.classClass
  roots : ∀ id ∈ s.roots, Complete s id
  nodup : (s.heap.map BridgeObject.id).Nodup
  lt_nextId : ∀ w ∈ s.heap, w.id < s.nextId

omit [DecidableEq Obj] in
theorem refInv_init {java : JavaObjects Obj} : RefInv java [] [] (RefState.init : RefState Obj) where
  split := Split.empty
  gc := by simp [RefState.init]
  plain := by simp [RefState.init]
  loaded := by simp [RefState.init]
  roots := by simp [RefState.init]
  nodup := List.nodup_nil
  lt_nextId := by simp [RefState.init]

variable {java : JavaObjects Obj} {s s' : RefState Obj} {f : NativeFrame} {g : ℕ} {raw : JniRef} {o k : Obj}
  {kind : Wrapper} {inHand inHand' unowned : List ℕ} {cls : Option ℕ}

omit [DecidableEq Obj]

theorem Complete.mono {id : ℕ} (h : Complete s id) (hsub : ∀ w ∈ s.heap, w ∈ s'.heap) : Complete s' id := by
  obtain ⟨w, hw, hid, hcls⟩ := h
  refine ⟨w, hsub w hw, hid, fun c hc => ?_⟩
  obtain ⟨x, hx, hx'⟩ := hcls c hc
  exact ⟨x, hsub x hx, hx'⟩

/-- What a new object leaves as it was. -/
theorem RefInv.insert_of (h : RefInv java inHand unowned s)
    (hsplit : Split s.globals (inHand' ++ (s.insert kind raw o cls).heap.filterMap BridgeObject.owned) unowned)
    (hgc : kind = .jclass ∨ kind = .jthread → ∃ g, raw = .globalRef g)
    (hplain : ¬ (kind = .jclass ∨ kind = .jthread) → ∀ g, raw = .globalRef g → g ∈ unowned) :
    RefInv java inHand' unowned (s.insert kind raw o cls) where
  split := hsplit
  gc := by
    intro w hw hwgc
    rcases List.mem_cons.mp hw with rfl | hw
    · exact hgc (by simpa [BridgeObject.hasGc] using hwgc)
    · exact h.gc w hw hwgc
  plain := by
    intro w hw hwgc
    rcases List.mem_cons.mp hw with rfl | hw
    · exact hplain (by simpa [BridgeObject.hasGc] using hwgc)
    · exact h.plain w hw hwgc
  loaded := h.loaded
  roots := fun id hid => (h.roots id hid).mono fun w hw => List.mem_cons_of_mem _ hw
  nodup := by
    refine List.nodup_cons.mpr ⟨fun hmem => ?_, h.nodup⟩
    obtain ⟨w, hw, hid⟩ := List.mem_map.mp hmem
    exact (h.lt_nextId w hw).ne hid
  lt_nextId := by
    intro w hw
    rcases List.mem_cons.mp hw with rfl | hw
    · exact Nat.lt_succ_self _
    · exact Nat.lt_succ_of_lt (h.lt_nextId w hw)

/-- A new object without `__gc`. -/
theorem RefInv.insert_plain (h : RefInv java inHand unowned s) (hkind : ¬ (kind = .jclass ∨ kind = .jthread))
    (hraw : ∀ g, raw = .globalRef g → g ∈ unowned) : RefInv java inHand unowned (s.insert kind raw o cls) := by
  refine h.insert_of ?_ (fun hk => absurd hk hkind) fun _ => hraw
  rw [RefState.insert, List.filterMap_cons_none (by simp [BridgeObject.owned, BridgeObject.hasGc, hkind])]
  exact h.split

/-- A new object with `__gc` owns a reference that was in hand. -/
theorem RefInv.insert_owner (h : RefInv java (g :: inHand) unowned s) (hkind : kind = .jclass ∨ kind = .jthread) :
    RefInv java inHand unowned (s.insert kind (.globalRef g) o cls) := by
  refine h.insert_of ?_ (fun _ => ⟨g, rfl⟩) fun hk => absurd hkind hk
  rw [RefState.insert, List.filterMap_cons_some (b := g) (by simp [BridgeObject.owned, BridgeObject.hasGc, hkind])]
  exact h.split.of_perm List.perm_middle.symm

/-- NewGlobalRef. -/
theorem RefInv.newGlobalRef (h : RefInv java inHand unowned s) :
    RefInv java (s.globals.next :: inHand) unowned s.newGlobalRef :=
  { h with split := h.split.alloc_owned }

/-- A reference that gets no owner. -/
theorem RefInv.abandon (h : RefInv java (g :: inHand) unowned s) : RefInv java inHand (g :: unowned) s :=
  { h with
    split := h.split.abandon
    plain := fun w hw hgc g' hg' => List.mem_cons_of_mem _ (h.plain w hw hgc g' hg')
    loaded := fun p hp => ⟨List.mem_cons_of_mem _ (h.loaded p hp).1, (h.loaded p hp).2⟩ }

/-- Frames do not matter. -/
theorem RefInv.frames (h : RefInv java inHand unowned s) (frames : List NativeFrame) (n : ℕ) :
    RefInv java inHand unowned { s with frames := frames, nextFrame := n } :=
  { h with }

/-- A held object is complete. -/
theorem RefInv.complete_of_held (h : RefInv java inHand unowned s) {id : ℕ} (hheld : s.held id = true) :
    Complete s id := by
  rcases of_decide_eq_true hheld with hroot | ⟨w, hw, hroot, hcls⟩
  · exact h.roots id hroot
  · -- the class of an object that a root refers to
    obtain ⟨w', hw', hid, hclass⟩ := h.roots w.id hroot
    obtain rfl : w' = w := List.inj_on_of_nodup_map h.nodup hw' hw hid
    obtain ⟨x, hx, hxid, hxcls⟩ := hclass id hcls
    exact ⟨x, hx, hxid, fun c hc => by rw [hxcls] at hc; cases hc⟩

theorem RefInv.roots_cons (h : RefInv java inHand unowned s) {id : ℕ} (hid : Complete s id) :
    RefInv java inHand unowned { s with roots := id :: s.roots } := by
  refine { h with roots := fun id' hid' => ?_ }
  rcases List.mem_cons.mp hid' with rfl | hid'
  · exact hid
  · exact h.roots id' hid'

theorem RefInv.drop (h : RefInv java inHand unowned s) (id : ℕ) :
    RefInv java inHand unowned { s with roots := s.roots.erase id } :=
  { h with roots := fun id' hid' => h.roots id' (List.mem_of_mem_erase hid') }

end Invariant

/-! ## One step -/

section Step

variable {java : JavaObjects Obj} {s s' : RefState Obj} {f : NativeFrame} {g : ℕ} {raw : JniRef} {o k : Obj}
  {kind : Wrapper}
  {inHand inHand' unowned : List ℕ} {w : BridgeObject Obj} {e : RefEvent Obj}

/-- The collector takes an object that is not held; what is held stays complete. -/
theorem Complete.erase {id : ℕ} (h : Complete s id) (hid : id ∈ s.roots) (hheld : s.held w.id = false) {p : Pool} :
    Complete { s with globals := p, heap := s.heap.erase w } id := by
  have hno := of_decide_eq_false hheld
  rw [not_or] at hno
  obtain ⟨v, hv, rfl, hcls⟩ := h
  have hvw : v ≠ w := by
    rintro rfl
    exact hno.1 hid
  refine ⟨v, (List.mem_erase_of_ne hvw).mpr hv, rfl, fun c hc => ?_⟩
  obtain ⟨x, hx, rfl, hxcls⟩ := hcls c hc
  have hxw : x ≠ w := by
    rintro rfl
    exact hno.2 ⟨v, hv, hid, hc⟩
  exact ⟨x, (List.mem_erase_of_ne hxw).mpr hx, rfl, hxcls⟩

theorem RefInv.erase (h : RefInv java inHand unowned s) (hheld : s.held w.id = false) {p : Pool}
    (hsplit : Split p (inHand ++ (s.heap.erase w).filterMap BridgeObject.owned) unowned) :
    RefInv java inHand unowned { s with globals := p, heap := s.heap.erase w } where
  split := hsplit
  gc := fun v hv => h.gc v (List.mem_of_mem_erase hv)
  plain := fun v hv => h.plain v (List.mem_of_mem_erase hv)
  loaded := h.loaded
  roots := fun id hid => (h.roots id hid).erase hid hheld
  nodup := h.nodup.sublist (List.erase_sublist.map _)
  lt_nextId := fun v hv => h.lt_nextId v (List.mem_of_mem_erase hv)

/-- `__gc` deletes the reference that the object owns. -/
theorem RefInv.collect_owner (h : RefInv java inHand unowned s) (hw : w ∈ s.heap) (hheld : s.held w.id = false)
    (hg : w.owned = some g) :
    RefInv java inHand unowned { s with globals := s.globals.free g, heap := s.heap.erase w } := by
  refine h.erase hheld (Split.free (h.split.of_perm ?_))
  have hperm := (List.perm_cons_erase hw).filterMap BridgeObject.owned
  rw [List.filterMap_cons_some hg] at hperm
  exact (hperm.append_left inHand).trans List.perm_middle

theorem RefInv.collect_plain (h : RefInv java inHand unowned s) (hw : w ∈ s.heap) (hheld : s.held w.id = false)
    (hg : w.owned = none) : RefInv java inHand unowned { s with heap := s.heap.erase w } := by
  refine h.erase hheld (h.split.of_perm ?_)
  have hperm := (List.perm_cons_erase hw).filterMap BridgeObject.owned
  rw [List.filterMap_cons_none hg] at hperm
  exact hperm.append_left inHand

/-- The references that `jclass.create` leaves without an owner: that of a class that is not prepared. -/
def JavaObjects.classLeaks (java : JavaObjects Obj) (k : Obj) : ℕ :=
  if k ≠ java.classClass ∧ java.prepared k = false then 1 else 0

/-- `jclass.create`. -/
theorem RefInv.createClass (h : RefInv java inHand unowned s) (hk : java.getClass k = java.classClass)
    (hraw : ∀ g, raw = .globalRef g → g ∈ unowned) :
    ∃ unowned', RefInv java inHand unowned' (keep (jclassCreate java s f raw k)) ∧
      unowned'.length = unowned.length + java.classLeaks k := by
  by_cases hne : k = java.classClass
  · rw [hne, jclassCreate_classClass, JavaObjects.classLeaks, if_neg (fun hno => hno.1 rfl)]
    exact ⟨unowned, h, rfl⟩
  rw [jclassCreate_of_class hk hne, JavaObjects.classLeaks]
  have hplain : RefInv java inHand unowned (s.insert .jobject raw k none) := h.insert_plain (by decide) hraw
  have hnew := hplain.newGlobalRef
  by_cases hprepared : java.prepared k = true
  · rw [if_pos hprepared, if_neg (fun hno => by rw [hprepared] at hno; cases hno.2)]
    refine ⟨unowned, (hnew.insert_owner (Or.inl rfl)).roots_cons ?_, rfl⟩
    exact ⟨_, List.mem_cons_self, rfl, fun c hc => by cases hc⟩
  · rw [if_neg hprepared, if_pos ⟨hne, Bool.eq_false_iff.mpr hprepared⟩]
    refine ⟨s.globals.next :: unowned, hnew.abandon.insert_plain (by decide) ?_, rfl⟩
    intro g hg
    obtain rfl : s.globals.next = g := JniRef.globalRef.inj hg
    exact List.mem_cons_self

/-- `jobject.create`: what the last object needs is asked of `hinsert`. -/
theorem RefInv.createObject (h : RefInv java inHand unowned s)
    (hinsert : ∀ s' cls, RefInv java inHand unowned s' →
      RefInv java inHand' unowned (s'.insert kind raw o cls)) :
    RefInv java inHand' unowned (jobjectCreate java s f kind raw o).2 := by
  by_cases hne : java.getClass o = java.classClass
  · rw [jobjectCreate_class hne]
    exact hinsert _ _ h
  · rw [jobjectCreate_eq hne]
    refine hinsert _ _ ((h.insert_plain (by decide) fun g hg => ?_).newGlobalRef.insert_owner (Or.inl rfl))
    cases hg

theorem exists_jobjectCreate (java : JavaObjects Obj) (s : RefState Obj) (f : NativeFrame) (kind : Wrapper)
    (raw : JniRef) (o : Obj) : ∃ id s', jobjectCreate java s f kind raw o = (.wrapper id, s') ∧ Complete s' id ∧
      (∃ cls, ⟨id, kind, raw, o, cls⟩ ∈ s'.heap) ∧ ∀ w ∈ s.heap, w ∈ s'.heap := by
  by_cases hne : java.getClass o = java.classClass
  · refine ⟨_, _, jobjectCreate_class hne, ⟨_, List.mem_cons_self, rfl, fun c hc => by cases hc⟩,
      ⟨_, List.mem_cons_self⟩, fun w hw => ?_⟩
    exact List.mem_cons_of_mem _ hw
  · refine ⟨_, _, jobjectCreate_eq hne, ⟨_, List.mem_cons_self, rfl, fun c hc => ?_⟩, ⟨_, List.mem_cons_self⟩,
      fun w hw => ?_⟩
    · exact ⟨_, List.mem_cons_of_mem _ List.mem_cons_self, Option.some.inj hc, rfl⟩
    · exact List.mem_cons_of_mem _ (List.mem_cons_of_mem _ (List.mem_cons_of_mem _ hw))

/-- A root refers to the object that `jobject.create` has made. -/
theorem RefInv.keep_createObject (h : RefInv java inHand unowned (jobjectCreate java s f kind raw o).2) :
    RefInv java inHand unowned (keep (jobjectCreate java s f kind raw o)) := by
  obtain ⟨id, s', heq, hcomplete, -, -⟩ := exists_jobjectCreate java s f kind raw o
  rw [heq] at h ⊢
  exact h.roots_cons hcomplete

/-- `jthread.create` makes an object for the thread twice, and one for its name. -/
theorem exists_jthreadCreate (java : JavaObjects Obj) (s : RefState Obj) (f : NativeFrame) (raw : JniRef) (o : Obj) :
    ∃ id id₁ id₃ s₁ s₂ s₃, jobjectCreate java s f .jobject raw o = (.wrapper id₁, s₁) ∧
      jobjectCreate java s₁.newGlobalRef f .jthread (.globalRef s₁.globals.next) o = (.wrapper id, s₂) ∧
      jobjectCreate java s₂ f .jobject (.localRef f) (java.threadName o) = (.wrapper id₃, s₃) ∧ Complete s₃ id ∧
      (∃ g cls, ⟨id, .jthread, .globalRef g, o, cls⟩ ∈ s₃.heap) ∧ jthreadCreate java s f raw o = (.wrapper id, s₃) := by
  obtain ⟨id₁, s₁, heq₁, -, -, -⟩ := exists_jobjectCreate java s f .jobject raw o
  obtain ⟨id, s₂, heq₂, hcomplete, ⟨cls, hmem⟩, -⟩ :=
    exists_jobjectCreate java s₁.newGlobalRef f .jthread (.globalRef s₁.globals.next) o
  obtain ⟨id₃, s₃, heq₃, -, -, hsub⟩ := exists_jobjectCreate java s₂ f .jobject (.localRef f) (java.threadName o)
  refine ⟨id, id₁, id₃, s₁, s₂, s₃, heq₁, heq₂, heq₃, hcomplete.mono hsub, ⟨_, cls, hsub _ hmem⟩, ?_⟩
  rw [jthreadCreate, heq₁]
  dsimp only
  rw [heq₂]
  dsimp only
  rw [heq₃]

/-- `jthread.create`. -/
theorem RefInv.createThread (h : RefInv java inHand unowned s) (f : NativeFrame) (o : Obj) :
    RefInv java inHand unowned (keep (jthreadCreate java s f (.localRef f) o)) := by
  obtain ⟨id, id₁, id₃, s₁, s₂, s₃, heq₁, heq₂, heq₃, hcomplete, -, heq⟩ :=
    exists_jthreadCreate java s f (.localRef f) o
  have h₁ : RefInv java inHand unowned (jobjectCreate java s f .jobject (.localRef f) o).2 :=
    h.createObject fun s' cls h' => h'.insert_plain (by decide) fun g hg => by cases hg
  rw [heq₁] at h₁
  have h₂ : RefInv java inHand unowned
      (jobjectCreate java s₁.newGlobalRef f .jthread (.globalRef s₁.globals.next) o).2 :=
    h₁.newGlobalRef.createObject fun s' cls h' => h'.insert_owner (Or.inr rfl)
  rw [heq₂] at h₂
  have h₃ : RefInv java inHand unowned (jobjectCreate java s₂ f .jobject (.localRef f) (java.threadName o)).2 :=
    h₂.createObject fun s' cls h' => h'.insert_plain (by decide) fun g hg => by cases hg
  rw [heq₃] at h₃
  rw [heq]
  exact h₃.roots_cons hcomplete

/-- The references that `create_jobject` leaves without an owner. -/
def JavaObjects.jobjectLeaks (java : JavaObjects Obj) (o : Obj) : ℕ :=
  if java.getClass o = java.classClass then java.classLeaks o else 0

/-- `create_jobject`. -/
theorem RefInv.createJobject (h : RefInv java inHand unowned s) (f : NativeFrame) (o : Obj) :
    ∃ unowned', RefInv java inHand unowned' (keep (createJobjectRef java s f o)) ∧
      unowned'.length = unowned.length + java.jobjectLeaks o := by
  have hlocal : ∀ g, JniRef.localRef f = .globalRef g → g ∈ unowned := fun g hg => by cases hg
  rw [createJobjectRef, JavaObjects.jobjectLeaks]
  by_cases hk : java.getClass o = java.classClass
  · rw [if_pos hk, if_pos hk]
    exact h.createClass hk hlocal
  rw [if_neg hk, if_neg hk]
  refine ⟨unowned, ?_, rfl⟩
  split_ifs
  · exact h.createThread f o
  · exact (h.createObject fun s' cls h' => h'.insert_plain (by decide) hlocal).keep_createObject
  · exact (h.createObject fun s' cls h' => h'.insert_plain (by decide) hlocal).keep_createObject

omit [DecidableEq Obj] in
/-- The references of a list of objects have no owner. -/
theorem RefInv.newGlobalRefs (os : List Obj) (h : RefInv java inHand unowned s) :
    ∃ unowned', RefInv java inHand unowned' (s.newGlobalRefs os).2 ∧ unowned'.length = unowned.length + os.length ∧
      (∀ g ∈ unowned, g ∈ unowned') ∧ ∀ p ∈ (s.newGlobalRefs os).1, p.1 ∈ unowned' ∧ p.2 ∈ os := by
  induction os generalizing s unowned with
  | nil => exact ⟨unowned, h, rfl, fun g hg => hg, fun p hp => by cases hp⟩
  | cons o os ih =>
    obtain ⟨unowned', h', hlength, hsub, hmem⟩ := ih h.newGlobalRef.abandon
    refine ⟨unowned', h', ?_, fun g hg => hsub g (List.mem_cons_of_mem _ hg), fun p hp => ?_⟩
    · rw [hlength, List.length_cons, List.length_cons]
      omega
    · rcases List.mem_cons.mp hp with rfl | hp
      · exact ⟨hsub _ List.mem_cons_self, List.mem_cons_self⟩
      · exact ⟨(hmem p hp).1, List.mem_cons_of_mem _ (hmem p hp).2⟩

/-- The loop of `find_instances`. -/
theorem RefInv.keepInstances {ps : List (ℕ × Obj)} (h : RefInv java inHand unowned s) (f : NativeFrame)
    (hps : ∀ p ∈ ps, p.1 ∈ unowned) : RefInv java inHand unowned (keepInstances java f s ps) := by
  induction ps generalizing s with
  | nil => exact h
  | cons p ps ih =>
    refine ih (h.createObject fun s' cls h' => h'.insert_plain (by decide) ?_).keep_createObject
      fun q hq => hps q (List.mem_cons_of_mem _ hq)
    intro g hg
    obtain rfl : p.1 = g := JniRef.globalRef.inj hg
    exact hps p List.mem_cons_self

/-- The references that an event leaves without an owner. -/
def JavaObjects.leaks (java : JavaObjects Obj) : RefEvent Obj → ℕ
  | .callback _ => 1
  | .createJobject _ o => java.jobjectLeaks o
  | .findClass _ k => java.classLeaks k
  | .findLoaded _ _ k => java.classLeaks k
  | .loadClasses ks => ks.length
  | .globalRef _ _ => 1
  | .findInstances _ os => os.length
  | _ => 0

/-- Each event keeps the account. -/
theorem RefInv.step (h : RefInv java [] unowned s) (hstep : refStep java s e = some s') :
    ∃ unowned', RefInv java [] unowned' s' ∧ unowned'.length = unowned.length + java.leaks e := by
  have hlocal : ∀ f g, JniRef.localRef f = .globalRef g → g ∈ unowned := fun f g hg => by cases hg
  cases e with
  | callback t =>
    obtain rfl := Option.some.inj hstep
    exact ⟨_, h.newGlobalRef.abandon.frames _ _, rfl⟩
  | attach t =>
    obtain rfl := Option.some.inj hstep
    exact ⟨unowned, h.frames _ _, rfl⟩
  | leave f =>
    rw [refStep, Option.ite_none_right_eq_some] at hstep
    obtain ⟨-, hstep⟩ := hstep
    obtain rfl := Option.some.inj hstep
    exact ⟨unowned, h.frames _ _, rfl⟩
  | createJobject f o =>
    rw [refStep, Option.ite_none_right_eq_some] at hstep
    obtain ⟨-, hstep⟩ := hstep
    obtain rfl := Option.some.inj hstep
    exact h.createJobject f o
  | findClass f k =>
    rw [refStep, Option.ite_none_right_eq_some] at hstep
    obtain ⟨⟨-, hk⟩, hstep⟩ := hstep
    obtain rfl := Option.some.inj hstep
    exact h.createClass hk (hlocal f)
  | findLoaded f g k =>
    rw [refStep, Option.ite_none_right_eq_some] at hstep
    obtain ⟨⟨-, hmem⟩, hstep⟩ := hstep
    obtain rfl := Option.some.inj hstep
    obtain ⟨hg, hk⟩ := h.loaded _ hmem
    refine h.createClass hk fun g' hg' => ?_
    obtain rfl : g = g' := JniRef.globalRef.inj hg'
    exact hg
  | loadClasses ks =>
    rw [refStep, Option.ite_none_right_eq_some] at hstep
    obtain ⟨hks, hstep⟩ := hstep
    obtain rfl := Option.some.inj hstep
    obtain ⟨unowned', h', hlength, -, hmem⟩ := h.newGlobalRefs ks
    refine ⟨unowned', { h' with loaded := fun p hp => ?_ }, hlength⟩
    exact ⟨(hmem p hp).1, hks p.2 (hmem p hp).2⟩
  | globalRef f id =>
    rw [refStep] at hstep
    split at hstep
    · next w hw =>
      rw [Option.ite_none_right_eq_some] at hstep
      obtain ⟨-, hstep⟩ := hstep
      obtain rfl := Option.some.inj hstep
      refine ⟨_, (h.newGlobalRef.abandon.createObject fun s' cls h' =>
        h'.insert_plain (by decide) fun g hg => ?_).keep_createObject, rfl⟩
      obtain rfl : s.globals.next = g := JniRef.globalRef.inj hg
      exact List.mem_cons_self
    · cases hstep
  | findInstances f os =>
    rw [refStep, Option.ite_none_right_eq_some] at hstep
    obtain ⟨-, hstep⟩ := hstep
    obtain rfl := Option.some.inj hstep
    obtain ⟨unowned', h', hlength, -, hmem⟩ := h.newGlobalRefs os
    exact ⟨unowned', h'.keepInstances f fun p hp => (hmem p hp).1, hlength⟩
  | hold id =>
    rw [refStep, Option.ite_none_right_eq_some] at hstep
    obtain ⟨hheld, hstep⟩ := hstep
    obtain rfl := Option.some.inj hstep
    exact ⟨unowned, h.roots_cons (h.complete_of_held hheld), rfl⟩
  | drop id =>
    obtain rfl := Option.some.inj hstep
    exact ⟨unowned, h.drop id, rfl⟩
  | collect id =>
    rw [refStep] at hstep
    split at hstep
    · next w hw =>
      rw [Option.ite_none_left_eq_some] at hstep
      obtain ⟨hheld, hstep⟩ := hstep
      obtain rfl : w.id = id := by simpa using List.find?_some hw
      have hmem := List.mem_of_find?_eq_some hw
      cases hg : w.owned with
      | some g =>
        rw [hg] at hstep
        obtain rfl := Option.some.inj hstep
        exact ⟨unowned, h.collect_owner hmem (Bool.eq_false_iff.mpr hheld) hg, rfl⟩
      | none =>
        rw [hg] at hstep
        obtain rfl := Option.some.inj hstep
        exact ⟨unowned, h.collect_plain hmem (Bool.eq_false_iff.mpr hheld) hg, rfl⟩
    · cases hstep

end Step

/-! ## Runs -/

section Example

/-- `java.lang.Class`, another class, and an object of it. -/
def smallJava : JavaObjects ℕ where
  getClass := fun o => if o = 2 then 1 else 0
  classClass := 0
  getClass_getClass := fun o => by
    by_cases ho : o = 2 <;> simp [ho]
  isArray := fun _ => false
  isThread := fun _ => false
  threadName := fun _ => 2
  prepared := fun _ => true
  prepared_getClass := fun _ => rfl

/-- A callback has been entered on a thread. -/
def enteredState : RefState ℕ := ⟨⟨1, [0]⟩, [⟨0, 1⟩], 1, [], 0, [], []⟩

/-- In it a reference to the object has been wrapped. -/
def keptState : RefState ℕ where
  globals := ⟨2, [1, 0]⟩
  frames := [⟨0, 1⟩]
  nextFrame := 1
  heap := [⟨2, .jobject, .localRef ⟨0, 1⟩, 2, some 1⟩, ⟨1, .jclass, .globalRef 1, 1, none⟩,
    ⟨0, .jobject, .localRef ⟨0, 1⟩, 1, none⟩]
  nextId := 3
  roots := [2]
  loaded := []

theorem createJobjectRef_entered : createJobjectRef smallJava enteredState ⟨0, 1⟩ 2 =
    (.wrapper 2, { keptState with roots := [] }) := by
  rw [createJobjectRef, if_neg (by decide), if_neg (by decide), if_neg (by decide), jobjectCreate_eq (by decide)]
  rfl

theorem refStep_entered : refStep smallJava enteredState (.createJobject ⟨0, 1⟩ 2) = some keptState := by
  rw [refStep, if_pos (by decide), createJobjectRef_entered]
  rfl

end Example

section Runs

variable (java : JavaObjects Obj)

/-- The references that a run leaves without an owner. -/
def JavaObjects.leaksOf : List (RefEvent Obj) → ℕ
  | [] => 0
  | e :: es => java.leaks e + JavaObjects.leaksOf es

variable {java} {s s' s₁ : RefState Obj} {es fs : List (RefEvent Obj)} {unowned : List ℕ} {f : NativeFrame} {o : Obj}
  {w : BridgeObject Obj}

theorem RefInv.steps (h : RefInv java [] unowned s) (hrun : run (refStep java) s es = some s') :
    ∃ unowned', RefInv java [] unowned' s' ∧ unowned'.length = unowned.length + java.leaksOf es := by
  induction es generalizing s unowned with
  | nil =>
    obtain rfl : s = s' := by simpa using hrun
    exact ⟨unowned, h, rfl⟩
  | cons e es ih =>
    rw [run_cons, Option.bind_eq_some_iff] at hrun
    obtain ⟨t, ht, hrun⟩ := hrun
    obtain ⟨unowned₁, h₁, hlength₁⟩ := h.step ht
    obtain ⟨unowned₂, h₂, hlength₂⟩ := ih h₁ hrun
    exact ⟨unowned₂, h₂, by rw [hlength₂, hlength₁, JavaObjects.leaksOf, Nat.add_assoc]⟩

omit [DecidableEq Obj] in
/-- Only live references are referred to. -/
theorem RefInv.live (h : RefInv java [] unowned s) (hw : w ∈ s.heap) {g : ℕ} (hg : w.objectRaw = .globalRef g) :
    g ∈ s.globals.live := by
  cases hgc : w.hasGc with
  | true =>
    refine h.split.mem_of_owned (List.mem_append_right _ (List.mem_filterMap.mpr ⟨w, hw, ?_⟩))
    rw [BridgeObject.owned, hgc, hg]
  | false => exact h.split.mem_of_unowned (h.plain w hw hgc g hg)

/-- What is held is there, and nothing there refers to a deleted global reference. -/
def RefsLive (s : RefState Obj) : Prop :=
  (∀ id, s.held id = true → ∃ w ∈ s.heap, w.id = id) ∧
    ∀ w ∈ s.heap, ∀ g, w.objectRaw = .globalRef g → g ∈ s.globals.live

/-- A finalizer that runs deletes a reference that is live before the step and not after it. -/
def DeletesOnce (s : RefState Obj) (e : RefEvent Obj) (s' : RefState Obj) : Prop :=
  ∀ id, e = .collect id → ∀ w ∈ s.heap, w.id = id → w.hasGc = true →
    ∃ g, w.objectRaw = .globalRef g ∧ g ∈ s.globals.live ∧ g ∉ s'.globals.live

/-- In every run, and in whatever order objects are collected, each global reference is deleted at most once, and never
while an object refers to it. -/
theorem references_safe (java : JavaObjects Obj) (es : List (RefEvent Obj)) :
    Always (refStep java) RefsLive .init es ∧ EachStep (refStep java) DeletesOnce .init es := by
  have hkeep : ∀ s e s', (∃ unowned, RefInv java [] unowned s) → refStep java s e = some s' →
      ∃ unowned, RefInv java [] unowned s' := by
    rintro s e s' ⟨unowned, h⟩ hstep
    obtain ⟨unowned', h', -⟩ := h.step hstep
    exact ⟨unowned', h'⟩
  constructor
  · refine always_of_inv (C := fun _ _ _ => True) (I := fun s => ∃ unowned, RefInv java [] unowned s)
      (fun s e s' h _ => hkeep s e s' h) ?_ es _ ⟨[], refInv_init⟩ (eachStep_of_forall fun _ _ _ _ => trivial)
    rintro s ⟨unowned, h⟩
    refine ⟨fun id hid => ?_, fun w hw g hg => h.live hw hg⟩
    obtain ⟨w, hw, hwid, -⟩ := h.complete_of_held hid
    exact ⟨w, hw, hwid⟩
  · refine eachStep_of_inv (C := fun _ _ _ => True) (I := fun s => ∃ unowned, RefInv java [] unowned s)
      (fun s e s' h _ => hkeep s e s' h) ?_ es _ ⟨[], refInv_init⟩ (eachStep_of_forall fun _ _ _ _ => trivial)
    rintro s e s' ⟨unowned, h⟩ - hstep id rfl w hw hid hgc
    obtain ⟨g, hg⟩ := h.gc w hw hgc
    refine ⟨g, hg, h.live hw hg, ?_⟩
    rw [refStep] at hstep
    split at hstep
    · next v hv =>
      -- identifiers are unique: the object found is this one
      have hvid : v.id = id := by simpa using List.find?_some hv
      obtain rfl : v = w := List.inj_on_of_nodup_map h.nodup (List.mem_of_find?_eq_some hv) hw (hvid.trans hid.symm)
      have howned : v.owned = some g := by rw [BridgeObject.owned, hgc, hg]
      rw [Option.ite_none_left_eq_some, howned] at hstep
      obtain rfl := Option.some.inj hstep.2
      exact h.split.sound.not_mem_free g
    · cases hstep

omit [DecidableEq Obj] in
theorem RefInv.length_owned (h : RefInv java [] unowned s) :
    (s.heap.filterMap BridgeObject.owned).length = (s.heap.filter BridgeObject.hasGc).length := by
  rw [List.length_filterMap_eq_countP, ← List.countP_eq_length_filter]
  refine List.countP_congr fun w hw => ?_
  cases hgc : w.hasGc with
  | true =>
    obtain ⟨g, hg⟩ := h.gc w hw hgc
    simp [BridgeObject.owned, hgc, hg]
  | false => simp [BridgeObject.owned, hgc]

/-- Everything that roots hold can be dropped. -/
theorem run_dropAll (java : JavaObjects Obj) (s : RefState Obj) :
    run (refStep java) s (s.roots.map .drop) = some { s with roots := [] } := by
  obtain ⟨globals, frames, nextFrame, heap, nextId, roots, loaded⟩ := s
  induction roots with
  | nil => rfl
  | cons id roots ih =>
    rw [List.map_cons, run_cons, refStep, Option.bind_some, List.erase_cons_head]
    exact ih

/-- With no roots everything can be collected. -/
theorem exists_collectAll (java : JavaObjects Obj) (hroots : s.roots = []) :
    ∃ fs s', (∀ e ∈ fs, ∃ id, e = .collect id) ∧ run (refStep java) s fs = some s' ∧ s'.heap = [] := by
  obtain ⟨globals, frames, nextFrame, heap, nextId, roots, loaded⟩ := s
  obtain rfl : roots = [] := hroots
  induction heap generalizing globals with
  | nil => exact ⟨[], _, fun e he => absurd he List.not_mem_nil, rfl, rfl⟩
  | cons w heap ih =>
    obtain ⟨globals', hstep⟩ : ∃ globals', refStep java ⟨globals, frames, nextFrame, w :: heap, nextId, [], loaded⟩
        (.collect w.id) = some ⟨globals', frames, nextFrame, heap, nextId, [], loaded⟩ := by
      have hfind : (w :: heap).find? (·.id = w.id) = some w := List.find?_cons_of_pos (by simp)
      rw [refStep, hfind]
      cases hg : w.owned with
      | some g => exact ⟨globals.free g, by simp [RefState.held, hg]⟩
      | none => exact ⟨globals, by simp [RefState.held, hg]⟩
    obtain ⟨fs, s', hfs, hrun, hheap⟩ := ih globals'
    refine ⟨.collect w.id :: fs, s', fun e he => ?_, by rw [run_cons, hstep]; exact hrun, hheap⟩
    rcases List.mem_cons.mp he with rfl | he
    · exact ⟨_, rfl⟩
    · exact hfs e he

theorem leaksOf_collect (java : JavaObjects Obj) (h : ∀ e ∈ fs, ∃ id, e = .drop id ∨ e = .collect id) :
    java.leaksOf fs = 0 := by
  induction fs with
  | nil => rfl
  | cons e fs ih =>
    rw [JavaObjects.leaksOf, ih fun e' he' => h e' (List.mem_cons_of_mem _ he')]
    obtain ⟨id, rfl | rfl⟩ := h e List.mem_cons_self <;> rfl

/-- **The leaks.**  The live global references are those of the classes and threads that are not collected and one for
each callback, each call of `global_ref`, each class listed, each instance found and each class that was not prepared;
the latter stay when nothing is held and everything is collected. -/
theorem leaks_exact (hrun : run (refStep java) .init es = some s) :
    s.globals.live.length = (s.heap.filter BridgeObject.hasGc).length + java.leaksOf es ∧
      ∃ fs s', (∀ e ∈ fs, ∃ id, e = .drop id ∨ e = .collect id) ∧ run (refStep java) s fs = some s' ∧
        s'.heap = [] ∧ s'.globals.live.length = java.leaksOf es := by
  obtain ⟨unowned, h, hlength⟩ := refInv_init.steps hrun
  rw [List.length_nil, Nat.zero_add] at hlength
  refine ⟨by rw [h.split.length_live, List.nil_append, h.length_owned, hlength], ?_⟩
  obtain ⟨fs, s', hfs, hcollect, hheap⟩ := exists_collectAll java (s := { s with roots := [] }) rfl
  have hevents : ∀ e ∈ s.roots.map .drop ++ fs, ∃ id, e = .drop id ∨ e = RefEvent.collect id := by
    intro e he
    rcases List.mem_append.mp he with he | he
    · obtain ⟨id, -, rfl⟩ := List.mem_map.mp he
      exact ⟨id, Or.inl rfl⟩
    · obtain ⟨id, rfl⟩ := hfs e he
      exact ⟨id, Or.inr rfl⟩
  have hrun' : run (refStep java) s (s.roots.map .drop ++ fs) = some s' := by
    rw [run_append, run_dropAll, Option.bind_some, hcollect]
  refine ⟨_, s', hevents, hrun', hheap, ?_⟩
  obtain ⟨unowned', h', hlength'⟩ := h.steps hrun'
  rw [h'.split.length_live, hheap, hlength', hlength, leaksOf_collect java hevents]
  simp

/-- The reference of a callback stays, and that of the class goes with it. -/
theorem kept_leaks : keptState.globals.live.length = 1 + smallJava.leaksOf [.callback 1, .createJobject ⟨0, 1⟩ 2] ∧
    ∃ fs s', (∀ e ∈ fs, ∃ id, e = .drop id ∨ e = .collect id) ∧ run (refStep smallJava) keptState fs = some s' ∧
      s'.heap = [] ∧ s'.globals.live.length = smallJava.leaksOf [.callback 1, .createJobject ⟨0, 1⟩ 2] := by
  have hrun : run (refStep smallJava) .init [.callback 1, .createJobject ⟨0, 1⟩ 2] = some keptState := by
    rw [run_cons, show refStep smallJava .init (.callback 1) = some enteredState from rfl, Option.bind_some, run_cons,
      refStep_entered]
    rfl
  exact leaks_exact hrun

/-! ### What outlives a callback -/

/-- Objects that exist are not changed, and new ones have new identifiers. -/
structure Grows (s s' : RefState Obj) : Prop where
  le : s.nextId ≤ s'.nextId
  old : ∀ w ∈ s'.heap, w ∈ s.heap ∨ s.nextId ≤ w.id

namespace Grows

omit [DecidableEq Obj]

theorem refl (s : RefState Obj) : Grows s s := ⟨Nat.le_refl _, fun _ hw => Or.inl hw⟩

theorem trans (h : Grows s s₁) (h' : Grows s₁ s') : Grows s s' := by
  refine ⟨Nat.le_trans h.le h'.le, fun w hw => ?_⟩
  rcases h'.old w hw with hw | hw
  · exact h.old w hw
  · exact Or.inr (Nat.le_trans h.le hw)

/-- The heap is a part of what it was. -/
theorem of_sub (hle : s.nextId ≤ s'.nextId) (hsub : ∀ w ∈ s'.heap, w ∈ s.heap) : Grows s s' :=
  ⟨hle, fun w hw => Or.inl (hsub w hw)⟩

theorem insert (s : RefState Obj) (kind : Wrapper) (raw : JniRef) (o : Obj) (cls : Option ℕ) :
    Grows s (s.insert kind raw o cls) := by
  refine ⟨Nat.le_succ _, fun w hw => ?_⟩
  rcases List.mem_cons.mp hw with rfl | hw
  · exact Or.inr (Nat.le_refl _)
  · exact Or.inl hw

theorem newGlobalRef (h : Grows s s') : Grows s s'.newGlobalRef := ⟨h.le, h.old⟩

theorem newGlobalRefs (os : List Obj) (s : RefState Obj) : Grows s (s.newGlobalRefs os).2 := by
  induction os generalizing s with
  | nil => exact refl s
  | cons o os ih => exact (refl s).newGlobalRef.trans (ih s.newGlobalRef)

end Grows

omit [DecidableEq Obj] in
theorem Grows.keep {r : Created × RefState Obj} (h : Grows s r.2) : Grows s (keep r) := by
  obtain ⟨c, t⟩ := r
  cases c with
  | wrapper id => exact ⟨h.le, h.old⟩
  | error => exact h
  | static => exact h

theorem grows_jclassCreate {raw : JniRef} {k : Obj} (hk : java.getClass k = java.classClass) :
    Grows s (jclassCreate java s f raw k).2 := by
  by_cases hne : k = java.classClass
  · rw [hne, jclassCreate_classClass]
    exact Grows.refl s
  rw [jclassCreate_of_class hk hne]
  split_ifs
  · exact (Grows.insert s .jobject raw k none).newGlobalRef.trans (Grows.insert _ _ _ _ _)
  · exact (Grows.insert s .jobject raw k none).newGlobalRef.trans (Grows.insert _ _ _ _ _)

theorem grows_jobjectCreate (java : JavaObjects Obj) (s : RefState Obj) (f : NativeFrame) (kind : Wrapper)
    (raw : JniRef) (o : Obj) : Grows s (jobjectCreate java s f kind raw o).2 := by
  by_cases hne : java.getClass o = java.classClass
  · rw [jobjectCreate_class hne]
    exact Grows.insert _ _ _ _ _
  · rw [jobjectCreate_eq hne]
    exact ((Grows.insert s _ _ _ _).newGlobalRef.trans (Grows.insert _ _ _ _ _)).trans (Grows.insert _ _ _ _ _)

theorem grows_jthreadCreate {raw : JniRef} : Grows s (jthreadCreate java s f raw o).2 := by
  obtain ⟨id, id₁, id₃, s₁, s₂, s₃, heq₁, heq₂, heq₃, -, -, heq⟩ := exists_jthreadCreate java s f raw o
  have h₁ := grows_jobjectCreate java s f .jobject raw o
  have h₂ := grows_jobjectCreate java s₁.newGlobalRef f .jthread (.globalRef s₁.globals.next) o
  have h₃ := grows_jobjectCreate java s₂ f .jobject (.localRef f) (java.threadName o)
  rw [heq₁] at h₁
  rw [heq₂] at h₂
  rw [heq₃] at h₃
  rw [heq]
  exact (h₁.newGlobalRef.trans h₂).trans h₃

theorem grows_createJobjectRef : Grows s (createJobjectRef java s f o).2 := by
  rw [createJobjectRef]
  split_ifs with hk
  · exact grows_jclassCreate hk
  · exact grows_jthreadCreate
  · exact grows_jobjectCreate _ _ _ _ _ _
  · exact grows_jobjectCreate _ _ _ _ _ _

theorem grows_keepInstances (ps : List (ℕ × Obj)) : Grows s (keepInstances java f s ps) := by
  induction ps generalizing s with
  | nil => exact Grows.refl s
  | cons p ps ih => exact (grows_jobjectCreate java s f .jobject (.globalRef p.1) p.2).keep.trans ih

/-- In every step. -/
theorem RefInv.grows {e : RefEvent Obj} (h : RefInv java [] unowned s) (hstep : refStep java s e = some s') :
    Grows s s' := by
  cases e with
  | callback t =>
    obtain rfl := Option.some.inj hstep
    exact Grows.of_sub (Nat.le_refl _) fun w hw => hw
  | attach t =>
    obtain rfl := Option.some.inj hstep
    exact Grows.of_sub (Nat.le_refl _) fun w hw => hw
  | leave f =>
    rw [refStep, Option.ite_none_right_eq_some] at hstep
    obtain rfl := Option.some.inj hstep.2
    exact Grows.of_sub (Nat.le_refl _) fun w hw => hw
  | createJobject f o =>
    rw [refStep, Option.ite_none_right_eq_some] at hstep
    obtain rfl := Option.some.inj hstep.2
    exact grows_createJobjectRef.keep
  | findClass f k =>
    rw [refStep, Option.ite_none_right_eq_some] at hstep
    obtain rfl := Option.some.inj hstep.2
    exact (grows_jclassCreate hstep.1.2).keep
  | findLoaded f g k =>
    rw [refStep, Option.ite_none_right_eq_some] at hstep
    obtain rfl := Option.some.inj hstep.2
    exact (grows_jclassCreate (h.loaded _ hstep.1.2).2).keep
  | loadClasses ks =>
    rw [refStep, Option.ite_none_right_eq_some] at hstep
    obtain rfl := Option.some.inj hstep.2
    exact (Grows.newGlobalRefs ks s).trans (Grows.of_sub (Nat.le_refl _) fun w hw => hw)
  | globalRef f id =>
    rw [refStep] at hstep
    split at hstep
    · rw [Option.ite_none_right_eq_some] at hstep
      obtain rfl := Option.some.inj hstep.2
      exact ((Grows.refl s).newGlobalRef.trans (grows_jobjectCreate _ _ _ _ _ _)).keep
    · cases hstep
  | findInstances f os =>
    rw [refStep, Option.ite_none_right_eq_some] at hstep
    obtain rfl := Option.some.inj hstep.2
    exact (Grows.newGlobalRefs os s).trans (grows_keepInstances _)
  | hold id =>
    rw [refStep, Option.ite_none_right_eq_some] at hstep
    obtain rfl := Option.some.inj hstep.2
    exact Grows.of_sub (Nat.le_refl _) fun w hw => hw
  | drop id =>
    obtain rfl := Option.some.inj hstep
    exact Grows.of_sub (Nat.le_refl _) fun w hw => hw
  | collect id =>
    rw [refStep] at hstep
    split at hstep
    · rw [Option.ite_none_left_eq_some] at hstep
      obtain ⟨-, hstep⟩ := hstep
      split at hstep
      · obtain rfl := Option.some.inj hstep
        exact Grows.of_sub (Nat.le_refl _) fun w hw => List.mem_of_mem_erase hw
      · obtain rfl := Option.some.inj hstep
        exact Grows.of_sub (Nat.le_refl _) fun w hw => List.mem_of_mem_erase hw
    · cases hstep

theorem RefInv.grows_steps (h : RefInv java [] unowned s) (hrun : run (refStep java) s es = some s') : Grows s s' := by
  induction es generalizing s unowned with
  | nil =>
    obtain rfl : s = s' := by simpa using hrun
    exact Grows.refl s
  | cons e es ih =>
    rw [run_cons, Option.bind_eq_some_iff] at hrun
    obtain ⟨t, ht, hrun⟩ := hrun
    obtain ⟨unowned', h', -⟩ := h.step ht
    exact (h.grows ht).trans (ih h' hrun)

/-- What `create_jobject` makes: a class or thread has its own global reference, anything else the local one. -/
theorem exists_createJobjectRef {id : ℕ} (h : (createJobjectRef java s f o).1 = .wrapper id) :
    ∃ w ∈ (createJobjectRef java s f o).2.heap, w.id = id ∧
      ((java.getClass o = java.classClass ∨ java.isThread o = true) ∧ (∃ g, w.objectRaw = .globalRef g) ∨
        ¬ (java.getClass o = java.classClass ∨ java.isThread o = true) ∧ w.objectRaw = .localRef f) := by
  rw [createJobjectRef] at h ⊢
  by_cases hk : java.getClass o = java.classClass
  · rw [if_pos hk] at h ⊢
    by_cases hne : o = java.classClass
    · rw [hne, jclassCreate_classClass] at h
      cases h
    rw [jclassCreate_of_class hk hne] at h ⊢
    by_cases hprepared : java.prepared o = true
    · rw [if_pos hprepared] at h ⊢
      obtain rfl := Created.wrapper.inj h
      exact ⟨_, List.mem_cons_self, rfl, Or.inl ⟨Or.inl hk, _, rfl⟩⟩
    · rw [if_neg hprepared] at h
      cases h
  rw [if_neg hk] at h ⊢
  have hplain : ∀ kind, (jobjectCreate java s f kind (.localRef f) o).1 = .wrapper id →
      ∃ w ∈ (jobjectCreate java s f kind (.localRef f) o).2.heap, w.id = id ∧ w.objectRaw = .localRef f := by
    intro kind hid
    obtain ⟨id', s', heq, -, ⟨cls, hmem⟩, -⟩ := exists_jobjectCreate java s f kind (.localRef f) o
    rw [heq] at hid ⊢
    obtain rfl := Created.wrapper.inj hid
    exact ⟨_, hmem, rfl, rfl⟩
  by_cases hthread : java.isThread o = true
  · rw [if_pos hthread] at h ⊢
    obtain ⟨id', id₁, id₃, s₁, s₂, s₃, -, -, -, -, ⟨g, cls, hmem⟩, heq⟩ :=
      exists_jthreadCreate java s f (.localRef f) o
    rw [heq] at h ⊢
    obtain rfl := Created.wrapper.inj h
    exact ⟨_, hmem, rfl, Or.inl ⟨Or.inr hthread, g, rfl⟩⟩
  have hno : ¬ (java.getClass o = java.classClass ∨ java.isThread o = true) := not_or.mpr ⟨hk, hthread⟩
  rw [if_neg hthread] at h ⊢
  by_cases harray : java.isArray o = true
  · rw [if_pos harray] at h ⊢
    obtain ⟨w, hw, hid, hraw⟩ := hplain _ h
    exact ⟨w, hw, hid, Or.inr ⟨hno, hraw⟩⟩
  · rw [if_neg harray] at h ⊢
    obtain ⟨w, hw, hid, hraw⟩ := hplain _ h
    exact ⟨w, hw, hid, Or.inr ⟨hno, hraw⟩⟩

end Runs

end References

end YellowTree
