import YellowTree.Lib.ListSplit
import YellowTree.Lib.Transition
import YellowTree.Lua.Value

/-!
# YellowTree.Bridge.ClassFind — `jclass.find` and the table of the loaded classes

`jclass.find` asks FindClass, and when this finds nothing a table of all loaded classes by signature, which it fills
the first time and keeps.  Then it makes a `jclass`, for which JVMTI has to give the fields of the class.

* `ljGetLoadedClasses_eq`: the table has the last class of each signature.
* `answers_iff`: a call answers from what is loaded exactly when FindClass, or the table as it is, does.
* `finds_iff`: so for all calls of a run.
-/

namespace YellowTree

open Transition

variable {Class : Type}

/-! ## The embedding -/

section Embedding

/-- `string.gsub(s, "%.", "/")`. -/
def gsubDots (s : LuaString) : LuaString := s.map fun c => if c = '.' then '/' else c

theorem gsubDots_of_notMem {s : LuaString} (h : '.' ∉ s) : gsubDots s = s := by
  have hsame : ∀ c ∈ s, (if c = '.' then '/' else c) = c := fun c hc => if_neg (ne_of_mem_of_not_mem hc h)
  exact (List.map_congr_left hsame).trans (List.map_id s)

/-- The key of a class in the table: its signature, made from a name with dots or slashes. -/
def internalKey (className : LuaString) : LuaString := "L".toList ++ gsubDots className ++ ";".toList

/-- What `jclass.find` gives: a `jclass`, nil, or an error. -/
inductive FindResult (Class : Type) where
  | found (c : Class)
  | nil
  | error (e : LuaError)

/-- The classes that are loaded, by any class loader, and those of them that are prepared; and
`jclass.all_classes_raw`. -/
structure ClassState (Class : Type) where
  loaded : List Class
  prepared : Class → Bool
  allClassesRaw : Option (LuaString → Option Class)

variable (signature : Class → LuaString)

/-- `lj_get_loaded_classes`, for the classes in the order in which JVMTI gives them. -/
def ljGetLoadedClasses (classes : List Class) : LuaString → Option Class :=
  classes.foldl (fun table c => Function.update table (signature c) (some c)) fun _ => none

namespace ClassState

/-- `jclass.create` does not fail: the class is java.lang.Class, or JVMTI gives its fields and methods. -/
def creatable (s : ClassState Class) (c : Class) : Bool := signature c = "Ljava/lang/Class;".toList || s.prepared c

/-- `jclass.create`. -/
def create (s : ClassState Class) (c : Class) : FindResult Class :=
  if s.creatable signature c then .found c else .error (.jvmti "JVMTI_ERROR_CLASS_NOT_PREPARED")

/-- `jclass.all_classes_raw`, filled if it is nil. -/
def table (s : ClassState Class) (classes : List Class) : LuaString → Option Class :=
  s.allClassesRaw.getD (ljGetLoadedClasses signature classes)

/-- `jclass.find`, where `FindClass` and `GetLoadedClasses` give what they are said to. -/
def find (s : ClassState Class) (className : LuaString) (classRaw : Option Class) (classes : List Class) :
    ClassState Class × FindResult Class :=
  match classRaw with
  | some c => (s, s.create signature c)
  | none =>
    let s' := { s with allClassesRaw := some (s.table signature classes) }
    match s.table signature classes (internalKey className) with
    | none => (s', .nil)
    | some c => (s', s'.create signature c)

end ClassState

/-- A class is loaded or prepared (as FindClass may do it before it answers), or `jclass.find` is called, where
FindClass gives `classRaw` and GetLoadedClasses `classes`. -/
inductive ClassEvent (Class : Type) where
  | load (c : Class)
  | prepare (c : Class)
  | find (className : LuaString) (classRaw : Option Class) (classes : List Class)

/-- One event.  FindClass gives only loaded classes, and GetLoadedClasses all of them in some order. -/
def classStep [DecidableEq Class] (s : ClassState Class) : ClassEvent Class → Option (ClassState Class)
  | .load c => if c ∈ s.loaded then none else some { s with loaded := s.loaded ++ [c] }
  | .prepare c => if c ∈ s.loaded then some { s with prepared := Function.update s.prepared c true } else none
  | .find className classRaw classes =>
    if (∀ c ∈ classRaw, c ∈ s.loaded) ∧ classes.Perm s.loaded then
      some (s.find signature className classRaw classes).1
    else none

/-- Before the first call. -/
def ClassState.start (loaded : List Class) (prepared : Class → Bool) : ClassState Class := ⟨loaded, prepared, none⟩

end Embedding

/-! ## Answers -/

section Spec

variable (signature : Class → LuaString)

/-- A loaded class has the binary name. -/
def ClassState.Has (s : ClassState Class) (className : LuaString) : Prop :=
  ∃ c ∈ s.loaded, signature c = internalKey className

/-- The call returns a class if FindClass finds one or a loaded class has the name, and nil otherwise. -/
def Answers (s : ClassState Class) (e : ClassEvent Class) (_ : ClassState Class) : Prop :=
  ∀ className classRaw classes, e = .find className classRaw classes →
    (classRaw.isSome = true ∨ s.Has signature className →
      ∃ c, (s.find signature className classRaw classes).2 = .found c ∧
        (classRaw = some c ∨ signature c = internalKey className)) ∧
    (¬ (classRaw.isSome = true ∨ s.Has signature className) →
      (s.find signature className classRaw classes).2 = .nil)

/-- FindClass gives a class that `jclass.create` takes; or it gives none, and if a loaded class has the name then the
table has one, which `jclass.create` takes. -/
def TableServes (s : ClassState Class) (e : ClassEvent Class) (_ : ClassState Class) : Prop :=
  ∀ className classRaw classes, e = .find className classRaw classes →
    (∀ c, classRaw = some c → s.creatable signature c = true) ∧
    (classRaw = none → s.Has signature className →
      ∃ c, s.table signature classes (internalKey className) = some c ∧ s.creatable signature c = true)

end Spec

/-! ## The table -/

section Table

variable {signature : Class → LuaString} {s s' : ClassState Class} {e : ClassEvent Class} {classes : List Class}
  {k : LuaString} {c : Class}

theorem ljGetLoadedClasses_eq :
    ljGetLoadedClasses signature classes k = (classes.filter (signature · = k)).getLast? :=
  (ListSplit.foldl_update_eq signature id classes k).trans Option.map_id_apply

theorem mem_of_ljGetLoadedClasses (h : ljGetLoadedClasses signature classes k = some c) :
    c ∈ classes ∧ signature c = k := by
  rw [ljGetLoadedClasses_eq] at h
  simpa using List.mem_filter.mp (List.mem_of_getLast? h)

/-- The table has loaded classes only, under their signatures. -/
def Sound (signature : Class → LuaString) (s : ClassState Class) : Prop :=
  ∀ table, s.allClassesRaw = some table → ∀ k c, table k = some c → c ∈ s.loaded ∧ signature c = k

theorem sound_start (loaded : List Class) (prepared : Class → Bool) : Sound signature (.start loaded prepared) := by
  intro table htable
  cases (show none = some table from htable)

theorem Sound.table (h : Sound signature s) (hperm : classes.Perm s.loaded)
    (hc : s.table signature classes k = some c) : c ∈ s.loaded ∧ signature c = k := by
  unfold ClassState.table at hc
  cases hraw : s.allClassesRaw with
  | some table =>
    rw [hraw] at hc
    exact h table hraw k c hc
  | none =>
    rw [hraw] at hc
    obtain ⟨hmem, hk⟩ := mem_of_ljGetLoadedClasses hc
    exact ⟨hperm.mem_iff.mp hmem, hk⟩

/-- What a call leaves: the table it used. -/
theorem find_state (className : LuaString) (classRaw : Option Class) :
    (s.find signature className classRaw classes).1 =
      if classRaw.isSome then s else { s with allClassesRaw := some (s.table signature classes) } := by
  unfold ClassState.find
  cases classRaw with
  | some c => rfl
  | none =>
    cases s.table signature classes (internalKey className) <;> rfl

theorem Sound.step [DecidableEq Class] (h : Sound signature s) (hstep : classStep signature s e = some s') :
    Sound signature s' := by
  cases e with
  | load c =>
    simp only [classStep, Option.ite_none_left_eq_some, Option.some.injEq] at hstep
    obtain ⟨-, rfl⟩ := hstep
    intro table htable k c' hc'
    obtain ⟨hmem, hk⟩ := h table htable k c' hc'
    exact ⟨List.mem_append_left _ hmem, hk⟩
  | prepare c =>
    simp only [classStep, Option.ite_none_right_eq_some, Option.some.injEq] at hstep
    obtain ⟨-, rfl⟩ := hstep
    exact h
  | find className classRaw classes =>
    simp only [classStep, Option.ite_none_right_eq_some, Option.some.injEq] at hstep
    obtain ⟨⟨-, hperm⟩, rfl⟩ := hstep
    rw [find_state]
    split_ifs with hsome
    · exact h
    · intro table htable k c hc
      obtain rfl := Option.some.inj htable
      exact h.table hperm hc

end Table

/-! ## Calls and runs -/

section Runs

variable {signature : Class → LuaString} {s s' : ClassState Class} {e : ClassEvent Class} {c : Class}

theorem create_eq_found_iff {c' : Class} :
    s.create signature c = .found c' ↔ s.creatable signature c = true ∧ c = c' := by
  unfold ClassState.create
  split_ifs with h <;> simp [h]

/-- A call answers from what is loaded exactly when FindClass or the table serves. -/
theorem answers_iff [DecidableEq Class] (h : Sound signature s) (hstep : classStep signature s e = some s') :
    Answers signature s e s' ↔ TableServes signature s e s' := by
  unfold Answers TableServes
  refine forall_congr' fun className => forall_congr' fun classRaw => forall_congr' fun classes =>
    forall_congr' fun he => ?_
  subst he
  simp only [classStep, Option.ite_none_right_eq_some] at hstep
  obtain ⟨⟨-, hperm⟩, -⟩ := hstep
  cases classRaw with
  | some c =>
    have hfind : (s.find signature className (some c) classes).2 = s.create signature c := rfl
    rw [hfind]
    constructor
    · rintro ⟨hclass, -⟩
      obtain ⟨c', hc', -⟩ := hclass (Or.inl rfl)
      obtain ⟨hcreate, -⟩ := create_eq_found_iff.mp hc'
      exact ⟨fun c'' hc'' => Option.some.inj hc'' ▸ hcreate, fun hnone => by cases hnone⟩
    · rintro ⟨hcreate, -⟩
      have hfound : s.create signature c = .found c := create_eq_found_iff.mpr ⟨hcreate c rfl, rfl⟩
      exact ⟨fun _ => ⟨c, hfound, Or.inl rfl⟩, fun hno => absurd (Or.inl rfl) hno⟩
  | none =>
    cases htable : s.table signature classes (internalKey className) with
    | none =>
      have hfind : (s.find signature className none classes).2 = .nil := by
        unfold ClassState.find
        simp only [htable]
      rw [hfind]
      constructor
      · rintro ⟨hclass, -⟩
        refine ⟨fun c hc => (by cases hc), fun _ hhas => ?_⟩
        obtain ⟨c, hc, -⟩ := hclass (Or.inr hhas)
        cases hc
      · rintro ⟨-, hserves⟩
        refine ⟨fun hor => ?_, fun _ => rfl⟩
        obtain ⟨c, hc, -⟩ := hserves rfl (hor.resolve_left (by simp))
        cases hc
    | some c =>
      have hfind : (s.find signature className none classes).2 = s.create signature c := by
        unfold ClassState.find
        simp only [htable]
        rfl
      have hhas : s.Has signature className := ⟨c, h.table hperm htable⟩
      rw [hfind]
      constructor
      · rintro ⟨hclass, -⟩
        obtain ⟨c', hc', -⟩ := hclass (Or.inr hhas)
        exact ⟨fun c hc => (by cases hc), fun _ _ => ⟨c, rfl, (create_eq_found_iff.mp hc').1⟩⟩
      · rintro ⟨-, hserves⟩
        obtain ⟨c', hc', hcreate⟩ := hserves rfl hhas
        obtain rfl := Option.some.inj hc'
        exact ⟨fun _ => ⟨c, create_eq_found_iff.mpr ⟨hcreate, rfl⟩, Or.inr (h.table hperm htable).2⟩,
          fun hno => absurd (Or.inr hhas) hno⟩

/-- **Class lookup does not depend on earlier lookups** exactly in the runs in which FindClass or the table serves
every call. -/
theorem finds_iff [DecidableEq Class] (signature : Class → LuaString) (loaded : List Class) (prepared : Class → Bool)
    (events : List (ClassEvent Class)) :
    EachStep (classStep signature) (Answers signature) (.start loaded prepared) events ↔
      EachStep (classStep signature) (TableServes signature) (.start loaded prepared) events :=
  eachStep_congr (I := Sound signature) (fun _ _ _ h hstep => h.step hstep) (fun _ _ _ h hstep => answers_iff h hstep)
    events _ (sound_start loaded prepared)

/-- A class loaded after the first miss is not found. -/
theorem loadedLater_not_finds :
    ¬ EachStep (classStep fun _ : Unit => internalKey "Test".toList) (Answers fun _ => internalKey "Test".toList)
      (.start [] fun _ => false)
      [.find "Other".toList none [], .load (), .prepare (), .find "Test".toList none [()]] := by
  intro h
  have hlast := eachStep_iff.mp h [.find "Other".toList none [], .load (), .prepare ()] (.find "Test".toList none [()])
    (List.prefix_refl _) _ _ rfl rfl
  obtain ⟨c, hc, -⟩ := (hlast "Test".toList none [()] rfl).1 (Or.inr ⟨(), List.mem_singleton.mpr rfl, rfl⟩)
  cases hc

end Runs

end YellowTree
