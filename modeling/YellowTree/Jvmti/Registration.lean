import YellowTree.Jvmti.Events
import YellowTree.Lua.Value

/-!
# YellowTree.Jvmti.Registration — callback names, function pointers and the Lua registry

`lj_set_jvmti_callback` takes a reference to the function before it looks at the name, and `lj_clear_jvmti_callback`
stores through the pointers it gets for the name without looking at them.  No reference is ever released.

* `slotOf_eq_some_iff`: the names are those of the slots.
* `registers_iff`: the pointers, the references and the registry stay together along a run exactly when every call
  names a slot that no earlier call has set.
-/

namespace YellowTree

open Transition

variable {Callback : Type}

/-! ## The embedding -/

section Embedding

/-- The name that `get_jvmti_callback_pointers` has for a slot. -/
def Slot.name : Slot → LuaString
  | .breakpoint => "breakpoint".toList
  | .methodEntry => "method_entry".toList
  | .methodExit => "method_exit".toList
  | .singleStep => "single_step".toList
  | .exceptionThrow => "exception_throw".toList
  | .fieldAccess => "field_access".toList
  | .fieldModification => "field_modification".toList

/-- `get_jvmti_callback_pointers`: the chain of `strcmp`, in its order. -/
def slotOf (callback : LuaString) : Option Slot :=
  [.breakpoint, .methodEntry, .methodExit, .singleStep, .exceptionThrow, .fieldAccess, .fieldModification].find?
    fun slot => callback = slot.name

/-- The C function that JVMTI is given for a slot. -/
def Slot.function (slot : Slot) : LuaString := "cb_".toList ++ slot.name

/-- The references of `lj_jvmti_callbacks` with the events enabled, the pointers of `jvmtiEventCallbacks` (`none` is
NULL), and the functions in the Lua registry: the reference of the first one is 1. -/
structure CallbackTables (Callback : Type) where
  events : EventState ℕ
  pointer : Slot → Option LuaString
  registry : List Callback

/-- How a call ends: it returns, raises a Lua error, or stores through NULL. -/
inductive CallResult where
  | returned
  | raised (e : LuaError)
  | nullStore

namespace CallbackTables

/-- `lj_init_jvmti_event`. -/
def init : CallbackTables Callback := ⟨.init, fun _ => none, []⟩

/-- `luaL_ref`: the next integer key, as none is ever released. -/
def luaLRef (s : CallbackTables Callback) (f : Callback) : ℕ × CallbackTables Callback :=
  (s.registry.length + 1, { s with registry := s.registry ++ [f] })

/-- `lj_set_jvmti_callback`.  Only known names enable an event. -/
def ljSetJvmtiCallback (s : CallbackTables Callback) (callback : LuaString) (f : Callback) :
    CallbackTables Callback × CallResult :=
  let (ref, s) := s.luaLRef f
  if ref = 0 then (s, .raised (.message ("Unknown callback '" ++ String.ofList callback ++ "'\n")))
  else
    match slotOf callback with
    | none => (s, .raised (.message ("Unknown or unmapped callback '" ++ String.ofList callback ++ "'\n")))
    | some slot =>
      ({ s with
          events := s.events.ljSetJvmtiCallback slot ref
          pointer := Function.update s.pointer slot (some slot.function) }, .returned)

/-- `lj_clear_jvmti_callback`. -/
def ljClearJvmtiCallback (s : CallbackTables Callback) (callback : LuaString) : CallbackTables Callback × CallResult :=
  match slotOf callback with
  | none => (s, .nullStore)
  | some slot =>
    ({ s with
        events := s.events.ljClearJvmtiCallback slot
        pointer := Function.update s.pointer slot none }, .returned)

end CallbackTables

inductive RegisterCall (Callback : Type) where
  | set (callback : LuaString) (f : Callback)
  | clear (callback : LuaString)

def RegisterCall.name : RegisterCall Callback → LuaString
  | .set callback _ => callback
  | .clear callback => callback

def RegisterCall.isSet : RegisterCall Callback → Bool
  | .set _ _ => true
  | .clear _ => false

def RegisterCall.apply (s : CallbackTables Callback) : RegisterCall Callback → CallbackTables Callback × CallResult
  | .set callback f => s.ljSetJvmtiCallback callback f
  | .clear callback => s.ljClearJvmtiCallback callback

/-- The tables, and how the last call ended. -/
structure Registration (Callback : Type) where
  tables : CallbackTables Callback
  result : CallResult

def Registration.init : Registration Callback := ⟨.init, .returned⟩

/-- One call; there is none after a store through NULL. -/
def registerStep (s : Registration Callback) (call : RegisterCall Callback) : Option (Registration Callback) :=
  match s.result with
  | .nullStore => none
  | _ => some ⟨(call.apply s.tables).1, (call.apply s.tables).2⟩

end Embedding

/-! ## All or nothing -/

section Spec

/-- The slots have the references from 1 to `n`, each slot its own. -/
structure Numbered (ref : Slot → Option ℕ) (n : ℕ) : Prop where
  live : ∀ r, (1 ≤ r ∧ r ≤ n) ↔ ∃ slot, ref slot = some r
  own : ∀ slot slot' r, ref slot = some r → ref slot' = some r → slot = slot'

/-- The pointer of a slot is set exactly when its reference is, and the registry has just the references of the
slots. -/
structure Consistent (s : Registration Callback) : Prop where
  pointer : ∀ slot, (s.tables.pointer slot).isSome = true ↔ (s.tables.events.ref slot).isSome = true
  refs : Numbered s.tables.events.ref s.tables.registry.length

/-- A call changes only the slot it names; with an unknown name it raises an error and changes nothing. -/
structure NamedSlotOnly (s : Registration Callback) (call : RegisterCall Callback) (s' : Registration Callback) :
    Prop where
  others : ∀ slot, slotOf call.name ≠ some slot →
    s'.tables.pointer slot = s.tables.pointer slot ∧ s'.tables.events.ref slot = s.tables.events.ref slot
  unknown : slotOf call.name = none → (∃ e, s'.result = .raised e) ∧ s'.tables = s.tables

/-- Both, along a run from `lj_init_jvmti_event` on. -/
def Registers (calls : List (RegisterCall Callback)) : Prop :=
  Always registerStep Consistent .init calls ∧ EachStep registerStep NamedSlotOnly .init calls

/-- Every call names a slot, and no slot is named again after a function was set for it. -/
def EachSetOnce (calls : List (RegisterCall Callback)) : Prop :=
  (∀ call ∈ calls, (slotOf call.name).isSome = true) ∧
    calls.Pairwise fun call later => call.isSet = true → later.name ≠ call.name

end Spec

/-! ## Calls -/

section Calls

variable {s s' : Registration Callback} {call : RegisterCall Callback} {slot : Slot}

theorem slotOf_eq_some_iff {callback : LuaString} : slotOf callback = some slot ↔ callback = slot.name := by
  constructor
  · intro h
    simpa using List.find?_some h
  · rintro rfl
    cases slot <;> decide

theorem registerStep_eq_some_iff :
    registerStep s call = some s' ↔
      s.result ≠ .nullStore ∧ ⟨(call.apply s.tables).1, (call.apply s.tables).2⟩ = s' := by
  unfold registerStep
  cases s.result <;> simp

/-- A known name is set with the next reference. -/
theorem CallbackTables.ljSetJvmtiCallback_known (t : CallbackTables Callback) {callback : LuaString} (f : Callback)
    (hslot : slotOf callback = some slot) :
    t.ljSetJvmtiCallback callback f =
      (⟨t.events.ljSetJvmtiCallback slot (t.registry.length + 1),
        Function.update t.pointer slot (some slot.function), t.registry ++ [f]⟩, .returned) := by
  unfold CallbackTables.ljSetJvmtiCallback CallbackTables.luaLRef
  simp only [hslot]
  exact if_neg (by omega)

theorem CallbackTables.ljClearJvmtiCallback_known (t : CallbackTables Callback) {callback : LuaString}
    (hslot : slotOf callback = some slot) :
    t.ljClearJvmtiCallback callback =
      (⟨t.events.ljClearJvmtiCallback slot, Function.update t.pointer slot none, t.registry⟩, .returned) := by
  unfold CallbackTables.ljClearJvmtiCallback
  simp only [hslot]

/-- A call with a known name writes its slot, and the registry grows when it sets. -/
theorem apply_known (t : CallbackTables Callback) (hslot : slotOf call.name = some slot) :
    (call.apply t).1.events.ref =
      Function.update t.events.ref slot (if call.isSet then some (t.registry.length + 1) else none) ∧
    (call.apply t).1.pointer = Function.update t.pointer slot (if call.isSet then some slot.function else none) ∧
    (call.apply t).1.registry.length = t.registry.length + (if call.isSet then 1 else 0) ∧
    (call.apply t).2 = .returned := by
  cases call with
  | set callback f =>
    have hset : RegisterCall.apply t (.set callback f) = _ := t.ljSetJvmtiCallback_known f hslot
    rw [hset]
    refine ⟨?_, rfl, List.length_append, rfl⟩
    ext1 slot'
    exact (t.events.ljSetJvmtiCallback_ref slot slot' _).trans (Function.update_apply ..).symm
  | clear callback =>
    have hclear : RegisterCall.apply t (.clear callback) = _ := t.ljClearJvmtiCallback_known hslot
    rw [hclear]
    refine ⟨?_, rfl, rfl, rfl⟩
    ext1 slot'
    exact (t.events.ljClearJvmtiCallback_ref slot slot').trans (Function.update_apply ..).symm

/-- With an unknown name, setting leaves a reference in the registry and clearing stores through NULL. -/
theorem apply_unknown (t : CallbackTables Callback) (hslot : slotOf call.name = none) :
    (call.apply t).1.registry.length = t.registry.length + 1 ∨ (call.apply t).2 = .nullStore := by
  cases call with
  | set callback f =>
    refine Or.inl ?_
    show (t.ljSetJvmtiCallback callback f).1.registry.length = _
    unfold CallbackTables.ljSetJvmtiCallback CallbackTables.luaLRef
    simp only [show slotOf callback = none from hslot]
    rw [if_neg (by omega)]
    exact List.length_append
  | clear callback =>
    refine Or.inr ?_
    show (t.ljClearJvmtiCallback callback).2 = _
    unfold CallbackTables.ljClearJvmtiCallback
    simp only [show slotOf callback = none from hslot]

end Calls

/-! ## References -/

section Numbered

variable {ref : Slot → Option ℕ} {n m : ℕ} {slot : Slot}

theorem numbered_none : Numbered (fun _ => none) 0 where
  live r := iff_of_false (by omega) (by rintro ⟨slot, h⟩; cases h)
  own _ _ _ h := by cases h

/-- An empty slot takes the next reference. -/
theorem Numbered.insert (h : Numbered ref n) (hnone : ref slot = none) :
    Numbered (Function.update ref slot (some (n + 1))) (n + 1) := by
  have hself : Function.update ref slot (some (n + 1)) slot = some (n + 1) := Function.update_self ..
  have hother : ∀ {slot'}, slot' ≠ slot → Function.update ref slot (some (n + 1)) slot' = ref slot' := fun hs =>
    Function.update_of_ne hs ..
  have hle : ∀ {slot' r}, ref slot' = some r → 1 ≤ r ∧ r ≤ n := fun hslot' => (h.live _).mpr ⟨_, hslot'⟩
  refine ⟨fun r => ⟨fun hr => ?_, ?_⟩, fun slot₁ slot₂ r h₁ h₂ => ?_⟩
  · by_cases hn : r = n + 1
    · exact ⟨slot, by rw [hself, hn]⟩
    · obtain ⟨slot', hslot'⟩ := (h.live r).mp (by omega)
      have hs : slot' ≠ slot := by
        rintro rfl
        cases hnone.symm.trans hslot'
      exact ⟨slot', (hother hs).trans hslot'⟩
  · rintro ⟨slot', hslot'⟩
    by_cases hs : slot' = slot
    · rw [hs, hself] at hslot'
      have := Option.some.inj hslot'
      omega
    · have := hle ((hother hs).symm.trans hslot')
      omega
  · by_cases hs₁ : slot₁ = slot <;> by_cases hs₂ : slot₂ = slot
    · rw [hs₁, hs₂]
    · -- the new reference is larger than every other
      rw [hs₁, hself] at h₁
      have := Option.some.inj h₁
      have := hle ((hother hs₂).symm.trans h₂)
      omega
    · rw [hs₂, hself] at h₂
      have := Option.some.inj h₂
      have := hle ((hother hs₁).symm.trans h₁)
      omega
    · exact h.own slot₁ slot₂ r ((hother hs₁).symm.trans h₁) ((hother hs₂).symm.trans h₂)

/-- A slot that loses its reference leaves it in the registry. -/
theorem Numbered.not_update (h : Numbered ref n) {r : ℕ} (hslot : ref slot = some r) {v : Option ℕ} (hv : v ≠ some r)
    (hnm : n ≤ m) : ¬ Numbered (Function.update ref slot v) m := by
  intro h'
  have hr := (h.live r).mpr ⟨slot, hslot⟩
  obtain ⟨slot', hslot'⟩ := (h'.live r).mp (by omega)
  by_cases hs : slot' = slot
  · rw [hs, Function.update_self] at hslot'
    exact hv hslot'
  · rw [Function.update_of_ne hs] at hslot'
    exact hs (h.own slot' slot r hslot' hslot)

end Numbered

/-! ## Runs -/

section Runs

variable {s s' : Registration Callback} {call : RegisterCall Callback} {calls : List (RegisterCall Callback)}

/-- The call names a slot for which no function is set. -/
def NamesEmpty (s : Registration Callback) (call : RegisterCall Callback) (_ : Registration Callback) : Prop :=
  ∃ slot, slotOf call.name = some slot ∧ s.tables.events.ref slot = none

/-- A call that names an empty slot keeps the tables consistent. -/
theorem Consistent.step (h : Consistent s) (hempty : NamesEmpty s call s') (hstep : registerStep s call = some s') :
    Consistent s' := by
  obtain ⟨slot, hslot, hnone⟩ := hempty
  obtain ⟨-, rfl⟩ := registerStep_eq_some_iff.mp hstep
  obtain ⟨href, hpointer, hlength, -⟩ := apply_known s.tables hslot
  refine ⟨fun slot' => ?_, ?_⟩
  · rw [href, hpointer, Function.update_apply, Function.update_apply]
    by_cases hs : slot' = slot
    · rw [if_pos hs, if_pos hs]
      cases call.isSet <;> rfl
    · rw [if_neg hs, if_neg hs]
      exact h.pointer slot'
  · rw [href, hlength]
    cases call.isSet with
    | true => exact h.refs.insert hnone
    | false =>
      have hsame : Function.update s.tables.events.ref slot none = s.tables.events.ref :=
        Function.update_eq_self_iff.mpr hnone.symm
      show Numbered (Function.update s.tables.events.ref slot none) s.tables.registry.length
      rw [hsame]
      exact h.refs

theorem namedSlotOnly_of_namesEmpty (hempty : NamesEmpty s call s') (hstep : registerStep s call = some s') :
    NamedSlotOnly s call s' := by
  obtain ⟨slot, hslot, -⟩ := hempty
  obtain ⟨-, rfl⟩ := registerStep_eq_some_iff.mp hstep
  obtain ⟨href, hpointer, -, -⟩ := apply_known s.tables hslot
  refine ⟨fun slot' hne => ?_, fun hnone => by cases hnone.symm.trans hslot⟩
  have hs : slot' ≠ slot := by
    rintro rfl
    exact hne hslot
  rw [href, hpointer]
  exact ⟨Function.update_of_ne hs .., Function.update_of_ne hs ..⟩

/-- Any other call breaks something: an unknown name leaves a reference or stores through NULL, a slot that is not
empty leaves its reference. -/
theorem not_consistent_of_not_namesEmpty (h : Consistent s) (hempty : ¬ NamesEmpty s call s')
    (hstep : registerStep s call = some s') (hall : NamedSlotOnly s call s') : ¬ Consistent s' := by
  obtain ⟨-, rfl⟩ := registerStep_eq_some_iff.mp hstep
  cases hslot : slotOf call.name with
  | none =>
    obtain ⟨⟨e, he⟩, htables⟩ := hall.unknown hslot
    exfalso
    rcases apply_unknown s.tables hslot with hlength | hnull
    · have hsame : (call.apply s.tables).1.registry.length = s.tables.registry.length :=
        congrArg (fun t => t.registry.length) htables
      omega
    · cases hnull.symm.trans he
  | some slot =>
    obtain ⟨href, -, hlength, -⟩ := apply_known s.tables hslot
    cases hr : s.tables.events.ref slot with
    | none => exact absurd ⟨slot, hslot, hr⟩ hempty
    | some r =>
      intro h'
      have hrefs := h'.refs
      have hle := ((h.refs.live r).mpr ⟨slot, hr⟩).2
      simp only [href, hlength] at hrefs
      refine h.refs.not_update hr ?_ (by omega) hrefs
      split_ifs
      · intro heq
        have := Option.some.inj heq
        omega
      · simp

/-- After a call that names an empty slot, a later one does so exactly when it would have before, and does not name a
slot that the first one has set. -/
theorem namesEmpty_after_iff {later : RegisterCall Callback} (hempty : NamesEmpty s call s') :
    NamesEmpty ⟨(call.apply s.tables).1, (call.apply s.tables).2⟩ later s' ↔
      (call.isSet = true → later.name ≠ call.name) ∧ NamesEmpty s later s' := by
  obtain ⟨slot, hslot, hnone⟩ := hempty
  obtain ⟨href, -, -, -⟩ := apply_known s.tables hslot
  have hname : ∀ slot', slotOf later.name = some slot' → (slot' = slot ↔ later.name = call.name) := by
    intro slot' hs
    rw [← Option.some_inj, ← hs, ← hslot, slotOf_eq_some_iff.mp hslot]
    constructor
    · intro h
      rw [slotOf_eq_some_iff.mpr rfl] at h
      exact slotOf_eq_some_iff.mp h
    · intro h
      rw [h]
  have hafter : ∀ slot', slotOf later.name = some slot' →
      ((call.apply s.tables).1.events.ref slot' = none ↔
        (call.isSet = true → later.name ≠ call.name) ∧ s.tables.events.ref slot' = none) := by
    intro slot' hs
    rw [href, Function.update_apply]
    by_cases h : slot' = slot
    · rw [if_pos h, h]
      cases call.isSet <;> simp [hnone, (hname slot' hs).mp h]
    · rw [if_neg h]
      simp [mt (hname slot' hs).mpr h]
  constructor
  · rintro ⟨slot', hs, href'⟩
    obtain ⟨hne, hnone'⟩ := (hafter slot' hs).mp href'
    exact ⟨hne, slot', hs, hnone'⟩
  · rintro ⟨hne, slot', hs, hnone'⟩
    exact ⟨slot', hs, (hafter slot' hs).mpr ⟨hne, hnone'⟩⟩

/-- The condition of a run in terms of its calls. -/
theorem eachStep_namesEmpty_iff (hres : s.result ≠ .nullStore) :
    EachStep registerStep NamesEmpty s calls ↔
      (∀ call ∈ calls, NamesEmpty s call s) ∧
        calls.Pairwise fun call later => call.isSet = true → later.name ≠ call.name := by
  induction calls generalizing s with
  | nil => exact iff_of_true trivial ⟨by simp, .nil⟩
  | cons call calls ih =>
    have hstep : registerStep s call = some ⟨(call.apply s.tables).1, (call.apply s.tables).2⟩ :=
      registerStep_eq_some_iff.mpr ⟨hres, rfl⟩
    have hcons : EachStep registerStep NamesEmpty s (call :: calls) ↔ NamesEmpty s call s ∧
        EachStep registerStep NamesEmpty ⟨(call.apply s.tables).1, (call.apply s.tables).2⟩ calls :=
      ⟨fun h => h _ hstep, fun h s' hs' => by
        obtain rfl := Option.some.inj (hstep.symm.trans hs')
        exact h⟩
    rw [hcons, List.pairwise_cons, List.forall_mem_cons]
    by_cases hempty : NamesEmpty s call s
    · obtain ⟨slot, hslot, -⟩ := id hempty
      have hreturned := (apply_known s.tables hslot).2.2.2
      rw [ih (by show (call.apply s.tables).2 ≠ _; rw [hreturned]; simp)]
      have hafter := fun later : RegisterCall Callback =>
        (namesEmpty_after_iff hempty : NamesEmpty _ later s ↔ _ ∧ NamesEmpty s later s)
      constructor
      · rintro ⟨-, hall, hpairs⟩
        exact ⟨⟨hempty, fun later h => ((hafter later).mp (hall later h)).2⟩,
          fun later h => ((hafter later).mp (hall later h)).1, hpairs⟩
      · rintro ⟨⟨-, hall⟩, hne, hpairs⟩
        exact ⟨hempty, fun later h => (hafter later).mpr ⟨hne later h, hall later h⟩, hpairs⟩
    · exact iff_of_false (fun h => hempty h.1) fun h => hempty h.1.1

/-- **Callback registration is all-or-nothing and leaks nothing** exactly when no slot is named again after a function
was set for it, and every name is that of a slot. -/
theorem registers_iff (calls : List (RegisterCall Callback)) : Registers calls ↔ EachSetOnce calls := by
  unfold Registers EachSetOnce
  rw [always_and_eachStep_iff (I := Consistent) (C := NamesEmpty) (fun s e s' h hC hstep => h.step hC hstep)
    (fun s h => h) (fun s e s' _ hC hstep => namedSlotOnly_of_namesEmpty hC hstep)
    (fun s e s' h hC hstep hall => not_consistent_of_not_namesEmpty h hC hstep hall) calls .init
    ⟨fun _ => Iff.rfl, numbered_none⟩, eachStep_namesEmpty_iff (by simp [Registration.init])]
  refine and_congr_left fun _ => forall₂_congr fun call _ => ?_
  rw [Option.isSome_iff_exists]
  exact exists_congr fun slot => and_iff_left rfl

/-- A function that replaces another leaves its reference. -/
theorem setTwice_not_registers : ¬ Registers [.set "breakpoint".toList 1, .set "breakpoint".toList 2] := by
  rintro ⟨hall, -⟩
  have hlast := (always_iff.mp hall _ (List.prefix_refl _) _ rfl).refs
  obtain ⟨slot, hslot⟩ := (hlast.live 1).mp ⟨le_refl _, by decide⟩
  cases slot <;> cases hslot

end Runs

end YellowTree
