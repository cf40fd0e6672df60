import Mathlib.Logic.Function.Basic
import YellowTree.Lib.Transition

/-!
# YellowTree.Jvmti.Events — callback references and event notification of a thread

The C side keeps one Lua reference for each callback and switches JVMTI notification for the current thread: setting
a callback enables its event, clearing disables it, every callback disables SINGLE_STEP and METHOD_EXIT before it runs
the Lua function and enables them afterwards from the references as they then are.

* `EventState.enableAfter` embeds `enable_events_after_callback_handling`: METHOD_EXIT is enabled only when no
  `single_step` callback is installed (`else if`).
* `follows_iff`: outside callbacks notification follows registration, along a run, exactly when no outermost callback
  returns with both callbacks installed and METHOD_EXIT off.
* `quiet_iff`: inside callbacks SINGLE_STEP and METHOD_EXIT are off, along a run, exactly when none of their callbacks
  is set there and no inner callback returns while one is installed.
-/

namespace YellowTree

open Transition

variable {Callback : Type}

/-! ## The embedding -/

section Embedding

/-- The callbacks of `get_jvmti_callback_pointers`. -/
inductive Slot where
  | breakpoint | methodEntry | methodExit | singleStep | exceptionThrow | fieldAccess | fieldModification
  deriving DecidableEq

/-- The events that are enabled for a thread. -/
inductive Notification where
  | singleStep | methodExit | exception | fieldAccess | fieldModification
  deriving DecidableEq

/-- The event that `lj_set_jvmti_callback` enables and `lj_clear_jvmti_callback` disables. -/
def Slot.notification : Slot → Option Notification
  | .singleStep => some .singleStep
  | .methodExit => some .methodExit
  | .exceptionThrow => some .exception
  | .fieldAccess => some .fieldAccess
  | .fieldModification => some .fieldModification
  | .breakpoint | .methodEntry => none

/-- `lj_jvmti_callbacks` (`none` is `LUA_NOREF`), and what JVMTI has enabled for the thread. -/
structure EventState (Callback : Type) where
  ref : Slot → Option Callback
  enabled : Notification → Bool

namespace EventState

def init : EventState Callback := ⟨fun _ => none, fun _ => false⟩

/-- `EV_ENABLET` and `EV_DISABLET`. -/
def notify (s : EventState Callback) (n : Notification) (on : Bool) : EventState Callback :=
  { s with enabled := Function.update s.enabled n on }

/-- `disable_events_before_callback_handling`. -/
def disableBefore (s : EventState Callback) : EventState Callback :=
  (s.notify .singleStep false).notify .methodExit false

/-- `enable_events_after_callback_handling`. -/
def enableAfter (s : EventState Callback) : EventState Callback :=
  if (s.ref .singleStep).isSome then s.notify .singleStep true
  else if (s.ref .methodExit).isSome then s.notify .methodExit true
  else s

def notifySlot (s : EventState Callback) (slot : Slot) (on : Bool) : EventState Callback :=
  match slot.notification with
  | some n => s.notify n on
  | none => s

/-- `lj_set_jvmti_callback`. -/
def ljSetJvmtiCallback (s : EventState Callback) (slot : Slot) (callback : Callback) : EventState Callback :=
  let s := s.notifySlot slot true
  { s with ref := Function.update s.ref slot (some callback) }

/-- `lj_clear_jvmti_callback`. -/
def ljClearJvmtiCallback (s : EventState Callback) (slot : Slot) : EventState Callback :=
  let s := s.notifySlot slot false
  { s with ref := Function.update s.ref slot none }

/-- JVMTI calls the callback of a slot: its event is enabled for the thread and a callback is installed. -/
def delivers (s : EventState Callback) (slot : Slot) : Bool :=
  (s.ref slot).isSome && (slot.notification.map s.enabled).getD true

end EventState

/-- What happens on the thread: callbacks are set and cleared, inside callbacks or outside, and delivered; a delivered
callback returns. -/
inductive EventLabel (Callback : Type) where
  | set (slot : Slot) (callback : Callback)
  | clear (slot : Slot)
  | deliver (slot : Slot)
  | callbackReturns

/-- The state of the thread with the number of callbacks running on it. -/
structure ThreadEvents (Callback : Type) where
  events : EventState Callback
  depth : ℕ

def ThreadEvents.init : ThreadEvents Callback := ⟨.init, 0⟩

/-- One step; callbacks nest. -/
def eventStep (s : ThreadEvents Callback) : EventLabel Callback → Option (ThreadEvents Callback)
  | .set slot callback => some { s with events := s.events.ljSetJvmtiCallback slot callback }
  | .clear slot => some { s with events := s.events.ljClearJvmtiCallback slot }
  | .deliver slot => if s.events.delivers slot then some ⟨s.events.disableBefore, s.depth + 1⟩ else none
  | .callbackReturns => if s.depth = 0 then none else some ⟨s.events.enableAfter, s.depth - 1⟩

end Embedding

/-! ## What the operations do to the events -/

section Operations

namespace EventState

variable (s : EventState Callback)

@[simp] theorem notify_ref (n : Notification) (on : Bool) : (s.notify n on).ref = s.ref := rfl

@[simp] theorem notify_enabled (n m : Notification) (on : Bool) :
    (s.notify n on).enabled m = if m = n then on else s.enabled m := by
  unfold notify
  exact Function.update_apply ..

@[simp] theorem disableBefore_ref : s.disableBefore.ref = s.ref := rfl

@[simp] theorem disableBefore_enabled (n : Notification) :
    s.disableBefore.enabled n = (s.enabled n && n ≠ .singleStep && n ≠ .methodExit) := by
  rw [disableBefore, notify_enabled, notify_enabled]
  by_cases hm : n = .methodExit
  · simp [hm]
  · by_cases hs : n = .singleStep <;> simp [hm, hs]

@[simp] theorem enableAfter_ref : s.enableAfter.ref = s.ref := by
  unfold enableAfter
  split_ifs <;> rfl

theorem enableAfter_singleStep :
    s.enableAfter.enabled .singleStep = ((s.ref .singleStep).isSome || s.enabled .singleStep) := by
  unfold enableAfter
  split_ifs with h1 h2 <;> simp [h1]

/-- METHOD_EXIT is left alone when a `single_step` callback is installed. -/
theorem enableAfter_methodExit : s.enableAfter.enabled .methodExit =
    ((s.ref .singleStep).isNone && (s.ref .methodExit).isSome || s.enabled .methodExit) := by
  unfold enableAfter
  split_ifs with h1 h2
  · obtain ⟨c, hc⟩ := Option.isSome_iff_exists.mp h1
    simp [hc]
  · simp [h2, Option.not_isSome_iff_eq_none.mp h1]
  · simp [Option.not_isSome_iff_eq_none.mp h2]

theorem notifySlot_enabled (slot : Slot) (n : Notification) (on : Bool) :
    (s.notifySlot slot on).enabled n = if slot.notification = some n then on else s.enabled n := by
  unfold notifySlot
  cases h : slot.notification with
  | none => rfl
  | some m =>
    show (s.notify m on).enabled n = _
    rw [notify_enabled]
    exact if_congr (by rw [Option.some.injEq, eq_comm]) rfl rfl

@[simp] theorem ljSetJvmtiCallback_ref (slot slot' : Slot) (callback : Callback) :
    (s.ljSetJvmtiCallback slot callback).ref slot' = if slot' = slot then some callback else s.ref slot' := by
  have h : (s.notifySlot slot true).ref = s.ref := by cases slot <;> rfl
  rw [ljSetJvmtiCallback, h]
  exact Function.update_apply ..

@[simp] theorem ljClearJvmtiCallback_ref (slot slot' : Slot) :
    (s.ljClearJvmtiCallback slot).ref slot' = if slot' = slot then none else s.ref slot' := by
  have h : (s.notifySlot slot false).ref = s.ref := by cases slot <;> rfl
  rw [ljClearJvmtiCallback, h]
  exact Function.update_apply ..

@[simp] theorem ljSetJvmtiCallback_enabled (slot : Slot) (callback : Callback) (n : Notification) :
    (s.ljSetJvmtiCallback slot callback).enabled n = if slot.notification = some n then true else s.enabled n :=
  s.notifySlot_enabled slot n true

@[simp] theorem ljClearJvmtiCallback_enabled (slot : Slot) (n : Notification) :
    (s.ljClearJvmtiCallback slot).enabled n = if slot.notification = some n then false else s.enabled n :=
  s.notifySlot_enabled slot n false

end EventState

end Operations

/-! ## Notification follows registration -/

section Follows

/-- SINGLE_STEP and METHOD_EXIT are enabled exactly when their callbacks are installed. -/
def EventState.Follows (s : EventState Callback) : Prop :=
  s.enabled .singleStep = (s.ref .singleStep).isSome ∧ s.enabled .methodExit = (s.ref .methodExit).isSome

/-- The events are never enabled without a callback; outside callbacks they follow the registration. -/
structure NotificationInv (s : ThreadEvents Callback) : Prop where
  singleStep : s.events.enabled .singleStep = true → (s.events.ref .singleStep).isSome
  methodExit : s.events.enabled .methodExit = true → (s.events.ref .methodExit).isSome
  outside : s.depth = 0 → s.events.Follows

/-- An outermost callback does not return with both callbacks installed and METHOD_EXIT off. -/
def ReenablesBoth (s : ThreadEvents Callback) (e : EventLabel Callback) (_ : ThreadEvents Callback) : Prop :=
  match e with
  | .callbackReturns => s.depth = 1 → (s.events.ref .singleStep).isSome → (s.events.ref .methodExit).isSome →
      s.events.enabled .methodExit = true
  | _ => True

theorem notificationInv_init : NotificationInv (ThreadEvents.init : ThreadEvents Callback) :=
  ⟨fun h => absurd h Bool.false_ne_true, fun h => absurd h Bool.false_ne_true, fun _ => ⟨rfl, rfl⟩⟩

/-- An operation leaves the event and the reference of a slot alone, or makes them agree. -/
def Switched (s s' : EventState Callback) : Prop :=
  ∀ slot n, slot.notification = some n →
    s'.enabled n = (s'.ref slot).isSome ∨ (s'.enabled n = s.enabled n ∧ s'.ref slot = s.ref slot)

/-- Each event belongs to one slot. -/
theorem Slot.notification_inj {slot slot' : Slot} {n : Notification} (h : slot.notification = some n)
    (h' : slot'.notification = some n) : slot = slot' := by
  cases slot <;> cases slot' <;> cases h <;> first | rfl | cases h'

/-- One slot is switched on or off, with its event, and nothing else. -/
theorem switched_of_slot {s s' : EventState Callback} (slot : Slot) {on : Bool}
    (henabled : ∀ n, s'.enabled n = if slot.notification = some n then on else s.enabled n)
    (hself : (s'.ref slot).isSome = on) (hother : ∀ slot', slot' ≠ slot → s'.ref slot' = s.ref slot') :
    Switched s s' := by
  intro slot' n hn
  by_cases h : slot' = slot
  · subst h
    exact Or.inl (by rw [henabled, if_pos hn, hself])
  · have hslot : slot.notification ≠ some n := fun h' => h (Slot.notification_inj hn h')
    exact Or.inr ⟨by rw [henabled, if_neg hslot], hother slot' h⟩

theorem ljSetJvmtiCallback_switched (s : EventState Callback) (slot : Slot) (callback : Callback) :
    Switched s (s.ljSetJvmtiCallback slot callback) := by
  refine switched_of_slot slot (s.ljSetJvmtiCallback_enabled slot callback) (by simp) fun slot' h => ?_
  rw [EventState.ljSetJvmtiCallback_ref, if_neg h]

theorem ljClearJvmtiCallback_switched (s : EventState Callback) (slot : Slot) :
    Switched s (s.ljClearJvmtiCallback slot) := by
  refine switched_of_slot slot (s.ljClearJvmtiCallback_enabled slot) (by simp) fun slot' h => ?_
  rw [EventState.ljClearJvmtiCallback_ref, if_neg h]

theorem NotificationInv.switched {s : ThreadEvents Callback} {events : EventState Callback}
    (hs : NotificationInv s) (h : Switched s.events events) : NotificationInv { s with events := events } := by
  obtain ⟨hss, hme, hout⟩ := hs
  refine ⟨fun hen => ?_, fun hen => ?_, fun hd => ⟨?_, ?_⟩⟩
  · rcases h .singleStep .singleStep rfl with heq | ⟨heq, href⟩
    · exact heq ▸ hen
    · show (events.ref .singleStep).isSome = true
      rw [href]
      exact hss (heq ▸ hen)
  · rcases h .methodExit .methodExit rfl with heq | ⟨heq, href⟩
    · exact heq ▸ hen
    · show (events.ref .methodExit).isSome = true
      rw [href]
      exact hme (heq ▸ hen)
  · rcases h .singleStep .singleStep rfl with heq | ⟨heq, href⟩
    · exact heq
    · rw [heq, href]
      exact (hout hd).1
  · rcases h .methodExit .methodExit rfl with heq | ⟨heq, href⟩
    · exact heq
    · rw [heq, href]
      exact (hout hd).2

theorem NotificationInv.deliver {s : ThreadEvents Callback} :
    NotificationInv ⟨s.events.disableBefore, s.depth + 1⟩ := by
  refine ⟨?_, ?_, fun h => absurd h (Nat.succ_ne_zero _)⟩
  · intro h
    simp at h
  · intro h
    simp at h

theorem NotificationInv.callbackReturns {s : ThreadEvents Callback} (hs : NotificationInv s) (hd : s.depth ≠ 0)
    (hboth : ReenablesBoth s .callbackReturns ⟨s.events.enableAfter, s.depth - 1⟩) :
    NotificationInv ⟨s.events.enableAfter, s.depth - 1⟩ := by
  have hss : s.events.enableAfter.enabled .singleStep = (s.events.ref .singleStep).isSome := by
    rw [EventState.enableAfter_singleStep]
    cases hr : s.events.enabled .singleStep with
    | false => rw [Bool.or_false]
    | true => rw [hs.singleStep hr, Bool.or_true]
  refine ⟨fun h => ?_, fun h => ?_, fun h => ⟨?_, ?_⟩⟩
  · rw [EventState.enableAfter_ref, ← hss]
    exact h
  · rw [EventState.enableAfter_ref]
    rw [EventState.enableAfter_methodExit, Bool.or_eq_true, Bool.and_eq_true] at h
    rcases h with h | h
    · exact h.2
    · exact hs.methodExit h
  · rw [EventState.enableAfter_ref]
    exact hss
  · have hone : s.depth = 1 := by
      have : s.depth - 1 = 0 := h
      omega
    rw [EventState.enableAfter_ref, EventState.enableAfter_methodExit]
    cases hm : (s.events.ref .methodExit).isSome with
    | false =>
      have hoff : s.events.enabled .methodExit = false := by
        by_contra hon
        rw [Bool.not_eq_false] at hon
        exact absurd (hs.methodExit hon) (by simp [hm])
      simp [hoff]
    | true =>
      cases hr : s.events.ref .singleStep with
      | none => rfl
      | some c => simpa using hboth hone (by rw [hr]; rfl) hm

theorem notificationInv_step (s : ThreadEvents Callback) (e : EventLabel Callback) (s' : ThreadEvents Callback)
    (hs : NotificationInv s) (hC : ReenablesBoth s e s') (h : eventStep s e = some s') : NotificationInv s' := by
  cases e with
  | set slot callback =>
    obtain rfl := Option.some.inj h
    exact hs.switched (ljSetJvmtiCallback_switched _ _ _)
  | clear slot =>
    obtain rfl := Option.some.inj h
    exact hs.switched (ljClearJvmtiCallback_switched _ _)
  | deliver slot =>
    rw [eventStep, Option.ite_none_right_eq_some] at h
    obtain rfl := Option.some.inj h.2
    exact .deliver
  | callbackReturns =>
    rw [eventStep, Option.ite_none_left_eq_some] at h
    obtain rfl := Option.some.inj h.2
    exact hs.callbackReturns h.1 hC

/-- A return that does not meet the condition leaves METHOD_EXIT off with its callback installed. -/
theorem not_follows_of_not_reenablesBoth {s s' : ThreadEvents Callback} {e : EventLabel Callback}
    (hC : ¬ ReenablesBoth s e s') (h : eventStep s e = some s') : s'.depth = 0 ∧ ¬ s'.events.Follows := by
  cases e with
  | callbackReturns =>
    rw [eventStep, Option.ite_none_left_eq_some] at h
    obtain rfl := Option.some.inj h.2
    simp only [ReenablesBoth, not_forall, exists_prop] at hC
    obtain ⟨hone, hss, hme, hoff⟩ := hC
    refine ⟨by rw [hone], fun hf => hoff ?_⟩
    have h2 := hf.2
    obtain ⟨c, hc⟩ := Option.isSome_iff_exists.mp hss
    rw [EventState.enableAfter_methodExit, EventState.enableAfter_ref, hme, hc] at h2
    simpa using h2
  | _ => exact absurd trivial hC

/-- **Notification follows registration** outside callbacks, along a run of the thread, exactly when no outermost
callback returns with both callbacks installed and METHOD_EXIT off. -/
theorem follows_iff (es : List (EventLabel Callback)) :
    Always eventStep (fun s => s.depth = 0 → s.events.Follows) ThreadEvents.init es ↔
      EachStep eventStep ReenablesBoth ThreadEvents.init es :=
  always_iff_eachStep notificationInv_step (fun _ hs => hs.outside)
    (fun _ _ _ _ hC h hP => (not_follows_of_not_reenablesBoth hC h).2 (hP (not_follows_of_not_reenablesBoth hC h).1))
    es ThreadEvents.init notificationInv_init

/-- Both callbacks are set, and a single step is delivered and returns: METHOD_EXIT stays off. -/
theorem singleStep_not_follows : ¬ Always eventStep (fun s => s.depth = 0 → s.events.Follows) ThreadEvents.init
    [.set .singleStep (), .set .methodExit (), .deliver .singleStep, .callbackReturns] := by
  have hrun : run eventStep ThreadEvents.init
      [.set .singleStep (), .set .methodExit (), .deliver .singleStep, .callbackReturns] = some ⟨_, 0⟩ := rfl
  refine not_always_of_run hrun fun h => ?_
  exact absurd (h rfl).2 (by decide)

end Follows

/-! ## No stepping events inside a callback -/

section Quiet

/-- While a callback runs, SINGLE_STEP and METHOD_EXIT are disabled. -/
def ThreadEvents.Quiet (s : ThreadEvents Callback) : Prop :=
  0 < s.depth → s.events.enabled .singleStep = false ∧ s.events.enabled .methodExit = false

/-- Neither stepping callback is set inside a callback, and no callback returns into another one while a stepping
callback is installed. -/
def KeepsQuiet (s : ThreadEvents Callback) (e : EventLabel Callback) (_ : ThreadEvents Callback) : Prop :=
  match e with
  | .set slot _ => slot = .singleStep ∨ slot = .methodExit → s.depth = 0
  | .callbackReturns => 2 ≤ s.depth → s.events.ref .singleStep = none ∧ s.events.ref .methodExit = none
  | _ => True

theorem enableAfter_eq_self {s : EventState Callback} (hss : s.ref .singleStep = none)
    (hme : s.ref .methodExit = none) : s.enableAfter = s := by
  unfold EventState.enableAfter
  rw [hss, hme]
  rfl

/-- Outside callbacks nothing is asked. -/
theorem quiet_of_depth_eq_zero {s : ThreadEvents Callback} (hdepth : s.depth = 0) : s.Quiet := by
  intro hpos
  omega

theorem quietEvents_step (s : ThreadEvents Callback) (e : EventLabel Callback) (s' : ThreadEvents Callback)
    (hs : s.Quiet) (hC : KeepsQuiet s e s') (h : eventStep s e = some s') : s'.Quiet := by
  cases e with
  | set slot callback =>
    obtain rfl := Option.some.inj h
    intro hpos
    have hdepth : s.depth ≠ 0 := Nat.ne_of_gt hpos
    have hslot : ¬ (slot = .singleStep ∨ slot = .methodExit) := fun hslot => hdepth (hC hslot)
    obtain ⟨hss, hme⟩ := hs hpos
    have hss' : slot.notification ≠ some .singleStep := fun hn =>
      hslot (Or.inl (Slot.notification_inj hn rfl))
    have hme' : slot.notification ≠ some .methodExit := fun hn =>
      hslot (Or.inr (Slot.notification_inj hn rfl))
    constructor
    · rw [EventState.ljSetJvmtiCallback_enabled, if_neg hss']
      exact hss
    · rw [EventState.ljSetJvmtiCallback_enabled, if_neg hme']
      exact hme
  | clear slot =>
    obtain rfl := Option.some.inj h
    intro hpos
    obtain ⟨hss, hme⟩ := hs hpos
    constructor
    · rw [EventState.ljClearJvmtiCallback_enabled, hss, ite_self]
    · rw [EventState.ljClearJvmtiCallback_enabled, hme, ite_self]
  | deliver slot =>
    rw [eventStep, Option.ite_none_right_eq_some] at h
    obtain rfl := Option.some.inj h.2
    intro _
    constructor
    · rw [EventState.disableBefore_enabled]
      simp
    · rw [EventState.disableBefore_enabled]
      simp
  | callbackReturns =>
    rw [eventStep, Option.ite_none_left_eq_some] at h
    obtain ⟨hdepth, h⟩ := h
    obtain rfl := Option.some.inj h
    intro hpos
    have hnested : 2 ≤ s.depth := by
      have : 0 < s.depth - 1 := hpos
      omega
    obtain ⟨hss, hme⟩ := hC hnested
    show s.events.enableAfter.enabled .singleStep = false ∧ s.events.enableAfter.enabled .methodExit = false
    rw [enableAfter_eq_self hss hme]
    exact hs (Nat.pos_of_ne_zero hdepth)

/-- Setting a stepping callback inside a callback enables its event, and so does the return of an inner callback. -/
theorem not_quiet_of_not_keepsQuiet {s s' : ThreadEvents Callback} {e : EventLabel Callback}
    (hC : ¬ KeepsQuiet s e s') (h : eventStep s e = some s') : ¬ s'.Quiet := by
  cases e with
  | set slot callback =>
    obtain rfl := Option.some.inj h
    obtain ⟨hslot, hdepth⟩ := Classical.not_imp.mp hC
    intro hquiet
    obtain ⟨hss, hme⟩ := hquiet (Nat.pos_of_ne_zero hdepth)
    rw [EventState.ljSetJvmtiCallback_enabled] at hss hme
    rcases hslot with rfl | rfl
    · simp [Slot.notification] at hss
    · simp [Slot.notification] at hme
  | callbackReturns =>
    rw [eventStep, Option.ite_none_left_eq_some] at h
    obtain rfl := Option.some.inj h.2
    obtain ⟨hnested, hrefs⟩ := Classical.not_imp.mp hC
    intro hquiet
    have hpos : 0 < s.depth - 1 := by omega
    obtain ⟨hss, hme⟩ := hquiet hpos
    have hnone : s.events.ref .singleStep = none := by
      rw [EventState.enableAfter_singleStep, Bool.or_eq_false_iff] at hss
      simpa using hss.1
    refine hrefs ⟨hnone, ?_⟩
    rw [EventState.enableAfter_methodExit, Bool.or_eq_false_iff, hnone] at hme
    simpa using hme.1
  | _ => exact absurd trivial hC

/-- **Stepping events never re-enter the debugger** along a run of the thread exactly when no stepping callback is set
inside a callback and no inner callback returns while one is installed. -/
theorem quiet_iff (es : List (EventLabel Callback)) :
    Always eventStep ThreadEvents.Quiet ThreadEvents.init es ↔ EachStep eventStep KeepsQuiet ThreadEvents.init es :=
  always_iff_eachStep quietEvents_step (fun _ hs => hs) (fun _ _ _ _ hC h => not_quiet_of_not_keepsQuiet hC h)
    es ThreadEvents.init (quiet_of_depth_eq_zero rfl)

/-- A command at a breakpoint sets the callbacks of `next_line`: SINGLE_STEP is on while the callback runs. -/
theorem nextLine_not_quiet : ¬ Always eventStep ThreadEvents.Quiet ThreadEvents.init
    [.set .breakpoint (), .deliver .breakpoint, .set .singleStep (), .set .methodExit ()] := by
  have hrun : run eventStep ThreadEvents.init
      [.set .breakpoint (), .deliver .breakpoint, .set .singleStep (), .set .methodExit ()] = some ⟨_, 1⟩ := rfl
  refine not_always_of_run hrun fun hquiet => ?_
  exact absurd (hquiet Nat.one_pos).1 (by decide)

end Quiet

end YellowTree
