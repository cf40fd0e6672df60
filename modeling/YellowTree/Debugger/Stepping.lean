import YellowTree.Bridge.MethodId
import YellowTree.Jvmti.Events
import YellowTree.Lib.Observer

/-!
# YellowTree.Debugger.Stepping — `next_line` and the callbacks it installs

The thread that is debugged (`JvmThread`) runs on its own: instructions, calls, exits.  JVMTI posts an event for an
instruction and for the exit of a method, while the frame is still there, and the debugger (`Stepper`) may only watch:
`observe` runs the callback that is installed for the event, with SINGLE_STEP and METHOD_EXIT switched before and
after it as in `Jvmti.Events`.

`deliver_events` ties the two models together: a callback that `observe` runs is a run of `eventStep`.

The activation in which `next_line` is issued is marked in its frame (`origin`); a frame also records whether it has
executed an instruction since then.  Only statements about the thread read these two marks.
-/

namespace YellowTree

open Transition

variable {Class Method : Type}

/-! ## The debugger -/

section Stepper

/-- The Lua functions installed as callbacks; `check_nested_method_return` is a closure over a frame count. -/
inductive Callback where
  | cbBreakpoint
  | cbMethodExit
  | cbSingleStep
  | checkNestedMethodReturn (previousFrameCount : ℕ)
  deriving DecidableEq

/-- The callbacks and events of the thread, and the globals `next_line_location` and `next_line_method_id`. -/
structure Stepper (Class Method : Type) where
  events : EventState Callback
  nextLineLocation : Option ℕ
  nextLineMethodId : Option (JmethodId Class Method)

namespace Stepper

variable (jvm : Jvm Class Method)

/-- `init_jvmti_callbacks`. -/
def initJvmtiCallbacks : Stepper Class Method where
  events := EventState.init.ljSetJvmtiCallback .breakpoint .cbBreakpoint
  nextLineLocation := none
  nextLineMethodId := none

/-- `disable_events_before_callback_handling`. -/
def disableBefore (d : Stepper Class Method) : Stepper Class Method := { d with events := d.events.disableBefore }

/-- `enable_events_after_callback_handling`. -/
def enableAfter (d : Stepper Class Method) : Stepper Class Method := { d with events := d.events.enableAfter }

@[simp] theorem disableBefore_events (d : Stepper Class Method) : d.disableBefore.events = d.events.disableBefore := rfl

@[simp] theorem disableBefore_nextLineMethodId (d : Stepper Class Method) :
    d.disableBefore.nextLineMethodId = d.nextLineMethodId := rfl

@[simp] theorem enableAfter_events (d : Stepper Class Method) : d.enableAfter.events = d.events.enableAfter := rfl

/-- `next_line` in a frame at `location` of `method`; `none` when `ipairs` gets no table.  The thread is resumed: the
callback in which the command ran returns. -/
def nextLine (d : Stepper Class Method) (method : Method) (location : ℕ) : Option (Stepper Class Method) := do
  let lineNums ← (jvm.info method).lineTable
  match lineNums.find? fun ln => location < ln.location with
  | some ln =>
    let events := (d.events.ljSetJvmtiCallback .singleStep .cbSingleStep).ljSetJvmtiCallback .methodExit .cbMethodExit
    some (Stepper.enableAfter ⟨events, some ln.location, some (.fromRaw jvm method)⟩)
  -- fallback to step out of the method
  | none => some (enableAfter { d with events := d.events.ljSetJvmtiCallback .methodExit .cbMethodExit })

/-- What `next_line` does, with a later location in the table or without. -/
theorem nextLine_cases {d d' : Stepper Class Method} {method : Method} {location : ℕ}
    (h : d.nextLine jvm method location = some d') : ∃ lineNums, (jvm.info method).lineTable = some lineNums ∧
      ((∃ ln, lineNums.find? (fun ln => location < ln.location) = some ln ∧
        d'.events = ((d.events.ljSetJvmtiCallback .singleStep .cbSingleStep).ljSetJvmtiCallback .methodExit
          .cbMethodExit).enableAfter ∧
        d'.nextLineLocation = some ln.location ∧ d'.nextLineMethodId = some (.fromRaw jvm method)) ∨
      lineNums.find? (fun ln => location < ln.location) = none ∧
        d'.events = (d.events.ljSetJvmtiCallback .methodExit .cbMethodExit).enableAfter ∧
        d'.nextLineLocation = d.nextLineLocation ∧ d'.nextLineMethodId = d.nextLineMethodId) := by
  rw [nextLine, Option.bind_eq_bind, Option.bind_eq_some_iff] at h
  obtain ⟨lineNums, htable, h⟩ := h
  refine ⟨lineNums, htable, ?_⟩
  cases hfind : lineNums.find? (fun ln => location < ln.location) with
  | some ln =>
    rw [hfind] at h
    obtain rfl := Option.some.inj h
    exact Or.inl ⟨ln, rfl, rfl, rfl, rfl⟩
  | none =>
    rw [hfind] at h
    obtain rfl := Option.some.inj h
    exact Or.inr ⟨rfl, rfl, rfl, rfl⟩

/-- `next_line_method_id == method_id`, for the method id made from a raw one. -/
def inNextLineMethod (nextLineMethodId : Option (JmethodId Class Method)) (method : Method) : Bool :=
  match nextLineMethodId with
  | some m => m.eq jvm (.fromRaw jvm method)
  | none => false

/-- `cb_single_step`, and whether it stops; `frameCount` is `#current_thread().frames`. -/
def cbSingleStep (d : Stepper Class Method) (frameCount : ℕ) (method : Method) (location : ℕ) :
    Stepper Class Method × Bool :=
  if !inNextLineMethod jvm d.nextLineMethodId method then
    let events := (d.events.ljClearJvmtiCallback .singleStep).ljSetJvmtiCallback .methodExit
      (.checkNestedMethodReturn frameCount)
    ({ d with events := events }, false)
  else if d.nextLineLocation.any (· ≤ location) && inNextLineMethod jvm d.nextLineMethodId method then
    (⟨(d.events.ljClearJvmtiCallback .methodExit).ljClearJvmtiCallback .singleStep, none, none⟩, true)
  else (d, false)

/-- `check_nested_method_return`. -/
def checkNestedMethodReturn (d : Stepper Class Method) (previousFrameCount frameCount : ℕ) : Stepper Class Method :=
  if frameCount = previousFrameCount then
    let events := (d.events.ljSetJvmtiCallback .methodExit .cbMethodExit).ljSetJvmtiCallback .singleStep .cbSingleStep
    { d with events := events }
  else d

/-- Runs a callback, and whether it is a stop of `cb_method_exit` or `cb_single_step`.  A breakpoint is resumed by `g`:
nothing is set or cleared. -/
def call (d : Stepper Class Method) (callback : Callback) (frameCount : ℕ) (method : Method) (location : ℕ) :
    Stepper Class Method × Bool :=
  match callback with
  | .cbBreakpoint => (d, false)
  | .cbMethodExit => (d, true)
  | .cbSingleStep => d.cbSingleStep jvm frameCount method location
  | .checkNestedMethodReturn previousFrameCount => (d.checkNestedMethodReturn previousFrameCount frameCount, false)

/-- JVMTI calls the C callback of a slot. -/
def deliver (d : Stepper Class Method) (slot : Slot) (frameCount : ℕ) (method : Method) (location : ℕ) :
    Stepper Class Method × Bool :=
  match d.events.delivers slot, d.events.ref slot with
  | true, some callback =>
    let r := d.disableBefore.call jvm callback frameCount method location
    (r.1.enableAfter, r.2)
  | _, _ => (d, false)

/-- A callback sets and clears callbacks. -/
theorem call_events (d : Stepper Class Method) (callback : Callback) (frameCount : ℕ) (method : Method)
    (location depth : ℕ) : ∃ ls, run eventStep ⟨d.events, depth⟩ ls =
      some ⟨(d.call jvm callback frameCount method location).1.events, depth⟩ := by
  cases callback with
  | cbBreakpoint => exact ⟨[], rfl⟩
  | cbMethodExit => exact ⟨[], rfl⟩
  | cbSingleStep =>
    unfold call cbSingleStep
    split_ifs
    · exact ⟨[.clear .singleStep, .set .methodExit (.checkNestedMethodReturn frameCount)], rfl⟩
    · exact ⟨[.clear .methodExit, .clear .singleStep], rfl⟩
    · exact ⟨[], rfl⟩
  | checkNestedMethodReturn previousFrameCount =>
    rw [call, checkNestedMethodReturn]
    split_ifs
    · exact ⟨[.set .methodExit .cbMethodExit, .set .singleStep .cbSingleStep], rfl⟩
    · exact ⟨[], rfl⟩

/-- Delivering a callback is a run of the event model: the delivery, what the callback sets and clears, its return. -/
theorem deliver_events (d : Stepper Class Method) {slot : Slot} (h : d.events.delivers slot = true) (frameCount : ℕ)
    (method : Method) (location depth : ℕ) : ∃ ls, run eventStep ⟨d.events, depth⟩
      (.deliver slot :: (ls ++ [.callbackReturns])) =
        some ⟨(d.deliver jvm slot frameCount method location).1.events, depth⟩ := by
  obtain ⟨callback, hc⟩ : ∃ callback, d.events.ref slot = some callback :=
    Option.isSome_iff_exists.mp (Bool.and_eq_true_iff.mp h).1
  obtain ⟨ls, hls⟩ := d.disableBefore.call_events jvm callback frameCount method location (depth + 1)
  have hdeliver : eventStep ⟨d.events, depth⟩ (.deliver slot) = some ⟨d.disableBefore.events, depth + 1⟩ := if_pos h
  refine ⟨ls, ?_⟩
  rw [run_cons, hdeliver, Option.bind_some, run_append, hls, deliver, h, hc]
  rfl

end Stepper

end Stepper

/-! ## The thread -/

section Thread

/-- A frame of the stack.  `origin` marks the activation in which `next_line` was issued; `ran` says that the frame has
executed an instruction since. -/
structure JavaFrame (Method : Type) where
  method : Method
  native : Bool
  origin : Bool
  ran : Bool
  deriving DecidableEq

/-- The stack, innermost frame first, and whether the innermost frame is exiting: its METHOD_EXIT event has been
posted. -/
structure JvmThread (Method : Type) where
  frames : List (JavaFrame Method)
  exiting : Bool
  deriving DecidableEq

/-- What the thread does: it executes an instruction (of a method that is not native) at a location, calls a method,
exits from one (by a return or by an exception) and pops its frame, or hits a breakpoint. -/
inductive Exec (Method : Type) where
  | instr (location : ℕ)
  | call (method : Method) (native : Bool)
  | exit (poppedByException : Bool)
  | pop
  | breakpoint (location : ℕ)
  deriving DecidableEq

def jvmStep (j : JvmThread Method) : Exec Method → Option (JvmThread Method)
  | .instr _ =>
    match j.frames, j.exiting with
    | f :: fs, false => if f.native then none else some ⟨{ f with ran := true } :: fs, false⟩
    | _, _ => none
  | .call method native => if j.exiting then none else some ⟨⟨method, native, false, false⟩ :: j.frames, false⟩
  | .exit _ =>
    match j.frames, j.exiting with
    | _ :: _, false => some { j with exiting := true }
    | _, _ => none
  | .pop =>
    match j.frames, j.exiting with
    | _ :: fs, true => some ⟨fs, false⟩
    | _, _ => none
  | .breakpoint _ =>
    match j.frames, j.exiting with
    | f :: _, false => if f.native then none else some j
    | _, _ => none

/-- The steps of the thread, one rule for each. -/
inductive JvmMoves : JvmThread Method → Exec Method → JvmThread Method → Prop where
  | instr (f : JavaFrame Method) (fs : List (JavaFrame Method)) (location : ℕ) (h : f.native = false) :
      JvmMoves ⟨f :: fs, false⟩ (.instr location) ⟨{ f with ran := true } :: fs, false⟩
  | call (fs : List (JavaFrame Method)) (method : Method) (native : Bool) :
      JvmMoves ⟨fs, false⟩ (.call method native) ⟨⟨method, native, false, false⟩ :: fs, false⟩
  | exit (f : JavaFrame Method) (fs : List (JavaFrame Method)) (poppedByException : Bool) :
      JvmMoves ⟨f :: fs, false⟩ (.exit poppedByException) ⟨f :: fs, true⟩
  | pop (f : JavaFrame Method) (fs : List (JavaFrame Method)) : JvmMoves ⟨f :: fs, true⟩ .pop ⟨fs, false⟩
  | breakpoint (f : JavaFrame Method) (fs : List (JavaFrame Method)) (location : ℕ) (h : f.native = false) :
      JvmMoves ⟨f :: fs, false⟩ (.breakpoint location) ⟨f :: fs, false⟩

theorem moves_of_jvmStep {j j' : JvmThread Method} {e : Exec Method} (h : jvmStep j e = some j') : JvmMoves j e j' := by
  obtain ⟨frames, exiting⟩ := j
  cases e with
  | instr location =>
    cases frames with
    | nil => cases h
    | cons f fs =>
      cases exiting with
      | true => cases h
      | false =>
        rw [jvmStep, Option.ite_none_left_eq_some, Bool.not_eq_true] at h
        obtain rfl := Option.some.inj h.2
        exact .instr f fs location h.1
  | call method native =>
    rw [jvmStep, Option.ite_none_left_eq_some, Bool.not_eq_true] at h
    obtain ⟨hex, h⟩ := h
    obtain rfl : exiting = false := hex
    obtain rfl := Option.some.inj h
    exact .call frames method native
  | exit poppedByException =>
    cases frames with
    | nil => cases h
    | cons f fs =>
      cases exiting with
      | true => cases h
      | false =>
        obtain rfl := Option.some.inj h
        exact .exit f fs poppedByException
  | pop =>
    cases frames with
    | nil => cases h
    | cons f fs =>
      cases exiting with
      | false => cases h
      | true =>
        obtain rfl := Option.some.inj h
        exact .pop f fs
  | breakpoint location =>
    cases frames with
    | nil => cases h
    | cons f fs =>
      cases exiting with
      | true => cases h
      | false =>
        rw [jvmStep, Option.ite_none_left_eq_some, Bool.not_eq_true] at h
        obtain rfl := Option.some.inj h.2
        exact .breakpoint f fs location h.1

/-- The thread when `next_line` is issued in an activation of `method` above the frames `below`; it is exiting when
that happens during a stop at its exit. -/
def JvmThread.stoppedIn (method : Method) (below : List (Method × Bool)) (exiting : Bool) : JvmThread Method where
  frames := ⟨method, false, true, false⟩ :: below.map fun b => ⟨b.1, b.2, false, false⟩
  exiting := exiting

end Thread

/-! ## The debugger watches the thread -/

section Watching

variable (jvm : Jvm Class Method)

/-- What the debugger does on one step of the thread, and whether `cb_single_step` or `cb_method_exit` stops. -/
def Stepper.observe (d : Stepper Class Method) (j : JvmThread Method) (e : Exec Method) : Stepper Class Method × Bool :=
  match j.frames, e with
  | f :: _, .instr location => d.deliver jvm .singleStep j.frames.length f.method location
  | f :: _, .breakpoint location => d.deliver jvm .breakpoint j.frames.length f.method location
  | f :: _, .exit _ => d.deliver jvm .methodExit j.frames.length f.method 0
  | _, _ => (d, false)

/-- The debugger as an observer that reports its stops. -/
def stops : Observer (JvmThread Method) (Exec Method) (Stepper Class Method) where
  next d j e := (d.observe jvm j e).1
  reports d j e := (d.observe jvm j e).2

/-- The number of steps that the thread takes before the first stop. -/
def firstStop (d : Stepper Class Method) (j : JvmThread Method) (es : List (Exec Method)) : Option ℕ :=
  (stops jvm).first jvmStep d j es

end Watching

end YellowTree
