import YellowTree.Debugger.Stepping

/-!
# YellowTree.Debugger.StopPoints — where `next_line` stops, told from the thread alone

What the callbacks of `next_line` remember can be read off the stack.  The lowest frame of another method that has run
is *stepped over*: until it exits, nothing below it is looked at.  While no frame is stepped over, the thread stops at
an instruction of the method at the target or behind it, and at an exit as long as METHOD_EXIT is on: until the next
instruction (`quiet`), because the C side does not switch it on again after a single step.

* `StepPlan.point`: the stop points of a run of the thread.
* `firstStop_eq`: the debugger stops first at the first stop point, in every run.
-/

namespace YellowTree

open Transition

variable {Class Method : Type}

/-! ## Stop points -/

section Points

/-- What `next_line` leaves behind: whether a `single_step` callback is installed, the target location and the method
it belongs to. -/
structure StepPlan (Class Method : Type) where
  stepping : Bool
  location : Option ℕ
  methodId : Option (JmethodId Class Method)

def Stepper.plan (d : Stepper Class Method) : StepPlan Class Method :=
  ⟨(d.events.ref .singleStep).isSome, d.nextLineLocation, d.nextLineMethodId⟩

/-- The frames of the thread without one that is exiting. -/
def JvmThread.live (j : JvmThread Method) : List (JavaFrame Method) :=
  if j.exiting then j.frames.tail else j.frames

namespace StepPlan

variable (jvm : Jvm Class Method) (p : StepPlan Class Method)

/-- The method of the target. -/
def covers (method : Method) : Bool := Stepper.inNextLineMethod jvm p.methodId method

/-- The height of the lowest frame of another method that has run. -/
def steppedOverIn : List (JavaFrame Method) → Option ℕ
  | [] => none
  | f :: fs => (steppedOverIn fs).or (if f.ran && !p.covers jvm f.method then some (fs.length + 1) else none)

/-- The height of the frame that is stepped over. -/
def steppedOver (j : JvmThread Method) : Option ℕ := if p.stepping then p.steppedOverIn jvm j.live else none

/-- The stop points: an instruction of the method at the target or behind it, and an exit while `quiet`, unless a
frame is stepped over. -/
def point (quiet : Bool) (j : JvmThread Method) (e : Exec Method) : Bool :=
  match j.frames, e with
  | f :: _, .instr location =>
    p.stepping && (p.steppedOver jvm j).isNone && p.covers jvm f.method && p.location.any (· ≤ location)
  | _ :: _, .exit _ => (p.steppedOver jvm j).isNone && quiet
  | _, _ => false

/-- A single step or a breakpoint ends the quiet, the exit of the frame stepped over brings it back. -/
def nextQuiet (quiet : Bool) (j : JvmThread Method) (e : Exec Method) : Bool :=
  match e with
  | .instr _ | .breakpoint _ => quiet && !(p.stepping && (p.steppedOver jvm j).isNone)
  | .exit _ => quiet || p.steppedOver jvm j == some j.frames.length
  | _ => quiet

/-- The stop points as reports of an observer. -/
def points : Observer (JvmThread Method) (Exec Method) Bool := ⟨p.nextQuiet jvm, p.point jvm⟩

end StepPlan

end Points

/-! ## The frame stepped over -/

section Over

namespace StepPlan

variable {jvm : Jvm Class Method} {p : StepPlan Class Method} {f : JavaFrame Method} {fs : List (JavaFrame Method)}

theorem steppedOverIn_le {n : ℕ} (h : p.steppedOverIn jvm fs = some n) : n ≤ fs.length := by
  induction fs with
  | nil => cases h
  | cons f fs ih =>
    rw [steppedOverIn, Option.or_eq_some_iff] at h
    rcases h with h | ⟨-, h⟩
    · exact Nat.le_succ_of_le (ih h)
    · split_ifs at h
      exact (Option.some.inj h).ge

/-- The innermost frame of a stack exits. -/
theorem steppedOverIn_tail : p.steppedOverIn jvm fs = if p.steppedOverIn jvm (f :: fs) = some (fs.length + 1) then none
    else p.steppedOverIn jvm (f :: fs) := by
  rw [steppedOverIn]
  cases h : p.steppedOverIn jvm fs with
  | some n =>
    have hn : n ≤ fs.length := steppedOverIn_le h
    rw [Option.some_or, if_neg]
    intro heq
    have := Option.some.inj heq
    omega
  | none =>
    rw [Option.none_or]
    by_cases hf : (f.ran && !p.covers jvm f.method) = true <;> simp [hf]

/-- The innermost frame executes an instruction. -/
theorem steppedOverIn_ran : p.steppedOverIn jvm ({ f with ran := true } :: fs) = (p.steppedOverIn jvm (f :: fs)).or
    (if p.covers jvm f.method then none else some (fs.length + 1)) := by
  rw [steppedOverIn, steppedOverIn, Option.or_assoc]
  congr 1
  cases f.ran <;> cases p.covers jvm f.method <;> rfl

theorem steppedOverIn_call {method : Method} {native origin : Bool} :
    p.steppedOverIn jvm (⟨method, native, origin, false⟩ :: fs) = p.steppedOverIn jvm fs := by
  rw [steppedOverIn]
  exact Option.or_none

theorem steppedOverIn_of_not_ran (h : ∀ f ∈ fs, f.ran = false) : p.steppedOverIn jvm fs = none := by
  induction fs with
  | nil => rfl
  | cons f fs ih =>
    rw [steppedOverIn, ih fun g hg => h g (List.mem_cons_of_mem _ hg), h f List.mem_cons_self]
    rfl

theorem steppedOver_instr : p.steppedOver jvm ⟨{ f with ran := true } :: fs, false⟩ =
    (p.steppedOver jvm ⟨f :: fs, false⟩).or
      (if p.stepping && !p.covers jvm f.method then some (fs.length + 1) else none) := by
  rw [steppedOver, steppedOver]
  cases p.stepping with
  | false => rfl
  | true =>
    show p.steppedOverIn jvm ({ f with ran := true } :: fs) = (p.steppedOverIn jvm (f :: fs)).or _
    rw [steppedOverIn_ran]
    cases p.covers jvm f.method <;> rfl

theorem steppedOver_call (method : Method) (native : Bool) :
    p.steppedOver jvm ⟨⟨method, native, false, false⟩ :: fs, false⟩ = p.steppedOver jvm ⟨fs, false⟩ := by
  rw [steppedOver, steppedOver]
  exact if_congr Iff.rfl steppedOverIn_call rfl

/-- The frame that exits is not stepped over any more. -/
theorem steppedOver_exit : p.steppedOver jvm ⟨f :: fs, true⟩ =
    if p.steppedOver jvm ⟨f :: fs, false⟩ = some (fs.length + 1) then none else p.steppedOver jvm ⟨f :: fs, false⟩ := by
  rw [steppedOver, steppedOver]
  cases p.stepping with
  | false => rfl
  | true => exact steppedOverIn_tail

theorem steppedOver_stoppedIn (method : Method) (below : List (Method × Bool)) (exiting : Bool) :
    p.steppedOver jvm (.stoppedIn method below exiting) = none := by
  have hran : ∀ f ∈ (JvmThread.stoppedIn method below exiting).frames, f.ran = false := by
    intro f hf
    rcases List.mem_cons.mp hf with rfl | hf'
    · rfl
    · obtain ⟨b, -, rfl⟩ := List.mem_map.mp hf'
      rfl
  unfold steppedOver
  split_ifs
  · refine steppedOverIn_of_not_ran fun f hf => hran f ?_
    unfold JvmThread.live at hf
    split_ifs at hf
    · exact List.mem_of_mem_tail hf
    · exact hf
  · rfl

end StepPlan

end Over

/-! ## What the debugger remembers -/

section Remembers

variable {jvm : Jvm Class Method} {p : StepPlan Class Method} {d : Stepper Class Method} {quiet : Bool}
  {height : Option ℕ}

/-- The `method_exit` callback. -/
def exitCallback : Option ℕ → Callback
  | none => .cbMethodExit
  | some n => .checkNestedMethodReturn n

/-- The callbacks and events of the debugger, when a frame is stepped over or not. -/
structure Remembers (p : StepPlan Class Method) (d : Stepper Class Method) (quiet : Bool) (height : Option ℕ) :
    Prop where
  location : d.nextLineLocation = p.location
  methodId : d.nextLineMethodId = p.methodId
  breakpoint : d.events.ref .breakpoint = some .cbBreakpoint
  singleStep : d.events.ref .singleStep = if p.stepping && height.isNone then some .cbSingleStep else none
  methodExit : d.events.ref .methodExit = some (exitCallback height)
  stepOn : (p.stepping && height.isNone) = true → d.events.enabled .singleStep = true
  exitOn : d.events.enabled .methodExit = (quiet || height.isSome)
  plain : p.stepping = false → quiet = true ∧ height = none

theorem deliver_of_not {slot : Slot} (h : d.events.delivers slot = false) (n : ℕ) (method : Method) (location : ℕ) :
    d.deliver jvm slot n method location = (d, false) := by
  rw [Stepper.deliver, h]

/-- A callback runs with both events off, and the events are switched on after it. -/
theorem deliver_of {slot : Slot} {callback : Callback} (h : d.events.delivers slot = true)
    (hcallback : d.events.ref slot = some callback) (n : ℕ) (method : Method) (location : ℕ) :
    d.deliver jvm slot n method location =
      ((d.disableBefore.call jvm callback n method location).1.enableAfter,
        (d.disableBefore.call jvm callback n method location).2) := by
  rw [Stepper.deliver, h, hcallback]

variable {n : ℕ} {method : Method} {location : ℕ}

/-- `cb_single_step` in another method. -/
theorem call_other (h : Stepper.inNextLineMethod jvm d.nextLineMethodId method = false) :
    d.call jvm .cbSingleStep n method location =
      ({ d with events :=
          (d.events.ljClearJvmtiCallback .singleStep).ljSetJvmtiCallback .methodExit (.checkNestedMethodReturn n) },
        false) := by
  simp [Stepper.call, Stepper.cbSingleStep, h]

/-- `cb_single_step` at the target or behind it. -/
theorem call_target (h : Stepper.inNextLineMethod jvm d.nextLineMethodId method = true)
    (hl : d.nextLineLocation.any (· ≤ location) = true) : d.call jvm .cbSingleStep n method location =
      (⟨(d.events.ljClearJvmtiCallback .methodExit).ljClearJvmtiCallback .singleStep, none, none⟩, true) := by
  rw [Stepper.call, Stepper.cbSingleStep, h, hl]
  rfl

/-- `cb_single_step` before the target. -/
theorem call_before (h : Stepper.inNextLineMethod jvm d.nextLineMethodId method = true)
    (hl : d.nextLineLocation.any (· ≤ location) = false) :
    d.call jvm .cbSingleStep n method location = (d, false) := by
  rw [Stepper.call, Stepper.cbSingleStep, h, hl]
  rfl

/-- After `cb_single_step` has seen another method, the callbacks wait for the exit of its frame. -/
theorem remembers_other (hp : p.stepping = true) (hlocation : d.nextLineLocation = p.location)
    (hmethodId : d.nextLineMethodId = p.methodId) (hbp : d.events.ref .breakpoint = some .cbBreakpoint) :
    Remembers p (Stepper.enableAfter { d with events :=
      (d.events.ljClearJvmtiCallback .singleStep).ljSetJvmtiCallback .methodExit (.checkNestedMethodReturn n) })
        false (some n) := by
  refine ⟨hlocation, hmethodId, ?_, ?_, ?_, fun hf => ?_, ?_, fun hf => ?_⟩
  · simpa using hbp
  · simp
  · simp [exitCallback]
  · simp at hf
  · simp [EventState.enableAfter_methodExit, Slot.notification]
  · rw [hp] at hf
    simp at hf

namespace Remembers

theorem delivers_breakpoint (h : Remembers p d quiet height) : d.events.delivers .breakpoint = true := by
  simp [EventState.delivers, h.breakpoint, Slot.notification]

theorem delivers_singleStep (h : Remembers p d quiet height) :
    d.events.delivers .singleStep = (p.stepping && height.isNone) := by
  rw [EventState.delivers, h.singleStep]
  cases hs : p.stepping && height.isNone with
  | false => rfl
  | true =>
    have hon := h.stepOn hs
    simp [Slot.notification, hon]

theorem delivers_methodExit (h : Remembers p d quiet height) :
    d.events.delivers .methodExit = (quiet || height.isSome) := by
  simp [EventState.delivers, h.methodExit, h.exitOn, Slot.notification]

/-- A breakpoint switches METHOD_EXIT off while single steps are on. -/
theorem deliver_breakpoint (jvm : Jvm Class Method) (h : Remembers p d quiet height) (n : ℕ) (method : Method)
    (location : ℕ) : (d.deliver jvm .breakpoint n method location).2 = false ∧
      Remembers p (d.deliver jvm .breakpoint n method location).1 (quiet && !(p.stepping && height.isNone)) height := by
  rw [deliver_of h.delivers_breakpoint h.breakpoint]
  refine ⟨rfl, h.location, h.methodId, ?_, ?_, ?_, ?_, ?_, ?_⟩
  · simpa [Stepper.call] using h.breakpoint
  · simpa [Stepper.call] using h.singleStep
  · simpa [Stepper.call] using h.methodExit
  · intro hs
    simp [Stepper.call, EventState.enableAfter_singleStep, h.singleStep, hs]
  · simp only [Stepper.call, Stepper.enableAfter_events, Stepper.disableBefore_events,
      EventState.enableAfter_methodExit, EventState.disableBefore_ref, EventState.disableBefore_enabled, h.singleStep,
      h.methodExit]
    cases hp : p.stepping with
    | false =>
      obtain ⟨rfl, rfl⟩ := h.plain hp
      rfl
    | true => cases height <;> simp
  · intro hp
    obtain ⟨hq, ho⟩ := h.plain hp
    exact ⟨by simp [hq, hp], ho⟩

/-- A single step stops at the target or behind it; in another method it makes the callbacks wait for the exit. -/
theorem deliver_singleStep (jvm : Jvm Class Method) (h : Remembers p d quiet height)
    (hs : p.stepping && height.isNone) (n : ℕ) (method : Method) (location : ℕ) :
    (d.deliver jvm .singleStep n method location).2 = (p.covers jvm method && p.location.any (· ≤ location)) ∧
      ((d.deliver jvm .singleStep n method location).2 = false →
        Remembers p (d.deliver jvm .singleStep n method location).1 false
          (if p.covers jvm method then none else some n)) := by
  obtain ⟨hp, hover⟩ := Bool.and_eq_true_iff.mp hs
  obtain rfl := Option.isNone_iff_eq_none.mp hover
  have hcallback : d.events.ref .singleStep = some .cbSingleStep := by rw [h.singleStep, hs]; rfl
  rw [deliver_of (h.delivers_singleStep.trans hs) hcallback]
  have hcovers : Stepper.inNextLineMethod jvm d.disableBefore.nextLineMethodId method = p.covers jvm method := by
    rw [Stepper.disableBefore_nextLineMethodId, h.methodId]
    rfl
  have hlocation : d.disableBefore.nextLineLocation = p.location := h.location
  have hbp := h.breakpoint
  have hme := h.methodExit
  cases hc : p.covers jvm method with
  | false =>
    rw [call_other (hcovers.trans hc)]
    exact ⟨rfl, fun _ => remembers_other hp hlocation h.methodId hbp⟩
  | true =>
    cases hl : p.location.any (· ≤ location) with
    | true =>
      rw [call_target (hcovers.trans hc) (by rw [hlocation]; exact hl)]
      exact ⟨rfl, fun hf => by simp at hf⟩
    | false =>
      rw [call_before (hcovers.trans hc) (by rw [hlocation]; exact hl)]
      refine ⟨rfl, fun _ => ⟨h.location, h.methodId, ?_, ?_, ?_, fun _ => ?_, ?_, fun hf => ?_⟩⟩
      · simpa using hbp
      · simpa [hp] using hcallback
      · simpa using hme
      · simp [EventState.enableAfter_singleStep, hcallback]
      · simp [EventState.enableAfter_methodExit, hcallback]
      · rw [hp] at hf
        simp at hf

/-- The exit of the frame stepped over, and only this one, brings both callbacks back. -/
theorem deliver_methodExit_steppedOver (jvm : Jvm Class Method) {k : ℕ} (h : Remembers p d quiet (some k))
    (n : ℕ) (method : Method) (location : ℕ) : (d.deliver jvm .methodExit n method location).2 = false ∧
      Remembers p (d.deliver jvm .methodExit n method location).1 (quiet || k == n)
        (if k = n then none else some k) := by
  have hp : p.stepping = true := by
    by_contra hp
    rw [Bool.not_eq_true] at hp
    cases (h.plain hp).2
  have hon : d.events.delivers .methodExit = true := by rw [h.delivers_methodExit]; exact Bool.or_true _
  have hnone : d.events.ref .singleStep = none := by rw [h.singleStep, hp]; rfl
  have hbp := h.breakpoint
  have hme := h.methodExit
  rw [deliver_of hon h.methodExit]
  refine ⟨rfl, ?_⟩
  simp only [Stepper.call, exitCallback, Stepper.checkNestedMethodReturn]
  by_cases hk : k = n
  · rw [if_pos hk.symm, if_pos hk]
    refine ⟨h.location, h.methodId, ?_, ?_, ?_, ?_, ?_, ?_⟩
    · simpa using hbp
    · simp [hp]
    · simp [exitCallback]
    · intro _
      simp [EventState.enableAfter_singleStep]
    · simp [EventState.enableAfter_methodExit, Slot.notification, hk]
    · intro hf
      rw [hp] at hf
      simp at hf
  · rw [if_neg (Ne.symm hk), if_neg hk]
    refine ⟨h.location, h.methodId, ?_, ?_, ?_, ?_, ?_, ?_⟩
    · simpa using hbp
    · simpa using hnone
    · simpa using hme
    · intro hf
      simp at hf
    · simp [EventState.enableAfter_methodExit, hnone, hme]
    · intro hf
      rw [hp] at hf
      simp at hf

theorem deliver_methodExit_quiet (jvm : Jvm Class Method) (h : Remembers p d true none) (n : ℕ) (method : Method)
    (location : ℕ) : (d.deliver jvm .methodExit n method location).2 = true := by
  have hon : d.events.delivers .methodExit = true := by rw [h.delivers_methodExit]; rfl
  rw [deliver_of hon h.methodExit]
  rfl

end Remembers

end Remembers

/-! ## The debugger stops at the stop points -/

section Refinement

variable {jvm : Jvm Class Method} {p : StepPlan Class Method} {d : Stepper Class Method} {quiet : Bool}
  {j j' : JvmThread Method} {e : Exec Method}

/-- The debugger remembers what the thread tells. -/
def Simulates (jvm : Jvm Class Method) (p : StepPlan Class Method) (d : Stepper Class Method) (quiet : Bool)
    (j : JvmThread Method) : Prop := Remembers p d quiet (p.steppedOver jvm j)

theorem Simulates.instr {f : JavaFrame Method} {fs : List (JavaFrame Method)}
    (h : Simulates jvm p d quiet ⟨f :: fs, false⟩) (location : ℕ) :
    (d.observe jvm ⟨f :: fs, false⟩ (.instr location)).2 = p.point jvm quiet ⟨f :: fs, false⟩ (.instr location) ∧
      (p.point jvm quiet ⟨f :: fs, false⟩ (.instr location) = false →
        Simulates jvm p (d.observe jvm ⟨f :: fs, false⟩ (.instr location)).1
          (p.nextQuiet jvm quiet ⟨f :: fs, false⟩ (.instr location)) ⟨{ f with ran := true } :: fs, false⟩) := by
  have hobserve : d.observe jvm ⟨f :: fs, false⟩ (.instr location) =
      d.deliver jvm .singleStep (fs.length + 1) f.method location := rfl
  rw [hobserve, Simulates, StepPlan.steppedOver_instr]
  have h' : Remembers p d quiet (p.steppedOver jvm ⟨f :: fs, false⟩) := h
  simp only [StepPlan.point, StepPlan.nextQuiet]
  generalize p.steppedOver jvm ⟨f :: fs, false⟩ = height at h'
  cases hs : p.stepping && height.isNone with
  | true =>
    obtain ⟨hp, hover⟩ := Bool.and_eq_true_iff.mp hs
    obtain rfl := Option.isNone_iff_eq_none.mp hover
    obtain ⟨hstop, hnext⟩ := h'.deliver_singleStep jvm hs (fs.length + 1) f.method location
    refine ⟨hstop, fun hpoint => ?_⟩
    rw [Bool.not_true, Bool.and_false, Option.none_or, hp, Bool.true_and]
    have hnext' := hnext (hstop.trans hpoint)
    cases hc : p.covers jvm f.method with
    | true => simpa [hc] using hnext'
    | false => simpa [hc] using hnext'
  | false =>
    rw [deliver_of_not (h'.delivers_singleStep.trans hs)]
    refine ⟨rfl, fun _ => ?_⟩
    rw [Bool.not_false, Bool.and_true]
    cases height with
    | some k => exact h'
    | none =>
      have hp : p.stepping = false := by simpa using hs
      simpa [hp] using h'

theorem Simulates.exit {f : JavaFrame Method} {fs : List (JavaFrame Method)}
    (h : Simulates jvm p d quiet ⟨f :: fs, false⟩) (poppedByException : Bool) :
    (d.observe jvm ⟨f :: fs, false⟩ (.exit poppedByException)).2 =
        p.point jvm quiet ⟨f :: fs, false⟩ (.exit poppedByException) ∧
      (p.point jvm quiet ⟨f :: fs, false⟩ (.exit poppedByException) = false →
        Simulates jvm p (d.observe jvm ⟨f :: fs, false⟩ (.exit poppedByException)).1
          (p.nextQuiet jvm quiet ⟨f :: fs, false⟩ (.exit poppedByException)) ⟨f :: fs, true⟩) := by
  have hobserve : d.observe jvm ⟨f :: fs, false⟩ (.exit poppedByException) =
      d.deliver jvm .methodExit (fs.length + 1) f.method 0 := rfl
  rw [hobserve, Simulates, StepPlan.steppedOver_exit]
  have h' : Remembers p d quiet (p.steppedOver jvm ⟨f :: fs, false⟩) := h
  simp only [StepPlan.point, StepPlan.nextQuiet, List.length_cons]
  generalize p.steppedOver jvm ⟨f :: fs, false⟩ = height at h'
  cases height with
  | some k =>
    obtain ⟨hstop, hnext⟩ := h'.deliver_methodExit_steppedOver jvm (fs.length + 1) f.method 0
    refine ⟨hstop, fun _ => ?_⟩
    simpa using hnext
  | none =>
    cases quiet with
    | true =>
      have hstop := h'.deliver_methodExit_quiet jvm (fs.length + 1) f.method 0
      exact ⟨hstop, fun hpoint => by simp at hpoint⟩
    | false =>
      rw [deliver_of_not h'.delivers_methodExit]
      exact ⟨rfl, fun _ => h'⟩

/-- What the debugger does on a step: it stops at a stop point, and remembers the thread after any other step. -/
theorem Simulates.observe (h : Simulates jvm p d quiet j) (hstep : jvmStep j e = some j') :
    (d.observe jvm j e).2 = p.point jvm quiet j e ∧
      (p.point jvm quiet j e = false → Simulates jvm p (d.observe jvm j e).1 (p.nextQuiet jvm quiet j e) j') := by
  cases moves_of_jvmStep hstep with
  | instr f fs location hf => exact h.instr location
  | call fs method native =>
    have hobserve : d.observe jvm ⟨fs, false⟩ (.call method native) = (d, false) := by cases fs <;> rfl
    have hpoint : p.point jvm quiet ⟨fs, false⟩ (.call method native) = false := by cases fs <;> rfl
    rw [hobserve, hpoint, Simulates, StepPlan.steppedOver_call]
    exact ⟨rfl, fun _ => h⟩
  | exit f fs poppedByException => exact h.exit poppedByException
  | pop f fs => exact ⟨rfl, fun _ => h⟩
  | breakpoint f fs location hf =>
    obtain ⟨hstop, hnext⟩ := h.deliver_breakpoint jvm (fs.length + 1) f.method location
    exact ⟨hstop, fun _ => hnext⟩

/-- **The debugger stops first at the first stop point**, in every run of the thread. -/
theorem firstStop_eq (h : Simulates jvm p d quiet j) (es : List (Exec Method)) :
    firstStop jvm d j es = (p.points jvm).first jvmStep quiet j es :=
  Observer.first_eq_of_simulates (R := Simulates jvm p) (fun _ _ _ _ _ hR hs => (hR.observe hs).1)
    (fun _ _ _ _ _ hR hs hr => (hR.observe hs).2 hr) es d quiet j h

end Refinement

/-! ## After `next_line` -/

section NextLine

variable {jvm : Jvm Class Method} {d d' : Stepper Class Method}

/-- The functions that the debugger installs: `cb_breakpoint`, and `cb_single_step` if any. -/
structure Stepper.Installed (d : Stepper Class Method) : Prop where
  breakpoint : d.events.ref .breakpoint = some .cbBreakpoint
  singleStep : ∀ callback, d.events.ref .singleStep = some callback → callback = .cbSingleStep

theorem installed_init : (Stepper.initJvmtiCallbacks : Stepper Class Method).Installed := by
  refine ⟨rfl, fun callback h => ?_⟩
  cases h

theorem Stepper.Installed.nextLine (h : d.Installed) {method : Method} {location : ℕ}
    (hn : d.nextLine jvm method location = some d') : d'.Installed := by
  have hbp := h.breakpoint
  obtain ⟨lineNums, -, ⟨ln, -, hevents, -, -⟩ | ⟨-, hevents, -, -⟩⟩ := Stepper.nextLine_cases jvm hn
  · refine ⟨by rw [hevents]; simpa using hbp, fun callback hc => ?_⟩
    rw [hevents] at hc
    simp at hc
    exact hc.symm
  · refine ⟨by rw [hevents]; simpa using hbp, fun callback hc => ?_⟩
    rw [hevents] at hc
    exact h.singleStep callback (by simpa using hc)

theorem Stepper.Installed.of_ref (h : d.Installed)
    (hbp : d'.events.ref .breakpoint = d.events.ref .breakpoint)
    (hss : ∀ callback, d'.events.ref .singleStep = some callback → d.events.ref .singleStep = some callback ∨
      callback = .cbSingleStep) : d'.Installed := by
  refine ⟨hbp.trans h.breakpoint, fun callback hc => ?_⟩
  rcases hss callback hc with hc' | hc'
  · exact h.singleStep callback hc'
  · exact hc'

theorem Stepper.Installed.call (jvm : Jvm Class Method) (h : d.Installed) (callback : Callback) (n : ℕ)
    (method : Method) (location : ℕ) : (d.call jvm callback n method location).1.Installed := by
  cases callback with
  | cbBreakpoint => exact h
  | cbMethodExit => exact h
  | cbSingleStep =>
    rw [Stepper.call, Stepper.cbSingleStep]
    split_ifs
    · exact h.of_ref (by simp) (by simp)
    · exact h.of_ref (by simp) (by simp)
    · exact h
  | checkNestedMethodReturn previousFrameCount =>
    rw [Stepper.call, Stepper.checkNestedMethodReturn]
    split_ifs
    · refine h.of_ref (by simp) fun callback hc => Or.inr ?_
      simp at hc
      exact hc.symm
    · exact h

/-- Whatever the thread does, the callbacks install nothing else. -/
theorem Stepper.Installed.observe (h : d.Installed) (j : JvmThread Method) (e : Exec Method) :
    (d.observe jvm j e).1.Installed := by
  have hdeliver : ∀ slot n method location, (d.deliver jvm slot n method location).1.Installed := by
    intro slot n method location
    cases hon : d.events.delivers slot with
    | false =>
      rw [deliver_of_not hon]
      exact h
    | true =>
      obtain ⟨callback, hc⟩ : ∃ callback, d.events.ref slot = some callback :=
        Option.isSome_iff_exists.mp (Bool.and_eq_true_iff.mp hon).1
      have hbefore : d.disableBefore.Installed := h.of_ref (by simp) (by simp +contextual)
      have hcall := hbefore.call jvm callback n method location
      rw [deliver_of hon hc]
      exact hcall.of_ref (by simp) (by simp +contextual)
  unfold Stepper.observe
  split
  · exact hdeliver ..
  · exact hdeliver ..
  · exact hdeliver ..
  · exact h

/-- `next_line` begins a run in which nothing is stepped over and METHOD_EXIT is on. -/
theorem simulates_nextLine (h : d.Installed) {method : Method} {location : ℕ}
    (hn : d.nextLine jvm method location = some d') (below : List (Method × Bool)) (exiting : Bool) :
    Simulates jvm d'.plan d' true (.stoppedIn method below exiting) := by
  rw [Simulates, StepPlan.steppedOver_stoppedIn]
  have hbp := (h.nextLine hn).breakpoint
  have hss := (h.nextLine hn).singleStep
  have hevents : ∃ events : EventState Callback,
      d'.events = (events.ljSetJvmtiCallback .methodExit .cbMethodExit).enableAfter := by
    obtain ⟨lineNums, -, ⟨ln, -, hevents, -, -⟩ | ⟨-, hevents, -, -⟩⟩ := Stepper.nextLine_cases jvm hn
    · exact ⟨_, hevents⟩
    · exact ⟨_, hevents⟩
  obtain ⟨events, hevents⟩ := hevents
  refine ⟨rfl, rfl, hbp, ?_, ?_, ?_, ?_, fun _ => ⟨rfl, rfl⟩⟩
  · unfold Stepper.plan
    cases hc : d'.events.ref .singleStep with
    | none => rfl
    | some callback =>
      rw [hss callback hc]
      rfl
  · rw [hevents]
    simp [exitCallback]
  · intro hs
    have hsome : (events.ref .singleStep).isSome = true := by
      simpa [Stepper.plan, hevents] using hs
    simp [hevents, EventState.enableAfter_singleStep, hsome]
  · simp [hevents, EventState.enableAfter_methodExit, Slot.notification]

end NextLine

end YellowTree
