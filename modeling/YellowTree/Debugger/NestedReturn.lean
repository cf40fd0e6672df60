import YellowTree.Debugger.StopPoints
import YellowTree.Lib.Nesting

/-!
# YellowTree.Debugger.NestedReturn — stepping over a call

When `cb_single_step` sees the first instruction of a method other than the one of the step, it notes how many frames
there are and leaves the rest to `check_nested_method_return`.  What the called activation does until it exits is a
well-nested trace: instructions, breakpoints, and calls that return or are left by an exception.

`cb_single_step` counts the frames of `current_thread()`, which is found by the thread's name and may be another
thread; `check_nested_method_return` counts those of the thread it is called on.

* `along_nestedCalls`: while a called activation runs, no exit is that of a frame at the noted height.
* `resumesAtReturn_iff`: the step goes on exactly at the exit of the called activation if and only if the method called
  is not taken for the one of the step and the frames counted are as many as those of the thread.
-/

namespace YellowTree

open Transition Nesting

variable {Class Method : Type}

/-! ## Resuming at the return -/

section Spec

/-- What an activation does itself: instructions, and breakpoints it hits. -/
def IsPlain (e : Exec Method) : Prop := (∃ location, e = .instr location) ∨ ∃ location, e = .breakpoint location

def IsCall (e : Exec Method) : Prop := ∃ method native, e = .call method native

/-- The exit of a frame and its removal. -/
def IsReturn (es : List (Exec Method)) : Prop := ∃ poppedByException, es = [.exit poppedByException, .pop]

/-- What an activation does without exiting, when every activation that it calls has returned. -/
def NestedCalls : List (Exec Method) → Prop := WellNested IsPlain IsCall IsReturn

variable (jvm : Jvm Class Method)

/-- The debugger and the thread that it watches take a step. -/
def watchStep (s : Stepper Class Method × JvmThread Method) (e : Exec Method) :
    Option (Stepper Class Method × JvmThread Method) :=
  (jvmStep s.2 e).map fun j' => ((s.1.observe jvm s.2 e).1, j')

/-- The callback that JVMTI runs for a slot. -/
def Stepper.runs (d : Stepper Class Method) (slot : Slot) : Option Callback :=
  if d.events.delivers slot then d.events.ref slot else none

/-- The callback that runs on a step of the thread. -/
def Stepper.running (d : Stepper Class Method) (j : JvmThread Method) (e : Exec Method) : Option Callback :=
  match j.frames, e with
  | _ :: _, .instr _ => d.runs .singleStep
  | _ :: _, .breakpoint _ => d.runs .breakpoint
  | _ :: _, .exit _ => d.runs .methodExit
  | _, _ => none

/-- Neither `cb_single_step` nor `cb_method_exit` runs, and `check_nested_method_return` finds another frame count. -/
def Waits (s : Stepper Class Method × JvmThread Method) (e : Exec Method)
    (_ : Stepper Class Method × JvmThread Method) : Prop :=
  s.1.running s.2 e ≠ some .cbSingleStep ∧ s.1.running s.2 e ≠ some .cbMethodExit ∧
    s.1.running s.2 e ≠ some (.checkNestedMethodReturn s.2.frames.length)

/-- The debugger and the thread after `cb_single_step` has seen an instruction of the innermost frame, when the thread
that `current_thread()` gives has `frameCount` frames. -/
def afterSingleStep (d : Stepper Class Method) (frameCount : ℕ) (f : JavaFrame Method)
    (below : List (JavaFrame Method)) (location : ℕ) : Stepper Class Method × JvmThread Method :=
  ((d.deliver jvm .singleStep frameCount f.method location).1, ⟨{ f with ran := true } :: below, false⟩)

/-- While the activation runs the debugger waits, in every part of a nested trace; at its own exit the frame count is
the noted one, and `cb_single_step` is installed again. -/
structure ResumesAtReturn (d : Stepper Class Method) (frameCount : ℕ) (f : JavaFrame Method)
    (below : List (JavaFrame Method)) (location : ℕ) : Prop where
  waits : ∀ es, NestedCalls es →
    EachStep (watchStep jvm) Waits (afterSingleStep jvm d frameCount f below location) es
  returns : ∀ es, NestedCalls es → ∀ s poppedByException,
    run (watchStep jvm) (afterSingleStep jvm d frameCount f below location) es = some s →
      (∃ f', s.2 = ⟨f' :: below, false⟩) ∧
      s.1.running s.2 (.exit poppedByException) = some (.checkNestedMethodReturn s.2.frames.length) ∧
      ∀ s', watchStep jvm s (.exit poppedByException) = some s' →
        s'.1.events.ref .singleStep = some .cbSingleStep ∧ s'.1.events.delivers .singleStep = true

end Spec

/-! ## While the activation runs -/

section Waiting

variable {jvm : Jvm Class Method} {d : Stepper Class Method} {p : StepPlan Class Method} {n : ℕ}

/-- The debugger waits for the exit of a frame at height `n`. -/
def WaitsFor (p : StepPlan Class Method) (n : ℕ) (d : Stepper Class Method) : Prop :=
  ∃ quiet, Remembers p d quiet (some n)

theorem WaitsFor.runs_singleStep (h : WaitsFor p n d) : d.runs .singleStep = none := by
  obtain ⟨quiet, h⟩ := h
  rw [Stepper.runs, h.delivers_singleStep]
  simp

theorem WaitsFor.runs_breakpoint (h : WaitsFor p n d) : d.runs .breakpoint = some .cbBreakpoint := by
  obtain ⟨quiet, h⟩ := h
  rw [Stepper.runs, h.delivers_breakpoint, if_pos rfl, h.breakpoint]

theorem WaitsFor.runs_methodExit (h : WaitsFor p n d) : d.runs .methodExit = some (.checkNestedMethodReturn n) := by
  obtain ⟨quiet, h⟩ := h
  rw [Stepper.runs, h.delivers_methodExit, if_pos (by simp), h.methodExit]
  rfl

/-- An exit at another height. -/
theorem WaitsFor.methodExit (jvm : Jvm Class Method) (h : WaitsFor p n d) {m : ℕ} (hm : n ≠ m)
    (method : Method) : WaitsFor p n (d.deliver jvm .methodExit m method 0).1 := by
  obtain ⟨quiet, h⟩ := h
  have hnext := (h.deliver_methodExit_steppedOver jvm m method 0).2
  rw [if_neg hm] at hnext
  exact ⟨_, hnext⟩

/-- The exit at height `n`. -/
theorem WaitsFor.resumes (jvm : Jvm Class Method) (hp : p.stepping = true) (h : WaitsFor p n d) (method : Method) :
    (d.deliver jvm .methodExit n method 0).1.events.ref .singleStep = some .cbSingleStep ∧
      (d.deliver jvm .methodExit n method 0).1.events.delivers .singleStep = true := by
  obtain ⟨quiet, h⟩ := h
  have hnext := (h.deliver_methodExit_steppedOver jvm n method 0).2
  rw [if_pos rfl] at hnext
  exact ⟨by rw [hnext.singleStep, hp]; rfl, by rw [hnext.delivers_singleStep, hp]; rfl⟩

theorem WaitsFor.singleStep (jvm : Jvm Class Method) (h : WaitsFor p n d) (m : ℕ) (method : Method) (location : ℕ) :
    WaitsFor p n (d.deliver jvm .singleStep m method location).1 := by
  obtain ⟨quiet, h⟩ := h
  have hoff : d.events.delivers .singleStep = false := by rw [h.delivers_singleStep, Option.isNone_some, Bool.and_false]
  rw [deliver_of_not hoff]
  exact ⟨quiet, h⟩

theorem WaitsFor.breakpoint (jvm : Jvm Class Method) (h : WaitsFor p n d) (m : ℕ) (method : Method) (location : ℕ) :
    WaitsFor p n (d.deliver jvm .breakpoint m method location).1 := by
  obtain ⟨quiet, h⟩ := h
  exact ⟨_, (h.deliver_breakpoint jvm m method location).2⟩

/-- The debugger waits, and the innermost activation, on top of the frames `below`, is at height `n` or above. -/
structure Inside (p : StepPlan Class Method) (n : ℕ) (below : List (JavaFrame Method))
    (s : Stepper Class Method × JvmThread Method) : Prop where
  waitsFor : WaitsFor p n s.1
  height : n ≤ below.length + 1
  top : ∃ f, s.2 = ⟨f :: below, false⟩

/-- Below a called activation are its caller, at height `n` or above, and the frames below this. -/
def Calls (n : ℕ) (below called : List (JavaFrame Method)) : Prop := n ≤ below.length + 1 ∧ ∃ f, called = f :: below

theorem watchStep_eq_some {s s' : Stepper Class Method × JvmThread Method} {e : Exec Method} :
    watchStep jvm s e = some s' ↔ jvmStep s.2 e = some s'.2 ∧ s'.1 = (s.1.observe jvm s.2 e).1 := by
  rw [watchStep, Option.map_eq_some_iff]
  constructor
  · rintro ⟨j', hj, rfl⟩
    exact ⟨hj, rfl⟩
  · rintro ⟨hj, hd⟩
    exact ⟨s'.2, hj, by rw [← hd]⟩

variable {below : List (JavaFrame Method)} {s s' : Stepper Class Method × JvmThread Method} {e : Exec Method}

theorem waits_of_none (h : s.1.running s.2 e = none) : Waits s e s' := by
  simp [Waits, h]

/-- An instruction or a breakpoint. -/
theorem Inside.plain (h : Inside p n below s) (he : IsPlain e) (hstep : watchStep jvm s e = some s') :
    Waits s e s' ∧ Inside p n below s' := by
  obtain ⟨d, j⟩ := s
  obtain ⟨d', j'⟩ := s'
  obtain ⟨hwaits, hheight, f, rfl⟩ := h
  obtain ⟨hj, rfl⟩ := watchStep_eq_some.mp hstep
  rcases he with ⟨location, rfl⟩ | ⟨location, rfl⟩
  · cases moves_of_jvmStep hj with
    | instr f fs location hf =>
      have hrunning : d.running ⟨f :: below, false⟩ (.instr location) = none := hwaits.runs_singleStep
      exact ⟨waits_of_none hrunning, hwaits.singleStep jvm _ f.method location, hheight, _, rfl⟩
  · cases moves_of_jvmStep hj with
    | breakpoint f fs location hf =>
      have hrunning : d.running ⟨f :: below, false⟩ (.breakpoint location) = some .cbBreakpoint :=
        hwaits.runs_breakpoint
      refine ⟨?_, ?_, hheight, _, rfl⟩
      · simp [Waits, hrunning]
      · exact hwaits.breakpoint jvm _ f.method location

/-- A call. -/
theorem Inside.call (h : Inside p n below s) (he : IsCall e) (hstep : watchStep jvm s e = some s') :
    Waits s e s' ∧ ∃ called, Calls n below called ∧ Inside p n called s' := by
  obtain ⟨d, j⟩ := s
  obtain ⟨d', j'⟩ := s'
  obtain ⟨hwaits, hheight, f, rfl⟩ := h
  obtain ⟨hj, rfl⟩ := watchStep_eq_some.mp hstep
  obtain ⟨method, native, rfl⟩ := he
  cases moves_of_jvmStep hj with
  | call fs method native =>
    refine ⟨waits_of_none rfl, f :: below, ⟨hheight, f, rfl⟩, hwaits, ?_, _, rfl⟩
    rw [List.length_cons]
    omega

/-- The exit of a called activation is not at height `n`. -/
theorem Inside.ret {called : List (JavaFrame Method)} {es : List (Exec Method)} (h : Inside p n called s)
    (hcalls : Calls n below called) (hes : IsReturn es) :
    EachStep (watchStep jvm) Waits s es ∧ ∀ s', run (watchStep jvm) s es = some s' → Inside p n below s' := by
  obtain ⟨d, j⟩ := s
  obtain ⟨hwaits, -, f, rfl⟩ := h
  obtain ⟨hheight, g, rfl⟩ := hcalls
  obtain ⟨poppedByException, rfl⟩ := hes
  have hne : n ≠ below.length + 2 := by omega
  have hexit : watchStep jvm (d, ⟨f :: g :: below, false⟩) (.exit poppedByException) =
      some ((d.deliver jvm .methodExit (below.length + 2) f.method 0).1, ⟨f :: g :: below, true⟩) := rfl
  have hpop : ∀ d', watchStep jvm (d', ⟨f :: g :: below, true⟩) .pop = some (d', ⟨g :: below, false⟩) := fun _ => rfl
  have hrunning : d.running ⟨f :: g :: below, false⟩ (.exit poppedByException) = some (.checkNestedMethodReturn n) :=
    hwaits.runs_methodExit
  have hwaits' := hwaits.methodExit jvm hne f.method
  constructor
  · refine eachStep_cons hexit ?_ (eachStep_cons (hpop _) ?_ trivial)
    · refine ⟨?_, ?_, ?_⟩
      · simp [hrunning]
      · simp [hrunning]
      · simpa [hrunning] using hne
    · exact waits_of_none rfl
  · intro s' hs'
    rw [run_cons, hexit, Option.bind_some, run_cons, hpop, Option.bind_some, run_nil] at hs'
    obtain rfl := Option.some.inj hs'
    exact ⟨hwaits', hheight, g, rfl⟩

/-- **While the activation runs the debugger waits**, through all calls that return or are left by an exception. -/
theorem along_nestedCalls {es : List (Exec Method)} (hes : NestedCalls es) (h : Inside p n below s) :
    EachStep (watchStep jvm) Waits s es ∧ ∀ s', run (watchStep jvm) s es = some s' → Inside p n below s' := by
  refine WellNested.along (Calls n) ?_ ?_ ?_ hes h
  · intro below s e s' he hI hstep
    exact hI.plain he hstep
  · intro below s e s' he hI hstep
    exact hI.call he hstep
  · intro below called s es hes hcalls hI
    exact hI.ret hcalls hes

end Waiting

/-! ## The called activation -/

section Called

variable {jvm : Jvm Class Method} {d : Stepper Class Method} {frameCount : ℕ} {f : JavaFrame Method}
  {below : List (JavaFrame Method)} {location : ℕ}

/-- The plan of a debugger that steps. -/
def Stepper.stepPlan (d : Stepper Class Method) : StepPlan Class Method :=
  ⟨true, d.nextLineLocation, d.nextLineMethodId⟩

theorem Stepper.Installed.singleStep_of_delivers (h : d.Installed) (hon : d.events.delivers .singleStep = true) :
    d.events.ref .singleStep = some .cbSingleStep := by
  obtain ⟨callback, hc⟩ : ∃ callback, d.events.ref .singleStep = some callback :=
    Option.isSome_iff_exists.mp (Bool.and_eq_true_iff.mp hon).1
  rw [hc, h.singleStep callback hc]

/-- Another method: the debugger waits for the frame count that it noted. -/
theorem waitsFor_afterSingleStep (h : d.Installed) (hon : d.events.delivers .singleStep = true)
    (hother : Stepper.inNextLineMethod jvm d.nextLineMethodId f.method = false) :
    WaitsFor d.stepPlan frameCount (afterSingleStep jvm d frameCount f below location).1 := by
  have hbefore : Stepper.inNextLineMethod jvm d.disableBefore.nextLineMethodId f.method = false := hother
  rw [afterSingleStep, deliver_of hon (h.singleStep_of_delivers hon), call_other hbefore]
  exact ⟨false, remembers_other rfl rfl rfl h.breakpoint⟩

/-- A method taken for the one of the step: both callbacks are gone at the target, and single steps go on before it. -/
theorem not_resumesAtReturn_of_same (h : d.Installed) (hon : d.events.delivers .singleStep = true)
    (hjava : f.native = false) (hsame : Stepper.inNextLineMethod jvm d.nextLineMethodId f.method = true) :
    ¬ ResumesAtReturn jvm d frameCount f below location := by
  intro hresumes
  have hss := h.singleStep_of_delivers hon
  have hbefore : Stepper.inNextLineMethod jvm d.disableBefore.nextLineMethodId f.method = true := hsame
  cases hl : d.disableBefore.nextLineLocation.any (· ≤ location) with
  | true =>
    have hgone : (afterSingleStep jvm d frameCount f below location).1.runs .methodExit = none := by
      rw [afterSingleStep, deliver_of hon hss, call_target hbefore hl, Stepper.runs]
      simp
    have hruns := (hresumes.returns [] .nil _ false rfl).2.1
    have hnone := hgone.symm.trans hruns
    cases hnone
  | false =>
    have hstill : (afterSingleStep jvm d frameCount f below location).1.runs .singleStep = some .cbSingleStep := by
      rw [afterSingleStep, deliver_of hon hss, call_before hbefore hl, Stepper.runs]
      simp [EventState.delivers, EventState.enableAfter_singleStep, hss, Slot.notification]
    have hplain : NestedCalls [(.instr location : Exec Method)] := .plain _ _ (Or.inl ⟨location, rfl⟩) .nil
    have hstep : jvmStep (afterSingleStep jvm d frameCount f below location).2 (.instr location) =
        some ⟨{ f with ran := true } :: below, false⟩ := if_neg (by simp [hjava])
    obtain ⟨s', hs'⟩ : ∃ s', watchStep jvm (afterSingleStep jvm d frameCount f below location) (.instr location) =
        some s' := by
      rw [watchStep, hstep]
      exact ⟨_, rfl⟩
    exact (hresumes.waits _ hplain s' hs').1.1 hstill

/-- **The step goes on at the right return** exactly when the method called is not taken for the one of the step and
`current_thread()` has as many frames as the thread. -/
theorem resumesAtReturn_iff (h : d.Installed) (hon : d.events.delivers .singleStep = true) (hjava : f.native = false) :
    ResumesAtReturn jvm d frameCount f below location ↔
      Stepper.inNextLineMethod jvm d.nextLineMethodId f.method = false ∧ frameCount = below.length + 1 := by
  constructor
  · intro hresumes
    have hother : Stepper.inNextLineMethod jvm d.nextLineMethodId f.method = false := by
      by_contra hsame
      exact not_resumesAtReturn_of_same h hon hjava (by simpa using hsame) hresumes
    have hruns := (waitsFor_afterSingleStep h hon hother : WaitsFor d.stepPlan frameCount
      (afterSingleStep jvm d frameCount f below location).1).runs_methodExit
    have hrunning := (hresumes.returns [] .nil _ false rfl).2.1
    have heq := hruns.symm.trans hrunning
    exact ⟨hother, Callback.checkNestedMethodReturn.inj (Option.some.inj heq)⟩
  · rintro ⟨hother, hcount⟩
    have hinside : Inside d.stepPlan frameCount below (afterSingleStep jvm d frameCount f below location) :=
      ⟨waitsFor_afterSingleStep h hon hother, hcount.le, _, rfl⟩
    refine ⟨fun es hes => (along_nestedCalls hes hinside).1, fun es hes s poppedByException hrun => ?_⟩
    obtain ⟨hwaits, -, f', hj⟩ := (along_nestedCalls hes hinside).2 s hrun
    obtain ⟨d', j⟩ := s
    obtain rfl : j = ⟨f' :: below, false⟩ := hj
    subst hcount
    refine ⟨⟨f', rfl⟩, hwaits.runs_methodExit, fun s' hs' => ?_⟩
    obtain ⟨-, hd⟩ := watchStep_eq_some.mp hs'
    rw [hd]
    exact hwaits.resumes jvm rfl f'.method

/-- Two methods; the first one calls the second. -/
def callerJvm : Jvm Unit Bool where
  className := fun _ => "Main".toList
  declaringClass := fun _ => ()
  info := fun method => ⟨if method then "run".toList else "help".toList, [], none, true, some [⟨0, 10⟩, ⟨5, 11⟩]⟩
  findClass := fun _ => some ()
  getMethodID := fun _ _ _ => none
  getStaticMethodID := fun _ _ _ => none

/-- The debugger steps from the first line of the first method. -/
def callerStepper : Stepper Unit Bool :=
  (Stepper.initJvmtiCallbacks.nextLine callerJvm true 0).getD Stepper.initJvmtiCallbacks

theorem installed_callerStepper : callerStepper.Installed := by
  have hn : Stepper.initJvmtiCallbacks.nextLine callerJvm true 0 = some callerStepper := rfl
  exact installed_init.nextLine hn

/-- The call of the second method is stepped over. -/
theorem help_resumesAtReturn :
    ResumesAtReturn callerJvm callerStepper 2 ⟨false, false, false, false⟩ [⟨true, false, true, true⟩] 0 :=
  (resumesAtReturn_iff installed_callerStepper (by decide) rfl).mpr ⟨by decide, rfl⟩

/-- The first method calls itself: the inner activation is taken for the one of the step. -/
theorem recursion_not_resumesAtReturn :
    ¬ ResumesAtReturn callerJvm callerStepper 2 ⟨true, false, false, false⟩ [⟨true, false, true, true⟩] 0 := by
  intro h
  have hruns := (h.returns [] .nil _ false rfl).2.1
  cases hruns

end Called

end YellowTree
