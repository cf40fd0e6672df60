import YellowTree.Debugger.Stepping
import YellowTree.Lib.Monitor

/-!
# YellowTree.Debugger.StepRequests — what a finished step leaves behind

The callbacks and the globals of `next_line` are shared by all threads.  `StepSession` runs the callbacks of any number
of threads, nested in one another, up to the stop that a step request ends with: each takes `debug_lock`
(`check_nested_method_return` does not), does what `Stepper.call` says, and handles commands, of which `next_line` is
the one that matters here.  Which events are enabled on a thread is left open: JVMTI may post any event for which a
callback is installed.

* `finishesClean_of_condition`: a stop of a step begins with nothing installed and the globals nil, and is the only one
  until a breakpoint is hit or another step is requested, along every run in which no step ends in `cb_method_exit`,
  `cb_single_step` cleans up alone, and no step is requested before it handles commands.
* `methodExit_not_clean`: the clean-up is missing in `cb_method_exit`.
-/

namespace YellowTree

open Transition

variable {Tid Class Method : Type}

/-! ## The embedding -/

section Embedding

/-- How far a callback has got: before `debug_lock:lock()`, before its body, before `handle_events`, in it, before
`debug_lock:unlock()`, after the Lua function. -/
inductive StepPc where
  | entered | locked | stopping | handling | finished | returned
  deriving DecidableEq

/-- A callback in progress, with what it is called with; `frameCount` is the number of frames of its thread. -/
structure StepActivation (Method : Type) where
  callback : Callback
  pc : StepPc
  frameCount : ℕ
  method : Method
  location : ℕ
  deriving DecidableEq

/-- The debugger and the callbacks of each thread, innermost first.  `settled` is no part of the program: a step has
finished, and since then no breakpoint was hit and no step requested. -/
structure StepSession (Tid Class Method : Type) where
  stepper : Stepper Class Method
  lock : Monitor Tid
  acts : Tid → List (StepActivation Method)
  settled : Bool

def StepSession.init : StepSession Tid Class Method where
  stepper := Stepper.initJvmtiCallbacks
  lock := .free
  acts := fun _ => []
  settled := false

/-- The operations of a thread.  `handlerResumes` is a breakpoint handler that returns nil, `raise` a Lua error. -/
inductive StepOp (Method : Type) where
  | deliver (slot : Slot) (frameCount : ℕ) (method : Method) (location : ℕ)
  | lock
  | body
  | handlerResumes
  | handleEvents
  | nextLine (method : Method) (location : ℕ)
  | resume
  | unlock
  | raise
  | leave
  deriving DecidableEq

namespace Callback

/-- `check_nested_method_return` takes no lock. -/
def locks : Callback → Bool
  | .checkNestedMethodReturn _ => false
  | _ => true

/-- One of the callbacks of a step request. -/
def steps : Callback → Bool
  | .cbBreakpoint => false
  | _ => true

/-- The callback ends a step request. -/
def stopsStep : Callback → Bool
  | .cbSingleStep => true
  | .cbMethodExit => true
  | _ => false

end Callback

namespace StepActivation

variable (a : StepActivation Method)

/-- Lua code runs that calls Java methods: another callback can be entered. -/
def runsJava : Bool :=
  match a.pc with
  | .entered => !a.callback.locks
  | .locked | .stopping | .handling => true
  | .finished | .returned => false

/-- A command or a breakpoint handler runs. -/
def runsCommand : Bool :=
  match a.pc with
  | .handling => true
  | .stopping => a.callback = .cbBreakpoint
  | _ => false

/-- Where the body of the callback begins. -/
def atBody : Bool := a.pc = if a.callback.locks then .locked else .entered

/-- Where the callback goes on after its body, which says whether a step stops. -/
def afterBody (stops : Bool) : StepPc :=
  match a.callback with
  | .cbBreakpoint => .stopping
  | .checkNestedMethodReturn _ => .returned
  | .cbMethodExit | .cbSingleStep => if stops then .stopping else .finished

end StepActivation

/-- A callback can be entered from Java code. -/
def canDeliver : List (StepActivation Method) → Bool
  | [] => true
  | a :: _ => a.runsJava

variable [DecidableEq Tid] (jvm : Jvm Class Method)

/-- The innermost callback of a thread goes on. -/
def StepSession.move (s : StepSession Tid Class Method) (t : Tid) (a : StepActivation Method)
    (rest : List (StepActivation Method)) (pc : StepPc) : StepSession Tid Class Method :=
  { s with acts := Function.update s.acts t ({ a with pc := pc } :: rest) }

/-- One operation of the innermost callback `a` of a thread. -/
def actStep (s : StepSession Tid Class Method) (t : Tid) (a : StepActivation Method)
    (rest : List (StepActivation Method)) : StepOp Method → Option (StepSession Tid Class Method)
  | .deliver .. => none
  | .lock =>
    if a.pc = .entered ∧ a.callback.locks = true then
      (s.lock.acquire t).map fun m => { s.move t a rest .locked with lock := m }
    else none
  | .body =>
    if a.atBody then
      let r := s.stepper.call jvm a.callback a.frameCount a.method a.location
      some { s.move t a rest (a.afterBody r.2) with stepper := r.1 }
    else none
  | .handlerResumes => if a.pc = .stopping ∧ a.callback = .cbBreakpoint then some (s.move t a rest .finished) else none
  | .handleEvents =>
    if a.pc = .stopping then
      some { s.move t a rest .handling with settled := s.settled || a.callback.stopsStep }
    else none
  | .nextLine method location =>
    if a.runsCommand then
      (s.stepper.nextLine jvm method location).map fun d => { s with stepper := d, settled := false }
    else none
  | .resume => if a.pc = .handling then some (s.move t a rest .finished) else none
  | .unlock =>
    if a.pc = .finished then (s.lock.release t).map fun m => { s.move t a rest .returned with lock := m } else none
  | .raise => if a.pc = .finished ∨ a.pc = .returned then none else some (s.move t a rest .returned)
  | .leave => if a.pc = .returned then some { s with acts := Function.update s.acts t rest } else none

/-- One operation of a thread. -/
def requestStep (s : StepSession Tid Class Method) (e : Tid × StepOp Method) : Option (StepSession Tid Class Method) :=
  match e.2 with
  | .deliver slot frameCount method location =>
    if canDeliver (s.acts e.1) then
      (s.stepper.events.ref slot).map fun callback =>
        { s with
          acts := Function.update s.acts e.1 (⟨callback, .entered, frameCount, method, location⟩ :: s.acts e.1)
          settled := s.settled && slot ≠ .breakpoint }
    else none
  | op =>
    match s.acts e.1 with
    | a :: rest => actStep jvm s e.1 a rest op
    | [] => none

end Embedding

/-! ## What is promised -/

section Promise

/-- Nothing is left of a step request. -/
structure Stepper.Clean (d : Stepper Class Method) : Prop where
  location : d.nextLineLocation = none
  methodId : d.nextLineMethodId = none
  singleStep : d.events.ref .singleStep = none
  methodExit : d.events.ref .methodExit = none

/-- Where a stop of a step begins to handle commands nothing is left of the request; and since the stop before, a
breakpoint was hit or a step requested. -/
def FinishesClean (s : StepSession Tid Class Method) (e : Tid × StepOp Method)
    (s' : StepSession Tid Class Method) : Prop :=
  match e.2, s.acts e.1 with
  | .handleEvents, a :: _ => a.callback.stopsStep = true → s'.stepper.Clean ∧ s.settled = false
  | _, _ => True

/-- The callback of a step has its body ahead, or its stop. -/
def StepActivation.ahead (a : StepActivation Method) : Bool :=
  a.callback.steps && (a.pc = .entered || a.pc = .locked || a.pc = .stopping)

/-- `cb_single_step` has cleaned up and goes on to handle commands. -/
def StepActivation.cleaned (a : StepActivation Method) : Bool := a.callback = .cbSingleStep && a.pc = .stopping

/-- No other callback of a step on any thread has its body or its stop ahead. -/
def Alone (s : StepSession Tid Class Method) (t : Tid) (rest : List (StepActivation Method)) : Prop :=
  (∀ b ∈ rest, b.ahead = false) ∧ ∀ u, u ≠ t → ∀ b ∈ s.acts u, b.ahead = false

/-- No step ends in `cb_method_exit`.  When `cb_single_step` cleans up, no other callback of a step is on its way.  No
step is requested while `cb_single_step` goes on to handle commands. -/
def StepCondition (jvm : Jvm Class Method) (s : StepSession Tid Class Method) (e : Tid × StepOp Method)
    (_ : StepSession Tid Class Method) : Prop :=
  match e.2, s.acts e.1 with
  | .handleEvents, a :: _ => a.callback ≠ .cbMethodExit
  | .body, a :: rest => a.callback = .cbSingleStep →
      (s.stepper.cbSingleStep jvm a.frameCount a.method a.location).2 = true → Alone s e.1 rest
  | .nextLine _ _, _ => ∀ t, ∀ a ∈ s.acts t, a.cleaned = false
  | _, _ => True

end Promise

/-! ## The callbacks and the globals -/

section Stepper

variable {jvm : Jvm Class Method} {d d' : Stepper Class Method}

/-- `cb_single_step` cleans up before it stops. -/
theorem clean_of_cbSingleStep {frameCount location : ℕ} {method : Method}
    (hstop : (d.cbSingleStep jvm frameCount method location).2 = true) :
    (d.cbSingleStep jvm frameCount method location).1.Clean := by
  unfold Stepper.cbSingleStep at hstop ⊢
  split_ifs with hother hhere
  · rw [if_pos hother] at hstop
    cases hstop
  · exact ⟨rfl, rfl, by simp, by simp⟩
  · rw [if_neg hother, if_neg hhere] at hstop
    cases hstop

/-- The callbacks of a step request set and clear only `single_step` and `method_exit`. -/
theorem call_ref {callback : Callback} {frameCount location : ℕ} {method : Method} {slot : Slot}
    (hss : slot ≠ .singleStep) (hme : slot ≠ .methodExit) :
    (d.call jvm callback frameCount method location).1.events.ref slot = d.events.ref slot := by
  cases callback with
  | cbBreakpoint => rfl
  | cbMethodExit => rfl
  | cbSingleStep =>
    unfold Stepper.call Stepper.cbSingleStep
    split_ifs
    · simp [hss, hme]
    · simp [hss, hme]
    · rfl
  | checkNestedMethodReturn previousFrameCount =>
    unfold Stepper.call Stepper.checkNestedMethodReturn
    dsimp only
    split_ifs
    · simp [hss, hme]
    · rfl

theorem nextLine_ref {method : Method} {location : ℕ} (h : d.nextLine jvm method location = some d') {slot : Slot}
    (hss : slot ≠ .singleStep) (hme : slot ≠ .methodExit) : d'.events.ref slot = d.events.ref slot := by
  obtain ⟨lineNums, -, ⟨ln, -, hevents, -, -⟩ | ⟨-, hevents, -, -⟩⟩ := Stepper.nextLine_cases jvm h
  · rw [hevents]
    simp [hss, hme]
  · rw [hevents]
    simp [hme]

/-- A callback that is not of a step request does nothing. -/
theorem call_of_not_steps {callback : Callback} (hsteps : callback.steps = false) {frameCount location : ℕ}
    {method : Method} : d.call jvm callback frameCount method location = (d, false) := by
  cases callback with
  | cbBreakpoint => rfl
  | _ => cases hsteps

end Stepper

/-! ## The invariant -/

section Invariant

/-- The slots of other events hold `cb_breakpoint` only.  Where `cb_single_step` has cleaned up, and where a step has
finished, nothing is installed and no other callback of a step is on its way. -/
structure StepInv (s : StepSession Tid Class Method) : Prop where
  refs : ∀ slot, slot ≠ .singleStep → slot ≠ .methodExit → ∀ callback,
    s.stepper.events.ref slot = some callback → callback.steps = false
  cleaned : ∀ t, (∃ a ∈ s.acts t, a.cleaned = true) → s.stepper.Clean ∧
    (s.acts t).countP StepActivation.ahead ≤ 1 ∧ ∀ u, u ≠ t → (s.acts u).countP StepActivation.ahead = 0
  settled : s.settled = true → s.stepper.Clean ∧ ∀ t, (s.acts t).countP StepActivation.ahead = 0

/-- The callbacks `l'` have no more ahead than `l`. -/
structure Within (l' l : List (StepActivation Method)) : Prop where
  cleaned : (∃ a ∈ l', a.cleaned = true) → ∃ a ∈ l, a.cleaned = true
  count : l'.countP StepActivation.ahead ≤ l.countP StepActivation.ahead

variable {jvm : Jvm Class Method} {s s' : StepSession Tid Class Method} {a a' : StepActivation Method}
  {l l' rest : List (StepActivation Method)} {t : Tid}

theorem StepActivation.ahead_of_cleaned (ha : a.cleaned = true) : a.ahead = true := by
  unfold cleaned at ha
  rw [Bool.and_eq_true, decide_eq_true_eq, decide_eq_true_eq] at ha
  unfold ahead
  rw [ha.1, ha.2]
  rfl

theorem Within.refl (l : List (StepActivation Method)) : Within l l := ⟨id, le_rfl⟩

theorem Within.head (hcleaned : a'.cleaned = true → a.cleaned = true) (hahead : a'.ahead = true → a.ahead = true) :
    Within (a' :: rest) (a :: rest) := by
  constructor
  · rintro ⟨b, hb, hclean⟩
    rcases List.mem_cons.mp hb with rfl | hb
    · exact ⟨a, List.mem_cons_self, hcleaned hclean⟩
    · exact ⟨b, List.mem_cons_of_mem _ hb, hclean⟩
  · rw [List.countP_cons, List.countP_cons]
    by_cases ha' : a'.ahead = true
    · rw [if_pos ha', if_pos (hahead ha')]
    · rw [if_neg ha']
      omega

theorem Within.pop : Within rest (a :: rest) := by
  constructor
  · rintro ⟨b, hb, hclean⟩
    exact ⟨b, List.mem_cons_of_mem _ hb, hclean⟩
  · rw [List.countP_cons]
    omega

theorem Within.push (ha : a.ahead = false) : Within (a :: l) l := by
  constructor
  · rintro ⟨b, hb, hclean⟩
    rcases List.mem_cons.mp hb with rfl | hb
    · rw [StepActivation.ahead_of_cleaned hclean] at ha
      cases ha
    · exact ⟨b, hb, hclean⟩
  · rw [List.countP_cons, if_neg (by rw [ha]; decide)]
    exact le_rfl

theorem Within.update [DecidableEq Tid] {acts : Tid → List (StepActivation Method)} (h : Within l' (acts t)) (u : Tid) :
    Within (Function.update acts t l' u) (acts u) := by
  by_cases hu : u = t
  · subst hu
    rw [Function.update_self]
    exact h
  · rw [Function.update_of_ne hu]
    exact .refl _

/-- Nothing comes ahead, and the debugger is left alone. -/
theorem StepInv.within (hs : StepInv s) (hstepper : s'.stepper = s.stepper)
    (hsettled : s'.settled = true → s.settled = true) (hacts : ∀ u, Within (s'.acts u) (s.acts u)) : StepInv s' := by
  refine ⟨?_, fun t hcleaned => ?_, fun hset => ?_⟩
  · rw [hstepper]
    exact hs.refs
  · obtain ⟨hclean, hone, hothers⟩ := hs.cleaned t ((hacts t).cleaned hcleaned)
    rw [hstepper]
    refine ⟨hclean, (hacts t).count.trans hone, fun u hu => ?_⟩
    have hle := (hacts u).count
    have hzero := hothers u hu
    omega
  · obtain ⟨hclean, hzero⟩ := hs.settled (hsettled hset)
    rw [hstepper]
    refine ⟨hclean, fun u => ?_⟩
    have hle := (hacts u).count
    have hu := hzero u
    omega

/-- While a callback of a step has its body ahead, `cb_single_step` has not cleaned up and no step is finished. -/
theorem StepInv.not_cleaned (hs : StepInv s) (hacts : s.acts t = a :: rest) (hahead : a.ahead = true)
    (hnot : a.cleaned = false) : (∀ u, ¬ ∃ b ∈ s.acts u, b.cleaned = true) ∧ s.settled = false := by
  have hcount : (s.acts t).countP StepActivation.ahead = rest.countP StepActivation.ahead + 1 := by
    rw [hacts, List.countP_cons, if_pos hahead]
  constructor
  · rintro u ⟨b, hb, hclean⟩
    obtain ⟨-, hone, hothers⟩ := hs.cleaned u ⟨b, hb, hclean⟩
    by_cases hu : u = t
    · subst hu
      rw [hacts] at hb
      rcases List.mem_cons.mp hb with rfl | hb
      · rw [hclean] at hnot
        cases hnot
      · have hpos : 0 < rest.countP StepActivation.ahead :=
          List.countP_pos_iff.mpr ⟨b, hb, StepActivation.ahead_of_cleaned hclean⟩
        omega
    · have hzero := hothers t (Ne.symm hu)
      omega
  · by_contra hset
    rw [Bool.not_eq_false] at hset
    have hzero := (hs.settled hset).2 t
    omega

/-- Where no clean-up has been made and no step has finished, nothing more is asked. -/
theorem StepInv.of_dirty (hrefs : ∀ slot, slot ≠ .singleStep → slot ≠ .methodExit → ∀ callback,
    s.stepper.events.ref slot = some callback → callback.steps = false)
    (hnone : ∀ u, ¬ ∃ b ∈ s.acts u, b.cleaned = true) (hset : s.settled = false) : StepInv s := by
  refine ⟨hrefs, fun u hcleaned => absurd hcleaned (hnone u), fun hset' => ?_⟩
  rw [hset] at hset'
  cases hset'

theorem stepInv_init : StepInv (StepSession.init : StepSession Tid Class Method) := by
  refine ⟨fun slot hss hme callback href => ?_, fun t hcleaned => ?_, fun hset => ?_⟩
  · have hbp : callback = .cbBreakpoint := by
      cases slot with
      | breakpoint => exact (Option.some.inj href).symm
      | singleStep => exact absurd rfl hss
      | methodExit => exact absurd rfl hme
      | _ => cases href
    rw [hbp]
    rfl
  · obtain ⟨a, ha, -⟩ := hcleaned
    cases ha
  · cases hset

/-- A step is requested. -/
theorem StepInv.nextLine (hs : StepInv s) {method : Method} {location : ℕ} {d : Stepper Class Method}
    (hd : s.stepper.nextLine jvm method location = some d) (hC : ∀ t, ∀ a ∈ s.acts t, a.cleaned = false) :
    StepInv { s with stepper := d, settled := false } := by
  refine StepInv.of_dirty (fun slot hss hme callback href => ?_) (fun u hcleaned => ?_) rfl
  · rw [nextLine_ref hd hss hme] at href
    exact hs.refs slot hss hme callback href
  · obtain ⟨b, hb, hclean⟩ := hcleaned
    rw [hC u b hb] at hclean
    cases hclean

end Invariant

/-! ## Steps -/

section Steps

variable [DecidableEq Tid] {jvm : Jvm Class Method} {s s' : StepSession Tid Class Method}
  {a : StepActivation Method} {rest : List (StepActivation Method)} {t : Tid}

theorem StepInv.move (hs : StepInv s) (hacts : s.acts t = a :: rest) {pc : StepPc}
    (hcleaned : ({ a with pc := pc } : StepActivation Method).cleaned = true → a.cleaned = true)
    (hahead : ({ a with pc := pc } : StepActivation Method).ahead = true → a.ahead = true) {m : Monitor Tid} :
    StepInv { s.move t a rest pc with lock := m } :=
  hs.within rfl id (Within.update (by rw [hacts]; exact .head hcleaned hahead))

/-- Past the stop nothing is ahead. -/
theorem StepInv.moveOn (hs : StepInv s) (hacts : s.acts t = a :: rest) {pc : StepPc} (hpc : pc ≠ .entered)
    (hpc' : pc ≠ .locked) (hpc'' : pc ≠ .stopping) {m : Monitor Tid} :
    StepInv { s.move t a rest pc with lock := m } := by
  refine hs.move hacts (fun hclean => ?_) fun hahead => ?_
  · unfold StepActivation.cleaned at hclean
    simp [hpc''] at hclean
  · unfold StepActivation.ahead at hahead
    simp [hpc, hpc', hpc''] at hahead

/-- The innermost callback has not cleaned up, like the others. -/
theorem not_cleaned_move (hacts : s.acts t = a :: rest) (hnone : ∀ u, ¬ ∃ b ∈ s.acts u, b.cleaned = true) {pc : StepPc}
    (hpc : ({ a with pc := pc } : StepActivation Method).cleaned = false) (u : Tid) :
    ¬ ∃ b ∈ (s.move t a rest pc).acts u, b.cleaned = true := by
  rintro ⟨b, hb, hclean⟩
  have hb : b ∈ Function.update s.acts t ({ a with pc := pc } :: rest) u := hb
  by_cases hu : u = t
  · subst hu
    rw [Function.update_self] at hb
    rcases List.mem_cons.mp hb with rfl | hb
    · rw [hpc] at hclean
      cases hclean
    · exact hnone u ⟨b, by rw [hacts]; exact List.mem_cons_of_mem _ hb, hclean⟩
  · rw [Function.update_of_ne hu] at hb
    exact hnone u ⟨b, hb, hclean⟩

/-- `cb_single_step` cleans up alone. -/
theorem StepInv.cleanUp (hs : StepInv s) (hnone : ∀ u, u ≠ t → ¬ ∃ b ∈ s.acts u, b.cleaned = true)
    (hset : s.settled = false) (halone : Alone s t rest) {d : Stepper Class Method} (hclean : d.Clean)
    (hrefs : ∀ slot, slot ≠ .singleStep → slot ≠ .methodExit → d.events.ref slot = s.stepper.events.ref slot) :
    StepInv { s.move t a rest .stopping with stepper := d } := by
  obtain ⟨hrest, hothers⟩ := halone
  have hself : (Function.update s.acts t ({ a with pc := .stopping } :: rest) t).countP StepActivation.ahead ≤ 1 := by
    have hzero : rest.countP StepActivation.ahead = 0 :=
      List.countP_eq_zero.mpr fun b hb => by rw [hrest b hb]; decide
    rw [Function.update_self, List.countP_cons]
    split_ifs <;> omega
  have hother : ∀ u, u ≠ t →
      (Function.update s.acts t ({ a with pc := .stopping } :: rest) u).countP StepActivation.ahead = 0 := by
    intro u hu
    rw [Function.update_of_ne hu]
    exact List.countP_eq_zero.mpr fun b hb => by rw [hothers u hu b hb]; decide
  refine ⟨fun slot hss hme callback href => ?_, fun u hcleaned => ?_, fun hset' => ?_⟩
  · rw [hrefs slot hss hme] at href
    exact hs.refs slot hss hme callback href
  · by_cases hu : u = t
    · subst hu
      exact ⟨hclean, hself, hother⟩
    · have hsame : (s.move t a rest .stopping).acts u = s.acts u := Function.update_of_ne hu _ _
      exact absurd (hsame ▸ hcleaned) (hnone u hu)
  · have hset'' : s.settled = true := hset'
    rw [hset] at hset''
    cases hset''

/-- The body of a callback. -/
theorem StepInv.body (hs : StepInv s) (hacts : s.acts t = a :: rest) (hbody : a.atBody = true)
    (hC : a.callback = .cbSingleStep →
      (s.stepper.cbSingleStep jvm a.frameCount a.method a.location).2 = true → Alone s t rest) :
    StepInv { s.move t a rest (a.afterBody (s.stepper.call jvm a.callback a.frameCount a.method a.location).2) with
      stepper := (s.stepper.call jvm a.callback a.frameCount a.method a.location).1 } := by
  have hpc : a.pc = if a.callback.locks then .locked else .entered := by
    unfold StepActivation.atBody at hbody
    exact of_decide_eq_true hbody
  by_cases hsteps : a.callback.steps = true
  · have hahead : a.ahead = true := by
      unfold StepActivation.ahead
      rw [hsteps, hpc]
      cases a.callback.locks <;> rfl
    have hnot : a.cleaned = false := by
      unfold StepActivation.cleaned
      rw [hpc]
      cases a.callback.locks <;> simp
    obtain ⟨hnone, hset⟩ := hs.not_cleaned hacts hahead hnot
    have hrefs : ∀ slot, slot ≠ .singleStep → slot ≠ .methodExit →
        (s.stepper.call jvm a.callback a.frameCount a.method a.location).1.events.ref slot =
          s.stepper.events.ref slot := fun slot hss hme => call_ref hss hme
    by_cases hstop : a.callback = .cbSingleStep ∧
        (s.stepper.cbSingleStep jvm a.frameCount a.method a.location).2 = true
    · obtain ⟨hcb, hstops⟩ := hstop
      have hcall : s.stepper.call jvm a.callback a.frameCount a.method a.location =
          s.stepper.cbSingleStep jvm a.frameCount a.method a.location := by rw [hcb]; rfl
      have hafter : a.afterBody true = .stopping := by
        unfold StepActivation.afterBody
        rw [hcb]
        rfl
      rw [hcall] at hrefs ⊢
      rw [hstops, hafter]
      exact hs.cleanUp (fun u _ => hnone u) hset (hC hcb hstops) (clean_of_cbSingleStep hstops) hrefs
    · have hafter : ({ a with pc := a.afterBody (s.stepper.call jvm a.callback a.frameCount a.method a.location).2 } :
          StepActivation Method).cleaned = false := by
        unfold StepActivation.cleaned StepActivation.afterBody
        cases hcb : a.callback with
        | cbSingleStep =>
          have hno : (s.stepper.call jvm .cbSingleStep a.frameCount a.method a.location).2 = false := by
            rw [← Bool.not_eq_true]
            exact fun hyes => hstop ⟨hcb, hyes⟩
          rw [hno]
          rfl
        | _ => rfl
      refine StepInv.of_dirty (fun slot hss hme callback href => ?_) (not_cleaned_move hacts hnone hafter) hset
      rw [hrefs slot hss hme] at href
      exact hs.refs slot hss hme callback href
  · rw [Bool.not_eq_true] at hsteps
    rw [call_of_not_steps hsteps]
    have hbp : a.callback = .cbBreakpoint := by
      cases hcb : a.callback with
      | cbBreakpoint => rfl
      | _ => rw [hcb] at hsteps; cases hsteps
    refine hs.move hacts (fun hclean => ?_) (fun hahead => ?_) (m := s.lock)
    · unfold StepActivation.cleaned at hclean
      simp [hbp] at hclean
    · unfold StepActivation.ahead at hahead
      simp [hsteps] at hahead

/-- The stop begins to handle commands. -/
theorem StepInv.handleEvents (hs : StepInv s) (hacts : s.acts t = a :: rest) (hpc : a.pc = .stopping)
    (hC : a.callback ≠ .cbMethodExit) :
    StepInv { s.move t a rest .handling with settled := s.settled || a.callback.stopsStep } := by
  have hmove : StepInv (s.move t a rest .handling) :=
    hs.moveOn hacts (by decide) (by decide) (by decide) (m := s.lock)
  refine ⟨hmove.refs, hmove.cleaned, fun hset => ?_⟩
  rcases Bool.or_eq_true_iff.mp hset with hset | hstops
  · exact hmove.settled hset
  · -- only `cb_single_step` is left, and it has cleaned up
    have hcb : a.callback = .cbSingleStep := by
      cases hcb : a.callback with
      | cbSingleStep => rfl
      | cbMethodExit => exact absurd hcb hC
      | _ => rw [hcb] at hstops; cases hstops
    have hcleaned : a.cleaned = true := by
      unfold StepActivation.cleaned
      rw [hcb, hpc]
      rfl
    obtain ⟨hclean, hone, hothers⟩ := hs.cleaned t ⟨a, by rw [hacts]; exact List.mem_cons_self, hcleaned⟩
    refine ⟨hclean, fun u => ?_⟩
    show (Function.update s.acts t (_ :: rest) u).countP StepActivation.ahead = 0
    by_cases hu : u = t
    · subst hu
      rw [hacts, List.countP_cons, if_pos (StepActivation.ahead_of_cleaned hcleaned)] at hone
      have hhandling : ({ a with pc := .handling } : StepActivation Method).ahead = false := by
        unfold StepActivation.ahead
        simp
      rw [Function.update_self, List.countP_cons, if_neg (by rw [hhandling]; decide)]
      omega
    · rw [Function.update_of_ne hu]
      exact hothers u hu

/-- JVMTI posts an event for which a callback is installed. -/
theorem StepInv.deliver (hs : StepInv s) {slot : Slot} {callback : Callback}
    (href : s.stepper.events.ref slot = some callback) (frameCount : ℕ) (method : Method) (location : ℕ) :
    StepInv { s with
      acts := Function.update s.acts t (⟨callback, .entered, frameCount, method, location⟩ :: s.acts t)
      settled := s.settled && slot ≠ .breakpoint } := by
  by_cases hslot : slot = .singleStep ∨ slot = .methodExit
  · -- nothing is clean while the callback is installed
    have hdirty : ¬ s.stepper.Clean := by
      rintro ⟨-, -, hss, hme⟩
      rcases hslot with rfl | rfl
      · rw [hss] at href
        cases href
      · rw [hme] at href
        cases href
    refine ⟨hs.refs, fun u hcleaned => ?_, fun hset => ?_⟩
    · obtain ⟨b, hb, hclean⟩ := hcleaned
      have hb : b ∈ Function.update s.acts t (⟨callback, .entered, frameCount, method, location⟩ :: s.acts t) u := hb
      have hmem : b ∈ s.acts u := by
        by_cases hu : u = t
        · subst hu
          rw [Function.update_self] at hb
          rcases List.mem_cons.mp hb with rfl | hb
          · simp [StepActivation.cleaned] at hclean
          · exact hb
        · rwa [Function.update_of_ne hu] at hb
      exact absurd (hs.cleaned u ⟨b, hmem, hclean⟩).1 hdirty
    · have hset := (Bool.and_eq_true_iff.mp hset).1
      exact absurd (hs.settled hset).1 hdirty
  · rw [not_or] at hslot
    have hsteps := hs.refs slot hslot.1 hslot.2 callback href
    refine hs.within rfl (fun hset => (Bool.and_eq_true_iff.mp hset).1) (Within.update (Within.push ?_))
    unfold StepActivation.ahead
    rw [hsteps]
    rfl

theorem stepInv_act {op : StepOp Method} (hs : StepInv s) (hacts : s.acts t = a :: rest)
    (hC : StepCondition jvm s (t, op) s') (h : actStep jvm s t a rest op = some s') : StepInv s' := by
  unfold StepCondition at hC
  rw [hacts] at hC
  cases op with
  | deliver slot frameCount method location => cases h
  | lock =>
    rw [actStep, Option.ite_none_right_eq_some] at h
    obtain ⟨⟨hpc, -⟩, h⟩ := h
    obtain ⟨m, -, rfl⟩ := Option.map_eq_some_iff.mp h
    refine hs.move hacts (fun hclean => ?_) fun hahead => ?_
    · simp [StepActivation.cleaned] at hclean
    · unfold StepActivation.ahead at hahead ⊢
      rw [hpc]
      simpa using hahead
  | body =>
    rw [actStep, Option.ite_none_right_eq_some] at h
    obtain ⟨hbody, h⟩ := h
    obtain rfl := Option.some.inj h
    exact hs.body hacts hbody hC
  | handlerResumes =>
    rw [actStep, Option.ite_none_right_eq_some] at h
    obtain rfl := Option.some.inj h.2
    exact hs.moveOn hacts (by decide) (by decide) (by decide) (m := s.lock)
  | handleEvents =>
    rw [actStep, Option.ite_none_right_eq_some] at h
    obtain ⟨hpc, h⟩ := h
    obtain rfl := Option.some.inj h
    exact hs.handleEvents hacts hpc hC
  | nextLine method location =>
    rw [actStep, Option.ite_none_right_eq_some] at h
    obtain ⟨d, hd, rfl⟩ := Option.map_eq_some_iff.mp h.2
    exact hs.nextLine hd hC
  | resume =>
    rw [actStep, Option.ite_none_right_eq_some] at h
    obtain rfl := Option.some.inj h.2
    exact hs.moveOn hacts (by decide) (by decide) (by decide) (m := s.lock)
  | unlock =>
    rw [actStep, Option.ite_none_right_eq_some] at h
    obtain ⟨m, -, rfl⟩ := Option.map_eq_some_iff.mp h.2
    exact hs.moveOn hacts (by decide) (by decide) (by decide)
  | raise =>
    rw [actStep, Option.ite_none_left_eq_some] at h
    obtain rfl := Option.some.inj h.2
    exact hs.moveOn hacts (by decide) (by decide) (by decide) (m := s.lock)
  | leave =>
    rw [actStep, Option.ite_none_right_eq_some] at h
    obtain rfl := Option.some.inj h.2
    exact hs.within rfl id (Within.update (by rw [hacts]; exact .pop))

/-- What one operation of a thread is: an event that is posted, or a step of the innermost callback. -/
theorem requestStep_cases {t : Tid} {op : StepOp Method} (h : requestStep jvm s (t, op) = some s') :
    (∃ slot frameCount method location callback, op = .deliver slot frameCount method location ∧
      s.stepper.events.ref slot = some callback ∧ s' = { s with
        acts := Function.update s.acts t (⟨callback, .entered, frameCount, method, location⟩ :: s.acts t)
        settled := s.settled && slot ≠ .breakpoint }) ∨
    ∃ a rest, s.acts t = a :: rest ∧ actStep jvm s t a rest op = some s' := by
  cases op with
  | deliver slot frameCount method location =>
    simp only [requestStep, Option.ite_none_right_eq_some] at h
    obtain ⟨callback, href, rfl⟩ := Option.map_eq_some_iff.mp h.2
    exact Or.inl ⟨slot, frameCount, method, location, callback, rfl, href, rfl⟩
  | _ =>
    cases hacts : s.acts t with
    | nil =>
      simp only [requestStep, hacts] at h
      cases h
    | cons a rest =>
      simp only [requestStep, hacts] at h
      exact Or.inr ⟨a, rest, rfl, h⟩

theorem stepInv_step (s : StepSession Tid Class Method) (e : Tid × StepOp Method) (s' : StepSession Tid Class Method)
    (hs : StepInv s) (hC : StepCondition jvm s e s') (h : requestStep jvm s e = some s') : StepInv s' := by
  obtain ⟨t, op⟩ := e
  rcases requestStep_cases h with ⟨slot, frameCount, method, location, callback, -, href, rfl⟩ | ⟨a, rest, hacts, h⟩
  · exact hs.deliver href frameCount method location
  · exact stepInv_act hs hacts hC h

theorem finishesClean_step (s : StepSession Tid Class Method) (e : Tid × StepOp Method)
    (s' : StepSession Tid Class Method) (hs : StepInv s) (hC : StepCondition jvm s e s')
    (h : requestStep jvm s e = some s') : FinishesClean s e s' := by
  obtain ⟨t, op⟩ := e
  rcases requestStep_cases h with ⟨slot, frameCount, method, location, callback, rfl, -, -⟩ | ⟨a, rest, hacts, hact⟩
  · exact trivial
  · cases op with
    | handleEvents =>
      unfold StepCondition at hC
      unfold FinishesClean
      rw [hacts] at hC ⊢
      intro hstops
      rw [actStep, Option.ite_none_right_eq_some] at hact
      obtain ⟨hpc, hact⟩ := hact
      obtain rfl := Option.some.inj hact
      have hcb : a.callback = .cbSingleStep := by
        cases hcb : a.callback with
        | cbSingleStep => rfl
        | cbMethodExit => exact absurd hcb hC
        | _ => rw [hcb] at hstops; cases hstops
      have hcleaned : a.cleaned = true := by
        unfold StepActivation.cleaned
        rw [hcb, hpc]
        rfl
      refine ⟨(hs.cleaned t ⟨a, by rw [hacts]; exact List.mem_cons_self, hcleaned⟩).1, ?_⟩
      by_contra hset
      rw [Bool.not_eq_false] at hset
      have hzero := (hs.settled hset).2 t
      rw [hacts, List.countP_cons, if_pos (StepActivation.ahead_of_cleaned hcleaned)] at hzero
      omega
    | _ => exact trivial

/-- **A finished step leaves no stepping state behind** in every run that meets the condition. -/
theorem finishesClean_of_condition (jvm : Jvm Class Method) (es : List (Tid × StepOp Method))
    (h : EachStep (requestStep jvm) (StepCondition jvm) StepSession.init es) :
    EachStep (requestStep jvm) FinishesClean StepSession.init es :=
  eachStep_of_inv stepInv_step finishesClean_step es StepSession.init stepInv_init h

/-- A breakpoint on line 10, `next_line()`, and the stop on line 11. -/
theorem nextLine_finishesClean : EachStep (requestStep mainJvm) FinishesClean StepSession.init
    [((), .deliver .breakpoint 1 () 0), ((), .lock), ((), .body), ((), .handleEvents), ((), .nextLine () 0),
      ((), .resume), ((), .unlock), ((), .leave), ((), .deliver .singleStep 1 () 5), ((), .lock), ((), .body),
      ((), .handleEvents)] := by
  refine finishesClean_of_condition mainJvm _ ?_
  refine eachStep_cons rfl trivial <| eachStep_cons rfl trivial <| eachStep_cons rfl (fun hcb => by cases hcb) <|
    eachStep_cons rfl (fun hcb => by cases hcb) <| eachStep_cons rfl (fun t a ha => ?_) <|
    eachStep_cons rfl trivial <| eachStep_cons rfl trivial <| eachStep_cons rfl trivial <|
    eachStep_cons rfl trivial <| eachStep_cons rfl trivial <| eachStep_cons rfl (fun _ _ => ?_) <|
    eachStep_cons rfl (fun hcb => by cases hcb) trivial
  · obtain rfl := List.mem_singleton.mp ha
    rfl
  · exact ⟨fun b hb => absurd hb List.not_mem_nil, fun u hu => absurd rfl hu⟩

/-- A breakpoint on line 11, the last one, `next_line()`, and the stop of `cb_method_exit`. -/
theorem lastLine_not_finishesClean : ¬ EachStep (requestStep mainJvm) FinishesClean StepSession.init
    [((), .deliver .breakpoint 1 () 5), ((), .lock), ((), .body), ((), .handleEvents), ((), .nextLine () 5),
      ((), .resume), ((), .unlock), ((), .leave), ((), .deliver .methodExit 1 () 0), ((), .lock), ((), .body),
      ((), .handleEvents)] := by
  rw [eachStep_iff]
  intro hclean
  have hrun : run (requestStep mainJvm) StepSession.init
      [((), .deliver .breakpoint 1 () 5), ((), .lock), ((), .body), ((), .handleEvents), ((), .nextLine () 5),
        ((), .resume), ((), .unlock), ((), .leave), ((), .deliver .methodExit 1 () 0), ((), .lock), ((), .body)] =
      some ⟨_, _, _, _⟩ := rfl
  have hstop := hclean _ _ (List.prefix_refl _) _ _ hrun rfl rfl
  exact absurd hstop.1.methodExit (by decide)

/-- On the way to its stop `cb_method_exit` leaves the debugger alone. -/
theorem actStep_methodExit {op : StepOp Method} (hop : op = .lock ∨ op = .body ∨ op = .handleEvents)
    (hacts : s.acts t = a :: rest) (hcb : a.callback = .cbMethodExit) (h : requestStep jvm s (t, op) = some s') :
    s'.stepper = s.stepper ∧ ∃ a', s'.acts t = a' :: rest ∧ a'.callback = .cbMethodExit := by
  have hmoved : ∀ pc, (s.move t a rest pc).acts t = { a with pc := pc } :: rest := fun pc => Function.update_self ..
  rcases requestStep_cases h with ⟨slot, n, m, l, callback, rfl, -, -⟩ | ⟨b, rest', hacts', hact⟩
  · simp at hop
  · obtain ⟨rfl, rfl⟩ := List.cons.inj (hacts.symm.trans hacts')
    rcases hop with rfl | rfl | rfl
    · rw [actStep, Option.ite_none_right_eq_some] at hact
      obtain ⟨m, -, rfl⟩ := Option.map_eq_some_iff.mp hact.2
      exact ⟨rfl, _, hmoved _, hcb⟩
    · rw [actStep, Option.ite_none_right_eq_some] at hact
      obtain rfl := Option.some.inj hact.2
      exact ⟨by rw [hcb]; rfl, _, hmoved _, hcb⟩
    · rw [actStep, Option.ite_none_right_eq_some] at hact
      obtain rfl := Option.some.inj hact.2
      exact ⟨rfl, _, hmoved _, hcb⟩

/-- `cb_method_exit` does not clean up: what it was called through is still installed when it handles commands. -/
theorem methodExit_not_clean {frameCount location : ℕ} {method : Method}
    (hinstalled : s.stepper.events.ref .methodExit = some .cbMethodExit)
    (hrun : run (requestStep jvm) s [(t, .deliver .methodExit frameCount method location), (t, .lock), (t, .body),
      (t, .handleEvents)] = some s') : ¬ s'.stepper.Clean := by
  simp only [run_cons, run_nil, Option.bind_eq_some_iff] at hrun
  obtain ⟨s1, h1, s2, h2, s3, h3, s4, h4, hend⟩ := hrun
  obtain rfl := Option.some.inj hend
  rcases requestStep_cases h1 with ⟨slot, n, m, l, callback, hop, href, rfl⟩ | ⟨a, rest, -, hact⟩
  · cases hop
    obtain rfl := Option.some.inj (hinstalled.symm.trans href)
    obtain ⟨hsame2, a2, hacts2, hcb2⟩ := actStep_methodExit (Or.inl rfl) (Function.update_self ..) rfl h2
    obtain ⟨hsame3, a3, hacts3, hcb3⟩ := actStep_methodExit (Or.inr (Or.inl rfl)) hacts2 hcb2 h3
    obtain ⟨hsame4, -⟩ := actStep_methodExit (Or.inr (Or.inr rfl)) hacts3 hcb3 h4
    intro hclean
    have hnone := hclean.methodExit
    rw [hsame4, hsame3, hsame2, hinstalled] at hnone
    cases hnone
  · cases hact

end Steps

end YellowTree
