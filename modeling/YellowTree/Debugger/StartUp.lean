import YellowTree.Lib.Transition
import YellowTree.Lib.WaitMonitor

/-!
# YellowTree.Debugger.StartUp — `cbVMInit` and the command thread around `thread_resume_monitor`

`cbVMInit` starts the command thread, and then enters `thread_resume_monitor`, waits for a notification and exits.
`g`, called by the command thread while `debug_thread` is nil, enters the monitor, notifies and exits.  A notification
is not remembered, and the wait does not test whether one was given already.

* `resumeKept_iff`: no resume is lost, along a run, exactly when each such `g` notifies after `cbVMInit` has begun to
  wait.
* `VmBlocks.run`: until a notification, `cbVMInit` stays where it is or on the way there.
-/

namespace YellowTree

open Transition WaitMonitor

/-! ## The two threads -/

section StartUp

inductive Party where
  | vmInit
  | command
  deriving DecidableEq

/-- The next call of `cbVMInit`; `waiting` inside of RawMonitorWait. -/
inductive VmPc where
  | runAgentThread
  | rawMonitorEnter
  | rawMonitorWait
  | waiting
  | rawMonitorExit
  | returned
  deriving DecidableEq

/-- The command thread: its next line in `notify_without_lock`, or running a script or a command. -/
inductive CommandPc where
  | notStarted
  | running
  | lock
  | notify
  | unlock
  deriving DecidableEq

/-- `notified`: a `g` that found `debug_thread` nil has notified. -/
structure StartUp where
  monitor : WaitMonitor Party
  vm : VmPc
  command : CommandPc
  debugThread : Bool
  notified : Bool
  deriving DecidableEq

def StartUp.init : StartUp := ⟨.free, .runAgentThread, .notStarted, false, false⟩

/-- The next call of `cbVMInit`; a call of `g`; the next line of `notify_without_lock`, where the notification wakes
some thread; another thread sets or clears `debug_thread`. -/
inductive StartUpLabel where
  | vmInit
  | g
  | command
  | notify (wakes : Option Party)
  | debugThread (isSet : Bool)
  deriving DecidableEq

/-- `cbVMInit`, call by call. -/
def cbVMInit (s : StartUp) : Option StartUp :=
  match s.vm with
  | .runAgentThread => some { s with vm := .rawMonitorEnter, command := .running }
  | .rawMonitorEnter => (s.monitor.enter .vmInit).map fun m => { s with monitor := m, vm := .rawMonitorWait }
  | .rawMonitorWait => (s.monitor.wait .vmInit).map fun m => { s with monitor := m, vm := .waiting }
  | .waiting => (s.monitor.reacquire .vmInit).map fun m => { s with monitor := m, vm := .rawMonitorExit }
  | .rawMonitorExit => (s.monitor.exit .vmInit).map fun m => { s with monitor := m, vm := .returned }
  | .returned => none

/-- `g`: with `debug_thread` set the resume goes to the event queue of that thread. -/
def g (s : StartUp) : Option StartUp :=
  match s.command with
  | .running => some (if s.debugThread then s else { s with command := .lock })
  | _ => none

/-- `self:lock()` and `self:unlock()` of `notify_without_lock`. -/
def lockLine (s : StartUp) : Option StartUp :=
  match s.command with
  | .lock => (s.monitor.enter .command).map fun m => { s with monitor := m, command := .notify }
  | .unlock => (s.monitor.exit .command).map fun m => { s with monitor := m, command := .running }
  | _ => none

/-- `self:notify()`. -/
def notifyLine (s : StartUp) (wakes : Option Party) : Option StartUp :=
  match s.command with
  | .notify =>
    (s.monitor.notify .command wakes).map fun m => { s with monitor := m, command := .unlock, notified := true }
  | _ => none

def startUpStep (s : StartUp) : StartUpLabel → Option StartUp
  | .vmInit => cbVMInit s
  | .g => g s
  | .command => lockLine s
  | .notify wakes => notifyLine s wakes
  | .debugThread isSet => some { s with debugThread := isSet }

/-- `cbVMInit` is blocked in its wait, or has not come to it. -/
def VmBlocks (s : StartUp) : Prop :=
  match s.vm with
  | .runAgentThread | .rawMonitorEnter | .rawMonitorWait => True
  | .waiting => .vmInit ∈ s.monitor.waiting
  | .rawMonitorExit | .returned => False

/-- After a `g` that found `debug_thread` nil, `cbVMInit` neither is blocked nor will be. -/
def ResumeKept (s : StartUp) : Prop := s.notified = true → ¬ VmBlocks s

/-- `cbVMInit` has called RawMonitorWait. -/
def VmPc.hasWaited : VmPc → Bool
  | .runAgentThread | .rawMonitorEnter | .rawMonitorWait => false
  | .waiting | .rawMonitorExit | .returned => true

/-- A `g` that found `debug_thread` nil notifies after `cbVMInit` has called RawMonitorWait. -/
def NotifiesWaiter (s : StartUp) (e : StartUpLabel) (_ : StartUp) : Prop :=
  ∀ wakes, e = .notify wakes → s.vm.hasWaited = true

end StartUp

/-! ## Steps -/

section Steps

variable {s s' : StartUp} {e : StartUpLabel}

/-- Only `cbVMInit` ever waits. -/
def WaitLists (s : StartUp) : Prop := s.monitor.OnlyWaiter .vmInit (s.vm = .waiting)

theorem waitLists_init : WaitLists StartUp.init := onlyWaiter_free

/-- What a call of `cbVMInit` does. -/
theorem cbVMInit_cases (h : cbVMInit s = some s') :
    (s.vm = .runAgentThread ∧ s' = { s with vm := .rawMonitorEnter, command := .running }) ∨
    (s.vm = .rawMonitorEnter ∧ ∃ m, s.monitor.enter .vmInit = some m ∧
      s' = { s with monitor := m, vm := .rawMonitorWait }) ∨
    (s.vm = .rawMonitorWait ∧ ∃ m, s.monitor.wait .vmInit = some m ∧ s' = { s with monitor := m, vm := .waiting }) ∨
    (s.vm = .waiting ∧ ∃ m, s.monitor.reacquire .vmInit = some m ∧
      s' = { s with monitor := m, vm := .rawMonitorExit }) ∨
    (s.vm = .rawMonitorExit ∧ ∃ m, s.monitor.exit .vmInit = some m ∧
      s' = { s with monitor := m, vm := .returned }) := by
  unfold cbVMInit at h
  split at h
  case h_1 hvm => exact Or.inl ⟨hvm, (Option.some.inj h).symm⟩
  case h_2 hvm =>
    obtain ⟨m, hm, rfl⟩ := Option.map_eq_some_iff.mp h
    exact Or.inr (Or.inl ⟨hvm, m, hm, rfl⟩)
  case h_3 hvm =>
    obtain ⟨m, hm, rfl⟩ := Option.map_eq_some_iff.mp h
    exact Or.inr (Or.inr (Or.inl ⟨hvm, m, hm, rfl⟩))
  case h_4 hvm =>
    obtain ⟨m, hm, rfl⟩ := Option.map_eq_some_iff.mp h
    exact Or.inr (Or.inr (Or.inr (Or.inl ⟨hvm, m, hm, rfl⟩)))
  case h_5 hvm =>
    obtain ⟨m, hm, rfl⟩ := Option.map_eq_some_iff.mp h
    exact Or.inr (Or.inr (Or.inr (Or.inr ⟨hvm, m, hm, rfl⟩)))
  case h_6 => simp at h

/-- A step that leaves `cbVMInit`, the waiting threads and `notified` alone. -/
structure Quiet (s s' : StartUp) : Prop where
  vm : s'.vm = s.vm
  notified : s'.notified = s.notified
  waiting : s'.monitor.waiting = s.monitor.waiting
  woken : s'.monitor.woken = s.monitor.woken

theorem quiet_g (h : g s = some s') : Quiet s s' := by
  unfold g at h
  split at h
  · obtain rfl := Option.some.inj h
    split_ifs <;> exact ⟨rfl, rfl, rfl, rfl⟩
  · simp at h

theorem quiet_lockLine (h : lockLine s = some s') : Quiet s s' := by
  unfold lockLine at h
  split at h
  · obtain ⟨m, hm, rfl⟩ := Option.map_eq_some_iff.mp h
    obtain ⟨-, rfl⟩ := enter_eq_some.mp hm
    exact ⟨rfl, rfl, rfl, rfl⟩
  · obtain ⟨m, hm, rfl⟩ := Option.map_eq_some_iff.mp h
    obtain ⟨-, rfl⟩ := exit_eq_some.mp hm
    exact ⟨rfl, rfl, rfl, rfl⟩
  · simp at h

/-- Only `cbVMInit` and a notification are not quiet. -/
theorem quiet_step (hvm : e ≠ .vmInit) (hnotify : ∀ wakes, e ≠ .notify wakes) (h : startUpStep s e = some s') :
    Quiet s s' := by
  cases e with
  | vmInit => exact absurd rfl hvm
  | g => exact quiet_g h
  | command => exact quiet_lockLine h
  | notify wakes => exact absurd rfl (hnotify wakes)
  | debugThread isSet =>
    obtain rfl := Option.some.inj h
    exact ⟨rfl, rfl, rfl, rfl⟩

theorem Quiet.waitLists (h : Quiet s s') (hs : WaitLists s) : WaitLists s' := by
  unfold WaitLists
  rw [h.vm]
  exact hs.congr h.waiting h.woken

theorem Quiet.vmBlocks_iff (h : Quiet s s') : VmBlocks s' ↔ VmBlocks s := by
  unfold VmBlocks
  rw [h.vm, h.waiting]

theorem waitLists_cbVMInit (hs : WaitLists s) (h : cbVMInit s = some s') : WaitLists s' := by
  unfold WaitLists at hs
  rcases cbVMInit_cases h with ⟨hvm, rfl⟩ | ⟨hvm, m, hm, rfl⟩ | ⟨hvm, m, hm, rfl⟩ | ⟨hvm, m, hm, rfl⟩ |
    ⟨hvm, m, hm, rfl⟩
  · rw [hvm] at hs
    exact hs
  · rw [hvm] at hs
    obtain ⟨-, rfl⟩ := enter_eq_some.mp hm
    exact hs.congr rfl rfl
  · rw [hvm] at hs
    exact (hs.wait hm).1
  · rw [hvm] at hs
    exact (hs.reacquire hm).1
  · rw [hvm] at hs
    obtain ⟨-, rfl⟩ := exit_eq_some.mp hm
    exact hs.congr rfl rfl

/-- The notification wakes `cbVMInit` if it waits. -/
theorem notifyLine_eq {wakes : Option Party} (hs : WaitLists s) (h : notifyLine s wakes = some s') :
    s'.vm = s.vm ∧ s'.notified = true ∧ s'.monitor.waiting = [] ∧ WaitLists s' := by
  unfold notifyLine at h
  split at h
  · obtain ⟨m, hm, rfl⟩ := Option.map_eq_some_iff.mp h
    obtain ⟨hlists, hwaiting⟩ := hs.notify hm
    exact ⟨rfl, rfl, hwaiting, hlists⟩
  · simp at h

theorem waitLists_step (e : StartUpLabel) (hs : WaitLists s) (h : startUpStep s e = some s') : WaitLists s' := by
  by_cases hvm : e = .vmInit
  · subst hvm
    exact waitLists_cbVMInit hs h
  by_cases hnotify : ∃ wakes, e = .notify wakes
  · obtain ⟨wakes, rfl⟩ := hnotify
    exact (notifyLine_eq hs h).2.2.2
  · exact (quiet_step hvm (not_exists.mp hnotify) h).waitLists hs

/-- Past the wait, or woken in it, `cbVMInit` is not blocked again. -/
theorem not_vmBlocks_cbVMInit (hs : ¬ VmBlocks s) (h : cbVMInit s = some s') : ¬ VmBlocks s' := by
  unfold VmBlocks at hs
  rcases cbVMInit_cases h with ⟨hvm, -⟩ | ⟨hvm, -⟩ | ⟨hvm, -⟩ | ⟨-, m, -, rfl⟩ | ⟨-, m, -, rfl⟩
  · simp [hvm] at hs
  · simp [hvm] at hs
  · simp [hvm] at hs
  · exact id
  · exact id

/-- Blocked or on the way there, `cbVMInit` stays so by itself. -/
theorem vmBlocks_cbVMInit (hw : WaitLists s) (hs : VmBlocks s) (h : cbVMInit s = some s') : VmBlocks s' := by
  unfold VmBlocks at hs
  unfold WaitLists at hw
  rcases cbVMInit_cases h with ⟨-, rfl⟩ | ⟨-, m, -, rfl⟩ | ⟨-, m, hm, rfl⟩ | ⟨hvm, m, hm, -⟩ | ⟨hvm, -⟩
  · trivial
  · trivial
  · obtain ⟨-, rfl⟩ := wait_eq_some.mp hm
    exact List.mem_cons_self
  · rw [hvm] at hw
    have hwaiting := (hw.reacquire hm).2
    simp [hvm, hwaiting] at hs
  · simp [hvm] at hs

/-- Nothing but a notification releases `cbVMInit`. -/
theorem vmBlocks_step (hw : WaitLists s) (hs : VmBlocks s) (he : ∀ wakes, e ≠ .notify wakes)
    (h : startUpStep s e = some s') : VmBlocks s' := by
  by_cases hvm : e = .vmInit
  · subst hvm
    exact vmBlocks_cbVMInit hw hs h
  · exact (quiet_step hvm he h).vmBlocks_iff.mpr hs

theorem cbVMInit_notified (h : cbVMInit s = some s') : s'.notified = s.notified := by
  rcases cbVMInit_cases h with ⟨-, rfl⟩ | ⟨-, m, -, rfl⟩ | ⟨-, m, -, rfl⟩ | ⟨-, m, -, rfl⟩ |
    ⟨-, m, -, rfl⟩ <;> rfl

theorem resumeKept_step (e : StartUpLabel) (hw : WaitLists s) (hs : ResumeKept s) (hC : NotifiesWaiter s e s')
    (h : startUpStep s e = some s') : ResumeKept s' := by
  by_cases hvm : e = .vmInit
  · subst hvm
    intro hn
    exact not_vmBlocks_cbVMInit (hs (cbVMInit_notified h ▸ hn)) h
  by_cases hnotify : ∃ wakes, e = .notify wakes
  · obtain ⟨wakes, rfl⟩ := hnotify
    obtain ⟨hsame, -, hwaiting, -⟩ := notifyLine_eq hw h
    have hwaited := hC wakes rfl
    intro _ hblocks
    unfold VmBlocks at hblocks
    rw [hsame, hwaiting] at hblocks
    cases hpc : s.vm <;> simp [hpc, VmPc.hasWaited] at hwaited hblocks
  · have hquiet := quiet_step hvm (not_exists.mp hnotify) h
    intro hn hblocks
    exact hs (hquiet.notified ▸ hn) (hquiet.vmBlocks_iff.mp hblocks)

/-- A notification before `cbVMInit` waits is lost. -/
theorem not_resumeKept_of_not_notifiesWaiter (hw : WaitLists s) (hC : ¬ NotifiesWaiter s e s')
    (h : startUpStep s e = some s') : ¬ ResumeKept s' := by
  intro hkept
  refine hC ?_
  rintro wakes rfl
  obtain ⟨hvm, hnotified, -, -⟩ := notifyLine_eq hw h
  by_contra hwaited
  refine hkept hnotified ?_
  unfold VmBlocks
  rw [hvm]
  cases hpc : s.vm <;> simp [hpc, VmPc.hasWaited] at hwaited ⊢

end Steps

/-! ## Runs -/

section Runs

/-- Without a notification `cbVMInit` does not get past its wait. -/
theorem VmBlocks.run {s s' : StartUp} {es : List StartUpLabel} (hw : WaitLists s) (hs : VmBlocks s)
    (he : ∀ wakes, .notify wakes ∉ es) (h : run startUpStep s es = some s') : VmBlocks s' := by
  induction es generalizing s with
  | nil =>
    obtain rfl := Option.some.inj h
    exact hs
  | cons e es ih =>
    obtain ⟨u, hu, h⟩ := Option.bind_eq_some_iff.mp h
    refine ih (waitLists_step e hw hu) (vmBlocks_step hw hs ?_ hu) (fun wakes hmem => ?_) h
    · rintro wakes rfl
      exact he wakes List.mem_cons_self
    · exact he wakes (List.mem_cons_of_mem _ hmem)

/-- **The start-up resume is not lost** along a run exactly when every `g` that found `debug_thread` nil notifies
after `cbVMInit` has called RawMonitorWait. -/
theorem resumeKept_iff (es : List StartUpLabel) :
    Always startUpStep ResumeKept StartUp.init es ↔ EachStep startUpStep NotifiesWaiter StartUp.init es :=
  always_iff_eachStep (I := fun s => WaitLists s ∧ ResumeKept s)
    (fun _ e _ hs hC h => ⟨waitLists_step e hs.1 h, resumeKept_step e hs.1 hs.2 hC h⟩) (fun _ hs => hs.2)
    (fun _ _ _ hs hC h => not_resumeKept_of_not_notifiesWaiter hs.1 hC h) es _ ⟨waitLists_init, fun h => by cases h⟩

/-- A script that calls `g` first, before `cbVMInit` enters the monitor; `cbVMInit` then waits. -/
def fastScriptLabels : List StartUpLabel :=
  [.vmInit, .g, .command, .notify none, .command, .vmInit, .vmInit]

/-- The resume of the script is lost. -/
theorem fastScript_not_resumeKept : ¬ Always startUpStep ResumeKept StartUp.init fastScriptLabels := by
  have hrun : run startUpStep StartUp.init fastScriptLabels = some _ := rfl
  exact not_always_of_run hrun fun hkept => hkept rfl List.mem_cons_self

end Runs

end YellowTree
