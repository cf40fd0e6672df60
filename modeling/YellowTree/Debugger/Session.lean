import Mathlib.Logic.Function.Basic
import YellowTree.Lib.Monitor
import YellowTree.Lib.Transition

/-!
# YellowTree.Debugger.Session — Java threads in the debugger's callbacks, and the command thread

The debugger's state is global: `debug_lock`, `debug_thread`, `lj_current_thread`, the stack of `lj_L` and one event
queue for each thread.  `Session` holds it together with what every thread is doing: its callbacks in progress,
innermost first (Java code run by a callback can hit a breakpoint), each at one point (`Pc`) of the C callback or of
the Lua function it calls.  `step` takes one thread one operation further (`Op`), or the command thread (`CmdOp`), so
that a list of labels is one interleaving.

`debug_thread = current_thread()` is the thread itself here, and a queue belongs to a thread: so it is while each
thread has a name of its own that does not change, and none is stopped inside the call of `current_thread` that makes
its jthread (`Debugger.ThreadTable`).  Two threads of one name have one jthread and one queue.

An activation also records the value of `debug_thread` and the number of times its thread held the lock when it was
entered; no operation reads them.
-/

namespace YellowTree

variable {Tid : Type}

/-! ## Points of the code -/

section Points

/-- The Lua functions installed as callbacks: `cb_breakpoint`, `cb_method_exit`, `cb_single_step` and
`check_nested_method_return`, which takes no lock. -/
inductive Kind where
  | breakpoint | methodExit | singleStep | nestedReturn
  deriving DecidableEq

/-- The type of an event in a queue; `other` is a bad event type. -/
inductive QueueEvent where
  | command | resume | other
  deriving DecidableEq

/-- Why a callback raises a Lua error: `assert(bp)`, a call that fails (a JVMTI or a Java method, `tostring`), an error
value that cannot be concatenated, a bad event type, an error of a monitor, `debug_thread` nil. -/
inductive Cause where
  | assertion | call | errorValue | eventType | jvmti | nilThread
  deriving DecidableEq

/-- How far a callback has got.  `events u` to `bad u` are inside `handle_events` of thread `u`. -/
inductive Pc (Tid : Type) where
  | entered
  | current
  | start
  | nested
  | locked
  | stopped
  | handler
  | await
  | events (u : Tid)
  | running (u : Tid)
  | reporting (u : Tid)
  | bad (u : Tid)
  | done
  | unlocking
  | returned (raised : Bool)
  | popped (raised : Bool)
  deriving DecidableEq

namespace Pc

/-- Between `debug_lock:lock()` and `debug_lock:unlock()`. -/
def holding : Pc Tid → Bool
  | .locked | .stopped | .handler | .await | .events _ | .running _ | .reporting _ | .bad _ | .done | .unlocking => true
  | _ => false

/-- Between `debug_thread = current_thread()` and the end of the stop. -/
def stop : Pc Tid → Bool
  | .stopped | .handler | .await | .events _ | .running _ | .reporting _ | .bad _ => true
  | _ => false

/-- Between `debug_thread = current_thread()` and `debug_thread = nil`. -/
def owns (pc : Pc Tid) : Bool := pc.stop || pc matches .done

/-- The thread whose queue is handled, inside `handle_events`. -/
def handles : Pc Tid → Option Tid
  | .events u | .running u | .reporting u | .bad u => some u
  | _ => none

/-- Lua code runs that can call Java methods, so that another callback can be entered. -/
def runsJava : Pc Tid → Bool
  | .nested | .locked | .stopped | .handler | .running _ | .reporting _ => true
  | _ => false

/-- A handler or a command runs, which may call `g`. -/
def runsCommand : Pc Tid → Bool
  | .handler | .running _ => true
  | _ => false

/-- Where a Lua error of each cause ends the Lua function; in a handler or a command `xpcall` or `pcall` catches it. -/
def raises (debugThread : Option Tid) : Pc Tid → Cause → Bool
  | .stopped, .assertion => true
  | .nested, .call | .locked, .call | .stopped, .call | .reporting _, .call => true
  | .reporting _, .errorValue => true
  | .bad _, .eventType => true
  | .start, .jvmti | .await, .jvmti | .events _, .jvmti => true
  | .await, .nilThread => debugThread.isNone
  | _, _ => false

/-- The Lua function has ended. -/
def ended : Pc Tid → Bool
  | .returned _ | .popped _ => true
  | _ => false

/-- Before `lua_pop(lj_L, 1)`. -/
def inProgress : Pc Tid → Bool
  | .popped _ => false
  | _ => true

end Pc

end Points

/-! ## The state -/

section State

/-- A callback in progress. -/
structure Activation (Tid : Type) where
  kind : Kind
  pc : Pc Tid
  coroutine : ℕ
  entered : Option Tid
  holds : ℕ
  deriving DecidableEq

/-- The command thread: between two commands, running a command because `debug_thread` was nil, about to read
`debug_thread` again for a push, about to push to the queue of `u`, or ended by an error in `start_cmd`. -/
inductive CmdPhase (Tid : Type) where
  | idle
  | running
  | checked (ev : QueueEvent)
  | target (u : Tid) (ev : QueueEvent)
  | dead
  deriving DecidableEq

structure Session (Tid : Type) where
  lock : Monitor Tid
  debugThread : Option Tid
  queue : Tid → List QueueEvent
  currentThread : Option Tid
  coroutines : List ℕ
  nextCoroutine : ℕ
  acts : Tid → List (Activation Tid)
  cmd : CmdPhase Tid

def Session.init : Session Tid where
  lock := .free
  debugThread := none
  queue := fun _ => []
  currentThread := none
  coroutines := []
  nextCoroutine := 0
  acts := fun _ => []
  cmd := .idle

end State

/-! ## Steps -/

section Steps

/-- A request to JVMTI made by Lua code: a local variable read through a frame of a thread, or an event enabled or
disabled for the current thread. -/
inductive Request (Tid : Type) where
  | getLocalVariable (frameThread : Tid)
  | switchEvent
  deriving DecidableEq

/-- The operations of a thread. -/
inductive Op (Tid : Type) where
  | enter (k : Kind)
  | setCurrent
  | disableEvents
  | callNested
  | nestedReturns
  | lock
  | setThread
  | callHandler
  | handlerReturns (resume : Bool)
  | wait
  | passBy
  | handleEvents
  | pop
  | commandReturns
  | report
  | g
  | pushOther (u : Tid)
  | request (r : Request Tid)
  | raise (c : Cause)
  | clear
  | unlock
  | luaPop
  | enableEvents
  | leave
  deriving DecidableEq

/-- The operations of the command thread. -/
inductive CmdOp (Tid : Type) where
  | readThread
  | g
  | readTarget
  | push
  | request (frameThread : Tid)
  | finish
  deriving DecidableEq

inductive Label (Tid : Type) where
  | thread (t : Tid) (op : Op Tid)
  | command (op : CmdOp Tid)
  deriving DecidableEq

/-- Where an operation takes a callback of kind `k`; `none` when it is not the next one. -/
def nextPc (k : Kind) (debugThread : Option Tid) (queue : Tid → List QueueEvent) (pc : Pc Tid) :
    Op Tid → Option (Pc Tid)
  | .setCurrent => match pc with
    | .entered => some .current
    | _ => none
  | .disableEvents => match pc with
    | .current => some .start
    | _ => none
  | .callNested => match pc with
    | .start => if k = .nestedReturn then some .nested else none
    | _ => none
  | .nestedReturns => match pc with
    | .nested => some (.returned false)
    | _ => none
  | .lock => match pc with
    | .start => if k = .nestedReturn then none else some .locked
    | _ => none
  | .setThread => match pc with
    | .locked => some .stopped
    | _ => none
  | .callHandler => match pc with
    | .stopped => if k = .breakpoint then some .handler else none
    | _ => none
  -- a handler that returns false or nil resumes the thread; one that fails does not
  | .handlerReturns resume => match pc with
    | .handler => some (if resume then .done else .await)
    | _ => none
  | .wait => match pc with
    | .stopped => some .await
    | _ => none
  | .passBy => match pc with
    | .stopped => if k = .singleStep then some .done else none
    | _ => none
  | .handleEvents => match pc with
    | .await => debugThread.map .events
    | _ => none
  | .pop => match pc with
    | .events u => match queue u with
      | [] => none
      | .command :: _ => some (.running u)
      | .resume :: _ => some .done
      | .other :: _ => some (.bad u)
    | _ => none
  | .commandReturns => match pc with
    | .running u => some (.reporting u)
    | _ => none
  | .report => match pc with
    | .reporting u => some (.events u)
    | _ => none
  | .g => if pc.runsCommand then some pc else none
  | .pushOther _ => if pc.runsCommand then some pc else none
  | .request _ => if pc.runsJava then some pc else none
  | .raise c => if pc.raises debugThread c then some (.returned true) else none
  | .clear => match pc with
    | .done => some .unlocking
    | _ => none
  | .unlock => match pc with
    | .unlocking => some (.returned false)
    | _ => none
  | .luaPop => match pc with
    | .returned raised => some (.popped raised)
    | _ => none
  | .enableEvents => match pc with
    | .popped raised => some (.popped raised)
    | _ => none
  | .enter _ => none
  | .leave => none

def Session.push (s : Session Tid) [DecidableEq Tid] (u : Tid) (ev : QueueEvent) : Session Tid :=
  { s with queue := Function.update s.queue u (s.queue u ++ [ev]) }

variable [DecidableEq Tid]

/-- What an operation of `t` does to the state that the threads share, at the point `pc`; `none` while the lock is
held by another thread. -/
def shared (s : Session Tid) (t : Tid) (pc : Pc Tid) : Op Tid → Option (Session Tid)
  | .setCurrent => some { s with currentThread := some t }
  | .lock => (s.lock.acquire t).map fun m => { s with lock := m }
  | .setThread => some { s with debugThread := some t }
  | .pop =>
    match pc with
    | .events u => some { s with queue := Function.update s.queue u (s.queue u).tail }
    | _ => some s
  | .g =>
    match s.debugThread with
    | some u => some (s.push u .resume)
    | none => some s
  | .pushOther u => some (s.push u .other)
  | .clear => some { s with debugThread := none }
  | .unlock => (s.lock.release t).map fun m => { s with lock := m }
  | .luaPop => some { s with coroutines := s.coroutines.tail }
  | _ => some s

/-- A callback can be entered from Java code: the thread is in no callback, or its innermost one runs Java. -/
def canEnter : List (Activation Tid) → Bool
  | [] => true
  | a :: _ => a.pc.runsJava

/-- The thread enters a callback: `lua_newthread(lj_L)`. -/
def Session.enter (s : Session Tid) (t : Tid) (k : Kind) : Session Tid :=
  { s with
    coroutines := s.nextCoroutine :: s.coroutines
    nextCoroutine := s.nextCoroutine + 1
    acts := Function.update s.acts t
      (⟨k, .entered, s.nextCoroutine, s.debugThread, s.lock.holds t⟩ :: s.acts t) }

def threadStep (s : Session Tid) (t : Tid) : Op Tid → Option (Session Tid)
  | .enter k => if canEnter (s.acts t) then some (s.enter t k) else none
  | .leave =>
    match s.acts t with
    | a :: rest => match a.pc with
      | .popped _ => some { s with acts := Function.update s.acts t rest }
      | _ => none
    | [] => none
  | op =>
    match s.acts t with
    | a :: rest =>
      match nextPc a.kind s.debugThread s.queue a.pc op, shared s t a.pc op with
      | some pc, some s' => some { s' with acts := Function.update s.acts t ({ a with pc := pc } :: rest) }
      | _, _ => none
    | [] => none

/-- `start_cmd` reads `debug_thread` for each command and again to push the command; so does `g` in a command that the
command thread runs itself. -/
def cmdStep (s : Session Tid) : CmdOp Tid → Option (Session Tid)
  | .readThread =>
    if s.cmd = .idle then some { s with cmd := if s.debugThread.isSome then .checked .command else .running } else none
  | .g =>
    if s.cmd = .running then some { s with cmd := if s.debugThread.isSome then .checked .resume else .running }
    else none
  | .readTarget =>
    match s.cmd with
    | .checked ev =>
      match s.debugThread with
      | some u => some { s with cmd := .target u ev }
      -- indexing nil: `xpcall` catches the error of a command, nothing that of `start_cmd`
      | none => some { s with cmd := if ev = .command then .dead else .idle }
    | _ => none
  | .push =>
    match s.cmd with
    | .target u ev => some { s.push u ev with cmd := if ev = .command then .idle else .running }
    | _ => none
  | .request _ => if s.cmd = .running then some s else none
  | .finish => if s.cmd = .running then some { s with cmd := .idle } else none

def step (s : Session Tid) : Label Tid → Option (Session Tid)
  | .thread t op => threadStep s t op
  | .command op => cmdStep s op

/-- A stop of `t` at a method exit, until it handles events. -/
def stopLabels (t : Tid) : List (Label Tid) :=
  [.thread t (.enter .methodExit), .thread t .setCurrent, .thread t .disableEvents, .thread t .lock,
    .thread t .setThread, .thread t .wait, .thread t .handleEvents]

/-- A command is typed during a stop. -/
def typeCommand : List (Label Tid) := [.command .readThread, .command .readTarget, .command .push]

/-- The stopped thread runs a command that calls `g`. -/
def runG (t : Tid) : List (Label Tid) :=
  [.thread t .pop, .thread t .g, .thread t .commandReturns, .thread t .report]

/-- It pops a RESUME and leaves its callback. -/
def endStop (t : Tid) : List (Label Tid) :=
  [.thread t .pop, .thread t .clear, .thread t .unlock, .thread t .luaPop, .thread t .leave]

end Steps

/-! ## What one step does -/

section Cases

variable [DecidableEq Tid]

/-- The moves of a callback of kind `k` in progress on `t`, one rule for each: where the callback was, the operation,
where it is then, and the shared state then. -/
inductive Moves (s : Session Tid) (t : Tid) (k : Kind) : Pc Tid → Op Tid → Pc Tid → Session Tid → Prop where
  | setCurrent : Moves s t k .entered .setCurrent .current { s with currentThread := some t }
  | disableEvents : Moves s t k .current .disableEvents .start s
  | callNested (hk : k = .nestedReturn) : Moves s t k .start .callNested .nested s
  | nestedReturns : Moves s t k .nested .nestedReturns (.returned false) s
  | lock (hk : k ≠ .nestedReturn) (m : Monitor Tid) (hm : s.lock.acquire t = some m) :
      Moves s t k .start .lock .locked { s with lock := m }
  | setThread : Moves s t k .locked .setThread .stopped { s with debugThread := some t }
  | callHandler (hk : k = .breakpoint) : Moves s t k .stopped .callHandler .handler s
  | resumed : Moves s t k .handler (.handlerReturns true) .done s
  | notResumed : Moves s t k .handler (.handlerReturns false) .await s
  | wait : Moves s t k .stopped .wait .await s
  | passBy (hk : k = .singleStep) : Moves s t k .stopped .passBy .done s
  | handleEvents (u : Tid) (hd : s.debugThread = some u) : Moves s t k .await .handleEvents (.events u) s
  | popCommand (u : Tid) (es : List QueueEvent) (hq : s.queue u = .command :: es) :
      Moves s t k (.events u) .pop (.running u) { s with queue := Function.update s.queue u es }
  | popResume (u : Tid) (es : List QueueEvent) (hq : s.queue u = .resume :: es) :
      Moves s t k (.events u) .pop .done { s with queue := Function.update s.queue u es }
  | popOther (u : Tid) (es : List QueueEvent) (hq : s.queue u = .other :: es) :
      Moves s t k (.events u) .pop (.bad u) { s with queue := Function.update s.queue u es }
  | commandReturns (u : Tid) : Moves s t k (.running u) .commandReturns (.reporting u) s
  | report (u : Tid) : Moves s t k (.reporting u) .report (.events u) s
  | g (pc : Pc Tid) (h : pc.runsCommand = true) (u : Tid) (hd : s.debugThread = some u) :
      Moves s t k pc .g pc (s.push u .resume)
  | gNone (pc : Pc Tid) (h : pc.runsCommand = true) (hd : s.debugThread = none) : Moves s t k pc .g pc s
  | pushOther (u : Tid) (pc : Pc Tid) (h : pc.runsCommand = true) :
      Moves s t k pc (.pushOther u) pc (s.push u .other)
  | request (r : Request Tid) (pc : Pc Tid) (h : pc.runsJava = true) : Moves s t k pc (.request r) pc s
  | raise (c : Cause) (pc : Pc Tid) (h : pc.raises s.debugThread c = true) :
      Moves s t k pc (.raise c) (.returned true) s
  | clear : Moves s t k .done .clear .unlocking { s with debugThread := none }
  | unlock (m : Monitor Tid) (hm : s.lock.release t = some m) :
      Moves s t k .unlocking .unlock (.returned false) { s with lock := m }
  | luaPop (raised : Bool) :
      Moves s t k (.returned raised) .luaPop (.popped raised) { s with coroutines := s.coroutines.tail }
  | enableEvents (raised : Bool) : Moves s t k (.popped raised) .enableEvents (.popped raised) s

theorem moves_of_nextPc {s u : Session Tid} {t : Tid} {k : Kind} {pc pc' : Pc Tid} {op : Op Tid}
    (h : nextPc k s.debugThread s.queue pc op = some pc') (hu : shared s t pc op = some u) :
    Moves s t k pc op pc' u := by
  cases op with
  | lock =>
    obtain ⟨m, hm, rfl⟩ := Option.map_eq_some_iff.mp hu
    dsimp only [nextPc] at h
    split at h
    · rw [Option.ite_none_left_eq_some] at h
      obtain rfl := Option.some.inj h.2
      exact .lock h.1 m hm
    · simp at h
  | unlock =>
    obtain ⟨m, hm, rfl⟩ := Option.map_eq_some_iff.mp hu
    dsimp only [nextPc] at h
    split at h
    · obtain rfl := Option.some.inj h
      exact .unlock m hm
    · simp at h
  | handlerReturns resume =>
    obtain rfl := Option.some.inj hu
    dsimp only [nextPc] at h
    split at h
    · obtain rfl := Option.some.inj h
      cases resume with
      | true => exact .resumed
      | false => exact .notResumed
    · simp at h
  | handleEvents =>
    obtain rfl := Option.some.inj hu
    dsimp only [nextPc] at h
    split at h
    · obtain ⟨v, hd, rfl⟩ := Option.map_eq_some_iff.mp h
      exact .handleEvents v hd
    · simp at h
  | pop =>
    dsimp only [nextPc] at h
    split at h
    · rename_i v
      obtain rfl := Option.some.inj hu
      cases hq : s.queue v with
      | nil => rw [hq] at h; cases h
      | cons ev es =>
        rw [hq] at h
        cases ev <;> obtain rfl := Option.some.inj h
        · exact .popCommand v es hq
        · exact .popResume v es hq
        · exact .popOther v es hq
    · simp at h
  | g =>
    dsimp only [nextPc] at h
    rw [Option.ite_none_right_eq_some] at h
    obtain ⟨hpc, h⟩ := h
    obtain rfl := Option.some.inj h
    dsimp only [shared] at hu
    cases hd : s.debugThread with
    | none => rw [hd] at hu; obtain rfl := Option.some.inj hu; exact .gNone pc hpc hd
    | some v => rw [hd] at hu; obtain rfl := Option.some.inj hu; exact .g pc hpc v hd
  | pushOther _ | request _ | raise _ =>
    obtain rfl := Option.some.inj hu
    dsimp only [nextPc] at h
    rw [Option.ite_none_right_eq_some] at h
    obtain ⟨hpc, h⟩ := h
    obtain rfl := Option.some.inj h
    constructor
    exact hpc
  | callNested | callHandler | passBy =>
    obtain rfl := Option.some.inj hu
    dsimp only [nextPc] at h
    split at h
    · rw [Option.ite_none_right_eq_some] at h
      obtain rfl := Option.some.inj h.2
      constructor
      exact h.1
    · simp at h
  | enter | leave => cases h
  | _ =>
    obtain rfl := Option.some.inj hu
    dsimp only [nextPc] at h
    split at h
    · obtain rfl := Option.some.inj h
      constructor
    · simp at h

/-- A thread step enters a callback, leaves one, or moves the innermost one on. -/
theorem threadStep_cases {s s' : Session Tid} {t : Tid} {op : Op Tid} (h : threadStep s t op = some s') :
    (∃ k, op = .enter k ∧ canEnter (s.acts t) = true ∧ s' = s.enter t k) ∨
    (∃ a rest raised, op = .leave ∧ s.acts t = a :: rest ∧ a.pc = .popped raised ∧
      s' = { s with acts := Function.update s.acts t rest }) ∨
    ∃ a rest pc u, s.acts t = a :: rest ∧ Moves s t a.kind a.pc op pc u ∧
      s' = { u with acts := Function.update s.acts t ({ a with pc := pc } :: rest) } := by
  cases op with
  | enter k =>
    rw [threadStep, Option.ite_none_right_eq_some] at h
    exact Or.inl ⟨k, rfl, h.1, (Option.some.inj h.2).symm⟩
  | leave =>
    unfold threadStep at h
    cases hacts : s.acts t with
    | nil => rw [hacts] at h; cases h
    | cons a rest =>
      rw [hacts] at h
      dsimp only at h
      cases hpc : a.pc with
      | popped raised =>
        rw [hpc] at h
        exact Or.inr (Or.inl ⟨a, rest, raised, rfl, rfl, hpc, (Option.some.inj h).symm⟩)
      | _ => rw [hpc] at h; cases h
  | _ =>
    refine Or.inr (Or.inr ?_)
    unfold threadStep at h
    cases hacts : s.acts t with
    | nil => rw [hacts] at h; cases h
    | cons a rest =>
      rw [hacts] at h
      dsimp only at h
      split at h
      case h_1 pc u hpc hu =>
        exact ⟨a, rest, pc, u, rfl, moves_of_nextPc hpc hu, (Option.some.inj h).symm⟩
      case h_2 => cases h

/-- A move leaves the activations and the command thread to the step. -/
theorem Moves.frame {s u : Session Tid} {t : Tid} {k : Kind} {pc pc' : Pc Tid} {op : Op Tid}
    (h : Moves s t k pc op pc' u) : u.acts = s.acts ∧ u.nextCoroutine = s.nextCoroutine ∧ u.cmd = s.cmd := by
  cases h <;> exact ⟨rfl, rfl, rfl⟩

/-- A step of the command thread changes its phase, and pushes an event when it pushes. -/
theorem cmdStep_cases {s s' : Session Tid} {op : CmdOp Tid} (h : cmdStep s op = some s') :
    (op ≠ .push ∧ ∃ c, s' = { s with cmd := c }) ∨
    ∃ u ev c, op = .push ∧ s.cmd = .target u ev ∧ s' = { s.push u ev with cmd := c } := by
  cases op with
  | push =>
    dsimp only [cmdStep] at h
    cases hcmd : s.cmd with
    | target u ev =>
      rw [hcmd] at h
      exact Or.inr ⟨u, ev, _, rfl, rfl, (Option.some.inj h).symm⟩
    | _ => rw [hcmd] at h; cases h
  | readTarget =>
    refine Or.inl ⟨by simp, ?_⟩
    dsimp only [cmdStep] at h
    cases hcmd : s.cmd with
    | checked ev =>
      rw [hcmd] at h
      cases hd : s.debugThread with
      | none => rw [hd] at h; exact ⟨_, (Option.some.inj h).symm⟩
      | some u => rw [hd] at h; exact ⟨_, (Option.some.inj h).symm⟩
    | _ => rw [hcmd] at h; cases h
  | request u =>
    rw [cmdStep, Option.ite_none_right_eq_some] at h
    exact Or.inl ⟨by simp, s.cmd, (Option.some.inj h.2).symm⟩
  | readThread | g | finish =>
    rw [cmdStep, Option.ite_none_right_eq_some] at h
    exact Or.inl ⟨by simp, _, (Option.some.inj h.2).symm⟩

/-- A step seen from the callbacks of one thread `v`: it is not a step of `v` and leaves them alone, or `v` enters a
callback, leaves one, or moves the innermost one on. -/
theorem step_acts {s s' : Session Tid} {e : Label Tid} (h : step s e = some s') (v : Tid) :
    ((∀ op, e ≠ .thread v op) ∧ s'.acts v = s.acts v) ∨
    (∃ k, e = .thread v (.enter k) ∧ canEnter (s.acts v) = true ∧ s' = s.enter v k ∧
      s'.acts v = ⟨k, .entered, s.nextCoroutine, s.debugThread, s.lock.holds v⟩ :: s.acts v) ∨
    (∃ a rest raised, e = .thread v .leave ∧ s.acts v = a :: rest ∧ a.pc = .popped raised ∧
      s' = { s with acts := Function.update s.acts v rest } ∧ s'.acts v = rest) ∨
    ∃ op a rest pc u, e = .thread v op ∧ s.acts v = a :: rest ∧ Moves s v a.kind a.pc op pc u ∧
      s' = { u with acts := Function.update s.acts v ({ a with pc := pc } :: rest) } ∧
      s'.acts v = { a with pc := pc } :: rest := by
  cases e with
  | command op =>
    refine Or.inl ⟨by simp, ?_⟩
    rcases cmdStep_cases h with ⟨-, c, rfl⟩ | ⟨u, ev, c, -, -, rfl⟩
    · rfl
    · rfl
  | thread t op =>
    by_cases hv : v = t
    · subst hv
      refine Or.inr ?_
      rcases threadStep_cases h with ⟨k, rfl, hcan, rfl⟩ | ⟨a, rest, raised, rfl, hacts, hpc, rfl⟩ |
        ⟨a, rest, pc, u, hacts, hmove, rfl⟩
      · exact Or.inl ⟨k, rfl, hcan, rfl, Function.update_self ..⟩
      · exact Or.inr (Or.inl ⟨a, rest, raised, rfl, hacts, hpc, rfl, Function.update_self ..⟩)
      · exact Or.inr (Or.inr ⟨op, a, rest, pc, u, rfl, hacts, hmove, rfl, Function.update_self ..⟩)
    · refine Or.inl ⟨by simp [Ne.symm hv], ?_⟩
      rcases threadStep_cases h with ⟨k, -, -, rfl⟩ | ⟨a, rest, raised, -, -, -, rfl⟩ |
        ⟨a, rest, pc, u, -, -, rfl⟩
      · exact Function.update_of_ne hv ..
      · exact Function.update_of_ne hv ..
      · exact Function.update_of_ne hv ..

/-- A step that neither enters nor leaves a callback moves the innermost one. -/
theorem step_move {s s' : Session Tid} {t : Tid} {op : Op Tid} {a : Activation Tid} {rest : List (Activation Tid)}
    (h : step s (.thread t op) = some s') (henter : ∀ k, op ≠ .enter k) (hleave : op ≠ .leave)
    (hacts : s.acts t = a :: rest) : ∃ pc u, Moves s t a.kind a.pc op pc u ∧
      s' = { u with acts := Function.update s.acts t ({ a with pc := pc } :: rest) } ∧
      s'.acts t = { a with pc := pc } :: rest := by
  rcases threadStep_cases h with ⟨k, hop, -, -⟩ | ⟨_, _, raised, hop, -, -, -⟩ | ⟨b, below, pc, u, hacts', hmove, rfl⟩
  · exact absurd hop (henter k)
  · exact absurd hop hleave
  · obtain ⟨rfl, rfl⟩ := List.cons.inj (hacts.symm.trans hacts')
    exact ⟨pc, u, hmove, rfl, Function.update_self ..⟩

end Cases

end YellowTree
