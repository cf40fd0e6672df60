import YellowTree.Debugger.EventQueue
import YellowTree.Debugger.SessionLock
import YellowTree.Lib.Refinement

/-!
# YellowTree.Debugger.QueueRefinement — an EventQueue as a queue, at two levels

`Debugger.EventQueue` runs `pop` and `push` line by line under the raw monitor, `Debugger.Session` takes both as
single steps.  The queue that both stand for is `fifoStep`: a push appends, a pop gives the first event and is not
possible while there is none.

* `traces_iff`: with one thread that pops, the lines of an EventQueue make exactly the runs of this queue.
* `session_delivers`: in a session a thread gets the events pushed to its queue once each and in order, and nobody
  else does.
* `levels_agree`: a session, with the lines of its queue operations taken one by one, has the same events waiting.
-/

namespace YellowTree

open Transition WaitMonitor

variable {Tid E : Type}

/-! ## The queue -/

section Fifo

/-- The operations of a queue: `t` pushes an event, or `t` pops and gets a result. -/
inductive FifoOp (Tid E : Type) where
  | push (t : Tid) (event : E)
  | pop (t : Tid) (result : Option E)
  deriving DecidableEq

variable [DecidableEq E]

def fifoStep : List E → FifoOp Tid E → Option (List E)
  | events, .push _ event => some (events ++ [event])
  | [], .pop _ _ => none
  | event :: events, .pop _ result => if result = some event then some events else none

/-- The events that are pushed. -/
def FifoOp.pushed : FifoOp Tid E → Option E
  | .push _ event => some event
  | .pop _ _ => none

/-- What the pops give. -/
def FifoOp.popped : FifoOp Tid E → Option (Option E)
  | .push _ _ => none
  | .pop _ result => some result

/-- Each event comes out once, and in the order in which they went in. -/
theorem fifo_inOrder {ops : List (FifoOp Tid E)} {events rest : List E} (h : run fifoStep events ops = some rest) :
    (events ++ ops.filterMap FifoOp.pushed).map some = ops.filterMap FifoOp.popped ++ rest.map some := by
  induction ops generalizing events with
  | nil =>
    obtain rfl : events = rest := by simpa using h
    simp
  | cons op ops ih =>
    cases op with
    | push t event =>
      have hops := ih h
      show (events ++ event :: ops.filterMap FifoOp.pushed).map some = ops.filterMap FifoOp.popped ++ rest.map some
      rw [← hops, List.append_assoc]
      rfl
    | pop t result =>
      cases events with
      | nil => cases h
      | cons event events =>
        rw [run_cons, Option.bind_eq_some_iff] at h
        obtain ⟨r, hr, h⟩ := h
        rw [fifoStep, Option.ite_none_right_eq_some] at hr
        obtain ⟨rfl, hr⟩ := hr
        obtain rfl := Option.some.inj hr
        show (event :: events ++ ops.filterMap FifoOp.pushed).map some =
          some event :: (ops.filterMap FifoOp.popped ++ rest.map some)
        rw [List.cons_append, ← ih h]
        rfl

end Fifo

/-! ## The lines of an EventQueue -/

section Lines

variable [DecidableEq Tid] {s s' : EventQueue Tid E} {t : Tid}

/-- The line of a call at which its event is inserted or removed. -/
def queueOp (s : EventQueue Tid E) : QueueLabel Tid E → Option (FifoOp Tid E)
  | .go t =>
    match s.pcs t with
    | .pushInsert event => some (.push t event)
    | .popRemove _ => some (.pop t s.events.head?)
    | _ => none
  | _ => none

/-- A line leaves the events alone, or is the operation that its call stands for. -/
theorem LineOf.fifo [DecidableEq E] (h : LineOf s t s')
    (hfound : ∀ waited, s.pcs t = .popRemove waited → s.events ≠ []) :
    run fifoStep s.events (queueOp s (.go t)).toList = some s'.events := by
  cases h with
  | enter _ hpc => rcases hpc with ⟨hpc, -⟩ | ⟨event, hpc, -⟩ <;> simp [queueOp, hpc, EventQueue.goto]
  | exit hpc _ => rcases hpc with hpc | hpc <;> simp [queueOp, hpc, EventQueue.goto]
  | test hpc | wait hpc _ | reacquire hpc _ | broadcast hpc _ => simp [queueOp, hpc, EventQueue.goto]
  | insert hpc => simp [queueOp, hpc, EventQueue.goto, fifoStep]
  | remove hpc =>
    obtain ⟨event, rest, hevents⟩ := List.exists_cons_of_ne_nil (hfound _ hpc)
    simp [queueOp, hpc, hevents, EventQueue.goto, fifoStep]

/-- With one consumer, each step is a step of the queue, or none. -/
theorem oneConsumer_fifo [DecidableEq E] {c : Tid} (s : EventQueue Tid E) (e : QueueLabel Tid E) (s' : EventQueue Tid E)
    (hs : Orderly s ∧ OneConsumer c s) (he : ∀ t, e = .pop t → t = c) (h : eventQueueStep s e = some s') :
    (Orderly s' ∧ OneConsumer c s') ∧ run fifoStep s.events (queueOp s e).toList = some s'.events := by
  have hwakes : WakesToEvent s e s' := fun t _ hpc => hs.2.removes t hpc
  refine ⟨⟨orderly_step e hs.1 hwakes h, oneConsumer_step e hs.2 hs.1 he h⟩, ?_⟩
  cases e with
  | pop t =>
    unfold eventQueueStep at h
    dsimp only at h
    split at h
    · obtain rfl := Option.some.inj h
      rfl
    · cases h
  | push t event =>
    unfold eventQueueStep at h
    dsimp only at h
    split at h
    · obtain rfl := Option.some.inj h
      rfl
    · cases h
  | go t =>
    refine (lineOf_eventQueueLine h).fifo fun waited hpc => ?_
    cases waited with
    | false => exact hs.1.found t hpc
    | true => exact hs.2.removes t hpc

omit [DecidableEq Tid] in
/-- Nobody but the consumer takes an event out. -/
theorem oneConsumer_pops {c : Tid} (hs : OneConsumer c s) {e : QueueLabel Tid E} {t : Tid} {result : Option E}
    (h : queueOp s e = some (.pop t result)) : t = c := by
  cases e with
  | go u =>
    rw [queueOp] at h
    cases hpc : s.pcs u with
    | popRemove waited =>
      rw [hpc] at h
      obtain ⟨rfl, -⟩ := FifoOp.pop.inj (Option.some.inj h)
      exact hs.pops u (by rw [hpc]; rfl)
    | _ =>
      rw [hpc] at h
      cases h
  | _ => cases h

end Lines

/-! ## Calls without interruption -/

section Calls

variable [DecidableEq Tid]

/-- Nobody is in a call. -/
def EventQueue.resting (events pushed : List E) (popped : List (Option E)) : EventQueue Tid E :=
  ⟨.free, events, fun _ => .idle, pushed, popped⟩

def pushCall (t : Tid) (event : E) : List (QueueLabel Tid E) := [.push t event, .go t, .go t, .go t, .go t]

/-- A call of `pop` that finds an event. -/
def popCall (t : Tid) : List (QueueLabel Tid E) := [.pop t, .go t, .go t, .go t, .go t]

theorem run_pushCall (t : Tid) (event : E) (events pushed : List E) (popped : List (Option E)) :
    run eventQueueStep (.resting events pushed popped) (pushCall t event) =
      some (.resting (events ++ [event]) (pushed ++ [event]) popped) := by
  simp [pushCall, EventQueue.resting, eventQueueStep, eventQueueLine, EventQueue.goto, WaitMonitor.free,
    WaitMonitor.enter, WaitMonitor.notifyAll, WaitMonitor.exit]

theorem trace_pushCall (t : Tid) (event : E) (events pushed : List E) (popped : List (Option E)) :
    trace queueOp eventQueueStep (.resting events pushed popped) (pushCall t event) = [.push t event] := by
  simp [pushCall, trace, queueOp, EventQueue.resting, eventQueueStep, eventQueueLine, EventQueue.goto,
    WaitMonitor.free, WaitMonitor.enter, WaitMonitor.notifyAll, WaitMonitor.exit]

theorem run_popCall (t : Tid) (event : E) (events pushed : List E) (popped : List (Option E)) :
    run eventQueueStep (.resting (event :: events) pushed popped) (popCall t) =
      some (.resting events pushed (popped ++ [some event])) := by
  simp [popCall, EventQueue.resting, eventQueueStep, eventQueueLine, EventQueue.goto, WaitMonitor.free,
    WaitMonitor.enter, WaitMonitor.exit]

theorem trace_popCall (t : Tid) (event : E) (events pushed : List E) (popped : List (Option E)) :
    trace queueOp eventQueueStep (.resting (event :: events) pushed popped) (popCall t) = [.pop t (some event)] := by
  simp [popCall, trace, queueOp, EventQueue.resting, eventQueueStep, eventQueueLine, EventQueue.goto,
    WaitMonitor.free, WaitMonitor.enter, WaitMonitor.exit]

end Calls

/-! ## The same traces -/

section Traces

variable [DecidableEq Tid] [DecidableEq E]

/-- Each operation of the queue can be made by a call. -/
theorem exists_call (c : Tid) (s : EventQueue Tid E) (events : List E) (op : FifoOp Tid E) (events' : List E)
    (hs : ∃ pushed popped, s = .resting events pushed popped) (hop : ∀ t result, op = .pop t result → t = c)
    (h : fifoStep events op = some events') : ∃ es s', (∀ t, .pop t ∈ es → t = c) ∧
      run eventQueueStep s es = some s' ∧ trace queueOp eventQueueStep s es = [op] ∧
      ∃ pushed popped, s' = .resting events' pushed popped := by
  obtain ⟨pushed, popped, rfl⟩ := hs
  cases op with
  | push t event =>
    obtain rfl := Option.some.inj h
    refine ⟨pushCall t event, _, fun u hu => ?_, run_pushCall .., trace_pushCall .., _, _, rfl⟩
    simp [pushCall] at hu
  | pop t result =>
    cases events with
    | nil => cases h
    | cons event events =>
      rw [fifoStep, Option.ite_none_right_eq_some] at h
      obtain ⟨rfl, h⟩ := h
      obtain rfl := Option.some.inj h
      refine ⟨popCall t, _, fun u hu => ?_, run_popCall .., trace_popCall .., _, _, rfl⟩
      have hut : u = t := by simpa [popCall] using hu
      exact hut.trans (hop t _ rfl)

/-- The operations of a run with one consumer lead from the empty queue to the events that are left. -/
theorem run_oneConsumer {c : Tid} {es : List (QueueLabel Tid E)} {s : EventQueue Tid E}
    (hpops : ∀ t, .pop t ∈ es → t = c) (h : run eventQueueStep EventQueue.new es = some s) :
    run fifoStep ([] : List E) (trace queueOp eventQueueStep EventQueue.new es) = some s.events :=
  run_trace EventQueue.events (oneConsumer_fifo (c := c)) ⟨orderly_new, oneConsumer_new c⟩
    (eachStep_of_forall fun _ he _ _ t het => hpops t (het ▸ he)) h

/-- In a run with one consumer nobody else takes an event out. -/
theorem pops_oneConsumer {c : Tid} {es : List (QueueLabel Tid E)} {s : EventQueue Tid E}
    (hpops : ∀ t, .pop t ∈ es → t = c) (h : run eventQueueStep EventQueue.new es = some s) :
    ∀ t result, .pop t result ∈ trace queueOp eventQueueStep EventQueue.new es → t = c := by
  have hall := exists_of_mem_trace queueOp
    (P := fun op : FifoOp Tid E => ∀ t result, op = .pop t result → t = c)
    (fun s e s' hs he h => ⟨(oneConsumer_fifo s e s' hs he h).1, fun op hop t result hpop =>
      oneConsumer_pops hs.2 (e := e) (hop.trans (congrArg some hpop))⟩) ⟨orderly_new, oneConsumer_new c⟩
    (eachStep_of_forall fun _ he _ _ t het => hpops t (het ▸ he)) h
  exact fun t result hmem => hall _ hmem t result rfl

/-- Every run of the queue is made by calls one after the other. -/
theorem exists_lines {c : Tid} {ops : List (FifoOp Tid E)} {events : List E} (h : run fifoStep [] ops = some events)
    (hpops : ∀ t result, .pop t result ∈ ops → t = c) : ∃ es, (∀ t, .pop t ∈ es → t = c) ∧
      (run eventQueueStep (EventQueue.new : EventQueue Tid E) es).isSome ∧
      trace queueOp eventQueueStep (EventQueue.new : EventQueue Tid E) es = ops := by
  obtain ⟨es, s, hes, hrun, htrace, -⟩ := exists_run_of_run
    (R := fun (s : EventQueue Tid E) events => ∃ pushed popped, s = .resting events pushed popped)
    (P := fun es : List (QueueLabel Tid E) => ∀ t, .pop t ∈ es → t = c)
    (Q := fun op : FifoOp Tid E => ∀ t result, op = .pop t result → t = c) (by simp)
    (fun es fs hes hfs t ht => (List.mem_append.mp ht).elim (hes t) (hfs t)) (exists_call c)
    (s := EventQueue.new) ⟨[], [], rfl⟩ (fun op hop t result he => hpops t result (he ▸ hop)) h
  exact ⟨es, hes, by rw [hrun]; rfl, htrace⟩

/-- **The lines of an EventQueue are a queue**: with one thread that pops, the sequences of insertions and removals
that its lines make are the runs of the queue. -/
theorem traces_iff (c : Tid) (ops : List (FifoOp Tid E)) :
    (∃ es, (∀ t, .pop t ∈ es → t = c) ∧ (run eventQueueStep (EventQueue.new : EventQueue Tid E) es).isSome ∧
        trace queueOp eventQueueStep (EventQueue.new : EventQueue Tid E) es = ops) ↔
      (run fifoStep ([] : List E) ops).isSome ∧ ∀ t result, .pop t result ∈ ops → t = c := by
  constructor
  · rintro ⟨es, hpops, hrun, rfl⟩
    obtain ⟨s, hrun⟩ := Option.isSome_iff_exists.mp hrun
    exact ⟨by rw [run_oneConsumer hpops hrun]; rfl, pops_oneConsumer hpops hrun⟩
  · rintro ⟨hrun, hpops⟩
    obtain ⟨events, hrun⟩ := Option.isSome_iff_exists.mp hrun
    exact exists_lines hrun hpops

end Traces

/-! ## The queues of a session -/

section Session

variable [DecidableEq Tid]

/-- What an operation of `t` at the point `pc` does with the queue of `u`. -/
def threadOp (u : Tid) (s : Session Tid) (t : Tid) (pc : Pc Tid) : Op Tid → Option (FifoOp (Option Tid) QueueEvent)
  | .pop => if pc = .events u then some (.pop (some t) (s.queue u).head?) else none
  | .g => if s.debugThread = some u then some (.push (some t) .resume) else none
  | .pushOther v => if v = u then some (.push (some t) .other) else none
  | _ => none

/-- What a step does with the queue of `u`; the command thread is `none`. -/
def sessionOp (u : Tid) (s : Session Tid) : Label Tid → Option (FifoOp (Option Tid) QueueEvent)
  | .thread t op =>
    match s.acts t with
    | a :: _ => threadOp u s t a.pc op
    | [] => none
  | .command .push =>
    match s.cmd with
    | .target v ev => if v = u then some (.push none ev) else none
    | _ => none
  | .command _ => none

/-- A push to the queue of `v`, as the queue of `u` sees it. -/
theorem run_push (s : Session Tid) (u v : Tid) (t : Option Tid) (ev : QueueEvent) :
    run fifoStep (s.queue u) (if v = u then some (FifoOp.push t ev) else none).toList =
      some ((s.push v ev).queue u) := by
  by_cases hvu : v = u
  · subst hvu
    simp [fifoStep, Session.push]
  · simp [hvu, Session.push, Function.update_of_ne (Ne.symm hvu)]

/-- A pop from the queue of `v`, as the queue of `u` sees it. -/
theorem run_pop {s : Session Tid} {v : Tid} {ev : QueueEvent} {es : List QueueEvent} (hq : s.queue v = ev :: es)
    (u : Tid) (t : Option Tid) :
    run fifoStep (s.queue u) (if Pc.events v = .events u then some (FifoOp.pop t (s.queue u).head?) else none).toList =
      some (Function.update s.queue v es u) := by
  by_cases hvu : v = u
  · subst hvu
    simp [fifoStep, hq]
  · simp [hvu, Function.update_of_ne (Ne.symm hvu)]

/-- A move of a callback does to the queue of `u` what it stands for. -/
theorem Moves.fifo {s r : Session Tid} {t : Tid} {a : Activation Tid} {rest : List (Activation Tid)} {op : Op Tid}
    {pc : Pc Tid} (h : Moves s t a.kind a.pc op pc r) (hacts : s.acts t = a :: rest) (u : Tid) :
    run fifoStep (s.queue u) (sessionOp u s (.thread t op)).toList = some (r.queue u) := by
  simp only [sessionOp, hacts]
  generalize a.pc = apc at h ⊢
  cases h with
  | popCommand v es hq => exact run_pop hq u (some t)
  | popResume v es hq => exact run_pop hq u (some t)
  | popOther v es hq => exact run_pop hq u (some t)
  | g _ _ v hd => simpa [threadOp, hd] using run_push s u v (some t) .resume
  | gNone _ _ hd => simp [threadOp, hd]
  | pushOther v _ _ => exact run_push s u v (some t) .other
  | _ => rfl

theorem session_fifo_step (u : Tid) (s : Session Tid) (e : Label Tid) (s' : Session Tid) (hs : Owned s)
    (_ : True) (h : step s e = some s') :
    Owned s' ∧ run fifoStep (s.queue u) (sessionOp u s e).toList = some (s'.queue u) := by
  refine ⟨owned_step s e s' hs h, ?_⟩
  cases e with
  | thread t op =>
    rcases threadStep_cases h with ⟨k, rfl, -, rfl⟩ | ⟨a, rest, raised, rfl, hacts, -, rfl⟩ |
      ⟨a, rest, pc, r, hacts, hmove, rfl⟩
    · cases hacts : s.acts t <;> simp [sessionOp, threadOp, hacts, Session.enter]
    · simp [sessionOp, threadOp, hacts]
    · exact hmove.fifo hacts u
  | command op =>
    rcases cmdStep_cases h with ⟨hop, c, rfl⟩ | ⟨v, ev, c, rfl, hcmd, rfl⟩
    · cases op with
      | push => exact absurd rfl hop
      | _ => rfl
    · simpa [sessionOp, hcmd] using run_push s u v none ev

/-- Nobody but `u` takes an event out of its queue. -/
theorem sessionOp_pop {u : Tid} {s : Session Tid} {e : Label Tid} (hs : Owned s) {t : Option Tid}
    {result : Option QueueEvent} (h : sessionOp u s e = some (.pop t result)) : t = some u := by
  cases e with
  | command op =>
    cases op with
    | push =>
      dsimp only [sessionOp] at h
      cases hcmd : s.cmd with
      | target v ev =>
        rw [hcmd, Option.ite_none_right_eq_some] at h
        cases h.2
      | _ =>
        rw [hcmd] at h
        cases h
    | _ => cases h
  | thread v op =>
    cases hacts : s.acts v with
    | nil => simp [sessionOp, hacts] at h
    | cons a rest =>
      simp only [sessionOp, hacts] at h
      cases op with
      | pop =>
        rw [threadOp, Option.ite_none_right_eq_some] at h
        obtain ⟨hpc, h⟩ := h
        obtain ⟨rfl, -⟩ := FifoOp.pop.inj (Option.some.inj h)
        exact congrArg some (hs.handles v a (by rw [hacts]; exact List.mem_cons_self) u (by rw [hpc]; rfl)).symm
      | g =>
        rw [threadOp, Option.ite_none_right_eq_some] at h
        cases h.2
      | pushOther w =>
        rw [threadOp, Option.ite_none_right_eq_some] at h
        cases h.2
      | _ => cases h

/-- The steps on the queue of `u` are a run of the queue. -/
theorem session_run_fifo (u : Tid) {es : List (Label Tid)} {s : Session Tid}
    (h : run step Session.init es = some s) :
    run fifoStep [] (trace (sessionOp u) step Session.init es) = some (s.queue u) :=
  run_trace (fun s : Session Tid => s.queue u) (session_fifo_step u) owned_init
    (eachStep_of_forall fun _ _ _ _ => trivial) h

theorem session_pops (u : Tid) {es : List (Label Tid)} {s : Session Tid} (h : run step Session.init es = some s) :
    ∀ t result, .pop t result ∈ trace (sessionOp u) step Session.init es → t = some u := by
  have hall := exists_of_mem_trace (sessionOp u)
    (P := fun op : FifoOp (Option Tid) QueueEvent => ∀ t result, op = .pop t result → t = some u)
    (fun s e s' hs he hstep => ⟨(session_fifo_step u s e s' hs he hstep).1, fun op hop t result hpop =>
      sessionOp_pop hs (e := e) (hop.trans (congrArg some hpop))⟩) owned_init
    (eachStep_of_forall fun _ _ _ _ => trivial) h
  exact fun t result hmem => hall _ hmem t result rfl

/-- **A session delivers**: whatever threads and the command thread push to the queue of `u`, only `u` pops, and what
it has popped, followed by the events that wait, are the events pushed, each once and in order. -/
theorem session_delivers (u : Tid) {es : List (Label Tid)} {s : Session Tid} (h : run step Session.init es = some s) :
    (∀ t result, .pop t result ∈ trace (sessionOp u) step Session.init es → t = some u) ∧
      ((trace (sessionOp u) step Session.init es).filterMap FifoOp.pushed).map some =
        (trace (sessionOp u) step Session.init es).filterMap FifoOp.popped ++ (s.queue u).map some :=
  ⟨session_pops u h, fifo_inOrder (session_run_fifo u h)⟩

/-- A command is typed at a stop of `true`; it calls `g`, and the RESUME waits. -/
theorem oneCommand_delivers : ((trace (sessionOp true) step Session.init
      (stopLabels true ++ typeCommand ++ runG true)).filterMap FifoOp.pushed).map some =
    (trace (sessionOp true) step Session.init (stopLabels true ++ typeCommand ++ runG true)).filterMap FifoOp.popped ++
      [some .resume] := by
  have hrun : run step (Session.init : Session Bool) (stopLabels true ++ typeCommand ++ runG true) = some _ := rfl
  exact (session_delivers true hrun).2

/-- **The two levels agree**: there are lines of an EventQueue, from which only `u` pops, with the operations that a
session makes on the queue of `u`; and all such lines lead to the events that wait in the session. -/
theorem levels_agree (u : Tid) {es : List (Label Tid)} {s : Session Tid} (h : run step Session.init es = some s) :
    (∃ ls, (∀ t, .pop t ∈ ls → t = some u) ∧
        (run eventQueueStep (EventQueue.new : EventQueue _ QueueEvent) ls).isSome ∧
        trace queueOp eventQueueStep (EventQueue.new : EventQueue _ QueueEvent) ls =
          trace (sessionOp u) step Session.init es) ∧
      ∀ ls q, (∀ t, .pop t ∈ ls → t = some u) → run eventQueueStep EventQueue.new ls = some q →
        trace queueOp eventQueueStep EventQueue.new ls = trace (sessionOp u) step Session.init es →
        q.events = s.queue u := by
  refine ⟨exists_lines (session_run_fifo u h) (session_pops u h), fun ls q hls hq htrace => ?_⟩
  have hlines := run_oneConsumer hls hq
  rw [htrace, session_run_fifo u h] at hlines
  exact (Option.some.inj hlines).symm

/-- The lines for a command typed at a stop of `true`. -/
theorem oneCommand_levels : ∃ ls, (∀ t, .pop t ∈ ls → t = some true) ∧
    (run eventQueueStep (EventQueue.new : EventQueue (Option Bool) QueueEvent) ls).isSome ∧
    trace queueOp eventQueueStep (EventQueue.new : EventQueue (Option Bool) QueueEvent) ls =
      trace (sessionOp true) step Session.init (stopLabels true ++ typeCommand ++ runG true) := by
  have hrun : run step (Session.init : Session Bool) (stopLabels true ++ typeCommand ++ runG true) = some _ := rfl
  exact (levels_agree true hrun).1

end Session

end YellowTree
