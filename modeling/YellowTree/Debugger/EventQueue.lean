import YellowTree.Lib.Transition
import YellowTree.Lib.WaitMonitor
import Mathlib.Logic.Function.Basic

/-!
# YellowTree.Debugger.EventQueue — one EventQueue under any number of threads

`EventQueue:pop` and `EventQueue:push` line by line, each line of each thread a step, around the raw monitor of the
queue.  `pop` tests for an empty queue with `if`, waits once, and removes the first event whether there is one or not.
No wait is interrupted.  The state remembers the events pushed and what the pops removed, in the order of their steps.

* `delivered_iff`: the events are delivered once and in order, along a run, exactly when every pop that has waited
  finds an event when it goes on.
* `delivered_of_one_consumer`: always so when a single thread pops, however many push.
-/

namespace YellowTree

open Transition WaitMonitor

variable {Tid E : Type}

/-! ## The queue -/

section Queue

/-- The next line of a thread in `pop` or `push`; `popRemove` remembers whether the thread has waited. -/
inductive QueuePc (E : Type) where
  | idle
  | popEnter
  | popTest
  | popWait
  | popWaiting
  | popRemove (waited : Bool)
  | popExit
  | pushEnter (event : E)
  | pushInsert (event : E)
  | pushBroadcast
  | pushExit
  deriving DecidableEq

/-- Between `self.lock:lock()` and `self.lock:unlock()`, except in the wait. -/
def QueuePc.inside : QueuePc E → Bool
  | .popTest | .popWait | .popRemove _ | .popExit | .pushInsert _ | .pushBroadcast | .pushExit => true
  | .idle | .popEnter | .popWaiting | .pushEnter _ => false

structure EventQueue (Tid E : Type) where
  lock : WaitMonitor Tid
  events : List E
  pcs : Tid → QueuePc E
  pushed : List E
  popped : List (Option E)

def EventQueue.new : EventQueue Tid E := ⟨.free, [], fun _ => .idle, [], []⟩

/-- A call of `pop`, a call of `push`, or the next line of a thread that is in one of them. -/
inductive QueueLabel (Tid E : Type) where
  | pop (t : Tid)
  | push (t : Tid) (event : E)
  | go (t : Tid)
  deriving DecidableEq

variable [DecidableEq Tid]

def EventQueue.goto (s : EventQueue Tid E) (t : Tid) (pc : QueuePc E) : EventQueue Tid E :=
  { s with pcs := Function.update s.pcs t pc }

/-- The line of `t` at `pc`. -/
def eventQueueLine (s : EventQueue Tid E) (t : Tid) : QueuePc E → Option (EventQueue Tid E)
  | .idle => none
  | .popEnter => (s.lock.enter t).map fun m => { s with lock := m }.goto t .popTest
  | .popTest => some (s.goto t (if s.events.isEmpty then .popWait else .popRemove false))
  | .popWait => (s.lock.wait t).map fun m => { s with lock := m }.goto t .popWaiting
  | .popWaiting => (s.lock.reacquire t).map fun m => { s with lock := m }.goto t (.popRemove true)
  | .popRemove _ =>
    some ({ s with events := s.events.tail, popped := s.popped ++ [s.events.head?] }.goto t .popExit)
  | .popExit => (s.lock.exit t).map fun m => { s with lock := m }.goto t .idle
  | .pushEnter event => (s.lock.enter t).map fun m => { s with lock := m }.goto t (.pushInsert event)
  | .pushInsert event =>
    some ({ s with events := s.events ++ [event], pushed := s.pushed ++ [event] }.goto t .pushBroadcast)
  | .pushBroadcast => (s.lock.notifyAll t).map fun m => { s with lock := m }.goto t .pushExit
  | .pushExit => (s.lock.exit t).map fun m => { s with lock := m }.goto t .idle

def eventQueueStep (s : EventQueue Tid E) : QueueLabel Tid E → Option (EventQueue Tid E)
  | .pop t =>
    match s.pcs t with
    | .idle => some (s.goto t .popEnter)
    | _ => none
  | .push t event =>
    match s.pcs t with
    | .idle => some (s.goto t (.pushEnter event))
    | _ => none
  | .go t => eventQueueLine s t (s.pcs t)

/-- Every pop gave an event; the events popped, followed by those in the queue, are the events pushed. -/
def Delivered (s : EventQueue Tid E) : Prop :=
  ∃ events, s.popped = events.map some ∧ s.pushed = events ++ s.events

/-- A pop that has waited finds an event when it goes on. -/
def WakesToEvent (s : EventQueue Tid E) (e : QueueLabel Tid E) (_ : EventQueue Tid E) : Prop :=
  ∀ t, e = .go t → s.pcs t = .popRemove true → s.events ≠ []

end Queue

/-! ## Steps -/

section Steps

variable [DecidableEq Tid] {s s' : EventQueue Tid E} {e : QueueLabel Tid E} {t u : Tid} {pc : QueuePc E}

/-- A thread inside `pop` or `push` holds the lock, and one that did not have to wait has an event to remove. -/
structure Orderly (s : EventQueue Tid E) : Prop where
  guards : s.lock.Guards fun t => (s.pcs t).inside
  found : ∀ t, s.pcs t = .popRemove false → s.events ≠ []
  delivered : Delivered s

omit [DecidableEq Tid] in
theorem orderly_new : Orderly (EventQueue.new : EventQueue Tid E) :=
  ⟨fun _ h => absurd h Bool.false_ne_true, fun _ h => absurd h (by simp [EventQueue.new]), [], rfl, rfl⟩

theorem goto_pcs_of_ne (h : u ≠ t) : (s.goto t pc).pcs u = s.pcs u := Function.update_of_ne h ..

@[simp] theorem goto_pcs_self : (s.goto t pc).pcs t = pc := Function.update_self ..

/-- A thread that is inside after a line of `t` was inside before, or is `t`. -/
theorem inside_of_goto (h : ((s.goto t pc).pcs u).inside = true) (hut : u ≠ t) : (s.pcs u).inside = true := by
  rwa [goto_pcs_of_ne hut] at h

theorem inside_of_goto_of_inside (ht : (s.pcs t).inside = true) (h : ((s.goto t pc).pcs u).inside = true) :
    (s.pcs u).inside = true := by
  by_cases hut : u = t
  · rw [hut, ht]
  · exact inside_of_goto h hut

theorem ne_of_goto_outside (hpc : pc.inside = false) (h : ((s.goto t pc).pcs u).inside = true) : u ≠ t := by
  rintro rfl
  rw [goto_pcs_self, hpc] at h
  simp at h

/-- A line of `t` that leaves the events alone. -/
theorem Orderly.goto (hs : Orderly s) {m : WaitMonitor Tid}
    (hguards : m.Guards fun u => ((s.goto t pc).pcs u).inside) (hpc : pc = .popRemove false → s.events ≠ []) :
    Orderly ({ s with lock := m }.goto t pc) where
  guards := hguards
  found u hu := by
    by_cases hut : u = t
    · subst hut
      exact hpc ((goto_pcs_self (s := { s with lock := m })).symm.trans hu)
    · exact hs.found u ((goto_pcs_of_ne (s := { s with lock := m }) hut).symm.trans hu)
  delivered := hs.delivered

/-- A line of `t`, which is inside, that changes the events. -/
theorem Orderly.change (hs : Orderly s) (ht : (s.pcs t).inside = true) {events pushed : List E}
    {popped : List (Option E)} (hpc : pc ≠ .popRemove false)
    (hdelivered : Delivered { s with events := events, pushed := pushed, popped := popped }) :
    Orderly ({ s with events := events, pushed := pushed, popped := popped }.goto t pc) where
  guards := hs.guards.keep rfl fun _ hu => inside_of_goto_of_inside ht hu
  found u hu := by
    by_cases hut : u = t
    · subst hut
      rw [goto_pcs_self] at hu
      exact absurd hu hpc
    · -- `u` would hold the lock, too
      have hu' : s.pcs u = .popRemove false := (goto_pcs_of_ne hut).symm.trans hu
      have hin : (s.pcs u).inside = true := by rw [hu']; rfl
      exact absurd (hs.guards.exclusive hin ht) hut
  delivered := hdelivered

omit [DecidableEq Tid] in
theorem Delivered.remove (hs : Delivered s) {event : E} {rest : List E} (h : s.events = event :: rest) :
    Delivered { s with events := s.events.tail, popped := s.popped ++ [s.events.head?] } := by
  obtain ⟨events, hpopped, hpushed⟩ := hs
  refine ⟨events ++ [event], ?_, ?_⟩
  · show s.popped ++ [s.events.head?] = _
    rw [hpopped, h, List.map_append]
    rfl
  · show s.pushed = _ ++ s.events.tail
    rw [hpushed, h]
    simp

omit [DecidableEq Tid] in
theorem Delivered.insert (hs : Delivered s) (event : E) :
    Delivered { s with events := s.events ++ [event], pushed := s.pushed ++ [event] } := by
  obtain ⟨events, hpopped, hpushed⟩ := hs
  refine ⟨events, hpopped, ?_⟩
  show s.pushed ++ [event] = events ++ (s.events ++ [event])
  rw [hpushed, List.append_assoc]

/-- `t` gets the lock. -/
theorem Orderly.acquire (hs : Orderly s) {m : WaitMonitor Tid} (hfree : s.lock.owner = none)
    (hm : m.owner = some t) (hpc : pc ≠ .popRemove false) : Orderly ({ s with lock := m }.goto t pc) :=
  hs.goto (hs.guards.acquire hfree hm fun _ hut hu => inside_of_goto hu hut) fun h => absurd h hpc

/-- `t` gives the lock up. -/
theorem Orderly.release (hs : Orderly s) {m : WaitMonitor Tid} (howner : s.lock.owner = some t)
    (hpc : pc.inside = false) : Orderly ({ s with lock := m }.goto t pc) := by
  refine hs.goto (hs.guards.release howner fun u hu => ?_) fun h => by rw [h] at hpc; cases hpc
  have hut := ne_of_goto_outside hpc hu
  exact ⟨hut, inside_of_goto hu hut⟩

/-- A line inside that leaves the lock with its holder. -/
theorem Orderly.stay (hs : Orderly s) {m : WaitMonitor Tid} (ht : (s.pcs t).inside = true)
    (hm : m.owner = s.lock.owner) (hpc : pc = .popRemove false → s.events ≠ []) :
    Orderly ({ s with lock := m }.goto t pc) :=
  hs.goto (hs.guards.keep hm fun _ hu => inside_of_goto_of_inside ht hu) hpc

/-- What a line of `t` does. -/
inductive LineOf (s : EventQueue Tid E) (t : Tid) : EventQueue Tid E → Prop where
  | enter {m : WaitMonitor Tid} {pc : QueuePc E} (hm : s.lock.enter t = some m)
      (hpc : (s.pcs t = .popEnter ∧ pc = .popTest) ∨ ∃ event, s.pcs t = .pushEnter event ∧ pc = .pushInsert event) :
      LineOf s t ({ s with lock := m }.goto t pc)
  | test (hpc : s.pcs t = .popTest) :
      LineOf s t (s.goto t (if s.events.isEmpty then .popWait else .popRemove false))
  | wait {m : WaitMonitor Tid} (hpc : s.pcs t = .popWait) (hm : s.lock.wait t = some m) :
      LineOf s t ({ s with lock := m }.goto t .popWaiting)
  | reacquire {m : WaitMonitor Tid} (hpc : s.pcs t = .popWaiting) (hm : s.lock.reacquire t = some m) :
      LineOf s t ({ s with lock := m }.goto t (.popRemove true))
  | remove {waited : Bool} (hpc : s.pcs t = .popRemove waited) :
      LineOf s t ({ s with events := s.events.tail, popped := s.popped ++ [s.events.head?] }.goto t .popExit)
  | insert {event : E} (hpc : s.pcs t = .pushInsert event) :
      LineOf s t ({ s with events := s.events ++ [event], pushed := s.pushed ++ [event] }.goto t .pushBroadcast)
  | broadcast {m : WaitMonitor Tid} (hpc : s.pcs t = .pushBroadcast) (hm : s.lock.notifyAll t = some m) :
      LineOf s t ({ s with lock := m }.goto t .pushExit)
  | exit {m : WaitMonitor Tid} (hpc : s.pcs t = .popExit ∨ s.pcs t = .pushExit) (hm : s.lock.exit t = some m) :
      LineOf s t ({ s with lock := m }.goto t .idle)

theorem lineOf_eventQueueLine (h : eventQueueLine s t (s.pcs t) = some s') : LineOf s t s' := by
  cases hpc : s.pcs t with
  | idle =>
    rw [hpc] at h
    simp [eventQueueLine] at h
  | popEnter =>
    rw [hpc] at h
    obtain ⟨m, hm, rfl⟩ := Option.map_eq_some_iff.mp h
    exact .enter hm (Or.inl ⟨hpc, rfl⟩)
  | popTest =>
    rw [hpc] at h
    obtain rfl := Option.some.inj h
    exact .test hpc
  | popWait =>
    rw [hpc] at h
    obtain ⟨m, hm, rfl⟩ := Option.map_eq_some_iff.mp h
    exact .wait hpc hm
  | popWaiting =>
    rw [hpc] at h
    obtain ⟨m, hm, rfl⟩ := Option.map_eq_some_iff.mp h
    exact .reacquire hpc hm
  | popRemove waited =>
    rw [hpc] at h
    obtain rfl := Option.some.inj h
    exact .remove hpc
  | popExit =>
    rw [hpc] at h
    obtain ⟨m, hm, rfl⟩ := Option.map_eq_some_iff.mp h
    exact .exit (Or.inl hpc) hm
  | pushEnter event =>
    rw [hpc] at h
    obtain ⟨m, hm, rfl⟩ := Option.map_eq_some_iff.mp h
    exact .enter hm (Or.inr ⟨event, hpc, rfl⟩)
  | pushInsert event =>
    rw [hpc] at h
    obtain rfl := Option.some.inj h
    exact .insert hpc
  | pushBroadcast =>
    rw [hpc] at h
    obtain ⟨m, hm, rfl⟩ := Option.map_eq_some_iff.mp h
    exact .broadcast hpc hm
  | pushExit =>
    rw [hpc] at h
    obtain ⟨m, hm, rfl⟩ := Option.map_eq_some_iff.mp h
    exact .exit (Or.inr hpc) hm

/-- A line keeps the queue orderly if a pop that has waited finds an event. -/
theorem Orderly.line (hs : Orderly s) (hC : s.pcs t = .popRemove true → s.events ≠ []) (h : LineOf s t s') :
    Orderly s' := by
  cases h with
  | enter hm hpc =>
    obtain ⟨hfree, rfl⟩ := enter_eq_some.mp hm
    rcases hpc with ⟨-, rfl⟩ | ⟨event, -, rfl⟩
    · exact hs.acquire hfree rfl (by simp)
    · exact hs.acquire hfree rfl (by simp)
  | test hpc =>
    refine hs.stay (by rw [hpc]; rfl) rfl fun hfound hnil => ?_
    rw [hnil] at hfound
    simp at hfound
  | wait hpc hm => exact hs.release (wait_eq_some.mp hm).1 rfl
  | reacquire hpc hm =>
    obtain ⟨⟨hfree, -⟩, rfl⟩ := reacquire_eq_some.mp hm
    exact hs.acquire hfree rfl (by simp)
  | @remove waited hpc =>
    have hne : s.events ≠ [] := by
      cases waited with
      | false => exact hs.found t hpc
      | true => exact hC hpc
    obtain ⟨event, rest, hevents⟩ := List.exists_cons_of_ne_nil hne
    exact hs.change (by rw [hpc]; rfl) (by simp) (hs.delivered.remove hevents)
  | insert hpc => exact hs.change (by rw [hpc]; rfl) (by simp) (hs.delivered.insert _)
  | broadcast hpc hm =>
    obtain ⟨-, rfl⟩ := notifyAll_eq_some.mp hm
    exact hs.stay (by rw [hpc]; rfl) rfl (by simp)
  | exit _ hm => exact hs.release (exit_eq_some.mp hm).1 rfl

/-- A call of `pop` or `push`. -/
theorem Orderly.call (hs : Orderly s) (hpc : pc.inside = false) : Orderly (s.goto t pc) := by
  refine hs.goto (hs.guards.keep rfl fun u hu => ?_) fun h => by rw [h] at hpc; cases hpc
  exact inside_of_goto hu (ne_of_goto_outside hpc hu)

theorem orderly_step (e : QueueLabel Tid E) (hs : Orderly s) (hC : WakesToEvent s e s')
    (h : eventQueueStep s e = some s') : Orderly s' := by
  cases e with
  | pop t =>
    unfold eventQueueStep at h
    dsimp only at h
    split at h
    · obtain rfl := Option.some.inj h
      exact hs.call rfl
    · simp at h
  | push t event =>
    unfold eventQueueStep at h
    dsimp only at h
    split at h
    · obtain rfl := Option.some.inj h
      exact hs.call rfl
    · simp at h
  | go t => exact hs.line (hC t rfl) (lineOf_eventQueueLine h)

/-- A pop that has waited and finds no event gives nil. -/
theorem not_delivered_of_not_wakesToEvent (hC : ¬ WakesToEvent s e s') (h : eventQueueStep s e = some s') :
    ¬ Delivered s' := by
  rintro ⟨events, hpopped, -⟩
  refine hC ?_
  rintro t rfl hpc hnil
  rw [eventQueueStep, hpc] at h
  obtain rfl := Option.some.inj h
  have hnone : none ∈ events.map some := by
    rw [← hpopped]
    show none ∈ s.popped ++ [s.events.head?]
    rw [hnil]
    exact List.mem_append_right _ List.mem_cons_self
  obtain ⟨event, -, hevent⟩ := List.mem_map.mp hnone
  simp at hevent

end Steps

/-! ## One consumer -/

section OneConsumer

variable [DecidableEq Tid] {c : Tid} {s s' : EventQueue Tid E} {e : QueueLabel Tid E} {t : Tid} {pc : QueuePc E}

def QueuePc.pops : QueuePc E → Bool
  | .popEnter | .popTest | .popWait | .popWaiting | .popRemove _ | .popExit => true
  | .idle | .pushEnter _ | .pushInsert _ | .pushBroadcast | .pushExit => false

def QueuePc.waits : QueuePc E → Bool
  | .popWaiting => true
  | _ => false

/-- Nobody but `c` pops or waits; there is an event when `c` has been woken, when it removes one after a wait, and
between an insertion and its broadcast. -/
structure OneConsumer (c : Tid) (s : EventQueue Tid E) : Prop where
  pops : ∀ t, (s.pcs t).pops = true → t = c
  waits : s.lock.OnlyWaiter c (s.pcs c).waits
  woken : s.lock.woken ≠ [] → s.events ≠ []
  removes : ∀ t, s.pcs t = .popRemove true → s.events ≠ []
  inserted : ∀ t, s.pcs t = .pushBroadcast → s.events ≠ []

omit [DecidableEq Tid] in
theorem oneConsumer_new (c : Tid) : OneConsumer c (EventQueue.new : EventQueue Tid E) where
  pops _ h := by cases h
  waits := onlyWaiter_free
  woken h := absurd rfl h
  removes _ h := by cases h
  inserted _ h := by cases h

/-- A line of `t`, after which the events are `events`. -/
theorem OneConsumer.goto (hs : OneConsumer c s) {m : WaitMonitor Tid} {events pushed : List E}
    {popped : List (Option E)} (hpops : pc.pops = true → t = c) (hwaits : m.OnlyWaiter c ((s.goto t pc).pcs c).waits)
    (hwoken : m.woken ≠ [] → events ≠ []) (hpc : pc = .popRemove true ∨ pc = .pushBroadcast → events ≠ [])
    (hothers : ∀ u, u ≠ t → s.pcs u = .popRemove true ∨ s.pcs u = .pushBroadcast → events ≠ []) :
    OneConsumer c ({ s with lock := m, events := events, pushed := pushed, popped := popped }.goto t pc) where
  pops u hu := by
    by_cases hut : u = t
    · subst hut
      exact hpops (by rwa [goto_pcs_self] at hu)
    · rw [goto_pcs_of_ne hut] at hu
      exact hs.pops u hu
  waits := hwaits
  woken := hwoken
  removes u hu := by
    by_cases hut : u = t
    · subst hut
      rw [goto_pcs_self] at hu
      exact hpc (Or.inl hu)
    · rw [goto_pcs_of_ne hut] at hu
      exact hothers u hut (Or.inl hu)
  inserted u hu := by
    by_cases hut : u = t
    · subst hut
      rw [goto_pcs_self] at hu
      exact hpc (Or.inr hu)
    · rw [goto_pcs_of_ne hut] at hu
      exact hothers u hut (Or.inr hu)

theorem waits_goto (h : pc.waits = (s.pcs t).waits) (u : Tid) : ((s.goto t pc).pcs u).waits = (s.pcs u).waits := by
  by_cases hut : u = t
  · subst hut
    rw [goto_pcs_self, h]
  · rw [goto_pcs_of_ne hut]

/-- A line of `t` that leaves the events and the waiting threads alone. -/
theorem OneConsumer.stay (hs : OneConsumer c s) {m : WaitMonitor Tid} (hwaiting : m.waiting = s.lock.waiting)
    (hwoken : m.woken = s.lock.woken) (hpops : pc.pops = true → t = c) (hwaits : pc.waits = (s.pcs t).waits)
    (hpc : pc ≠ .popRemove true ∧ pc ≠ .pushBroadcast) : OneConsumer c ({ s with lock := m }.goto t pc) := by
  refine hs.goto hpops ?_ (fun h => hs.woken (hwoken ▸ h)) (fun h => ?_) (fun u _ h => ?_)
  · rw [waits_goto hwaits]
    exact hs.waits.congr hwaiting hwoken
  · exact absurd h (not_or.mpr hpc)
  · rcases h with h | h
    · exact hs.removes u h
    · exact hs.inserted u h

omit [DecidableEq Tid] in
/-- Nobody else is at a line of `pop` or `push` inside the lock. -/
theorem Orderly.alone (hs : Orderly s) (ht : (s.pcs t).inside = true) {u : Tid} (hut : u ≠ t)
    (hu : s.pcs u = .popRemove true ∨ s.pcs u = .pushBroadcast) : False := by
  refine hut (hs.guards.exclusive ?_ ht)
  rcases hu with hu | hu
  · rw [hu]
    rfl
  · rw [hu]
    rfl

theorem OneConsumer.line (hs : OneConsumer c s) (ho : Orderly s) (h : LineOf s t s') : OneConsumer c s' := by
  have hpops := hs.pops t
  have hwaits := hs.waits
  cases h with
  | enter hm hpc =>
    obtain ⟨-, rfl⟩ := enter_eq_some.mp hm
    rcases hpc with ⟨hpc, rfl⟩ | ⟨event, hpc, rfl⟩
    · rw [hpc] at hpops
      exact hs.stay rfl rfl hpops (by rw [hpc]; rfl) ⟨by simp, by simp⟩
    · exact hs.stay rfl rfl (by simp [QueuePc.pops]) (by rw [hpc]; rfl) ⟨by simp, by simp⟩
  | test hpc =>
    rw [hpc] at hpops
    split_ifs
    · exact hs.stay rfl rfl hpops (by rw [hpc]; rfl) ⟨by simp, by simp⟩
    · exact hs.stay rfl rfl hpops (by rw [hpc]; rfl) ⟨by simp, by simp⟩
  | wait hpc hm =>
    rw [hpc] at hpops
    obtain rfl : t = c := hpops rfl
    rw [hpc] at hwaits
    refine hs.goto hpops ?_ (fun hwoken => ?_) (by simp) fun u hut hu => (ho.alone (by rw [hpc]; rfl) hut hu).elim
    · rw [goto_pcs_self]
      exact (hwaits.wait hm).1
    · obtain ⟨-, rfl⟩ := wait_eq_some.mp hm
      exact hs.woken hwoken
  | reacquire hpc hm =>
    rw [hpc] at hpops
    obtain rfl : t = c := hpops rfl
    rw [hpc] at hwaits
    -- `t` has been woken, so an event has been inserted, and nobody else removes one
    have hevents : s.events ≠ [] := hs.woken (List.ne_nil_of_mem (reacquire_eq_some.mp hm).1.2)
    refine hs.goto hpops ?_ (fun _ => hevents) (fun _ => hevents) fun _ _ _ => hevents
    rw [goto_pcs_self]
    exact (hwaits.reacquire hm).1
  | remove hpc =>
    rw [hpc] at hpops
    obtain rfl : t = c := hpops rfl
    rw [hpc] at hwaits
    refine hs.goto hpops ?_ (fun hwoken => absurd hwaits.2 hwoken) (by simp)
      fun u hut hu => (ho.alone (by rw [hpc]; rfl) hut hu).elim
    rw [goto_pcs_self]
    exact hwaits
  | insert hpc =>
    have hevents : ∀ event : E, s.events ++ [event] ≠ [] := fun event => by simp
    refine hs.goto (by simp [QueuePc.pops]) ?_ (fun _ => hevents _) (fun _ => hevents _) fun _ _ _ => hevents _
    rw [waits_goto (by rw [hpc]; rfl)]
    exact hwaits
  | broadcast hpc hm =>
    have hevents := hs.inserted t hpc
    refine hs.goto (by simp [QueuePc.pops]) ?_ (fun _ => hevents) (fun _ => hevents) fun _ _ _ => hevents
    rw [waits_goto (by rw [hpc]; rfl)]
    exact (hwaits.notifyAll hm).1
  | exit hpc hm =>
    obtain ⟨-, rfl⟩ := exit_eq_some.mp hm
    rcases hpc with hpc | hpc
    · exact hs.stay rfl rfl (by simp [QueuePc.pops]) (by rw [hpc]; rfl) ⟨by simp, by simp⟩
    · exact hs.stay rfl rfl (by simp [QueuePc.pops]) (by rw [hpc]; rfl) ⟨by simp, by simp⟩

theorem oneConsumer_step (e : QueueLabel Tid E) (hs : OneConsumer c s) (ho : Orderly s) (he : ∀ u, e = .pop u → u = c)
    (h : eventQueueStep s e = some s') : OneConsumer c s' := by
  cases e with
  | pop t =>
    unfold eventQueueStep at h
    dsimp only at h
    split at h
    case h_1 hpc =>
      obtain rfl := Option.some.inj h
      exact hs.stay rfl rfl (fun _ => he t rfl) (by rw [hpc]; rfl) ⟨by simp, by simp⟩
    case h_2 => simp at h
  | push t event =>
    unfold eventQueueStep at h
    dsimp only at h
    split at h
    case h_1 hpc =>
      obtain rfl := Option.some.inj h
      exact hs.stay rfl rfl (by simp [QueuePc.pops]) (by rw [hpc]; rfl) ⟨by simp, by simp⟩
    case h_2 => simp at h
  | go t => exact hs.line ho (lineOf_eventQueueLine h)

end OneConsumer

/-! ## Runs -/

section Runs

variable [DecidableEq Tid]

/-- **The queue delivers each event once and in order**, along a run of any threads, exactly when every pop that has
waited finds an event when it goes on. -/
theorem delivered_iff (es : List (QueueLabel Tid E)) :
    Always eventQueueStep Delivered (EventQueue.new : EventQueue Tid E) es ↔
      EachStep eventQueueStep WakesToEvent (EventQueue.new : EventQueue Tid E) es :=
  always_iff_eachStep (fun _ e _ hs hC h => orderly_step e hs hC h) (fun _ hs => hs.delivered)
    (fun _ _ _ _ hC h => not_delivered_of_not_wakesToEvent hC h) es _ orderly_new

/-- With a single thread that pops, the queue delivers each event once and in order along every run. -/
theorem delivered_of_one_consumer (c : Tid) {es : List (QueueLabel Tid E)} (hes : ∀ t, .pop t ∈ es → t = c) :
    Always eventQueueStep Delivered (EventQueue.new : EventQueue Tid E) es := by
  refine always_of_inv (I := fun s => Orderly s ∧ OneConsumer c s) (C := fun _ e _ => ∀ t, e = .pop t → t = c)
    (fun s e s' hs hC h => ?_) (fun _ hs => hs.1.delivered) es _ ⟨orderly_new, oneConsumer_new c⟩ ?_
  · have hwakes : WakesToEvent s e s' := fun t _ hpc => hs.2.removes t hpc
    exact ⟨orderly_step e hs.1 hwakes h, oneConsumer_step e hs.2 hs.1 hC h⟩
  · refine eachStep_of_forall fun e he _ _ t het => hes t ?_
    rwa [← het]

/-- Threads 0 and 1 wait in `pop`, thread 2 pushes one event, and both go on. -/
def twoPopsLabels : List (QueueLabel (Fin 3) ℕ) :=
  [.pop 0, .go 0, .go 0, .go 0, .pop 1, .go 1, .go 1, .go 1, .push 2 7, .go 2, .go 2, .go 2, .go 2,
    .go 0, .go 0, .go 0, .go 1, .go 1]

/-- The second pop gives nil. -/
theorem twoPops_not_delivered :
    ¬ Always eventQueueStep Delivered (EventQueue.new : EventQueue (Fin 3) ℕ) twoPopsLabels := by
  have hrun : run eventQueueStep (EventQueue.new : EventQueue (Fin 3) ℕ) twoPopsLabels = some _ := rfl
  refine not_always_of_run hrun ?_
  rintro ⟨events, hpopped, -⟩
  have hnone : none ∈ events.map some := hpopped ▸ (by decide : none ∈ [some 7, none])
  obtain ⟨event, -, hevent⟩ := List.mem_map.mp hnone
  simp at hevent

end Runs

end YellowTree
