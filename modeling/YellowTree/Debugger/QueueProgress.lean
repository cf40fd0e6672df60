import YellowTree.Debugger.EventQueue

/-!
# YellowTree.Debugger.QueueProgress — calls of `pop` and `push` come to an end

Whatever `pop` delivers, an EventQueue does not get stuck.  `Accounted` relates the raw monitor to the lines the
threads are at: the owner is inside, a thread in the wait is listed, and nobody waits for events that are there, except
between an insertion and its broadcast.  It holds in every run, with any number of threads that pop.

A wait ends with a broadcast only.  An interrupt, after which `lj_raw_monitor_wait` raises an error with the monitor
held, and a wake-up for no reason are left out.

* `quiet_of_blocked`: when no thread can go on, each has returned or waits for an event of an empty queue.
* `calls_end`: so it is after each run, and a call takes at most as many lines as its text has, whatever the schedule.
-/

namespace YellowTree

open Transition WaitMonitor

variable {Tid E : Type} [DecidableEq Tid] {s s' : EventQueue Tid E} {e : QueueLabel Tid E} {t u : Tid} {pc : QueuePc E}

/-! ## The monitor and the lines -/

section Accounted

/-- What the monitor knows of the threads, and when a thread waits with an event in the queue. -/
structure Accounted (s : EventQueue Tid E) : Prop where
  guards : s.lock.Guards fun t => (s.pcs t).inside
  owner : ∀ t, s.lock.owner = some t → (s.pcs t).inside = true
  listed : ∀ t, s.pcs t = .popWaiting → t ∈ s.lock.waiting ∨ t ∈ s.lock.woken
  empty : ∀ t, s.pcs t = .popWait → s.events = []
  waits : s.lock.waiting ≠ [] → s.events = [] ∨ ∃ t, s.pcs t = .pushBroadcast

omit [DecidableEq Tid] in
theorem accounted_new : Accounted (EventQueue.new : EventQueue Tid E) where
  guards _ h := absurd h Bool.false_ne_true
  owner _ h := by cases h
  listed _ h := by cases h
  empty _ h := by cases h
  waits h := absurd rfl h

omit [DecidableEq Tid] in
theorem Accounted.owner_of_inside (hs : Accounted s) (ht : (s.pcs t).inside = true) : s.lock.owner = some t :=
  hs.guards t ht

/-- Nobody but `t` is inside when `t` is at a line that it can run. -/
theorem LineOf.alone (hs : Accounted s) (h : LineOf s t s') : ∀ u, u ≠ t → (s.pcs u).inside = false := by
  have hinside : (s.pcs t).inside = true → ∀ u, u ≠ t → (s.pcs u).inside = false := by
    intro ht u hut
    by_contra hu
    exact hut (hs.guards.exclusive (Bool.not_eq_false _ ▸ hu) ht)
  have hfree : s.lock.owner = none → ∀ u, u ≠ t → (s.pcs u).inside = false := by
    intro howner u _
    by_contra hu
    have hu' := hs.owner_of_inside (Bool.not_eq_false _ ▸ hu)
    rw [howner] at hu'
    cases hu'
  cases h with
  | enter hm _ => exact hfree (enter_eq_some.mp hm).1
  | reacquire _ hm => exact hfree (reacquire_eq_some.mp hm).1.1
  | test hpc | wait hpc _ | remove hpc | insert hpc | broadcast hpc _ => exact hinside (by rw [hpc]; rfl)
  | exit hpc _ =>
    rcases hpc with hpc | hpc
    · exact hinside (by rw [hpc]; rfl)
    · exact hinside (by rw [hpc]; rfl)

/-- Away from a broadcast, nobody waits for an event that is there. -/
theorem Accounted.waits_of_alone (hs : Accounted s) (halone : ∀ u, u ≠ t → (s.pcs u).inside = false)
    (ht : s.pcs t ≠ .pushBroadcast) (hw : s.lock.waiting ≠ []) : s.events = [] := by
  rcases hs.waits hw with hevents | ⟨u, hu⟩
  · exact hevents
  · by_cases hut : u = t
    · exact absurd (hut ▸ hu) ht
    · have hout := halone u hut
      rw [hu] at hout
      simp [QueuePc.inside] at hout

/-- A line of `t`, with nobody else inside: `m` is the monitor after it. -/
theorem Accounted.goto (hs : Accounted s) (halone : ∀ u, u ≠ t → (s.pcs u).inside = false) {m : WaitMonitor Tid}
    {events pushed : List E} {popped : List (Option E)} (howner : m.owner = if pc.inside then some t else none)
    (hlisted : ∀ u, u ≠ t → u ∈ s.lock.waiting ∨ u ∈ s.lock.woken → u ∈ m.waiting ∨ u ∈ m.woken)
    (hself : pc = .popWaiting → t ∈ m.waiting) (hempty : pc = .popWait → events = [])
    (hwaits : m.waiting ≠ [] → events = [] ∨ pc = .pushBroadcast) :
    Accounted ({ s with lock := m, events := events, pushed := pushed, popped := popped }.goto t pc) where
  guards u hu := by
    dsimp only at hu
    by_cases hut : u = t
    · subst hut
      rw [goto_pcs_self] at hu
      exact howner.trans (if_pos hu)
    · rw [goto_pcs_of_ne hut] at hu
      exact absurd hu (by rw [halone u hut]; simp)
  owner u hu := by
    have hu' : m.owner = some u := hu
    rw [howner, Option.ite_none_right_eq_some] at hu'
    obtain ⟨hpc, ht⟩ := hu'
    obtain rfl := Option.some.inj ht
    rw [goto_pcs_self]
    exact hpc
  listed u hu := by
    by_cases hut : u = t
    · subst hut
      rw [goto_pcs_self] at hu
      exact Or.inl (hself hu)
    · rw [goto_pcs_of_ne hut] at hu
      exact hlisted u hut (hs.listed u hu)
  empty u hu := by
    by_cases hut : u = t
    · subst hut
      rw [goto_pcs_self] at hu
      exact hempty hu
    · rw [goto_pcs_of_ne hut] at hu
      have hout := halone u hut
      rw [hu] at hout
      simp [QueuePc.inside] at hout
  waits hw := by
    rcases hwaits hw with hevents | hpc
    · exact Or.inl hevents
    · exact Or.inr ⟨t, by rw [goto_pcs_self]; exact hpc⟩

theorem Accounted.line (hs : Accounted s) (h : LineOf s t s') : Accounted s' := by
  have halone := h.alone hs
  cases h with
  | enter hm hpc =>
    obtain ⟨-, rfl⟩ := enter_eq_some.mp hm
    rcases hpc with ⟨hpc, rfl⟩ | ⟨event, hpc, rfl⟩
    · exact hs.goto halone rfl (fun _ _ hu => hu) (by simp) (by simp)
        fun hw => Or.inl (hs.waits_of_alone halone (by rw [hpc]; simp) hw)
    · exact hs.goto halone rfl (fun _ _ hu => hu) (by simp) (by simp)
        fun hw => Or.inl (hs.waits_of_alone halone (by rw [hpc]; simp) hw)
  | test hpc =>
    have howner : s.lock.owner = some t := hs.owner_of_inside (by rw [hpc]; rfl)
    have hwaits : s.lock.waiting ≠ [] → s.events = [] := hs.waits_of_alone halone (by rw [hpc]; simp)
    by_cases hevents : s.events.isEmpty = true
    · rw [if_pos hevents]
      exact hs.goto halone howner (fun _ _ hu => hu) (by simp) (fun _ => List.isEmpty_iff.mp hevents)
        fun hw => Or.inl (hwaits hw)
    · rw [if_neg hevents]
      exact hs.goto halone howner (fun _ _ hu => hu) (by simp) (by simp) fun hw => Or.inl (hwaits hw)
  | wait hpc hm =>
    obtain ⟨-, rfl⟩ := wait_eq_some.mp hm
    exact hs.goto halone rfl (fun _ _ hu => hu.imp_left (List.mem_cons_of_mem _)) (fun _ => List.mem_cons_self)
      (by simp) fun _ => Or.inl (hs.empty t hpc)
  | reacquire hpc hm =>
    obtain ⟨-, rfl⟩ := reacquire_eq_some.mp hm
    exact hs.goto halone rfl (fun _ hut hu => hu.imp_right (List.mem_erase_of_ne hut).mpr) (by simp) (by simp)
      fun hw => Or.inl (hs.waits_of_alone halone (by rw [hpc]; simp) hw)
  | remove hpc =>
    have howner : s.lock.owner = some t := hs.owner_of_inside (by rw [hpc]; rfl)
    refine hs.goto halone howner (fun _ _ hu => hu) (by simp) (by simp) fun hw => Or.inl ?_
    rw [hs.waits_of_alone halone (by rw [hpc]; simp) hw]
    rfl
  | insert hpc =>
    have howner : s.lock.owner = some t := hs.owner_of_inside (by rw [hpc]; rfl)
    exact hs.goto halone howner (fun _ _ hu => hu) (by simp) (by simp) fun _ => Or.inr rfl
  | broadcast _ hm =>
    obtain ⟨howner, rfl⟩ := notifyAll_eq_some.mp hm
    exact hs.goto halone howner (fun _ _ hu => Or.inr (List.mem_append.mpr hu)) (by simp) (by simp)
      fun hw => absurd rfl hw
  | exit hpc hm =>
    obtain ⟨-, rfl⟩ := exit_eq_some.mp hm
    have hne : s.pcs t ≠ .pushBroadcast := by rcases hpc with hpc | hpc <;> simp [hpc]
    exact hs.goto halone rfl (fun _ _ hu => hu) (by simp) (by simp)
      fun hw => Or.inl (hs.waits_of_alone halone hne hw)

/-- A call of `pop` or `push` leaves the monitor to the others. -/
theorem Accounted.call (hs : Accounted s) (hidle : s.pcs t = .idle)
    (hpc : pc = .popEnter ∨ ∃ event, pc = .pushEnter event) : Accounted (s.goto t pc) where
  guards u hu := by
    dsimp only at hu
    by_cases hut : u = t
    · subst hut
      rw [goto_pcs_self] at hu
      rcases hpc with rfl | ⟨event, rfl⟩ <;> cases hu
    · rw [goto_pcs_of_ne hut] at hu
      exact hs.guards u hu
  owner u hu := by
    have hin := hs.owner u hu
    have hut : u ≠ t := by
      rintro rfl
      rw [hidle] at hin
      cases hin
    rw [goto_pcs_of_ne hut]
    exact hin
  listed u hu := by
    by_cases hut : u = t
    · subst hut
      rw [goto_pcs_self] at hu
      rcases hpc with rfl | ⟨event, rfl⟩ <;> cases hu
    · rw [goto_pcs_of_ne hut] at hu
      exact hs.listed u hu
  empty u hu := by
    by_cases hut : u = t
    · subst hut
      rw [goto_pcs_self] at hu
      rcases hpc with rfl | ⟨event, rfl⟩ <;> cases hu
    · rw [goto_pcs_of_ne hut] at hu
      exact hs.empty u hu
  waits hw := by
    refine (hs.waits hw).imp_right fun ⟨u, hu⟩ => ⟨u, ?_⟩
    have hut : u ≠ t := by
      rintro rfl
      rw [hidle] at hu
      cases hu
    rw [goto_pcs_of_ne hut]
    exact hu

theorem accounted_step (s : EventQueue Tid E) (e : QueueLabel Tid E) (s' : EventQueue Tid E) (hs : Accounted s)
    (h : eventQueueStep s e = some s') : Accounted s' := by
  cases e with
  | pop t =>
    unfold eventQueueStep at h
    dsimp only at h
    split at h
    case h_1 hidle =>
      obtain rfl := Option.some.inj h
      exact hs.call hidle (Or.inl rfl)
    case h_2 => cases h
  | push t event =>
    unfold eventQueueStep at h
    dsimp only at h
    split at h
    case h_1 hidle =>
      obtain rfl := Option.some.inj h
      exact hs.call hidle (Or.inr ⟨event, rfl⟩)
    case h_2 => cases h
  | go t => exact hs.line (lineOf_eventQueueLine h)

end Accounted

/-! ## No thread is stuck -/

section Blocked

/-- Inside, the next line can always be run. -/
theorem Accounted.go_of_inside (hs : Accounted s) (ht : (s.pcs t).inside = true) :
    eventQueueStep s (.go t) ≠ none := by
  have howner := hs.owner_of_inside ht
  cases hpc : s.pcs t with
  | popTest | popRemove waited | pushInsert event => simp [eventQueueStep, hpc, eventQueueLine]
  | popWait => simp [eventQueueStep, hpc, eventQueueLine, WaitMonitor.wait, howner]
  | popExit | pushExit => simp [eventQueueStep, hpc, eventQueueLine, WaitMonitor.exit, howner]
  | pushBroadcast => simp [eventQueueStep, hpc, eventQueueLine, WaitMonitor.notifyAll, howner]
  | idle | popEnter | popWaiting | pushEnter event =>
    rw [hpc] at ht
    cases ht

/-- **Nobody is stuck**: when no thread can go on, each has returned or waits for an event of an empty queue. -/
theorem Accounted.quiet_of_blocked (hs : Accounted s) (hblocked : ∀ t, eventQueueStep s (.go t) = none) (t : Tid) :
    s.pcs t = .idle ∨ (s.pcs t = .popWaiting ∧ s.events = []) := by
  have hout : ∀ u, (s.pcs u).inside = false := by
    intro u
    by_contra hu
    exact hs.go_of_inside (Bool.not_eq_false _ ▸ hu) (hblocked u)
  have hfree : s.lock.owner = none := by
    cases howner : s.lock.owner with
    | none => rfl
    | some u =>
      have hin := hs.owner u howner
      rw [hout u] at hin
      cases hin
  have hgo := hblocked t
  have hin := hout t
  rw [eventQueueStep] at hgo
  cases hpc : s.pcs t with
  | idle => exact Or.inl rfl
  | popEnter | pushEnter event =>
    rw [hpc] at hgo
    simp [eventQueueLine, WaitMonitor.enter, hfree] at hgo
  | popWaiting =>
    refine Or.inr ⟨rfl, ?_⟩
    -- `t` has not been woken, so it is still in `waiting`
    have hwaiting : t ∈ s.lock.waiting := by
      refine (hs.listed t hpc).resolve_right fun hwoken => ?_
      rw [hpc] at hgo
      simp [eventQueueLine, WaitMonitor.reacquire, hfree, hwoken] at hgo
    rcases hs.waits (List.ne_nil_of_mem hwaiting) with hevents | ⟨u, hu⟩
    · exact hevents
    · have hu' := hout u
      rw [hu] at hu'
      cases hu'
  | popTest | popWait | popRemove waited | popExit | pushInsert event | pushBroadcast | pushExit =>
    rw [hpc] at hin
    cases hin

end Blocked

/-! ## A call has finitely many lines -/

section Lines

/-- The lines that a call has left at most. -/
def QueuePc.linesLeft : QueuePc E → ℕ
  | .idle => 0
  | .popEnter => 6
  | .popTest => 5
  | .popWait => 4
  | .popWaiting => 3
  | .popRemove _ => 2
  | .popExit => 1
  | .pushEnter _ => 4
  | .pushInsert _ => 3
  | .pushBroadcast => 2
  | .pushExit => 1

/-- A line of `t`. -/
def QueueLabel.isLine (t : Tid) : QueueLabel Tid E → Bool
  | .go u => u = t
  | _ => false

/-- The lines of a call of `t`: six for `pop`, four for `push`. -/
def QueueLabel.lines (t : Tid) : QueueLabel Tid E → ℕ
  | .pop u => if u = t then 6 else 0
  | .push u _ => if u = t then 4 else 0
  | .go _ => 0

/-- The lines of the calls of `t`. -/
def callLines (t : Tid) : List (QueueLabel Tid E) → ℕ
  | [] => 0
  | e :: es => e.lines t + callLines t es

theorem LineOf.linesLeft (h : LineOf s t s') :
    (s'.pcs t).linesLeft + 1 ≤ (s.pcs t).linesLeft ∧ ∀ u, u ≠ t → s'.pcs u = s.pcs u := by
  cases h with
  | enter _ hpc =>
    refine ⟨?_, fun u hu => goto_pcs_of_ne hu⟩
    rw [goto_pcs_self]
    rcases hpc with ⟨hpc, rfl⟩ | ⟨event, hpc, rfl⟩ <;> simp [hpc, QueuePc.linesLeft]
  | test hpc =>
    refine ⟨?_, fun u hu => goto_pcs_of_ne hu⟩
    rw [goto_pcs_self, hpc]
    split_ifs <;> simp [QueuePc.linesLeft]
  | exit hpc _ =>
    refine ⟨?_, fun u hu => goto_pcs_of_ne hu⟩
    rw [goto_pcs_self]
    rcases hpc with hpc | hpc <;> simp [hpc, QueuePc.linesLeft]
  | wait hpc _ | reacquire hpc _ | remove hpc | insert hpc | broadcast hpc _ =>
    refine ⟨?_, fun u hu => goto_pcs_of_ne hu⟩
    rw [goto_pcs_self, hpc]
    simp [QueuePc.linesLeft]

/-- A step of any thread, in lines of `t`. -/
theorem linesLeft_step (h : eventQueueStep s e = some s') (t : Tid) :
    (if e.isLine t then 1 else 0) + (s'.pcs t).linesLeft ≤ (s.pcs t).linesLeft + e.lines t := by
  have hcall : ∀ {u} pc, s.pcs u = .idle →
      ((s.goto u pc).pcs t).linesLeft ≤ (s.pcs t).linesLeft + if u = t then pc.linesLeft else 0 := by
    intro u pc hidle
    by_cases hut : u = t
    · subst hut
      simp
    · rw [goto_pcs_of_ne (Ne.symm hut)]
      exact Nat.le_add_right _ _
  cases e with
  | pop u =>
    unfold eventQueueStep at h
    dsimp only at h
    split at h
    case h_1 hidle =>
      obtain rfl := Option.some.inj h
      simpa [QueueLabel.isLine, QueueLabel.lines, QueuePc.linesLeft] using hcall .popEnter hidle
    case h_2 => cases h
  | push u event =>
    unfold eventQueueStep at h
    dsimp only at h
    split at h
    case h_1 hidle =>
      obtain rfl := Option.some.inj h
      simpa [QueueLabel.isLine, QueueLabel.lines, QueuePc.linesLeft] using hcall (.pushEnter event) hidle
    case h_2 => cases h
  | go u =>
    obtain ⟨hleft, hothers⟩ := (lineOf_eventQueueLine h).linesLeft
    by_cases hut : u = t
    · subst hut
      simp only [QueueLabel.isLine, decide_true, if_true, QueueLabel.lines]
      omega
    · simp [QueueLabel.isLine, QueueLabel.lines, hut, hothers t (Ne.symm hut)]

/-- The lines that `t` has run and those it has left are no more than those of its calls. -/
theorem linesLeft_run (t : Tid) : ∀ {es : List (QueueLabel Tid E)} {s s' : EventQueue Tid E},
    run eventQueueStep s es = some s' →
      es.countP (·.isLine t) + (s'.pcs t).linesLeft ≤ (s.pcs t).linesLeft + callLines t es
  | [], s, s', h => by
    obtain rfl : s = s' := by simpa using h
    simp [callLines]
  | e :: es, s, s', h => by
    rw [run_cons, Option.bind_eq_some_iff] at h
    obtain ⟨r, hr, h⟩ := h
    have hstep := linesLeft_step hr t
    have hrun := linesLeft_run t h
    rw [List.countP_cons, callLines]
    omega

end Lines

/-! ## Runs -/

section Runs

/-- **Calls come to an end**, after each run and whatever the schedule: a thread has run no more lines than those of
its calls; and when no thread can go on, each has returned or waits in `pop` for an event of an empty queue. -/
theorem calls_end {es : List (QueueLabel Tid E)} (h : run eventQueueStep EventQueue.new es = some s) :
    (∀ t, es.countP (·.isLine t) ≤ callLines t es) ∧
      ((∀ t, eventQueueStep s (.go t) = none) →
        ∀ t, s.pcs t = .idle ∨ (s.pcs t = .popWaiting ∧ s.events = [])) := by
  refine ⟨fun t => ?_, fun hblocked t => ?_⟩
  · have hrun := linesLeft_run t h
    have hidle : ((EventQueue.new : EventQueue Tid E).pcs t).linesLeft = 0 := rfl
    omega
  · exact (run_inv accounted_step es _ s accounted_new h).quiet_of_blocked hblocked t

/-- Thread 1 pushes an event, and thread 0 pops twice. -/
def popAgainLabels : List (QueueLabel (Fin 2) ℕ) :=
  [.push 1 7, .go 1, .go 1, .go 1, .go 1, .pop 0, .go 0, .go 0, .go 0, .go 0, .pop 0, .go 0, .go 0, .go 0]

/-- Nobody can go on: thread 1 has returned, and the second pop waits. -/
theorem popAgain_end : ∃ s, run eventQueueStep EventQueue.new popAgainLabels = some s ∧
    (∀ t, popAgainLabels.countP (·.isLine t) ≤ callLines t popAgainLabels) ∧
    ∀ t, s.pcs t = .idle ∨ (s.pcs t = .popWaiting ∧ s.events = []) := by
  have hrun : run eventQueueStep (EventQueue.new : EventQueue (Fin 2) ℕ) popAgainLabels = some _ := rfl
  obtain ⟨hlines, hquiet⟩ := calls_end hrun
  refine ⟨_, hrun, hlines, hquiet fun t => ?_⟩
  match t with
  | 0 => rfl
  | 1 => rfl

end Runs

end YellowTree
