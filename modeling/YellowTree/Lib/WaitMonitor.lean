import Mathlib.Data.List.Basic

/-!
# WaitMonitor — a lock with wait and notify

The holder of the lock can `wait`: it gives the lock up and joins `waiting`.  `notify` moves one waiting thread to
`woken` and `notifyAll` all of them; a woken thread goes on by `reacquire`, once the lock is free, in any order with
the others and with threads that `enter`.  A notification that nobody waits for has no effect.  Threads do not enter
a lock again that they hold.

`Guards m crit` says that a thread in its critical section holds the lock.  Each operation keeps it when it changes
the critical sections as it should, and two threads are never in theirs together.  `OnlyWaiter m t waits` describes a
lock that nobody but `t` ever waits for.
-/

structure WaitMonitor (Tid : Type*) where
  owner : Option Tid
  waiting : List Tid
  woken : List Tid
  deriving DecidableEq

namespace WaitMonitor

variable {Tid : Type*}

/-! ## Operations -/

section Operations

def free : WaitMonitor Tid := ⟨none, [], []⟩

/-- `t` gets the lock; `none` while it is held. -/
def enter (m : WaitMonitor Tid) (t : Tid) : Option (WaitMonitor Tid) :=
  if m.owner.isNone then some { m with owner := some t } else none

variable [DecidableEq Tid]

/-- `t` gives the lock up; `none` when it does not hold it. -/
def exit (m : WaitMonitor Tid) (t : Tid) : Option (WaitMonitor Tid) :=
  if m.owner = some t then some { m with owner := none } else none

/-- `t` gives the lock up and waits. -/
def wait (m : WaitMonitor Tid) (t : Tid) : Option (WaitMonitor Tid) :=
  if m.owner = some t then some { m with owner := none, waiting := t :: m.waiting } else none

/-- `t` wakes `u`, or nobody when nobody waits. -/
def notify (m : WaitMonitor Tid) (t : Tid) (u : Option Tid) : Option (WaitMonitor Tid) :=
  if m.owner = some t then
    match u with
    | some u => if u ∈ m.waiting then some { m with waiting := m.waiting.erase u, woken := u :: m.woken } else none
    | none => if m.waiting = [] then some m else none
  else none

/-- `t` wakes all threads that wait. -/
def notifyAll (m : WaitMonitor Tid) (t : Tid) : Option (WaitMonitor Tid) :=
  if m.owner = some t then some { m with waiting := [], woken := m.waiting ++ m.woken } else none

/-- A woken thread gets the lock back. -/
def reacquire (m : WaitMonitor Tid) (t : Tid) : Option (WaitMonitor Tid) :=
  if m.owner.isNone ∧ t ∈ m.woken then some { m with owner := some t, woken := m.woken.erase t } else none

variable {m m' : WaitMonitor Tid} {t : Tid} {u : Option Tid}

omit [DecidableEq Tid] in
theorem enter_eq_some : m.enter t = some m' ↔ m.owner = none ∧ { m with owner := some t } = m' := by
  simp [enter]

theorem exit_eq_some : m.exit t = some m' ↔ m.owner = some t ∧ { m with owner := none } = m' := by
  simp [exit]

theorem wait_eq_some :
    m.wait t = some m' ↔ m.owner = some t ∧ { m with owner := none, waiting := t :: m.waiting } = m' := by
  simp [wait]

theorem notifyAll_eq_some :
    m.notifyAll t = some m' ↔ m.owner = some t ∧ { m with waiting := [], woken := m.waiting ++ m.woken } = m' := by
  simp [notifyAll]

theorem reacquire_eq_some : m.reacquire t = some m' ↔
    (m.owner = none ∧ t ∈ m.woken) ∧ { m with owner := some t, woken := m.woken.erase t } = m' := by
  simp [reacquire]

/-- A notification moves a thread from `waiting` to `woken`, or finds nobody there. -/
theorem notify_eq_some : m.notify t u = some m' ↔ m.owner = some t ∧
    ((∃ v ∈ m.waiting, u = some v ∧ { m with waiting := m.waiting.erase v, woken := v :: m.woken } = m') ∨
      (m.waiting = [] ∧ u = none ∧ m = m')) := by
  unfold notify
  rw [Option.ite_none_right_eq_some]
  cases u with
  | none => simp
  | some v => simp

end Operations

/-! ## Mutual exclusion -/

section Guards

variable {crit crit' : Tid → Bool} {m m' : WaitMonitor Tid} {t u : Tid}

/-- A thread in its critical section holds the lock. -/
def Guards (m : WaitMonitor Tid) (crit : Tid → Bool) : Prop := ∀ t, crit t = true → m.owner = some t

theorem Guards.exclusive (h : Guards m crit) (ht : crit t = true) (hu : crit u = true) : t = u :=
  Option.some.inj ((h t ht).symm.trans (h u hu))

/-- The lock was free, so nobody else is in a critical section. -/
theorem Guards.acquire (h : Guards m crit) (hfree : m.owner = none) (hm' : m'.owner = some t)
    (hcrit : ∀ u, u ≠ t → crit' u = true → crit u = true) : Guards m' crit' := by
  intro u hu
  by_cases hut : u = t
  · rw [hm', hut]
  · have howner := h u (hcrit u hut hu)
    rw [hfree] at howner
    cases howner

/-- The holder leaves its critical section, so nobody is in one. -/
theorem Guards.release (h : Guards m crit) (ht : m.owner = some t)
    (hcrit : ∀ u, crit' u = true → u ≠ t ∧ crit u = true) : Guards m' crit' := by
  intro u hu
  obtain ⟨hut, hcu⟩ := hcrit u hu
  exact absurd (Option.some.inj ((h u hcu).symm.trans ht)) hut

/-- Nobody enters a critical section. -/
theorem Guards.keep (h : Guards m crit) (hm' : m'.owner = m.owner) (hcrit : ∀ u, crit' u = true → crit u = true) :
    Guards m' crit' :=
  fun u hu => hm'.trans (h u (hcrit u hu))

end Guards

/-! ## One waiting thread -/

section OnlyWaiter

variable {m m' : WaitMonitor Tid} {t u : Tid} {waits : Bool}

/-- `t` is in its wait, notified or not, when `waits` says so; nobody else is. -/
def OnlyWaiter (m : WaitMonitor Tid) (t : Tid) (waits : Bool) : Prop :=
  if waits then (m.waiting = [t] ∧ m.woken = []) ∨ (m.waiting = [] ∧ m.woken = [t])
  else m.waiting = [] ∧ m.woken = []

theorem onlyWaiter_free : (free : WaitMonitor Tid).OnlyWaiter t false := ⟨rfl, rfl⟩

theorem OnlyWaiter.congr (h : m.OnlyWaiter t waits) (hwaiting : m'.waiting = m.waiting) (hwoken : m'.woken = m.woken) :
    m'.OnlyWaiter t waits := by
  unfold OnlyWaiter at h ⊢
  rwa [hwaiting, hwoken]

variable [DecidableEq Tid]

theorem OnlyWaiter.wait (h : m.OnlyWaiter t false) (hm : m.wait t = some m') :
    m'.OnlyWaiter t true ∧ m'.waiting = [t] := by
  obtain ⟨-, rfl⟩ := wait_eq_some.mp hm
  have hwaiting : t :: m.waiting = [t] := congrArg _ h.1
  exact ⟨Or.inl ⟨hwaiting, h.2⟩, hwaiting⟩

/-- Nobody but a notified thread goes on. -/
theorem OnlyWaiter.reacquire (h : m.OnlyWaiter t true) (hm : m.reacquire t = some m') :
    m'.OnlyWaiter t false ∧ m.waiting = [] := by
  obtain ⟨⟨-, hwoken⟩, rfl⟩ := reacquire_eq_some.mp hm
  rcases h with ⟨-, hnil⟩ | ⟨hnil, hone⟩
  · simp [hnil] at hwoken
  · refine ⟨⟨hnil, ?_⟩, hnil⟩
    show m.woken.erase t = []
    rw [hone]
    simp

/-- After a notification nobody waits for one. -/
theorem OnlyWaiter.notify (h : m.OnlyWaiter t waits) {v : Option Tid} (hm : m.notify u v = some m') :
    m'.OnlyWaiter t waits ∧ m'.waiting = [] := by
  obtain ⟨-, ⟨w, hw, -, rfl⟩ | ⟨hnil, -, rfl⟩⟩ := notify_eq_some.mp hm
  · cases waits with
    | false => simp [h.1] at hw
    | true =>
      rcases h with ⟨hone, hwoken⟩ | ⟨hnil, -⟩
      · obtain rfl : w = t := by simpa [hone] using hw
        have hwaiting : m.waiting.erase w = [] := by simp [hone]
        exact ⟨Or.inr ⟨hwaiting, congrArg _ hwoken⟩, hwaiting⟩
      · simp [hnil] at hw
  · exact ⟨h, hnil⟩

theorem OnlyWaiter.notifyAll (h : m.OnlyWaiter t waits) (hm : m.notifyAll u = some m') :
    m'.OnlyWaiter t waits ∧ m'.waiting = [] := by
  obtain ⟨-, rfl⟩ := notifyAll_eq_some.mp hm
  refine ⟨?_, rfl⟩
  cases waits with
  | false =>
    refine ⟨rfl, ?_⟩
    show m.waiting ++ m.woken = []
    rw [h.1, h.2]
    rfl
  | true =>
    refine Or.inr ⟨rfl, ?_⟩
    show m.waiting ++ m.woken = [t]
    rcases h with ⟨hone, hnil⟩ | ⟨hnil, hone⟩
    · simp [hone, hnil]
    · simp [hone, hnil]

end OnlyWaiter

end WaitMonitor
