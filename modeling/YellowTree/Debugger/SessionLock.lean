import YellowTree.Debugger.Session

/-!
# YellowTree.Debugger.SessionLock — who holds `debug_lock`

Every callback but `check_nested_method_return` takes the lock once and gives it back once, unless an error ends its
Lua function in between.  `HoldChain` relates the holds of a thread to its callbacks in progress: with `≤` it is an
invariant of every run, so that the lock excludes other threads from the code it guards (`holding_unique`); with `=`
it is kept by all steps except an error raised while the lock is held.

* `lockKept_iff`: the lock is given back as it was found exactly when no error is raised by a callback that holds it.
-/

namespace YellowTree

open Transition

variable {Tid : Type} [DecidableEq Tid]

/-! ## Holds along a stack of callbacks -/

section Chain

/-- The holds that a callback accounts for at a point of its code. -/
def Pc.held (pc : Pc Tid) : ℕ := if pc.holding then 1 else 0

/-- From the innermost callback on, with `n` holds now: a callback was entered with the holds that those below account
for, and accounts for one more while it is between `lock` and `unlock`. -/
def HoldChain (r : ℕ → ℕ → Prop) : ℕ → List (Activation Tid) → Prop
  | n, [] => r 0 n
  | n, a :: rest => r (a.holds + a.pc.held) n ∧ HoldChain r a.holds rest

/-- What `HoldChain` needs of `r`: it is `=` or `≤`. -/
structure HoldRel (r : ℕ → ℕ → Prop) : Prop where
  refl : ∀ n, r n n
  trans : ∀ l m n, r l m → r m n → r l n
  succ : ∀ m n, r m n → r (m + 1) (n + 1)
  pred : ∀ m n, r (m + 1) n → r m (n - 1)

theorem holdRel_le : HoldRel (· ≤ ·) where
  refl := le_refl
  trans _ _ _ h1 h2 := h1.trans h2
  succ _ _ h := Nat.succ_le_succ h
  pred m n h := by
    show m ≤ n - 1
    omega

theorem holdRel_eq : HoldRel (· = ·) where
  refl _ := rfl
  trans _ _ _ h1 h2 := h1.trans h2
  succ _ _ h := congrArg Nat.succ h
  pred m n h := by
    show m = n - 1
    omega

variable {r : ℕ → ℕ → Prop}

omit [DecidableEq Tid] in
theorem HoldChain.mono (hr : HoldRel r) {m n : ℕ} (hmn : r m n) : ∀ {l : List (Activation Tid)},
    HoldChain r m l → HoldChain r n l
  | [], h => hr.trans _ _ _ h hmn
  | _ :: _, h => ⟨hr.trans _ _ _ h.1 hmn, h.2⟩

/-- The holds of `t` after a move, and what the callback accounts for. -/
theorem Moves.holds {s u : Session Tid} {t : Tid} {k : Kind} {pc pc' : Pc Tid} {op : Op Tid}
    (h : Moves s t k pc op pc' u) :
    (∀ v, v ≠ t → u.lock.holds v = s.lock.holds v) ∧
      ((pc'.held = pc.held ∧ u.lock.holds t = s.lock.holds t) ∨
        (pc.held = 0 ∧ pc'.held = 1 ∧ u.lock.holds t = s.lock.holds t + 1) ∨
        (pc.held = 1 ∧ pc'.held = 0 ∧ u.lock.holds t = s.lock.holds t - 1) ∨
        ((∃ c, op = .raise c) ∧ pc.holding = true ∧ pc'.held = 0 ∧ u.lock = s.lock)) := by
  cases h with
  | lock hk m hm =>
    refine ⟨fun v hv => ?_, Or.inr (Or.inl ⟨rfl, rfl, ?_⟩)⟩
    · exact (Monitor.holds_of_acquire hm v).trans (if_neg hv)
    · exact (Monitor.holds_of_acquire hm t).trans (if_pos rfl)
  | unlock m hm =>
    refine ⟨fun v hv => ?_, Or.inr (Or.inr (Or.inl ⟨rfl, rfl, ?_⟩))⟩
    · exact ((Monitor.holds_of_release hm).2 v).trans (if_neg hv)
    · exact ((Monitor.holds_of_release hm).2 t).trans (if_pos rfl)
  | raise c pc hc =>
    refine ⟨fun v _ => rfl, ?_⟩
    by_cases hpc : pc.holding = true
    · exact Or.inr (Or.inr (Or.inr ⟨⟨c, rfl⟩, hpc, rfl, rfl⟩))
    · exact Or.inl ⟨(if_neg hpc).symm, rfl⟩
  | _ => exact ⟨fun v _ => rfl, Or.inl ⟨rfl, rfl⟩⟩

/-- A step that is not of `v` leaves the holds of `v` alone. -/
theorem holds_of_other {s s' : Session Tid} {e : Label Tid} (h : step s e = some s') {v : Tid}
    (hne : ∀ op, e ≠ .thread v op) : s'.lock.holds v = s.lock.holds v := by
  cases e with
  | command op =>
    rcases cmdStep_cases h with ⟨-, c, rfl⟩ | ⟨u, ev, c, -, -, rfl⟩
    · rfl
    · rfl
  | thread t op =>
    have hv : v ≠ t := fun hv => hne op (by rw [hv])
    rcases threadStep_cases h with ⟨k, -, -, rfl⟩ | ⟨a, rest, raised, -, -, -, rfl⟩ | ⟨a, rest, pc, u, -, hmove, rfl⟩
    · rfl
    · rfl
    · exact hmove.holds.1 v hv

/-- Every step keeps the chain of every thread, unless an error is raised while the lock is held and `r` is not
indifferent to a hold that nobody accounts for. -/
theorem holdChain_step (hr : HoldRel r) {s s' : Session Tid} {e : Label Tid} (h : step s e = some s')
    (hs : ∀ t, HoldChain r (s.lock.holds t) (s.acts t))
    (hraise : ∀ t c a rest, e = .thread t (.raise c) → s.acts t = a :: rest → a.pc.holding = true →
      ∀ m n, r (m + 1) n → r m n) :
    ∀ t, HoldChain r (s'.lock.holds t) (s'.acts t) := by
  intro v
  rcases step_acts h v with ⟨hne, hv⟩ | ⟨k, -, -, rfl, hv⟩ | ⟨a, rest, raised, -, hacts, hpc, rfl, hv⟩ |
    ⟨op, a, rest, pc, u, rfl, hacts, hmove, rfl, hv⟩
  · rw [hv, holds_of_other h hne]
    exact hs v
  · rw [hv]
    exact ⟨hr.refl _, hs v⟩
  · rw [hv]
    have hchain := hs v
    rw [hacts] at hchain
    refine HoldChain.mono hr ?_ hchain.2
    simpa [Pc.held, Pc.holding, hpc] using hchain.1
  · rw [hv]
    have hchain := hs v
    rw [hacts] at hchain
    obtain ⟨htop, hrest⟩ := hchain
    refine ⟨?_, hrest⟩
    show r (a.holds + pc.held) (u.lock.holds v)
    rcases hmove.holds.2 with ⟨h1, h2⟩ | ⟨h1, h2, h3⟩ | ⟨h1, h2, h3⟩ | ⟨⟨c, rfl⟩, h1, h2, h3⟩
    · rw [h1, h2]
      exact htop
    · rw [h2, h3]
      rw [h1] at htop
      exact hr.succ _ _ htop
    · rw [h2, h3]
      rw [h1] at htop
      exact hr.pred _ _ htop
    · rw [h2, h3]
      rw [Pc.held, if_pos h1] at htop
      exact hraise v c a rest rfl hacts h1 _ _ htop

end Chain

/-! ## Mutual exclusion -/

section Exclusion

/-- The callbacks below the innermost one of a thread run Java code. -/
def Nested : List (Activation Tid) → Prop
  | [] => True
  | _ :: rest => ∀ b ∈ rest, b.pc.runsJava = true

/-- What holds in every state: the lock is held at least as often as the callbacks account for, and callbacks nest. -/
structure Guarded (s : Session Tid) : Prop where
  chain : ∀ t, HoldChain (· ≤ ·) (s.lock.holds t) (s.acts t)
  nested : ∀ t, Nested (s.acts t)

theorem guarded_init : Guarded (Session.init : Session Tid) :=
  ⟨fun _ => Nat.zero_le _, fun _ => trivial⟩

theorem nested_step {s s' : Session Tid} {e : Label Tid} (h : step s e = some s') (hs : ∀ t, Nested (s.acts t)) :
    ∀ t, Nested (s'.acts t) := by
  intro v
  have hnest := hs v
  rcases step_acts h v with ⟨-, hv⟩ | ⟨k, -, hcan, -, hv⟩ | ⟨a, rest, raised, -, hacts, -, -, hv⟩ |
    ⟨op, a, rest, pc, u, -, hacts, -, -, hv⟩
  · rw [hv]
    exact hnest
  · rw [hv]
    intro b hb
    cases hacts : s.acts v with
    | nil => rw [hacts] at hb; cases hb
    | cons a rest =>
      rw [hacts] at hb hnest hcan
      rcases List.mem_cons.mp hb with rfl | hb
      · exact hcan
      · exact hnest b hb
  · rw [hv]
    rw [hacts] at hnest
    cases rest with
    | nil => trivial
    | cons b rest => exact fun c hc => hnest c (List.mem_cons_of_mem _ hc)
  · rw [hv]
    rw [hacts] at hnest
    exact hnest

theorem guarded_step (s : Session Tid) (e : Label Tid) (s' : Session Tid) (hs : Guarded s)
    (h : step s e = some s') : Guarded s' :=
  ⟨holdChain_step holdRel_le h hs.chain fun _ _ _ _ _ _ _ _ _ hle => Nat.le_of_succ_le hle, nested_step h hs.nested⟩

omit [DecidableEq Tid] in
/-- Every callback accounts for its holds. -/
theorem HoldChain.pos {n : ℕ} : ∀ {l : List (Activation Tid)}, HoldChain (· ≤ ·) n l →
    ∀ a ∈ l, a.holds + a.pc.held ≤ n
  | [], _, a, ha => by simp at ha
  | b :: l, h, a, ha => by
    rcases List.mem_cons.mp ha with rfl | ha
    · exact h.1
    · have h1 := h.2.pos a ha
      have h2 := h.1
      dsimp only at h2
      omega

theorem Guarded.holds_pos {s : Session Tid} (hs : Guarded s) {t : Tid} {a : Activation Tid} (ha : a ∈ s.acts t)
    (hpc : a.pc.holding = true) : 0 < s.lock.holds t := by
  have h := (hs.chain t).pos a ha
  rw [Pc.held, if_pos hpc] at h
  omega

/-- Callbacks of two threads are never both between `lock` and `unlock`. -/
theorem Guarded.holding_unique {s : Session Tid} (hs : Guarded s) {t u : Tid} {a b : Activation Tid}
    (ha : a ∈ s.acts t) (hb : b ∈ s.acts u) (hpa : a.pc.holding = true) (hpb : b.pc.holding = true) : t = u :=
  Monitor.holds_exclusive (hs.holds_pos ha hpa) (hs.holds_pos hb hpb)

end Exclusion

/-! ## `debug_thread` under the lock -/

section Owned

/-- `debug_thread` is changed by `setThread` and `clear` only, of a callback that holds the lock. -/
theorem step_debugThread {s s' : Session Tid} {e : Label Tid} (h : step s e = some s') :
    ((∀ t, e ≠ .thread t .setThread) ∧ (∀ t, e ≠ .thread t .clear) ∧ s'.debugThread = s.debugThread) ∨
      ∃ t a rest, s.acts t = a :: rest ∧
        ((e = .thread t .setThread ∧ a.pc = .locked ∧ s'.debugThread = some t) ∨
          (e = .thread t .clear ∧ a.pc = .done ∧ s'.debugThread = none)) := by
  cases e with
  | command op =>
    refine Or.inl ⟨by simp, by simp, ?_⟩
    rcases cmdStep_cases h with ⟨-, c, rfl⟩ | ⟨u, ev, c, -, -, rfl⟩
    · rfl
    · rfl
  | thread t op =>
    rcases threadStep_cases h with ⟨k, rfl, -, rfl⟩ | ⟨a, rest, raised, rfl, -, -, rfl⟩ |
      ⟨a, rest, pc, u, hacts, hmove, rfl⟩
    · exact Or.inl ⟨by simp, by simp, rfl⟩
    · exact Or.inl ⟨by simp, by simp, rfl⟩
    · generalize ha : a.pc = apc at hmove
      cases hmove with
      | setThread => exact Or.inr ⟨t, a, rest, hacts, Or.inl ⟨rfl, ha, rfl⟩⟩
      | clear => exact Or.inr ⟨t, a, rest, hacts, Or.inr ⟨rfl, ha, rfl⟩⟩
      | _ => exact Or.inl ⟨by simp, by simp, rfl⟩

omit [DecidableEq Tid] in
theorem Pc.holding_of_owns {pc : Pc Tid} (h : pc.owns = true) : pc.holding = true := by
  cases pc <;> first | rfl | cases h

omit [DecidableEq Tid] in
/-- A callback that handles events or runs a command holds the lock. -/
theorem Pc.holding_of_handles {pc : Pc Tid} (h : pc.handles.isSome = true) : pc.holding = true := by
  cases pc <;> first | rfl | cases h

theorem Moves.owns {s u : Session Tid} {t : Tid} {k : Kind} {pc pc' : Pc Tid} {op : Op Tid}
    (h : Moves s t k pc op pc' u) (hpc : pc'.owns = true) : op = .setThread ∨ pc.owns = true := by
  cases h <;> first | exact Or.inl rfl | exact Or.inr hpc | exact Or.inr rfl | cases hpc

theorem Moves.handles {s u : Session Tid} {t : Tid} {k : Kind} {pc pc' : Pc Tid} {op : Op Tid}
    (h : Moves s t k pc op pc' u) {v : Tid} (hpc : pc'.handles = some v) :
    pc.handles = some v ∨ (pc = .await ∧ s.debugThread = some v) := by
  cases h with
  | handleEvents w hd => exact Or.inr ⟨rfl, by rw [hd]; exact hpc⟩
  | _ => first | exact Or.inl hpc | cases hpc

/-- Where a callback has set `debug_thread`, it is its thread or nil, and the queue it handles is that of its
thread. -/
structure Owned (s : Session Tid) : Prop where
  guarded : Guarded s
  thread : ∀ t, ∀ a ∈ s.acts t, a.pc.owns = true → s.debugThread = none ∨ s.debugThread = some t
  handles : ∀ t, ∀ a ∈ s.acts t, ∀ u, a.pc.handles = some u → u = t

theorem owned_init : Owned (Session.init : Session Tid) :=
  ⟨guarded_init, fun _ _ (ha : _ ∈ []) => (List.not_mem_nil ha).elim,
    fun _ _ (ha : _ ∈ []) => (List.not_mem_nil ha).elim⟩

theorem Owned.thread_step {s s' : Session Tid} {e : Label Tid} (hs : Owned s) (h : step s e = some s') (t : Tid)
    (a : Activation Tid) (ha : a ∈ s'.acts t) (hpc : a.pc.owns = true) :
    s'.debugThread = none ∨ s'.debugThread = some t := by
  -- a callback of `t` that had set `debug_thread` before, or sets it now
  have hold : (∃ b ∈ s.acts t, b.pc.owns = true) ∨ e = .thread t .setThread := by
    rcases step_acts h t with ⟨-, hv⟩ | ⟨k, -, -, -, hv⟩ | ⟨b, below, raised, -, hacts, -, -, hv⟩ |
      ⟨op, b, below, pc, u, rfl, hacts, hmove, -, hv⟩ <;> rw [hv] at ha
    · exact Or.inl ⟨a, ha, hpc⟩
    · rcases List.mem_cons.mp ha with rfl | ha'
      · cases hpc
      · exact Or.inl ⟨a, ha', hpc⟩
    · exact Or.inl ⟨a, by rw [hacts]; exact List.mem_cons_of_mem _ ha, hpc⟩
    · rcases List.mem_cons.mp ha with rfl | ha'
      · rcases hmove.owns hpc with rfl | hpc'
        · exact Or.inr rfl
        · exact Or.inl ⟨b, by rw [hacts]; exact List.mem_cons_self, hpc'⟩
      · exact Or.inl ⟨a, by rw [hacts]; exact List.mem_cons_of_mem _ ha', hpc⟩
  rcases step_debugThread h with ⟨hne, -, hd⟩ | ⟨v, b, below, hb, ⟨rfl, hbpc, hd⟩ | ⟨-, -, hd⟩⟩
  · rcases hold with ⟨b, hb, hbpc⟩ | he
    · rw [hd]
      exact hs.thread t b hb hbpc
    · exact absurd he (hne t)
  · rcases hold with ⟨c, hc, hcpc⟩ | he
    · have hvt : v = t := hs.guarded.holding_unique (a := b) (b := c) (by rw [hb]; exact List.mem_cons_self) hc
        (by rw [hbpc]; rfl) (Pc.holding_of_owns hcpc)
      exact Or.inr (hvt ▸ hd)
    · cases he
      exact Or.inr hd
  · exact Or.inl hd

theorem owned_step (s : Session Tid) (e : Label Tid) (s' : Session Tid) (hs : Owned s) (h : step s e = some s') :
    Owned s' := by
  refine ⟨guarded_step s e s' hs.guarded h, hs.thread_step h, fun t a ha u hu => ?_⟩
  rcases step_acts h t with ⟨-, hv⟩ | ⟨k, -, -, -, hv⟩ | ⟨b, below, raised, -, hacts, -, -, hv⟩ |
    ⟨op, b, below, pc, v, -, hacts, hmove, -, hv⟩ <;> rw [hv] at ha
  · exact hs.handles t a ha u hu
  · rcases List.mem_cons.mp ha with rfl | ha'
    · cases hu
    · exact hs.handles t a ha' u hu
  · exact hs.handles t a (by rw [hacts]; exact List.mem_cons_of_mem _ ha) u hu
  · rcases List.mem_cons.mp ha with rfl | ha'
    · have hb : b ∈ s.acts t := by rw [hacts]; exact List.mem_cons_self
      rcases hmove.handles hu with hu' | ⟨hpc, hd⟩
      · exact hs.handles t b hb u hu'
      · rcases hs.thread t b hb (by rw [hpc]; rfl) with hd' | hd'
        · rw [hd] at hd'
          simp at hd'
        · exact Option.some.inj (hd.symm.trans hd')
    · exact hs.handles t a (by rw [hacts]; exact List.mem_cons_of_mem _ ha') u hu

end Owned

/-! ## The lock is given back -/

section LockKept

/-- The innermost callback of a thread: once its Lua function has ended, the thread holds the lock as often as on
entry; where it is about to give up the last hold, `debug_thread` is nil. -/
def LockKept (s : Session Tid) : Prop :=
  ∀ t a rest, s.acts t = a :: rest →
    (a.pc.ended = true → s.lock.holds t = a.holds) ∧
      (a.pc = .unlocking → s.lock.holds t = 1 → s.debugThread = none)

/-- No error ends the Lua function of a callback between `lock` and `unlock`. -/
def NoErrorHolding (s : Session Tid) (e : Label Tid) (_ : Session Tid) : Prop :=
  ∀ t c a rest, e = .thread t (.raise c) → s.acts t = a :: rest → a.pc.holding = false

/-- The lock is held exactly as often as the callbacks account for. -/
structure LockInv (s : Session Tid) : Prop where
  guarded : Guarded s
  exact : ∀ t, HoldChain (· = ·) (s.lock.holds t) (s.acts t)
  cleared : ∀ t a rest, s.acts t = a :: rest → a.pc = .unlocking → s.debugThread = none

theorem lockInv_init : LockInv (Session.init : Session Tid) :=
  ⟨guarded_init, fun _ => rfl, fun _ _ _ h => by cases h⟩

/-- `debug_thread` stays nil between `clear` and `unlock`. -/
theorem cleared_step {s s' : Session Tid} {e : Label Tid} (hs : Guarded s) (h : step s e = some s')
    (hc : ∀ t a rest, s.acts t = a :: rest → a.pc = .unlocking → s.debugThread = none) :
    ∀ t a rest, s'.acts t = a :: rest → a.pc = .unlocking → s'.debugThread = none := by
  intro t a rest hacts' hpc
  rcases step_acts h t with ⟨hne, hv⟩ | ⟨k, -, -, -, hv⟩ | ⟨b, below, raised, -, hacts, -, -, hv⟩ |
    ⟨op, b, below, pc, u, -, -, hmove, rfl, hv⟩
  · rw [hv] at hacts'
    rcases step_debugThread h with ⟨-, -, hd⟩ | ⟨v, b, below, hb, ⟨rfl, hbpc, -⟩ | ⟨-, -, hd⟩⟩
    · rw [hd]
      exact hc t a rest hacts' hpc
    · -- a thread that sets `debug_thread` holds the lock, as `t` does
      have hvt : v = t := hs.holding_unique (a := b) (b := a) (by simp [hb]) (by simp [hacts'])
        (by rw [hbpc]; rfl) (by rw [hpc]; rfl)
      exact absurd (congrArg (Label.thread · .setThread) hvt) (hne _)
    · exact hd
  · rw [hv] at hacts'
    rw [← (List.cons.inj hacts').1] at hpc
    simp at hpc
  · rw [hv] at hacts'
    have hnest := hs.nested t
    rw [hacts, hacts'] at hnest
    have hjava := hnest a List.mem_cons_self
    rw [hpc] at hjava
    cases hjava
  · rw [hv] at hacts'
    rw [← (List.cons.inj hacts').1] at hpc
    dsimp only at hpc
    subst hpc
    generalize b.pc = bpc at hmove
    cases hmove with
    | clear => rfl
    | _ => first | rfl | contradiction

theorem lockInv_step (s : Session Tid) (e : Label Tid) (s' : Session Tid) (hs : LockInv s)
    (hC : NoErrorHolding s e s') (h : step s e = some s') : LockInv s' := by
  refine ⟨guarded_step s e s' hs.guarded h, ?_, cleared_step hs.guarded h hs.cleared⟩
  refine holdChain_step holdRel_eq h hs.exact fun t c a rest he hacts hpc => ?_
  exact absurd (hC t c a rest he hacts) (by simp [hpc])

omit [DecidableEq Tid] in
theorem Pc.held_of_ended {pc : Pc Tid} (h : pc.ended = true) : pc.held = 0 := by
  cases pc with
  | returned _ => rfl
  | popped _ => rfl
  | _ => cases h

theorem LockInv.lockKept {s : Session Tid} (hs : LockInv s) : LockKept s := by
  intro t a rest hacts
  refine ⟨fun hpc => ?_, fun hpc _ => hs.cleared t a rest hacts hpc⟩
  have hchain := hs.exact t
  rw [hacts] at hchain
  have htop : a.holds + a.pc.held = s.lock.holds t := hchain.1
  rw [Pc.held_of_ended hpc] at htop
  omega

/-- An error raised while the lock is held leaves a hold behind. -/
theorem LockInv.not_lockKept {s s' : Session Tid} {e : Label Tid} (hs : LockInv s) (hC : ¬ NoErrorHolding s e s')
    (h : step s e = some s') : ¬ LockKept s' := by
  simp only [NoErrorHolding, not_forall, Bool.not_eq_false] at hC
  obtain ⟨t, c, a, rest, rfl, hacts, hpc⟩ := hC
  intro hkept
  obtain ⟨pc, u, hmove, rfl, hv⟩ := step_move h (by simp) (by simp) hacts
  have hlock : u.lock.holds t = a.holds ∧ u.lock = s.lock := by
    generalize a.pc = apc at hmove
    cases hmove with
    | raise c pc hc => exact ⟨(hkept t _ _ hv).1 rfl, rfl⟩
  have hchain := hs.exact t
  rw [hacts] at hchain
  have htop : a.holds + a.pc.held = s.lock.holds t := hchain.1
  rw [Pc.held, if_pos hpc, ← hlock.2, hlock.1] at htop
  omega

/-- **The lock is given back** as it was found, and given up for good only with `debug_thread` nil, along a run exactly
when no error ends the Lua function of a callback between `lock` and `unlock`. -/
theorem lockKept_iff (es : List (Label Tid)) :
    Always step LockKept (Session.init : Session Tid) es ↔ EachStep step NoErrorHolding Session.init es :=
  always_iff_eachStep lockInv_step (fun _ hs => hs.lockKept) (fun _ _ _ hs hC h => hs.not_lockKept hC h) es
    Session.init lockInv_init

/-- A breakpoint without entry: `assert(bp)` fails and the thread keeps the lock. -/
theorem assertion_not_lockKept : ¬ Always step LockKept (Session.init : Session Bool)
    [.thread true (.enter .breakpoint), .thread true .setCurrent, .thread true .disableEvents, .thread true .lock,
      .thread true .setThread, .thread true (.raise .assertion)] := by
  have hrun : run step (Session.init : Session Bool)
      [.thread true (.enter .breakpoint), .thread true .setCurrent, .thread true .disableEvents, .thread true .lock,
        .thread true .setThread, .thread true (.raise .assertion)] = some _ := rfl
  refine not_always_of_run hrun fun h => ?_
  exact absurd ((h true _ _ rfl).1 rfl) (by decide)

end LockKept

end YellowTree
