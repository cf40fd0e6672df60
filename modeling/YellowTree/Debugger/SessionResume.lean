import YellowTree.Debugger.SessionLock

/-!
# YellowTree.Debugger.SessionResume — `debug_thread` over nested stops

A callback that runs inside another one of the same thread sets `debug_thread` to the thread, as the outer one did,
and clears it at its end, so that the outer stop goes on with `debug_thread` nil.  Inside `check_nested_method_return`,
which holds no lock, the value it found may also be that of another thread, or be changed by one.

* `DebugChain`: what a stack of callbacks lets one say about `debug_thread`, from the value each of them found.
* `resumable_of_restoring`: as long as nested callbacks do not clear a `debug_thread` that was set when they were
  entered, and other threads do not assign it during a nested `check_nested_method_return`, every stop can be resumed
  and every nested callback returns with the `debug_thread` it found.
-/

namespace YellowTree

open Transition

variable {Tid : Type}

/-! ## Stops that can be resumed -/

section Resumable

/-- The callbacks `rest` below a callback include one between `lock` and `unlock`: the callback is an inner one. -/
def Inner (rest : List (Activation Tid)) : Prop := ∃ b ∈ rest, b.pc.holding = true

/-- The Lua function of the callback has done its work, or has ended, without an error. -/
def Pc.normalEnd : Pc Tid → Bool
  | .unlocking | .returned false | .popped false => true
  | _ => false

/-- A thread inside `handle_events` handles its own queue, and `debug_thread` is this thread while the queue is empty;
an inner callback that ends normally leaves `debug_thread` as it found it, until its thread is back in the outer one. -/
structure Resumable (s : Session Tid) : Prop where
  handling : ∀ t, ∀ a ∈ s.acts t, ∀ u, a.pc.handles = some u → u = t ∧ (s.queue t = [] → s.debugThread = some t)
  restored : ∀ t a rest, s.acts t = a :: rest → Inner rest → a.pc.normalEnd = true → s.debugThread = a.entered

/-- A callback that runs inside any other one of its thread returns with the `debug_thread` that it found. -/
def Restores (s : Session Tid) (e : Label Tid) (s' : Session Tid) : Prop :=
  ∀ t a rest, s.acts t = a :: rest → rest ≠ [] → e = .thread t .unlock ∨ e = .thread t .nestedReturns →
    s'.debugThread = a.entered

/-- A nested callback clears `debug_thread` only if it found it nil; one that runs inside a nested
`check_nested_method_return` and is ended by an error leaves it as it found it; and no thread assigns it while another
one is in a nested `check_nested_method_return`. -/
structure Restoring (s : Session Tid) (e : Label Tid) (_ : Session Tid) : Prop where
  clear : ∀ t a rest, s.acts t = a :: rest → rest ≠ [] → e = .thread t .clear → a.entered = none
  raise : ∀ t a b below c, s.acts t = a :: b :: below → below ≠ [] → b.pc = .nested → e = .thread t (.raise c) →
    s.debugThread = a.entered
  others : ∀ v, e = .thread v .setThread ∨ e = .thread v .clear → ∀ t, t ≠ v → ∀ pre b below,
    s.acts t = pre ++ b :: below → below ≠ [] → b.kind = .nestedReturn → b.pc.ended = true

end Resumable

/-! ## The invariant -/

section Chain

/-- No other thread comes between: the callbacks `rest` below hold the lock, or one of them is a nested
`check_nested_method_return`. -/
def Protected (rest : List (Activation Tid)) : Prop := Inner rest ∨ 2 ≤ rest.length

/-- What is known of `debug_thread` (`d`) at the innermost callback `a` of `t`, over the callbacks `rest`. -/
def TopOk (d : Option Tid) (t : Tid) (a : Activation Tid) (rest : List (Activation Tid)) : Prop :=
  match a.pc with
  | .entered | .current | .start =>
    (Protected rest → d = a.entered ∨ d = some t) ∧ (a.kind = .nestedReturn → rest ≠ [] → d = a.entered)
  | .locked => Protected rest → d = a.entered ∨ d = some t
  | .nested | .unlocking => rest ≠ [] → d = a.entered
  | .returned false | .popped false => Protected rest → d = a.entered
  | .returned true | .popped true => Protected rest → (d = a.entered ∨ d = some t) ∧
      ∀ b below, rest = b :: below → b.pc = .nested → d = a.entered
  | _ => d = some t

/-- The same down the stack: each callback was entered with the value of `debug_thread` that the callbacks below know
about. -/
def DebugChain (t : Tid) : Option Tid → List (Activation Tid) → Prop
  | _, [] => True
  | d, a :: rest => TopOk d t a rest ∧ DebugChain t a.entered rest

variable {t : Tid} {d d' : Option Tid} {a : Activation Tid} {rest : List (Activation Tid)}

theorem topOk_of_owns (hpc : a.pc.owns = true) : TopOk d t a rest ↔ d = some t := by
  rcases a with ⟨k, pc, co, en, n⟩
  cases pc <;> first | exact Iff.rfl | cases hpc

theorem Protected.ne_nil (h : Protected rest) : rest ≠ [] := by
  rintro rfl
  rcases h with ⟨b, hb, -⟩ | h
  · cases hb
  · cases h

theorem Protected.cons {b : Activation Tid} (h : Protected rest) : Protected (b :: rest) := by
  rcases h with ⟨c, hc, hpc⟩ | h
  · exact Or.inl ⟨c, List.mem_cons_of_mem _ hc, hpc⟩
  · exact Or.inr (Nat.le_succ_of_le h)

theorem TopOk.of_normalEnd (h : TopOk d t a rest) (hpc : a.pc.normalEnd = true) (hprot : Protected rest) :
    d = a.entered := by
  rcases a with ⟨k, pc, co, en, n⟩
  cases pc with
  | returned b => cases b with
    | false => exact h hprot
    | true => cases hpc
  | popped b => cases b with
    | false => exact h hprot
    | true => cases hpc
  | unlocking => exact h hprot.ne_nil
  | _ => cases hpc

/-- Whatever the innermost callback is doing, a protected one found or set `debug_thread`. -/
theorem TopOk.found_or_set (h : TopOk d t a rest) (hprot : Protected rest) : d = a.entered ∨ d = some t := by
  rcases a with ⟨k, pc, co, en, n⟩
  cases pc with
  | entered => exact h.1 hprot
  | current => exact h.1 hprot
  | start => exact h.1 hprot
  | nested => exact Or.inl (h hprot.ne_nil)
  | locked => exact h hprot
  | unlocking => exact Or.inl (h hprot.ne_nil)
  | returned b => cases b with
    | false => exact Or.inl (h hprot)
    | true => exact (h hprot).1
  | popped b => cases b with
    | false => exact Or.inl (h hprot)
    | true => exact (h hprot).1
  | _ => exact Or.inr h

/-- A callback that has set `debug_thread`, however deep, sees it set. -/
theorem DebugChain.owns : ∀ {l : List (Activation Tid)} {d : Option Tid}, DebugChain t d l → ∀ b ∈ l,
    b.pc.owns = true → d = some t
  | [], _, _, b, hb, _ => by simp at hb
  | a :: l, d, h, b, hb, hpc => by
    rcases List.mem_cons.mp hb with rfl | hb'
    · exact (topOk_of_owns hpc).mp h.1
    · have hent : a.entered = some t := h.2.owns b hb' hpc
      rcases h.1.found_or_set (Or.inl ⟨b, hb', Pc.holding_of_owns hpc⟩) with hd | hd
      · exact hd.trans hent
      · exact hd

theorem Pc.eq_nested {pc : Pc Tid} (hjava : pc.runsJava = true) (hhold : pc.holding = false) : pc = .nested := by
  cases pc <;> first | rfl | (cases hjava; done) | cases hhold

/-- Below a callback of a thread that does not hold the lock there are only calls of `check_nested_method_return`. -/
theorem nested_of_not_holding {l : List (Activation Tid)} (hnest : Nested l) (hl : ∀ b ∈ l, b.pc.holding = false) :
    ∀ b ∈ l.tail, b.pc = .nested := by
  cases l with
  | nil => exact fun b hb => by cases hb
  | cons a rest => exact fun b hb => Pc.eq_nested (hnest b hb) (hl b (List.mem_cons_of_mem _ hb))

/-- In a thread that does not hold the lock and is in no nested `check_nested_method_return`, `debug_thread` does not
matter. -/
theorem DebugChain.of_not_holding {l : List (Activation Tid)} (hnest : Nested l)
    (hkind : ∀ b ∈ l, b.pc = .nested → b.kind = .nestedReturn) (hl : ∀ b ∈ l, b.pc.holding = false)
    (hothers : ∀ pre b below, l = pre ++ b :: below → below ≠ [] → b.kind = .nestedReturn → b.pc.ended = true)
    (h : DebugChain t d l) : DebugChain t d' l := by
  cases l with
  | nil => trivial
  | cons a rest =>
    refine ⟨?_, h.2⟩
    have hpcs := nested_of_not_holding hnest hl
    have hprot : ¬ Protected rest := by
      rintro (⟨b, hb, hpc⟩ | hlen)
      · rw [hl b (List.mem_cons_of_mem _ hb)] at hpc
        simp at hpc
      · obtain ⟨b, below, rfl⟩ := List.exists_cons_of_length_pos (by omega : 0 < rest.length)
        have hbpc : b.pc = .nested := hpcs b List.mem_cons_self
        have hended := hothers [a] b below rfl (by rintro rfl; simp at hlen) (hkind b (by simp) hbpc)
        rw [hbpc] at hended
        cases hended
    -- a nested `check_nested_method_return` has ended
    have htop : a.kind = .nestedReturn → rest ≠ [] → a.pc.ended = true := fun hk hne => hothers [] a rest rfl hne hk
    have hkinda := hkind a List.mem_cons_self
    have ha := hl a List.mem_cons_self
    rcases a with ⟨k, pc, co, en, n⟩
    cases pc with
    | entered => exact ⟨fun h => absurd h hprot, fun hk hne => by cases htop hk hne⟩
    | current => exact ⟨fun h => absurd h hprot, fun hk hne => by cases htop hk hne⟩
    | start => exact ⟨fun h => absurd h hprot, fun hk hne => by cases htop hk hne⟩
    | nested => exact fun hne => by cases htop (hkinda rfl) hne
    | returned b => cases b <;> exact fun h => absurd h hprot
    | popped b => cases b <;> exact fun h => absurd h hprot
    | _ => cases ha

/-- A move keeps what is known, if it meets the condition. -/
theorem TopOk.move [DecidableEq Tid] {s u : Session Tid} {op : Op Tid} {pc : Pc Tid} (h : TopOk s.debugThread t a rest)
    (hmove : Moves s t a.kind a.pc op pc u) (hclear : op = .clear → rest ≠ [] → a.entered = none)
    (hraise : ∀ c b below, op = .raise c → rest = b :: below → below ≠ [] → b.pc = .nested →
      s.debugThread = a.entered) : TopOk u.debugThread t { a with pc := pc } rest := by
  have hfound := h.found_or_set
  rcases a with ⟨k, apc, co, en, n⟩
  dsimp only at hmove
  cases hmove with
  | raise c pc hc =>
    refine fun hprot => ⟨hfound hprot, fun b below hrest hb => hraise c b below rfl hrest ?_ hb⟩
    rintro rfl
    subst hrest
    rcases hprot with ⟨b', hb', hpc⟩ | hlen
    · rw [List.mem_singleton.mp hb', hb] at hpc
      cases hpc
    · rw [List.length_singleton] at hlen
      omega
  | clear => exact fun hne => (hclear rfl hne).symm
  | setThread => exact rfl
  | callNested hk => exact h.2 hk
  | nestedReturns => exact fun hprot => h hprot.ne_nil
  | unlock m hm => exact fun hprot => h hprot.ne_nil
  | lock hk m hm => exact h.1
  | luaPop b => cases b <;> exact h
  | enableEvents b => cases b <;> exact h
  | _ => exact h

/-- When the innermost callback leaves, what the next one knows still holds. -/
theorem DebugChain.leave {raised : Bool} (h : DebugChain t d (a :: rest)) (hpc : a.pc = .popped raised)
    (hnest : ∀ b ∈ rest, b.pc.runsJava = true) : DebugChain t d rest := by
  cases rest with
  | nil => trivial
  | cons b below =>
    obtain ⟨htop, hb, hbelow⟩ := h
    refine ⟨?_, hbelow⟩
    have hfound : Protected (b :: below) → d = a.entered ∨ d = some t := htop.found_or_set
    have hjava := hnest b List.mem_cons_self
    rcases b with ⟨k, pc, co, en, n⟩
    cases pc with
    | nested =>
      intro hne
      have hprot : Protected (⟨k, .nested, co, en, n⟩ :: below) :=
        Or.inr (Nat.succ_le_succ (List.length_pos_of_ne_nil hne))
      have hent : a.entered = en := hb hne
      have hd : d = a.entered := by
        rcases a with ⟨ak, apc, aco, aen, an⟩
        subst hpc
        cases raised with
        | false => exact htop hprot
        | true => exact (htop hprot).2 _ _ rfl rfl
      exact hd.trans hent
    | locked =>
      intro hprot
      rcases hfound hprot.cons with hd | hd
      · rcases hb hprot with he | he
        · exact Or.inl (hd.trans he)
        · exact Or.inr (hd.trans he)
      · exact Or.inr hd
    | stopped | handler | running u | reporting u =>
      have hent : a.entered = some t := hb
      rcases hfound (Or.inl ⟨_, List.mem_cons_self, rfl⟩) with hd | hd
      · exact hd.trans hent
      · exact hd
    | _ => cases hjava

end Chain

/-! ## Runs -/

section Runs

variable [DecidableEq Tid]

structure ResumeInv (s : Session Tid) : Prop where
  owned : Owned s
  kind : ∀ t, ∀ b ∈ s.acts t, b.pc = .nested → b.kind = .nestedReturn
  chain : ∀ t, DebugChain t s.debugThread (s.acts t)

theorem resumeInv_init : ResumeInv (Session.init : Session Tid) :=
  ⟨owned_init, fun _ _ (hb : _ ∈ []) => (List.not_mem_nil hb).elim, fun _ => trivial⟩

/-- Only `check_nested_method_return` gets to `nested`. -/
theorem kind_step {s s' : Session Tid} {e : Label Tid} (h : step s e = some s')
    (hs : ∀ t, ∀ b ∈ s.acts t, b.pc = .nested → b.kind = .nestedReturn) :
    ∀ t, ∀ b ∈ s'.acts t, b.pc = .nested → b.kind = .nestedReturn := by
  intro v b hb hpc
  rcases step_acts h v with ⟨-, hv⟩ | ⟨k, -, -, -, hv⟩ | ⟨a, rest, raised, -, hacts, -, -, hv⟩ |
    ⟨op, a, rest, pc, u, -, hacts, hmove, -, hv⟩ <;> rw [hv] at hb
  · exact hs v b hb hpc
  · rcases List.mem_cons.mp hb with rfl | hb
    · cases hpc
    · exact hs v b hb hpc
  · exact hs v b (by rw [hacts]; exact List.mem_cons_of_mem _ hb) hpc
  · have ha := hs v a (by rw [hacts]; exact List.mem_cons_self)
    rcases List.mem_cons.mp hb with rfl | hb
    · dsimp only at hpc ⊢
      subst hpc
      generalize a.pc = apc at hmove ha
      cases hmove with
      | callNested hk => exact hk
      | _ => exact ha rfl
    · exact hs v b (by rw [hacts]; exact List.mem_cons_of_mem _ hb) hpc

theorem resumeInv_step (s : Session Tid) (e : Label Tid) (s' : Session Tid) (hs : ResumeInv s)
    (hC : Restoring s e s') (h : step s e = some s') : ResumeInv s' := by
  refine ⟨owned_step s e s' hs.owned h, kind_step h hs.kind, fun t => ?_⟩
  rcases step_acts h t with ⟨hne, hv⟩ | ⟨k, rfl, -, rfl, hv⟩ | ⟨a, rest, raised, rfl, hacts, hpc, rfl, hv⟩ |
    ⟨op, a, rest, pc, u, rfl, hacts, hmove, rfl, hv⟩
  · rw [hv]
    rcases step_debugThread h with ⟨-, -, hd⟩ | ⟨v, b, below, hb, hcases⟩
    · rw [hd]
      exact hs.chain t
    · -- the thread that changes `debug_thread` holds the lock, so no callback of `t` does
      have hassigns : e = .thread v .setThread ∨ e = .thread v .clear := by
        rcases hcases with ⟨he, -⟩ | ⟨he, -⟩
        · exact Or.inl he
        · exact Or.inr he
      have hvt : t ≠ v := by
        rintro rfl
        rcases hassigns with he | he
        · exact hne _ he
        · exact hne _ he
      have hbpc : b.pc.holding = true := by
        rcases hcases with ⟨-, hbpc, -⟩ | ⟨-, hbpc, -⟩
        · rw [hbpc]; rfl
        · rw [hbpc]; rfl
      refine DebugChain.of_not_holding (hs.owned.guarded.nested t) (hs.kind t) (fun c hc => ?_)
        (hC.others v hassigns t hvt) (hs.chain t)
      by_contra hcpc
      rw [Bool.not_eq_false] at hcpc
      exact hvt (hs.owned.guarded.holding_unique hc (by rw [hb]; exact List.mem_cons_self) hcpc hbpc)
  · rw [hv]
    exact ⟨⟨fun _ => Or.inl rfl, fun _ _ => rfl⟩, hs.chain t⟩
  · rw [hv]
    have hchain := hs.chain t
    have hnest := hs.owned.guarded.nested t
    rw [hacts] at hchain hnest
    exact hchain.leave hpc hnest
  · rw [hv]
    have hchain := hs.chain t
    rw [hacts] at hchain
    have htop := hchain.1.move (u := u) hmove
    refine ⟨htop (fun hop hne => ?_) (fun c b below hop hrest hne hb => ?_), hchain.2⟩
    · exact hC.clear t a rest hacts hne (by rw [hop])
    · exact hC.raise t a b below c (by rw [hacts, hrest]) hne hb (by rw [hop])

omit [DecidableEq Tid] in
theorem Pc.owns_of_handles {pc : Pc Tid} {u : Tid} (h : pc.handles = some u) : pc.owns = true := by
  cases pc <;> first | rfl | cases h

theorem ResumeInv.resumable {s : Session Tid} (hs : ResumeInv s) : Resumable s := by
  refine ⟨fun t a ha u hu => ⟨hs.owned.handles t a ha u hu, fun _ => ?_⟩, fun t a rest hacts hin hpc => ?_⟩
  · exact (hs.chain t).owns a ha (Pc.owns_of_handles hu)
  · have hchain := hs.chain t
    rw [hacts] at hchain
    exact hchain.1.of_normalEnd hpc (Or.inl hin)

/-- At its last operation a nested callback knows what it found. -/
theorem ResumeInv.restores {s s' : Session Tid} {e : Label Tid} (hs : ResumeInv s) (h : step s e = some s') :
    Restores s e s' := by
  intro t a rest hacts hne he
  have hchain := hs.chain t
  rw [hacts] at hchain
  have htop := hchain.1
  unfold TopOk at htop
  rcases he with rfl | rfl
  · obtain ⟨pc, u, hmove, rfl, -⟩ := step_move h (by simp) (by simp) hacts
    generalize a.pc = apc at hmove htop
    cases hmove with
    | unlock m hm => exact htop hne
  · obtain ⟨pc, u, hmove, rfl, -⟩ := step_move h (by simp) (by simp) hacts
    generalize a.pc = apc at hmove htop
    cases hmove with
    | nestedReturns => exact htop hne

/-- **Nested stops can be resumed**, and nested callbacks return with the `debug_thread` they found, in every run in
which nested callbacks do not clear a `debug_thread` that they found set, nor other threads assign it meanwhile. -/
theorem resumable_of_restoring (es : List (Label Tid)) (h : EachStep step Restoring (Session.init : Session Tid) es) :
    Always step Resumable Session.init es ∧ EachStep step Restores Session.init es :=
  ⟨always_of_inv resumeInv_step (fun _ hs => hs.resumable) es Session.init resumeInv_init h,
    eachStep_of_inv resumeInv_step (fun _ _ _ hs _ h => hs.restores h) es Session.init resumeInv_init h⟩

/-- A nested callback that clears a `debug_thread` which it found set does not return with it. -/
theorem not_restores_of_clear {s s' s'' : Session Tid} {t u : Tid} {a : Activation Tid} {rest : List (Activation Tid)}
    (hacts : s.acts t = a :: rest) (hne : rest ≠ []) (hent : a.entered = some u)
    (h : step s (.thread t .clear) = some s') (h' : step s' (.thread t .unlock) = some s'') :
    ¬ Restores s' (.thread t .unlock) s'' := by
  intro hres
  obtain ⟨pc, v, hmove, rfl, hv⟩ := step_move h (by simp) (by simp) hacts
  generalize a.pc = apc at hmove
  cases hmove with
  | clear =>
    obtain ⟨pc', v', hmove', rfl, -⟩ := step_move h' (by simp) (by simp) hv
    have hd := hres t _ _ hv hne (Or.inl rfl)
    cases hmove' with
    | unlock m hm => exact absurd (hd.trans hent) (by simp)

/-- A stop without nested callbacks. -/
theorem single_stop_resumable : Always step Resumable (Session.init : Session Bool) (stopLabels true) ∧
    EachStep step Restores (Session.init : Session Bool) (stopLabels true) := by
  refine resumable_of_restoring (stopLabels true) (eachStep_of_inv (I := fun s => s.acts false = [])
    (C := fun _ e _ => e ∈ stopLabels true) (fun s e s' hs he h => ?_) (fun s e s' hs he h => ?_) _ _ rfl
    (eachStep_of_forall fun e he _ _ => he))
  · rcases step_acts h false with ⟨-, hv⟩ | ⟨k, rfl, -⟩ | ⟨a, rest, raised, rfl, -⟩ | ⟨op, a, rest, pc, u, -, hacts, -⟩
    · exact hv.trans hs
    · exact absurd he (by cases k <;> decide)
    · exact absurd he (by decide)
    · rw [hs] at hacts
      cases hacts
  · refine ⟨?_, ?_, ?_⟩
    · rintro t a rest - - rfl
      exact absurd he (by cases t <;> decide)
    · rintro t a b below c - - - rfl
      exact absurd he (by cases t <;> cases c <;> decide)
    · -- the other thread is in no callback
      rintro v hassigns t htv pre b below hacts
      cases t with
      | false =>
        rw [hs] at hacts
        exact absurd hacts.symm (by simp)
      | true =>
        obtain rfl : v = false := by simpa using htv.symm
        rcases hassigns with rfl | rfl
        · exact absurd he (by decide)
        · exact absurd he (by decide)

/-- The labels of a stop in which a command runs Java code that stops once more, until that command has ended. -/
def nestedStopLabels : List (Label Bool) :=
  stopLabels true ++ typeCommand ++ [.thread true .pop] ++ stopLabels true ++ typeCommand ++ runG true ++
    endStop true ++ [.thread true .commandReturns, .thread true .report]

/-- After the inner stop has ended, the thread waits for events with `debug_thread` nil. -/
theorem nested_stop_not_resumable : ¬ (Always step Resumable (Session.init : Session Bool) nestedStopLabels ∧
    EachStep step Restores (Session.init : Session Bool) nestedStopLabels) := by
  have hrun : run step (Session.init : Session Bool) nestedStopLabels = some _ := rfl
  refine fun hboth => not_always_of_run hrun (fun h => ?_) hboth.1
  exact absurd ((h.handling true _ List.mem_cons_self true rfl).2 rfl) (by decide)

end Runs

end YellowTree
