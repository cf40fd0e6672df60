import YellowTree.Debugger.Session
import YellowTree.Lib.SharedStack

/-!
# YellowTree.Debugger.SessionGlobals — `lj_current_thread` and the stack of `lj_L`

Two globals of the C side that every callback entry changes, whatever other threads are doing.

* `requests_iff`: JVMTI requests are applied to the thread they are made for exactly when the latest callback entry of
  all threads was by that thread.
* `anchored_iff`: a callback in progress keeps its `lua_State` on the stack of `lj_L` exactly when each `lua_pop` is
  by the callback entered last of those in progress.  The stack is an instance of `SharedStack` (`stack_step`).
-/

namespace YellowTree

open Transition

variable {Tid : Type}

/-! ## The thread of a JVMTI request -/

section Requests

/-- `get_current_java_thread`, called by `executing`. -/
def getCurrentJavaThread (s : Session Tid) (executing : Tid) : Tid := s.currentThread.getD executing

/-- The JVMTI requests among the operations: who makes it, and the thread it is made for.  `c` is the command
thread. -/
def Label.jvmtiRequest (c : Tid) : Label Tid → Option (Tid × Tid)
  | .thread t .disableEvents => some (t, t)
  | .thread t .enableEvents => some (t, t)
  | .thread t (.request .switchEvent) => some (t, t)
  | .thread t (.request (.getLocalVariable frameThread)) => some (t, frameThread)
  | .command (.request frameThread) => some (c, frameThread)
  | _ => none

/-- A request is applied to the thread it is made for. -/
def AppliedRight (c : Tid) (s : Session Tid) (e : Label Tid) (_ : Session Tid) : Prop :=
  ∀ t target, e.jvmtiRequest c = some (t, target) → getCurrentJavaThread s t = target

/-- The thread of the latest callback entry, after one more label. -/
def nextEntry (latest : Option Tid) : Label Tid → Option Tid
  | .thread t .setCurrent => some t
  | _ => latest

/-- The thread of the latest callback entry among `es`: the last that assigned `lj_current_thread`. -/
def latestEntry (es : List (Label Tid)) : Option Tid := es.foldl nextEntry none

/-- The latest callback entry before each request is by the thread the request is made for; before the first entry, a
request is made by a thread for itself. -/
def EntriesRight [DecidableEq Tid] (c : Tid) (es : List (Label Tid)) : Prop :=
  ∀ pre e, pre ++ [e] <+: es → (run step Session.init (pre ++ [e])).isSome → ∀ t target,
    e.jvmtiRequest c = some (t, target) → (latestEntry pre).getD t = target

theorem latestEntry_concat (es : List (Label Tid)) (e : Label Tid) :
    latestEntry (es ++ [e]) = nextEntry (latestEntry es) e := by
  rw [latestEntry, List.foldl_append]
  rfl

variable [DecidableEq Tid]

/-- `lj_current_thread` is set by callback entries only. -/
theorem step_currentThread {s s' : Session Tid} {e : Label Tid} (h : step s e = some s') :
    s'.currentThread = nextEntry s.currentThread e := by
  cases e with
  | command op =>
    rcases cmdStep_cases h with ⟨-, c, rfl⟩ | ⟨u, ev, c, -, -, rfl⟩
    · rfl
    · rfl
  | thread t op =>
    rcases threadStep_cases h with
      ⟨k, rfl, -, rfl⟩ | ⟨a, rest, raised, rfl, -, -, rfl⟩ | ⟨a, rest, pc, u, -, hmove, rfl⟩
    · rfl
    · rfl
    · generalize a.pc = apc at hmove
      cases hmove <;> rfl

/-- After every run, `lj_current_thread` is the thread of the latest callback entry. -/
theorem currentThread_run {es : List (Label Tid)} {s : Session Tid} (h : run step Session.init es = some s) :
    s.currentThread = latestEntry es := by
  induction es using List.reverseRecOn generalizing s with
  | nil =>
    obtain rfl := Option.some.inj h
    rfl
  | append_singleton es e ih =>
    obtain ⟨t, ht, hstep⟩ := run_concat_eq_some.mp h
    rw [step_currentThread hstep, latestEntry_concat, ih ht]

/-- **JVMTI requests** are applied to the thread they are made for, along a run, exactly when the latest callback entry
before each of them is by that thread. -/
theorem requests_iff (c : Tid) (es : List (Label Tid)) :
    EachStep step (AppliedRight c) (Session.init : Session Tid) es ↔ EntriesRight c es := by
  rw [eachStep_iff]
  constructor
  · intro h pre e hpre hrun t target hreq
    obtain ⟨s', hs'⟩ := Option.isSome_iff_exists.mp hrun
    obtain ⟨s, hs, hstep⟩ := run_concat_eq_some.mp hs'
    have happlied := h pre e hpre s s' hs hstep t target hreq
    rw [getCurrentJavaThread, currentThread_run hs] at happlied
    exact happlied
  · intro h pre e hpre s s' hs hstep t target hreq
    have hrun : (run step Session.init (pre ++ [e])).isSome := by
      rw [run_concat_eq_some.mpr ⟨s, hs, hstep⟩]
      rfl
    have hlatest := h pre e hpre hrun t target hreq
    rw [getCurrentJavaThread, currentThread_run hs]
    exact hlatest

/-- Thread `false` enters a callback while `true` is stopped; a command on `true` then reads a local variable of
`true` from the stack of `false`. -/
theorem requests_wrong : ¬ EachStep step (AppliedRight true) (Session.init : Session Bool)
    [.thread true (.enter .breakpoint), .thread true .setCurrent, .thread true .disableEvents, .thread true .lock,
      .thread true .setThread, .thread false (.enter .breakpoint), .thread false .setCurrent,
      .thread true (.request (.getLocalVariable true))] := by
  intro h
  have hlast := eachStep_iff.mp h
    [.thread true (.enter .breakpoint), .thread true .setCurrent, .thread true .disableEvents, .thread true .lock,
      .thread true .setThread, .thread false (.enter .breakpoint), .thread false .setCurrent]
    (.thread true (.request (.getLocalVariable true))) (List.prefix_refl _) _ _ rfl rfl true true rfl
  exact absurd hlast (by decide)

end Requests

/-! ## The stack of `lj_L` -/

section Coroutines

/-- The stack of `lj_L` with the callbacks as frames; the `lua_State` of a callback is in use until its `lua_pop`. -/
def Session.stack (s : Session Tid) : SharedStack.State Tid where
  stack := s.coroutines
  next := s.nextCoroutine
  frames := fun t => (s.acts t).map fun a => (a.coroutine, a.pc.inProgress)

/-- Every callback in progress has its `lua_State` on the stack of `lj_L`. -/
def Anchored (s : Session Tid) : Prop :=
  ∀ t, ∀ a ∈ s.acts t, a.pc.inProgress = true → a.coroutine ∈ s.coroutines

/-- A callback that does `lua_pop` is the one entered last of those in progress. -/
def PopsLatest (s : Session Tid) (e : Label Tid) (_ : Session Tid) : Prop :=
  ∀ t a rest, e = .thread t .luaPop → s.acts t = a :: rest →
    ∀ u, ∀ b ∈ s.acts u, b.pc.inProgress = true → b.coroutine ≤ a.coroutine

theorem anchored_iff_stack {s : Session Tid} : Anchored s ↔ SharedStack.Anchored s.stack := by
  constructor
  · intro h t c hc
    obtain ⟨a, ha, heq⟩ := List.mem_map.mp hc
    obtain ⟨rfl, hpc⟩ := Prod.mk.inj heq
    exact h t a ha hpc
  · intro h t a ha hpc
    exact h t a.coroutine (List.mem_map.mpr ⟨a, ha, by rw [hpc]⟩)

variable [DecidableEq Tid]

/-- The stack event of a label, if it has one. -/
def Label.stackEvent : Label Tid → Option (SharedStack.Event Tid)
  | .thread t (.enter _) => some (.push t)
  | .thread t .luaPop => some (.pop t)
  | .thread t .leave => some (.drop t)
  | _ => none

/-- Only `luaPop` ends the use of a `lua_State` and changes the stack. -/
theorem Moves.inProgress {s u : Session Tid} {t : Tid} {k : Kind} {pc pc' : Pc Tid} {op : Op Tid}
    (h : Moves s t k pc op pc' u) (hop : op ≠ .luaPop) :
    pc'.inProgress = pc.inProgress ∧ u.coroutines = s.coroutines := by
  cases h with
  | luaPop raised => exact absurd rfl hop
  | raise c pc hc =>
    cases pc with
    | popped raised => cases hc
    | _ => exact ⟨rfl, rfl⟩
  | _ => exact ⟨rfl, rfl⟩

/-- The frames of the stack after the callbacks of `t` have changed. -/
theorem stack_frames_update (acts : Tid → List (Activation Tid)) (t : Tid) (l : List (Activation Tid)) :
    (fun v => (Function.update acts t l v).map fun a => (a.coroutine, a.pc.inProgress)) =
      Function.update (fun v => (acts v).map fun a => (a.coroutine, a.pc.inProgress)) t
        (l.map fun a => (a.coroutine, a.pc.inProgress)) := by
  ext1 v
  by_cases hv : v = t
  · subst hv
    rw [Function.update_self, Function.update_self]
  · rw [Function.update_of_ne hv, Function.update_of_ne hv]

omit [DecidableEq Tid] in
theorem stack_frames {s : Session Tid} {t : Tid} {a : Activation Tid} {rest : List (Activation Tid)}
    (hacts : s.acts t = a :: rest) : s.stack.frames t =
      (a.coroutine, a.pc.inProgress) :: rest.map fun a => (a.coroutine, a.pc.inProgress) :=
  congrArg (List.map _) hacts

/-- A move other than `luaPop` leaves the stack alone. -/
theorem Moves.stack_eq {s u : Session Tid} {t : Tid} {a : Activation Tid} {rest : List (Activation Tid)} {pc : Pc Tid}
    {op : Op Tid} (hacts : s.acts t = a :: rest) (h : Moves s t a.kind a.pc op pc u) (hop : op ≠ .luaPop) :
    Session.stack { u with acts := Function.update s.acts t ({ a with pc := pc } :: rest) } = s.stack := by
  obtain ⟨hpc, hco⟩ := h.inProgress hop
  have hframes : (fun v => (Function.update s.acts t ({ a with pc := pc } :: rest) v).map fun a =>
      (a.coroutine, a.pc.inProgress)) = s.stack.frames := by
    rw [stack_frames_update, List.map_cons]
    dsimp only
    rw [hpc, ← stack_frames hacts]
    exact Function.update_eq_self t s.stack.frames
  unfold Session.stack
  dsimp only
  rw [hframes, hco, h.frame.2.1]
  rfl

/-- **The stack of `lj_L` is a `SharedStack`**: a step does the stack event of its label, or leaves the stack alone. -/
theorem stack_step {s s' : Session Tid} {e : Label Tid} (h : step s e = some s') :
    match e.stackEvent with
    | some ev => SharedStack.step s.stack ev = some s'.stack
    | none => s'.stack = s.stack := by
  cases e with
  | command op =>
    show s'.stack = s.stack
    rcases cmdStep_cases h with ⟨-, c, rfl⟩ | ⟨u, ev, c, -, -, rfl⟩
    · rfl
    · rfl
  | thread t op =>
    rcases threadStep_cases h with ⟨k, rfl, -, rfl⟩ | ⟨a, rest, raised, rfl, hacts, hpc, rfl⟩ |
      ⟨a, rest, pc, u, hacts, hmove, rfl⟩
    · show some _ = some (Session.stack (s.enter t k))
      rw [Session.stack, Session.stack, Session.enter]
      dsimp only
      rw [stack_frames_update]
      rfl
    · have hframes : s.stack.frames t = (a.coroutine, false) :: rest.map fun b => (b.coroutine, b.pc.inProgress) := by
        rw [stack_frames hacts, hpc]
        rfl
      refine (SharedStack.step_drop_eq hframes).trans (congrArg some ?_)
      show (⟨s.coroutines, s.nextCoroutine, _⟩ : SharedStack.State Tid) = ⟨s.coroutines, s.nextCoroutine, _⟩
      rw [stack_frames_update]
      rfl
    · by_cases hop : op = .luaPop
      · subst hop
        have hframes := stack_frames hacts
        generalize a.pc = apc at hmove hframes
        cases hmove with
        | luaPop raised =>
          refine (SharedStack.step_pop_eq hframes).trans (congrArg some ?_)
          rw [Session.stack, Session.stack]
          dsimp only
          rw [stack_frames_update]
          rfl
      · have hnone : (Label.thread t op).stackEvent = none := by
          generalize a.pc = apc at hmove
          cases hmove <;> first | rfl | exact absurd rfl hop
        rw [hnone]
        exact hmove.stack_eq hacts hop

/-- The two conditions on a pop are one. -/
theorem popsLatest_iff {s s' : Session Tid} {e : Label Tid} {ev : SharedStack.Event Tid} (h : step s e = some s')
    (hev : e.stackEvent = some ev) : PopsLatest s e s' ↔ SharedStack.LatestFirst s.stack ev s'.stack := by
  constructor
  · intro hC t c rest' rfl' hframes u d hd
    subst rfl'
    have he : e = .thread t .luaPop := by
      unfold Label.stackEvent at hev
      split at hev <;> cases hev
      rfl
    obtain ⟨b, hb, heq⟩ := List.mem_map.mp hd
    obtain ⟨rfl, hpc⟩ := Prod.mk.inj heq
    cases hacts : s.acts t with
    | nil =>
      have hnil : s.stack.frames t = [] := congrArg (List.map _) hacts
      rw [hnil] at hframes
      simp at hframes
    | cons a rest =>
      rw [stack_frames hacts] at hframes
      have hc : a.coroutine = c := congrArg Prod.fst (List.cons.inj hframes).1
      exact hc ▸ hC t a rest he hacts u b hb hpc
  · intro hC t a rest he hacts u b hb hpc
    subst he
    obtain rfl := Option.some.inj hev
    have hstep : threadStep s t .luaPop = some s' := h
    have hframes : s.stack.frames t = (a.coroutine, true) :: rest.map fun a => (a.coroutine, a.pc.inProgress) := by
      rw [stack_frames hacts]
      rcases threadStep_cases hstep with ⟨k, hk, -⟩ | ⟨_, _, _, hl, -⟩ | ⟨a', rest', pc, v, hacts', hmove, -⟩
      · simp at hk
      · simp at hl
      · obtain ⟨rfl, rfl⟩ := List.cons.inj (hacts.symm.trans hacts')
        generalize ha : a.pc = apc at hmove
        cases hmove with
        | luaPop raised => rfl
    exact hC t a.coroutine _ rfl hframes u b.coroutine (List.mem_map.mpr ⟨b, hb, by rw [hpc]⟩)

/-- **A callback in progress keeps its `lua_State`** on the stack of `lj_L`, along a run, exactly when each `lua_pop`
is by the callback entered last of those in progress. -/
theorem anchored_iff (es : List (Label Tid)) :
    Always step Anchored (Session.init : Session Tid) es ↔ EachStep step PopsLatest Session.init es := by
  refine always_iff_eachStep (I := fun s => SharedStack.Inv s.stack) (fun s e s' hs hC h => ?_)
    (fun s hs => anchored_iff_stack.mpr hs.anchored) (fun s e s' hs hC h hanch => ?_) es Session.init
    SharedStack.inv_init
  · have hstep := stack_step h
    cases hev : e.stackEvent with
    | none =>
      rw [hev] at hstep
      exact hstep ▸ hs
    | some ev =>
      rw [hev] at hstep
      exact SharedStack.inv_step _ ev _ hs ((popsLatest_iff h hev).mp hC) hstep
  · have hstep := stack_step h
    cases hev : e.stackEvent with
    | none =>
      refine hC fun t a rest he _ => ?_
      rw [he] at hev
      cases hev
    | some ev =>
      rw [hev] at hstep
      exact hs.not_anchored (fun hlatest => hC ((popsLatest_iff h hev).mpr hlatest)) hstep
        (anchored_iff_stack.mp hanch)

/-- Thread `true` enters a callback, `false` enters another, and `true` leaves first: it pops the `lua_State` of
`false`. -/
theorem earlier_pop_not_anchored : ¬ Always step Anchored (Session.init : Session Bool)
    [.thread true (.enter .nestedReturn), .thread true .setCurrent, .thread true .disableEvents,
      .thread true .callNested, .thread false (.enter .breakpoint), .thread true .nestedReturns,
      .thread true .luaPop] := by
  have hrun : run step (Session.init : Session Bool)
      [.thread true (.enter .nestedReturn), .thread true .setCurrent, .thread true .disableEvents,
        .thread true .callNested, .thread false (.enter .breakpoint), .thread true .nestedReturns,
        .thread true .luaPop] = some _ := rfl
  refine not_always_of_run hrun fun h => ?_
  exact absurd (h false _ (List.mem_singleton_self _) rfl) (by decide)

end Coroutines

end YellowTree
