import YellowTree.Debugger.SessionLock
import YellowTree.Lua.Value

/-!
# YellowTree.Debugger.SelectedFrame — the global `depth` and the commands `frame`, `up` and `down`

`depth` is one variable for all stops.  `cb_breakpoint` sets it to 1 when it has found its entry, the other callbacks
leave it as it is, and `frame` sets it when JVMTI finds the frame; whether it does is up to GetStackTrace, which counts
a negative depth from the oldest frame.  `Selection` adds to `Session` the value of `depth` and the number of frames of
each thread at its callbacks in progress; between two callbacks a stack changes at will.

* `ljGetStackFrame_eq`: when JVMTI finds the frame that is asked for, and no other.
* `depth_eq_latest`: `depth` is the frame number selected last, unless a breakpoint has set it to 1 since.
* `selectedFrame_iff`: `frame` answers right and a stopped thread has a selected frame, along a run, exactly when no
  number is asked for that JVMTI takes for another frame, and no stop handles events on a stack that is too small for
  the frame number selected last.
-/

namespace YellowTree

open Transition

variable {Tid : Type}

/-! ## Looking up a frame -/

section StackFrame

/-- GetStackTrace for one frame of a stack of `n`: the place of the frame, counted from the newest; `none` for
`JVMTI_ERROR_ILLEGAL_ARGUMENT` and when there is no frame.  A negative depth counts from below the oldest frame. -/
def getStackTrace (n : ℕ) (startDepth : ℤ) : Option ℕ :=
  if 0 ≤ startDepth then (if startDepth < n then some startDepth.toNat else none)
  else if -n ≤ startDepth then some (n + startDepth).toNat else none

/-- The C variable `frame_num`. -/
def frameNum (c : IntegerCast) (num : ℤ) : ℤ := (c.cast (.finite num)).bmod (2 ^ 32)

/-- `lj_get_stack_frame`. -/
def ljGetStackFrame (c : IntegerCast) (n : ℕ) (num : ℤ) : Option ℕ := getStackTrace n (frameNum c num - 1)

/-- `frame(num)` on a stack of `n` frames: the new value of `depth`. -/
def frame (c : IntegerCast) (n : ℕ) (depth num : ℤ) : ℤ :=
  match ljGetStackFrame c n num with
  | some _ => num
  | none => depth

/-- A command that selects a frame. -/
inductive FrameCommand where
  | frame (num : ℤ)
  | up (num : ℤ)
  | down (num : ℤ)
  deriving DecidableEq

/-- The number that `frame` is called with. -/
def FrameCommand.num (depth : ℤ) : FrameCommand → ℤ
  | .frame num => num
  | .up num => LuaNumber.roundDouble (depth + num)
  | .down num => LuaNumber.roundDouble (depth - num)

/-- The place of frame `num`, counted from 1. -/
def frameAt (n : ℕ) (num : ℤ) : Option ℕ := if 1 ≤ num ∧ num ≤ n then some (num - 1).toNat else none

/-- In a stop on `n` frames `frame(num)` asks for one of `m`: it is there when it should be, and otherwise the C
integer made of `num` lies outside of what GetStackTrace accepts. -/
def Addressable (c : IntegerCast) (n m : ℕ) (num : ℤ) : Prop :=
  if 1 ≤ num ∧ num ≤ n then num ≤ m else frameNum c num ≤ -m ∨ m < frameNum c num

variable {c : IntegerCast} {n m : ℕ} {num : ℤ}

theorem frameNum_of_le (hn : n < 2 ^ 31) (h : 1 ≤ num ∧ num ≤ n) : frameNum c num = num := by
  unfold frameNum
  rw [c.cast_int (by omega) (by omega), Int.bmod_eq_of_le]
  · omega
  · omega

/-- JVMTI finds exactly the frames that the stack has. -/
theorem ljGetStackFrame_eq (hn : n < 2 ^ 31) : ljGetStackFrame c m num = frameAt n num ↔ Addressable c n m num := by
  unfold ljGetStackFrame frameAt Addressable
  by_cases h : 1 ≤ num ∧ num ≤ n
  · rw [if_pos h, if_pos h, frameNum_of_le hn h, getStackTrace, if_pos (by omega)]
    constructor
    · intro hsome
      by_contra hm
      rw [if_neg (by omega)] at hsome
      cases hsome
    · intro hm
      rw [if_pos (by omega)]
  · rw [if_neg h, if_neg h]
    unfold getStackTrace
    constructor
    · intro hnone
      by_contra hin
      split_ifs at hnone
      · omega
      · omega
    · intro hout
      split_ifs
      · omega
      · rfl
      · omega
      · rfl

theorem frame_of_addressable (hn : n < 2 ^ 31) (h : Addressable c n m num) (depth : ℤ) :
    frame c m depth num = if 1 ≤ num ∧ num ≤ n then num else depth := by
  unfold frame
  rw [(ljGetStackFrame_eq hn).mpr h, frameAt]
  split_ifs
  · rfl
  · rfl

end StackFrame

/-! ## `depth` over many stops -/

section Selection

/-- The stack of a thread at one of its callbacks: the number of frames, and whether the callback has set `depth` to
1. -/
structure StackAt where
  frames : ℕ
  reset : Bool
  deriving DecidableEq

/-- A session, `depth`, and the stacks of each thread at its callbacks in progress, innermost first. -/
structure Selection (Tid : Type) where
  session : Session Tid
  depth : ℤ
  stackAt : Tid → List StackAt

def Selection.init : Selection Tid := ⟨Session.init, 1, fun _ => []⟩

/-- An operation of the session, where a callback is entered with a stack of `n` frames; `depth = 1` in
`cb_breakpoint`; a command that selects a frame, run by a handler or a command of `t`, where `current_thread()` gives a
jthread with `m` frames (that of `t` while names are distinct); the same in a command that the command thread runs
itself. -/
inductive SelectionLabel (Tid : Type) where
  | session (l : Label Tid) (n : ℕ)
  | resetDepth (t : Tid)
  | select (t : Tid) (m : ℕ) (command : FrameCommand)
  | cmdSelect (m : ℕ) (command : FrameCommand)
  deriving DecidableEq

namespace Selection

/-- A number of frames is a `jint`, and Java code that a command runs stands above the frames of its stop. -/
def stackFits (s : Selection Tid) (n : ℕ) : Label Tid → Bool
  | .thread t (.enter _) => 0 < n && n < 2 ^ 31 && (s.stackAt t).head?.all (·.frames < n)
  | _ => true

/-- `cb_breakpoint` sets `depth` before it calls a handler or waits for events. -/
def hasReset (s : Selection Tid) : Label Tid → Bool
  | .thread t op =>
    match s.session.acts t, s.stackAt t with
    | a :: _, k :: _ => !(a.kind == .breakpoint && (op matches .callHandler || op matches .wait)) || k.reset
    | _, _ => true
  | .command _ => true

variable [DecidableEq Tid]

def stacksAfter (s : Selection Tid) (n : ℕ) : Label Tid → Tid → List StackAt
  | .thread t (.enter _) => Function.update s.stackAt t (⟨n, false⟩ :: s.stackAt t)
  | .thread t .leave => Function.update s.stackAt t (s.stackAt t).tail
  | _ => s.stackAt

end Selection

variable [DecidableEq Tid]

def selectionStep (c : IntegerCast) (s : Selection Tid) : SelectionLabel Tid → Option (Selection Tid)
  | .session l n =>
    if s.stackFits n l && s.hasReset l then
      (step s.session l).map fun u => { s with session := u, stackAt := s.stacksAfter n l }
    else none
  | .resetDepth t =>
    match s.session.acts t, s.stackAt t with
    | a :: _, k :: ks =>
      if a.kind = .breakpoint ∧ a.pc = .stopped ∧ k.reset = false then
        some { s with depth := 1, stackAt := Function.update s.stackAt t ({ k with reset := true } :: ks) }
      else none
    | _, _ => none
  | .select t m command =>
    match s.session.acts t with
    | a :: _ =>
      if a.pc.runsCommand then some { s with depth := frame c m s.depth (command.num s.depth) } else none
    | [] => none
  | .cmdSelect m command =>
    if s.session.cmd = .running then some { s with depth := frame c m s.depth (command.num s.depth) } else none

/-- The frame number `depth` exists for every thread that handles events. -/
def Fits (s : Selection Tid) (depth : ℤ) : Prop :=
  ∀ t a rest k ks, s.session.acts t = a :: rest → a.pc.handles.isSome = true → s.stackAt t = k :: ks →
    1 ≤ depth ∧ depth ≤ k.frames

def Selected (s : Selection Tid) : Prop := Fits s s.depth

/-- `frame(num)` in a stop finds the frames that the stack has, and no others; `depth` follows. -/
def AnswersRight (c : IntegerCast) (s : Selection Tid) (e : SelectionLabel Tid) (s' : Selection Tid) : Prop :=
  ∀ t m command k ks, e = .select t m command → s.stackAt t = k :: ks →
    ljGetStackFrame c m (command.num s.depth) = frameAt k.frames (command.num s.depth) ∧
      s'.depth = if 1 ≤ command.num s.depth ∧ command.num s.depth ≤ k.frames then command.num s.depth else s.depth

/-- No number is asked for that JVMTI takes for another frame; a frame that the command thread selects for itself
exists in a stop, too. -/
structure SelectsInStack (c : IntegerCast) (s : Selection Tid) (e : SelectionLabel Tid) (_ : Selection Tid) : Prop where
  select : ∀ t m command k ks, e = .select t m command → s.stackAt t = k :: ks →
    Addressable c k.frames m (command.num s.depth)
  command : ∀ m command, e = .cmdSelect m command → (ljGetStackFrame c m (command.num s.depth)).isSome = true →
    Fits s (command.num s.depth)

/-- With this step a callback on a stack of `n` frames begins to handle events, or goes on with them when a callback
that ran inside one of its commands has ended. -/
inductive HandlesEvents (s : Selection Tid) : SelectionLabel Tid → ℕ → Prop where
  | start (t : Tid) (i : ℕ) (k : StackAt) (ks : List StackAt) (hstacks : s.stackAt t = k :: ks) :
      HandlesEvents s (.session (.thread t .handleEvents) i) k.frames
  | goOn (t : Tid) (i : ℕ) (a b : Activation Tid) (rest : List (Activation Tid)) (j k : StackAt) (ks : List StackAt)
      (hacts : s.session.acts t = a :: b :: rest) (hpc : b.pc.handles.isSome = true)
      (hstacks : s.stackAt t = j :: k :: ks) : HandlesEvents s (.session (.thread t .leave) i) k.frames

/-- The frame number that a step selects; a breakpoint selects the first. -/
def selects (c : IntegerCast) (s : Selection Tid) : SelectionLabel Tid → Option ℤ
  | .session _ _ => none
  | .resetDepth _ => some 1
  | .select _ m command | .cmdSelect m command =>
    (ljGetStackFrame c m (command.num s.depth)).map fun _ => command.num s.depth

/-- Along the run of `es`, `num` is selected, and nothing after it. -/
def SelectedLast (c : IntegerCast) (es : List (SelectionLabel Tid)) (num : ℤ) : Prop :=
  ∃ pre e post s s', es = pre ++ e :: post ∧ run (selectionStep c) Selection.init pre = some s ∧
    selectionStep c s e = some s' ∧ selects c s e = some num ∧
    EachStep (selectionStep c) (fun s e _ => selects c s e = none) s' post

/-- All commands select in their stack, and where a stop handles events, the frame number selected last is one of its
stack. -/
structure StacksReach (c : IntegerCast) (es : List (SelectionLabel Tid)) : Prop where
  selects : EachStep (selectionStep c) (SelectsInStack c) Selection.init es
  handles : ∀ pre e, pre ++ [e] <+: es → ∀ s s', run (selectionStep c) Selection.init pre = some s →
    selectionStep c s e = some s' → ∀ n, HandlesEvents s e n → ∀ num, SelectedLast c pre num → 1 ≤ num ∧ num ≤ n

end Selection

/-! ## Steps -/

section Steps

variable [DecidableEq Tid] {c : IntegerCast} {s s' : Selection Tid}

/-- What holds in every state: callbacks nest under the lock, and each has a stack. -/
structure StacksInv (s : Selection Tid) : Prop where
  guarded : Guarded s.session
  length : ∀ t, (s.stackAt t).length = (s.session.acts t).length
  pos : ∀ t, ∀ k ∈ s.stackAt t, 0 < k.frames ∧ k.frames < 2 ^ 31

theorem stacksInv_init : StacksInv (Selection.init : Selection Tid) :=
  ⟨guarded_init, fun _ => rfl, fun _ _ h => by cases h⟩

theorem session_step {l : Label Tid} {n : ℕ} (h : selectionStep c s (.session l n) = some s') :
    s.stackFits n l = true ∧ step s.session l = some s'.session ∧ s'.depth = s.depth ∧
      s'.stackAt = s.stacksAfter n l := by
  rw [selectionStep, Option.ite_none_right_eq_some, Bool.and_eq_true, Option.map_eq_some_iff] at h
  obtain ⟨⟨hfits, -⟩, u, hu, rfl⟩ := h
  exact ⟨hfits, hu, rfl, rfl⟩

theorem resetDepth_step {t : Tid} (h : selectionStep c s (.resetDepth t) = some s') :
    ∃ a rest k ks, s.session.acts t = a :: rest ∧ s.stackAt t = k :: ks ∧ a.pc = .stopped ∧
      s' = { s with depth := 1, stackAt := Function.update s.stackAt t ({ k with reset := true } :: ks) } := by
  unfold selectionStep at h
  dsimp only at h
  split at h
  case h_1 a rest k ks hacts hstacks =>
    rw [Option.ite_none_right_eq_some] at h
    exact ⟨a, rest, k, ks, hacts, hstacks, h.1.2.1, (Option.some.inj h.2).symm⟩
  case h_2 => cases h

theorem select_step {t : Tid} {m : ℕ} {command : FrameCommand} (h : selectionStep c s (.select t m command) = some s') :
    ∃ a rest, s.session.acts t = a :: rest ∧ a.pc.runsCommand = true ∧
      s' = { s with depth := frame c m s.depth (command.num s.depth) } := by
  unfold selectionStep at h
  dsimp only at h
  split at h
  case h_1 a rest hacts =>
    rw [Option.ite_none_right_eq_some] at h
    exact ⟨a, rest, hacts, h.1, (Option.some.inj h.2).symm⟩
  case h_2 => cases h

theorem cmdSelect_step {m : ℕ} {command : FrameCommand} (h : selectionStep c s (.cmdSelect m command) = some s') :
    s' = { s with depth := frame c m s.depth (command.num s.depth) } := by
  rw [selectionStep, Option.ite_none_right_eq_some] at h
  exact (Option.some.inj h.2).symm

/-- A session step seen from the callbacks of one thread and their stacks. -/
theorem session_stacks {l : Label Tid} {n : ℕ} (h : selectionStep c s (.session l n) = some s') (v : Tid) :
    ((∀ op, l ≠ .thread v op) ∧ s'.session.acts v = s.session.acts v ∧ s'.stackAt v = s.stackAt v) ∨
    (0 < n ∧ n < 2 ^ 31 ∧ ∃ k a, l = .thread v (.enter k) ∧ a.pc = .entered ∧
      s'.session.acts v = a :: s.session.acts v ∧ s'.stackAt v = ⟨n, false⟩ :: s.stackAt v) ∨
    (l = .thread v .leave ∧ s'.session.acts v = (s.session.acts v).tail ∧ s'.stackAt v = (s.stackAt v).tail) ∨
    ∃ op a rest pc u, l = .thread v op ∧ s.session.acts v = a :: rest ∧ Moves s.session v a.kind a.pc op pc u ∧
      s'.session.acts v = { a with pc := pc } :: rest ∧ s'.stackAt v = s.stackAt v := by
  obtain ⟨hfits, hstep, -, hstacks⟩ := session_step h
  rw [hstacks]
  rcases step_acts hstep v with ⟨hne, hv⟩ | ⟨k, rfl, -, -, hv⟩ | ⟨a, rest, raised, rfl, hacts, -, -, hv⟩ |
    ⟨op, a, rest, pc, u, rfl, hacts, hmove, -, hv⟩
  · refine Or.inl ⟨hne, hv, ?_⟩
    unfold Selection.stacksAfter
    split
    · exact Function.update_of_ne (fun hvt => hne _ (by rw [hvt])) ..
    · exact Function.update_of_ne (fun hvt => hne _ (by rw [hvt])) ..
    · rfl
  · have hfits' : (0 < n ∧ n < 2 ^ 31) ∧ (s.stackAt v).head?.all (·.frames < n) = true := by
      simpa [Selection.stackFits] using hfits
    exact Or.inr (Or.inl ⟨hfits'.1.1, hfits'.1.2, k, _, rfl, rfl, hv, Function.update_self ..⟩)
  · refine Or.inr (Or.inr (Or.inl ⟨rfl, ?_, Function.update_self ..⟩))
    rw [hv, hacts]
    rfl
  · refine Or.inr (Or.inr (Or.inr ⟨op, a, rest, pc, u, rfl, hacts, hmove, hv, ?_⟩))
    generalize a.pc = apc at hmove
    cases hmove <;> rfl

theorem stacksInv_step (e : SelectionLabel Tid) (hs : StacksInv s) (h : selectionStep c s e = some s') :
    StacksInv s' := by
  cases e with
  | session l n =>
    refine ⟨guarded_step s.session l s'.session hs.guarded (session_step h).2.1, fun v => ?_, fun v k hk => ?_⟩
    · have hlen := hs.length v
      rcases session_stacks h v with ⟨-, hv, hf⟩ | ⟨-, -, k, a, -, -, hv, hf⟩ | ⟨-, hv, hf⟩ |
        ⟨op, a, rest, pc, u, -, hacts, -, hv, hf⟩
      · rw [hv, hf, hlen]
      · rw [hv, hf, List.length_cons, List.length_cons, hlen]
      · rw [hv, hf, List.length_tail, List.length_tail, hlen]
      · rw [hv, hf, hlen, hacts]
        rfl
    · rcases session_stacks h v with ⟨-, -, hf⟩ | ⟨h0, h31, j, a, -, -, -, hf⟩ | ⟨-, -, hf⟩ |
        ⟨op, a, rest, pc, u, -, -, -, -, hf⟩
      · exact hs.pos v k (hf ▸ hk)
      · rw [hf] at hk
        rcases List.mem_cons.mp hk with rfl | hk
        · exact ⟨h0, h31⟩
        · exact hs.pos v k hk
      · exact hs.pos v k (List.mem_of_mem_tail (hf ▸ hk))
      · exact hs.pos v k (hf ▸ hk)
  | resetDepth t =>
    obtain ⟨a, rest, k, ks, hacts, hstacks, -, rfl⟩ := resetDepth_step h
    have hlen := hs.length t
    have hpos := hs.pos t
    rw [hstacks] at hlen hpos
    refine ⟨hs.guarded, ?_, ?_⟩
    · exact (Function.forall_update_iff s.stackAt fun u l => l.length = (s.session.acts u).length).mpr
        ⟨hlen, fun u _ => hs.length u⟩
    · exact (Function.forall_update_iff s.stackAt fun _ l => ∀ k ∈ l, 0 < k.frames ∧ k.frames < 2 ^ 31).mpr
        ⟨List.forall_mem_cons.mpr ⟨hpos k List.mem_cons_self, fun j hj => hpos j (List.mem_cons_of_mem _ hj)⟩,
          fun u _ => hs.pos u⟩
  | select t m command =>
    obtain ⟨a, rest, -, -, rfl⟩ := select_step h
    exact ⟨hs.guarded, hs.length, hs.pos⟩
  | cmdSelect m command =>
    obtain rfl := cmdSelect_step h
    exact ⟨hs.guarded, hs.length, hs.pos⟩

/-- A callback that handles events did so before the move, or has just begun to. -/
theorem Moves.handling {s u : Session Tid} {t : Tid} {k : Kind} {pc pc' : Pc Tid} {op : Op Tid}
    (h : Moves s t k pc op pc' u) (hpc : pc'.handles.isSome = true) :
    pc.handles.isSome = true ∨ op = .handleEvents := by
  cases h <;> first | exact Or.inl hpc | exact Or.inl rfl | exact Or.inr rfl | cases hpc

omit [DecidableEq Tid] in
theorem Pc.holding_of_runsCommand {pc : Pc Tid} (h : pc.runsCommand = true) : pc.holding = true := by
  cases pc <;> first | rfl | cases h

end Steps

/-! ## The frame number selected last -/

section Latest

variable [DecidableEq Tid] {c : IntegerCast} {s s' : Selection Tid} {e : SelectionLabel Tid}

/-- `depth` changes when a frame is selected. -/
theorem depth_step (h : selectionStep c s e = some s') : s'.depth = (selects c s e).getD s.depth := by
  have hframe : ∀ m num, frame c m s.depth num = ((ljGetStackFrame c m num).map fun _ => num).getD s.depth := by
    intro m num
    unfold frame
    cases ljGetStackFrame c m num <;> rfl
  cases e with
  | session l n => exact (session_step h).2.2.1
  | resetDepth t =>
    obtain ⟨a, rest, k, ks, -, -, -, rfl⟩ := resetDepth_step h
    rfl
  | select t m command =>
    obtain ⟨a, rest, -, -, rfl⟩ := select_step h
    exact hframe m _
  | cmdSelect m command =>
    obtain rfl := cmdSelect_step h
    exact hframe m _

theorem depth_run_of_none : ∀ {es : List (SelectionLabel Tid)} {s s' : Selection Tid},
    EachStep (selectionStep c) (fun s e _ => selects c s e = none) s es → run (selectionStep c) s es = some s' →
      s'.depth = s.depth
  | [], s, s', _, h => by
    obtain rfl := Option.some.inj h
    rfl
  | e :: es, s, s', hnone, h => by
    rw [run_cons, Option.bind_eq_some_iff] at h
    obtain ⟨t, ht, h⟩ := h
    obtain ⟨he, hes⟩ := hnone t ht
    rw [depth_run_of_none hes h, depth_step ht, he]
    rfl

/-- What is selected last is the value of `depth`. -/
theorem SelectedLast.depth_eq {es : List (SelectionLabel Tid)} {num : ℤ} (hlast : SelectedLast c es num)
    (h : run (selectionStep c) Selection.init es = some s) : s.depth = num := by
  obtain ⟨pre, e, post, t, t', rfl, hpre, he, hnum, hpost⟩ := hlast
  rw [run_append, hpre, Option.bind_some, run_cons, he, Option.bind_some] at h
  rw [depth_run_of_none hpost h, depth_step he, hnum]
  rfl

/-- **`depth` is the frame number selected last**; before that it is 1. -/
theorem depth_eq_latest : ∀ {es : List (SelectionLabel Tid)} {s : Selection Tid},
    run (selectionStep c) Selection.init es = some s → s.depth = 1 ∨ SelectedLast c es s.depth := by
  intro es
  induction es using List.reverseRecOn with
  | nil =>
    intro s h
    obtain rfl := Option.some.inj h
    exact Or.inl rfl
  | append_singleton es e ih =>
    intro s h
    obtain ⟨t, ht, he⟩ := run_concat_eq_some.mp h
    have hdepth := depth_step he
    cases hsel : selects c t e with
    | some num =>
      rw [hsel, Option.getD_some] at hdepth
      exact Or.inr ⟨es, e, [], t, s, rfl, ht, he, by rw [hsel, hdepth], trivial⟩
    | none =>
      rw [hsel, Option.getD_none] at hdepth
      rw [hdepth]
      rcases ih ht with hone | ⟨pre, e', post, u, u', rfl, hpre, he', hnum, hpost⟩
      · exact Or.inl hone
      · refine Or.inr ⟨pre, e', post ++ [e], u, u', by simp, hpre, he', hnum,
          eachStep_append.mpr ⟨hpost, fun w hw => ?_⟩⟩
        rw [run_append, hpre, Option.bind_some, run_cons, he', Option.bind_some, hw] at ht
        obtain rfl := Option.some.inj ht
        exact fun w' _ => ⟨hsel, trivial⟩

end Latest

/-! ## Runs -/

section Runs

variable [DecidableEq Tid] {c : IntegerCast} {s s' : Selection Tid} {e : SelectionLabel Tid}

/-- The same about the state before the step, with the value of `depth`. -/
structure SelectsAndHandles (c : IntegerCast) (s : Selection Tid) (e : SelectionLabel Tid) (s' : Selection Tid) :
    Prop where
  selects : SelectsInStack c s e s'
  handles : ∀ n, HandlesEvents s e n → 1 ≤ s.depth ∧ s.depth ≤ n

/-- A session step keeps the selected frame in the stack. -/
theorem Selected.session_step {l : Label Tid} {n : ℕ} (hsel : Selected s)
    (hC : SelectsAndHandles c s (.session l n) s') (h : selectionStep c s (.session l n) = some s') : Selected s' := by
  intro v a rest k ks hacts hpc hstacks
  rw [(YellowTree.session_step h).2.2.1]
  rcases session_stacks h v with ⟨-, hv, hf⟩ | ⟨-, -, j, b, -, hb, hv, -⟩ | ⟨rfl, hv, hf⟩ |
    ⟨op, b, below, pc, u, rfl, hacts', hmove, hv, hf⟩
  · exact hsel v a rest k ks (hv ▸ hacts) hpc (hf ▸ hstacks)
  · obtain ⟨rfl, -⟩ := List.cons.inj (hacts.symm.trans hv)
    rw [hb] at hpc
    cases hpc
  · rw [hacts] at hv
    rw [hstacks] at hf
    cases hacts' : s.session.acts v with
    | nil => rw [hacts'] at hv; cases hv
    | cons b below =>
      cases hstacks' : s.stackAt v with
      | nil => rw [hstacks'] at hf; cases hf
      | cons j js =>
        rw [hacts', List.tail_cons] at hv
        rw [hstacks', List.tail_cons] at hf
        subst hv hf
        exact hC.handles _ (.goOn v n b a rest j k ks hacts' hpc hstacks')
  · obtain ⟨rfl, -⟩ := List.cons.inj (hacts.symm.trans hv)
    rw [hstacks] at hf
    rcases Moves.handling hmove hpc with hb | rfl
    · exact hsel v b below k ks hacts' hb hf.symm
    · exact hC.handles _ (.start v n k ks hf.symm)

theorem Selected.step (hs : StacksInv s) (hsel : Selected s) (hC : SelectsAndHandles c s e s')
    (h : selectionStep c s e = some s') : Selected s' := by
  cases e with
  | session l n => exact hsel.session_step hC h
  | resetDepth t =>
    -- every stack has a first frame
    have hs' := stacksInv_step _ hs h
    obtain ⟨a, rest, k, ks, -, -, -, rfl⟩ := resetDepth_step h
    intro v b below j js _ _ hstacksv
    have hpos := (hs'.pos v j (by rw [hstacksv]; exact List.mem_cons_self)).1
    show (1 : ℤ) ≤ 1 ∧ (1 : ℤ) ≤ j.frames
    omega
  | select t m command =>
    obtain ⟨a, rest, hacts, hpc, rfl⟩ := select_step h
    intro v b below k ks hactsv hpcv hstacksv
    -- only one thread holds the lock
    obtain rfl : t = v := hs.guarded.holding_unique (by rw [hacts]; exact List.mem_cons_self)
      (by rw [hactsv]; exact List.mem_cons_self) (Pc.holding_of_runsCommand hpc) (Pc.holding_of_handles hpcv)
    have hstacks : s.stackAt t = k :: ks := hstacksv
    have hn := (hs.pos t k (by rw [hstacks]; exact List.mem_cons_self)).2
    have hdepth := hsel t b below k ks hactsv hpcv hstacks
    show 1 ≤ frame c m s.depth (command.num s.depth) ∧ frame c m s.depth (command.num s.depth) ≤ k.frames
    rw [frame_of_addressable hn (hC.selects.select t m command k ks rfl hstacks)]
    split_ifs with hnum
    · exact hnum
    · exact hdepth
  | cmdSelect m command =>
    obtain rfl := cmdSelect_step h
    show Fits s (frame c m s.depth (command.num s.depth))
    unfold frame
    cases hfound : ljGetStackFrame c m (command.num s.depth) with
    | none => exact hsel
    | some i => exact hC.selects.command m command rfl (by rw [hfound]; rfl)

theorem SelectsInStack.answersRight (hs : StacksInv s) (hC : SelectsInStack c s e s')
    (h : selectionStep c s e = some s') : AnswersRight c s e s' := by
  rintro t m command k ks rfl hstacks
  obtain ⟨a, rest, -, -, rfl⟩ := select_step h
  have hn := (hs.pos t k (by rw [hstacks]; exact List.mem_cons_self)).2
  have haddr := hC.select t m command k ks rfl hstacks
  exact ⟨(ljGetStackFrame_eq hn).mpr haddr, frame_of_addressable hn haddr s.depth⟩

/-- A step that does not meet the condition gives a wrong answer, or a stop without a selected frame. -/
theorem not_selected_of_not_selectsAndHandles (hs : StacksInv s) (hC : ¬ SelectsAndHandles c s e s')
    (h : selectionStep c s e = some s') (hans : AnswersRight c s e s') : ¬ Selected s' := by
  intro hsel
  refine hC ⟨⟨?_, ?_⟩, fun n hn => ?_⟩
  · rintro t m command k ks rfl hstacks
    have hn := (hs.pos t k (by rw [hstacks]; exact List.mem_cons_self)).2
    exact (ljGetStackFrame_eq hn).mp (hans t m command k ks rfl hstacks).1
  · rintro m command rfl hfound
    obtain rfl := cmdSelect_step h
    obtain ⟨i, hi⟩ := Option.isSome_iff_exists.mp hfound
    have hfits : Fits s (frame c m s.depth (command.num s.depth)) := hsel
    unfold frame at hfits
    rw [hi] at hfits
    exact hfits
  · cases hn with
    | start t i k ks hstacks =>
      have hdepth : s'.depth = s.depth := (session_step h).2.2.1
      rcases session_stacks h t with ⟨hne, -⟩ | ⟨-, -, j, a, hl, -⟩ | ⟨hl, -⟩ |
        ⟨op, a, rest, pc, u, hl, -, hmove, hv, hf⟩
      · exact absurd rfl (hne _)
      · simp at hl
      · cases hl
      · cases hl
        generalize a.pc = apc at hmove
        cases hmove with
        | handleEvents w hw => exact hdepth ▸ hsel t _ rest k ks hv rfl (hf.trans hstacks)
    | goOn t i a b rest j k ks hacts hpc hstacks =>
      have hdepth : s'.depth = s.depth := (session_step h).2.2.1
      rcases session_stacks h t with ⟨hne, -⟩ | ⟨-, -, l, d, hl, -⟩ | ⟨-, hv, hf⟩ |
        ⟨op, d, below, pc, u, hl, -, hmove, -, -⟩
      · exact absurd rfl (hne _)
      · simp at hl
      · rw [hacts, List.tail_cons] at hv
        rw [hstacks, List.tail_cons] at hf
        exact hdepth ▸ hsel t b rest k ks hv hpc hf
      · cases hl
        generalize d.pc = dpc at hmove
        cases hmove

/-- A stack on which events are handled is not empty. -/
theorem HandlesEvents.pos {n : ℕ} (hs : StacksInv s) (h : HandlesEvents s e n) : 0 < n := by
  cases h with
  | start t i k ks hstacks => exact (hs.pos t k (by rw [hstacks]; exact List.mem_cons_self)).1
  | goOn t i a b rest j k ks hacts hpc hstacks =>
    exact (hs.pos t k (by rw [hstacks]; exact List.mem_cons_of_mem _ List.mem_cons_self)).1

/-- The condition in terms of what was selected before each step. -/
theorem eachStep_selectsAndHandles_iff (es : List (SelectionLabel Tid)) :
    EachStep (selectionStep c) (SelectsAndHandles c) (Selection.init : Selection Tid) es ↔ StacksReach c es := by
  rw [eachStep_iff]
  constructor
  · intro hall
    refine ⟨eachStep_iff.mpr fun pre e hpre t s' ht h => (hall pre e hpre t s' ht h).selects, ?_⟩
    intro pre e hpre s s' hs h n hn num hlast
    rw [← hlast.depth_eq hs]
    exact (hall pre e hpre s s' hs h).handles n hn
  · intro hreach pre e hpre s s' hs h
    refine ⟨eachStep_iff.mp hreach.selects pre e hpre s s' hs h, fun n hn => ?_⟩
    rcases depth_eq_latest hs with hone | hlast
    · have hinv := run_inv (fun _ e _ hs h => stacksInv_step (c := c) e hs h) pre Selection.init s stacksInv_init hs
      have hpos := hn.pos hinv
      omega
    · exact hreach.handles pre e hpre s s' hs h n hn _ hlast

/-- **The selected frame exists** in every stop that handles events, and `frame` finds the frames of the stack and no
others, along a run exactly when the commands of the run select in their stacks and no stop handles events on a stack
without the frame number selected last. -/
theorem selectedFrame_iff (c : IntegerCast) (es : List (SelectionLabel Tid)) :
    Always (selectionStep c) Selected (Selection.init : Selection Tid) es ∧
        EachStep (selectionStep c) (AnswersRight c) Selection.init es ↔ StacksReach c es := by
  rw [← eachStep_selectsAndHandles_iff]
  exact always_and_eachStep_iff (I := fun s => StacksInv s ∧ Selected s)
    (fun _ e _ hs hC h => ⟨stacksInv_step e hs.1 h, hs.2.step hs.1 hC h⟩) (fun _ hs => hs.2)
    (fun _ _ _ hs hC h => hC.selects.answersRight hs.1 h)
    (fun _ _ _ hs hC h hans => not_selected_of_not_selectsAndHandles hs.1 hC h hans) es Selection.init
    ⟨stacksInv_init, fun _ _ _ _ _ hacts => by cases hacts⟩

/-- A stop at a method exit of a thread with two frames; its command calls `frame(0)`. -/
def frameZeroLabels : List (SelectionLabel Bool) :=
  (stopLabels true ++ typeCommand ++ [Label.thread true .pop]).map (.session · 2) ++ [.select true 2 (.frame 0)]

/-- `frame(0)` selects the oldest frame. -/
theorem frame_zero_not_selected :
    ¬ (Always (selectionStep .x86) Selected (Selection.init : Selection Bool) frameZeroLabels ∧
        EachStep (selectionStep .x86) (AnswersRight .x86) (Selection.init : Selection Bool) frameZeroLabels) := by
  rintro ⟨hA, -⟩
  have hrun : run (selectionStep .x86) (Selection.init : Selection Bool) frameZeroLabels = some _ := rfl
  refine not_always_of_run hrun (fun hsel => ?_) hA
  exact absurd (hsel true _ _ ⟨2, false⟩ [] rfl rfl rfl).1 (by decide)

end Runs

end YellowTree
