import Mathlib.Data.List.InsertIdx
import YellowTree.Bridge.MethodId
import YellowTree.Lib.ListSplit
import YellowTree.Lib.Transition

/-!
# YellowTree.Debugger.Breakpoints — `bp`, `bc` and the dispatch of breakpoint events

`bp` and `bc` keep the list `breakpoints` in step with the breakpoints set in JVMTI (`Registered`).  When JVMTI
reports one of them, `cb_breakpoint` looks for its entry with `jmethod_id.__eq`, which compares the name of the class
the user named with that of the declaring class and does not look at the location; the last entry found is taken.

* `registered_run`: after every sequence of commands the pairs set in JVMTI are those of the entries, once each.
* `breakpoints_agree`: so they are after each command, whatever JVMTI answers and however the commands end.
* `dispatched_iff`: an event reaches its own entry exactly when the entry was made through the declaring class, or one
  of its name, and no later entry is for an equal method.
-/

namespace YellowTree

open Transition ListSplit

variable {Class Method Handler : Type}

/-! ## The embedding -/

section Embedding

/-- A line number given to `bp`: a number, or a value of another type.  `less` is what its comparison with the number
of a line gives and `concat` what it becomes in a text; both are errors where neither the type nor a metamethod has
them. -/
inductive LineNum where
  | number (n : LuaNumber)
  | other (less : ℕ → Except LuaError Bool) (concat : Except LuaError LuaString)

instance (n : ℕ) : OfNat LineNum n := ⟨.number (.finite n)⟩

/-- An entry of `breakpoints`. -/
structure Breakpoint (Class Method Handler : Type) where
  lineNum : LineNum
  methodId : JmethodId Class Method
  location : ℕ
  handler : Option Handler

/-- The raw method id and the location that `lj_set_breakpoint` is given. -/
def Breakpoint.pair (b : Breakpoint Class Method Handler) : Method × ℕ := (b.methodId.methodIdRaw, b.location)

/-- `breakpoints`, and the breakpoints set in JVMTI. -/
structure BpState (Class Method Handler : Type) where
  breakpoints : List (Breakpoint Class Method Handler)
  jvmti : List (Method × ℕ)

def BpState.init : BpState Class Method Handler := ⟨[], []⟩

/-- The loop over the line number table; `prev` is the location of the entry before. -/
def lineLoop (lineNum : LuaNumber) : Option ℕ → List LineEntry → Option ℕ
  | prev, [] => prev
  | prev, ln :: lnt =>
    if lineNum.equals ln.lineNum then some ln.location
    else if lineNum.less ln.lineNum then some (prev.getD 0)
    else lineLoop lineNum (some ln.location) lnt

def methodLocationForLineNum (m : MethodInfo) (lineNum : LuaNumber) : Except LuaError ℤ :=
  match m.lineTable with
  | none => .ok (-1)
  | some lnt =>
    match lineLoop lineNum none lnt with
    | some location => .ok location
    | none => .error (.message "attempt to index a nil value")

/-- The loop for a value that is no number: it equals no line. -/
def lineLoopOther (less : ℕ → Except LuaError Bool) : Option ℕ → List LineEntry → Except LuaError (Option ℕ)
  | prev, [] => .ok prev
  | prev, ln :: lnt =>
    match less ln.lineNum with
    | .error e => .error e
    | .ok true => .ok (some (prev.getD 0))
    | .ok false => lineLoopOther less (some ln.location) lnt

def methodLocationForLine (m : MethodInfo) : LineNum → Except LuaError ℤ
  | .number lineNum => methodLocationForLineNum m lineNum
  | .other less _ =>
    match m.lineTable with
    | none => .ok (-1)
    | some lnt =>
      match lineLoopOther less none lnt with
      | .error e => .error e
      | .ok (some location) => .ok location
      | .ok none => .error (.message "attempt to index a nil value")

section Commands

variable (jvm : Jvm Class Method) (valid : Method → ℕ → Bool) [DecidableEq Method]

/-- `lj_set_breakpoint`; `valid` tells which locations JVMTI accepts. -/
def ljSetBreakpoint (set : List (Method × ℕ)) (raw : Method) (location : ℕ) : Except LuaError (List (Method × ℕ)) :=
  if valid raw location = false then .error (.jvmti "JVMTI_ERROR_INVALID_LOCATION")
  else if (raw, location) ∈ set then .error (.jvmti "JVMTI_ERROR_DUPLICATE")
  else .ok ((raw, location) :: set)

/-- `lj_clear_breakpoint`; `clears` tells for which breakpoints JVMTI does not fail otherwise. -/
def ljClearBreakpoint (clears : Method → ℕ → Bool) (set : List (Method × ℕ)) (raw : Method) (location : ℕ) :
    Except LuaError (List (Method × ℕ)) :=
  if clears raw location = false then .error (.jvmti "JVMTI_ERROR_INVALID_METHODID")
  else if (raw, location) ∈ set then .ok (set.filter (· ≠ (raw, location)))
  else .error (.jvmti "JVMTI_ERROR_NOT_FOUND")

/-- `bp` once the method id is known; the state is the old one when the breakpoint already exists. -/
def bpMethodId (s : BpState Class Method Handler) (m : JmethodId Class Method) (lineNum : Option LineNum) :
    Except LuaError (BpState Class Method Handler) :=
  let lineNum := lineNum.getD 0
  match methodLocationForLine (m.info jvm) lineNum with
  | .error e => .error e
  | .ok location =>
    let location := location.toNat
    if s.breakpoints.any (fun b => b.methodId.eq jvm m && b.location == location) then .ok s
    else
      match ljSetBreakpoint valid s.jvmti m.methodIdRaw location with
      | .error e => .error e
      | .ok set => .ok ⟨s.breakpoints ++ [⟨lineNum, m, location, none⟩], set⟩

/-- What `bp` accepts as a method. -/
inductive BpMethod (Class Method : Type) where
  | string (completeMethodSig : LuaString)
  | methodId (m : JmethodId Class Method)
  | callable (possibleMethods : List (JmethodId Class Method))
  | other

/-- `bp` on the possible methods of a `jcallable_method`, without a line.  An error stops the loop and leaves the
breakpoints set so far. -/
def bpCallable : BpState Class Method Handler → List (JmethodId Class Method) →
    BpState Class Method Handler × Option LuaError
  | s, [] => (s, none)
  | s, m :: ms =>
    match bpMethodId jvm valid s m none with
    | .error e => (s, some e)
    | .ok s' => bpCallable s' ms

def bp (s : BpState Class Method Handler) (method : BpMethod Class Method) (lineNum : Option LineNum) :
    BpState Class Method Handler × Option LuaError :=
  let one m := match bpMethodId jvm valid s m lineNum with
    | .error e => (s, some e)
    | .ok s' => (s', none)
  match method with
  | .string sig =>
    match JmethodId.find jvm sig with
    | .error e => (s, some e)
    | .ok none => (s, some (.message "Cannot find method to set breakpoint"))
    | .ok (some m) => one m
  | .methodId m => one m
  | .callable ms => bpCallable jvm valid s ms
  | .other => (s, some (.message
      "Invalid method, must be method declaration of form \"pkg/Class.name()V\" or a jmethod_id object"))

/-- `b.__tostring`: the text of the method, and the number or the text that stands for the line behind it. -/
def Breakpoint.tostring (b : Breakpoint Class Method Handler) :
    Except LuaError (LuaString × (LuaNumber ⊕ LuaString)) :=
  let disp := jvm.className b.methodId.cls ++ '.' :: (b.methodId.info jvm).name ++ (b.methodId.info jvm).sig
  match b.lineNum with
  | .number n => .ok (disp, .inl n)
  | .other _ concat => concat.map fun text => (disp, .inr text)

/-- `bc(num)`; an unknown number changes nothing. -/
def bcNum (clears : Method → ℕ → Bool) (s : BpState Class Method Handler) (num : LuaNumber) :
    Except LuaError (BpState Class Method Handler) :=
  match num.index? with
  | none => .ok s
  | some i =>
    match s.breakpoints[i]? with
    | none => .ok s
    | some b =>
      match b.tostring jvm with
      | .error e => .error e
      | .ok _ =>
        match ljClearBreakpoint clears s.jvmti b.methodId.methodIdRaw b.location with
        | .error e => .error e
        | .ok set => .ok ⟨s.breakpoints.eraseIdx i, set⟩

/-- `for i = 1, #breakpoints do bc(1) end`; an error stops the loop. -/
def bcAll (clears : Method → ℕ → Bool) :
    ℕ → BpState Class Method Handler → BpState Class Method Handler × Option LuaError
  | 0, s => (s, none)
  | n + 1, s =>
    match bcNum jvm clears s 1 with
    | .error e => (s, some e)
    | .ok s' => bcAll clears n s'

/-- A command; `setHandler` is an assignment to the field `handler` of an entry.  A missing argument may be `nil` or
`false`; `bc` takes any other value that is no number for an unknown one, like NaN. -/
inductive BpCommand (Class Method Handler : Type) where
  | bp (method : BpMethod Class Method) (lineNum : Option LineNum)
  | bc (num : Option LuaNumber)
  | setHandler (num : ℕ) (handler : Option Handler)

/-- The state after a command, and the error it ends with, if any. -/
def bpExec (clears : Method → ℕ → Bool) (s : BpState Class Method Handler) : BpCommand Class Method Handler →
    BpState Class Method Handler × Option LuaError
  | .bp method lineNum => bp jvm valid s method lineNum
  | .bc none => bcAll jvm clears s.breakpoints.length s
  | .bc (some num) =>
    match bcNum jvm clears s num with
    | .error e => (s, some e)
    | .ok s' => (s', none)
  | .setHandler num h => ({ s with breakpoints := s.breakpoints.modify (num - 1) ({ · with handler := h }) }, none)

/-- JVMTI accepts the same breakpoints at every command, and clears each that is set. -/
def bpStep (s : BpState Class Method Handler) (c : BpCommand Class Method Handler) :
    Option (BpState Class Method Handler) := some (bpExec jvm valid (fun _ _ => true) s c).1

/-- A command and how JVMTI answers it: while it runs, SetBreakpoint fails on the pairs outside `sets` and on those
that are set, ClearBreakpoint on the pairs outside `clears` and on those that are not set. -/
structure BpCall (Class Method Handler : Type) where
  command : BpCommand Class Method Handler
  sets : Method → ℕ → Bool
  clears : Method → ℕ → Bool

def bpCallStep (s : BpState Class Method Handler) (c : BpCall Class Method Handler) :
    Option (BpState Class Method Handler) := some (bpExec jvm c.sets c.clears s c.command).1

end Commands

/-- The part of `cb_breakpoint` that looks for the entry whose handler it then runs.  The location is not used. -/
def cbBreakpoint (jvm : Jvm Class Method) (breakpoints : List (Breakpoint Class Method Handler))
    (methodIdRaw : Method) (_location : ℕ) : Except LuaError (Breakpoint Class Method Handler) :=
  let methodId := JmethodId.fromRaw jvm methodIdRaw
  match breakpoints.foldl (fun bp v => if v.methodId.eq jvm methodId then some v else bp) none with
  | none => .error (.message "assertion failed!")
  | some bp => .ok bp

end Embedding

/-! ## The breakpoints set in JVMTI -/

section Registered

variable {jvm : Jvm Class Method} {valid : Method → ℕ → Bool}

/-- The breakpoints set in JVMTI are those of the entries, and no two entries are for the same one. -/
structure Registered (s : BpState Class Method Handler) : Prop where
  mem_iff : ∀ p, p ∈ s.jvmti ↔ p ∈ s.breakpoints.map Breakpoint.pair
  nodup : (s.breakpoints.map Breakpoint.pair).Nodup

theorem registered_init : Registered (BpState.init : BpState Class Method Handler) :=
  ⟨fun p => by simp [BpState.init], by simp [BpState.init]⟩

theorem Registered.insert {s : BpState Class Method Handler} (hs : Registered s)
    {b : Breakpoint Class Method Handler} (hb : b.pair ∉ s.jvmti) :
    Registered ⟨s.breakpoints ++ [b], b.pair :: s.jvmti⟩ := by
  constructor
  · intro p
    rw [List.mem_cons, List.map_append, List.mem_append, hs.mem_iff p, List.map_singleton, List.mem_singleton]
    exact or_comm
  · rw [List.map_append, List.nodup_append]
    refine ⟨hs.nodup, by simp, fun p hp q hq => ?_⟩
    simp only [List.map_cons, List.map_nil, List.mem_singleton] at hq
    rintro rfl
    exact hb (hq ▸ (hs.mem_iff p).mpr hp)

theorem Registered.setHandler {s : BpState Class Method Handler} (hs : Registered s) (i : ℕ)
    (h : Option Handler) :
    Registered { s with breakpoints := s.breakpoints.modify i ({ · with handler := h }) } := by
  have hpairs : (s.breakpoints.modify i ({ · with handler := h })).map Breakpoint.pair =
      s.breakpoints.map Breakpoint.pair := by
    apply List.ext_getElem?
    intro j
    rw [List.getElem?_map, List.getElem?_map, List.getElem?_modify]
    split_ifs
    · cases s.breakpoints[j]? <;> rfl
    · cases s.breakpoints[j]? <;> rfl
  exact ⟨fun p => by rw [hpairs]; exact hs.mem_iff p, by rw [hpairs]; exact hs.nodup⟩

variable [DecidableEq Method]

/-- What a successful `ljSetBreakpoint` does. -/
theorem ljSetBreakpoint_ok {set set' : List (Method × ℕ)} {raw : Method} {location : ℕ}
    (h : ljSetBreakpoint valid set raw location = .ok set') :
    (raw, location) ∉ set ∧ set' = (raw, location) :: set := by
  unfold ljSetBreakpoint at h
  split_ifs at h with hv hm
  exact ⟨hm, (Except.ok.inj h).symm⟩

theorem bpMethodId_cases {s s' : BpState Class Method Handler} {m : JmethodId Class Method} {lineNum : Option LineNum}
    (h : bpMethodId jvm valid s m lineNum = .ok s') :
    s' = s ∨ ∃ b : Breakpoint Class Method Handler, b.methodId = m ∧ b.pair ∉ s.jvmti ∧
      s' = ⟨s.breakpoints ++ [b], b.pair :: s.jvmti⟩ := by
  simp only [bpMethodId] at h
  cases hloc : methodLocationForLine (m.info jvm) (lineNum.getD 0) with
  | error e => rw [hloc] at h; cases h
  | ok location =>
    rw [hloc] at h
    dsimp only at h
    split_ifs at h with hex
    · exact Or.inl (Except.ok.inj h).symm
    · cases hset : ljSetBreakpoint valid s.jvmti m.methodIdRaw location.toNat with
      | error e => rw [hset] at h; cases h
      | ok set =>
        rw [hset] at h
        obtain ⟨hmem, rfl⟩ := ljSetBreakpoint_ok hset
        exact Or.inr ⟨⟨lineNum.getD 0, m, location.toNat, none⟩, rfl, hmem, (Except.ok.inj h).symm⟩

theorem Registered.bpMethodId {s s' : BpState Class Method Handler} (hs : Registered s)
    {m : JmethodId Class Method} {lineNum : Option LineNum} (h : bpMethodId jvm valid s m lineNum = .ok s') :
    Registered s' := by
  rcases bpMethodId_cases h with rfl | ⟨b, -, hb, rfl⟩
  · exact hs
  · exact hs.insert hb

theorem Registered.bpCallable {ms : List (JmethodId Class Method)} : ∀ {s : BpState Class Method Handler},
    Registered s → Registered (bpCallable jvm valid s ms).1 := by
  induction ms with
  | nil => exact fun hs => hs
  | cons m ms ih =>
    intro s hs
    unfold YellowTree.bpCallable
    cases hm : YellowTree.bpMethodId jvm valid s m none with
    | error e => exact hs
    | ok s' => exact ih (hs.bpMethodId hm)

/-- What a successful `ljClearBreakpoint` does. -/
theorem ljClearBreakpoint_ok {clears : Method → ℕ → Bool} {set set' : List (Method × ℕ)} {raw : Method}
    {location : ℕ} (h : ljClearBreakpoint clears set raw location = .ok set') :
    set' = set.filter (· ≠ (raw, location)) := by
  unfold ljClearBreakpoint at h
  split_ifs at h with hc hm
  exact (Except.ok.inj h).symm

/-- An entry taken away together with its breakpoint. -/
theorem Registered.erase {s : BpState Class Method Handler} (hs : Registered s) {i : ℕ}
    {b : Breakpoint Class Method Handler} (hb : s.breakpoints[i]? = some b) :
    Registered ⟨s.breakpoints.eraseIdx i, s.jvmti.filter (· ≠ b.pair)⟩ := by
  obtain ⟨hlt, hget⟩ := List.getElem?_eq_some_iff.mp hb
  have hpairs : (s.breakpoints.eraseIdx i).map Breakpoint.pair = (s.breakpoints.map Breakpoint.pair).erase b.pair := by
    have hlt' : i < (s.breakpoints.map Breakpoint.pair).length := by simpa using hlt
    have hidx : (s.breakpoints.map Breakpoint.pair)[i] = b.pair := by rw [List.getElem_map, hget]
    rw [← hidx, List.Nodup.erase_getElem hs.nodup, List.eraseIdx_map]
  constructor
  · intro p
    rw [hpairs, hs.nodup.mem_erase_iff, List.mem_filter, hs.mem_iff]
    simp [and_comm]
  · rw [hpairs]
    exact hs.nodup.erase _

/-- `bc(num)` takes an entry and its breakpoint away, or leaves both. -/
theorem Registered.bcNum {clears : Method → ℕ → Bool} {s s' : BpState Class Method Handler} (hs : Registered s)
    {num : LuaNumber} (h : bcNum jvm clears s num = .ok s') : Registered s' := by
  unfold YellowTree.bcNum at h
  cases hi : num.index? with
  | none => rw [hi] at h; exact Except.ok.inj h ▸ hs
  | some i =>
    rw [hi] at h
    dsimp only at h
    cases hb : s.breakpoints[i]? with
    | none => rw [hb] at h; exact Except.ok.inj h ▸ hs
    | some b =>
      rw [hb] at h
      dsimp only at h
      cases hdesc : b.tostring jvm with
      | error e => rw [hdesc] at h; cases h
      | ok desc =>
        rw [hdesc] at h
        dsimp only at h
        cases hclear : ljClearBreakpoint clears s.jvmti b.methodId.methodIdRaw b.location with
        | error e => rw [hclear] at h; cases h
        | ok set =>
          rw [hclear] at h
          obtain rfl := Except.ok.inj h
          obtain rfl := ljClearBreakpoint_ok hclear
          exact hs.erase hb

theorem Registered.bcAll {clears : Method → ℕ → Bool} : ∀ {n : ℕ} {s : BpState Class Method Handler},
    Registered s → Registered (bcAll jvm clears n s).1
  | 0, _, hs => hs
  | n + 1, s, hs => by
    unfold YellowTree.bcAll
    cases h : YellowTree.bcNum jvm clears s 1 with
    | error e => exact hs
    | ok s' => exact (hs.bcNum h).bcAll

theorem Registered.bp {s : BpState Class Method Handler} (hs : Registered s) {method : BpMethod Class Method}
    {lineNum : Option LineNum} : Registered (bp jvm valid s method lineNum).1 := by
  have hone : ∀ m : JmethodId Class Method, Registered (match YellowTree.bpMethodId jvm valid s m lineNum with
      | .error e => (s, some e)
      | .ok s' => (s', none)).1 := by
    intro m
    cases h : YellowTree.bpMethodId jvm valid s m lineNum with
    | error e => exact hs
    | ok s' => exact hs.bpMethodId h
  cases method with
  | string sig =>
    rw [YellowTree.bp]
    rcases hfind : JmethodId.find jvm sig with e | _ | m
    · exact hs
    · exact hs
    · exact hone m
  | methodId m => exact hone m
  | callable ms => exact hs.bpCallable
  | other => exact hs

/-- Every command keeps list and JVMTI in step, on its failing paths too. -/
theorem Registered.bpExec {s : BpState Class Method Handler} (hs : Registered s) (clears : Method → ℕ → Bool)
    (c : BpCommand Class Method Handler) : Registered (bpExec jvm valid clears s c).1 := by
  cases c with
  | bp method lineNum => exact hs.bp
  | bc num =>
    cases num with
    | none => exact hs.bcAll
    | some num =>
      rw [YellowTree.bpExec]
      cases hnum : YellowTree.bcNum jvm clears s num with
      | error e => exact hs
      | ok s' => exact hs.bcNum hnum
  | setHandler num handler => exact hs.setHandler _ handler

theorem registered_step (s : BpState Class Method Handler) (c : BpCommand Class Method Handler)
    (s' : BpState Class Method Handler) (hs : Registered s) (h : bpStep jvm valid s c = some s') :
    Registered s' :=
  Option.some.inj h ▸ hs.bpExec (fun _ _ => true) c

/-- After every sequence of commands, JVMTI has the breakpoints of the entries. -/
theorem registered_run {cmds : List (BpCommand Class Method Handler)} {s : BpState Class Method Handler}
    (h : run (bpStep jvm valid) BpState.init cmds = some s) : Registered s :=
  run_inv registered_step cmds BpState.init s registered_init h

/-- **The list and JVMTI agree** after each command of every sequence, whatever JVMTI answers: the pairs set are those
of the entries, and no pair occurs twice. -/
theorem breakpoints_agree (jvm : Jvm Class Method) (calls : List (BpCall Class Method Handler)) :
    Always (bpCallStep jvm) (fun s => (∀ p, p ∈ s.jvmti ↔ p ∈ s.breakpoints.map Breakpoint.pair) ∧
      (s.breakpoints.map Breakpoint.pair).Nodup) BpState.init calls := by
  have hstep : ∀ (s : BpState Class Method Handler) (c : BpCall Class Method Handler)
      (s' : BpState Class Method Handler), Registered s → bpCallStep jvm s c = some s' → Registered s' :=
    fun s c s' hs h => Option.some.inj h ▸ hs.bpExec c.clears c.command
  rw [always_iff]
  intro pre _ s hrun
  have hs := run_inv hstep pre BpState.init s registered_init hrun
  exact ⟨hs.mem_iff, hs.nodup⟩

end Registered

/-! ## The entry an event reaches -/

section Dispatch

variable {jvm : Jvm Class Method}

/-- The entry that `cb_breakpoint` finds. -/
theorem cbBreakpoint_eq_ok {bps : List (Breakpoint Class Method Handler)} {raw : Method} {location : ℕ}
    {b : Breakpoint Class Method Handler} :
    cbBreakpoint jvm bps raw location = .ok b ↔
      ∃ pre post, bps = pre ++ b :: post ∧ b.methodId.eq jvm (.fromRaw jvm raw) = true ∧
        ∀ b' ∈ post, b'.methodId.eq jvm (.fromRaw jvm raw) = false := by
  have hlast : bps.foldl (fun bp v => if v.methodId.eq jvm (.fromRaw jvm raw) then some v else bp) none = some b ↔ _ :=
    foldl_last_eq_some
  simp only [cbBreakpoint]
  rw [← hlast]
  cases bps.foldl (fun bp v => if v.methodId.eq jvm (.fromRaw jvm raw) then some v else bp) none with
  | none => simp
  | some bp => simp

/-- A method id equals the one rebuilt from its raw method id when the names of the two classes agree. -/
theorem eq_fromRaw_iff {m : JmethodId Class Method} :
    m.eq jvm (.fromRaw jvm m.methodIdRaw) = true ↔
      jvm.className m.cls = jvm.className (jvm.declaringClass m.methodIdRaw) := by
  rw [JmethodId.eq_iff, JmethodId.key, JmethodId.key]
  simp [JmethodId.fromRaw, JmethodId.info]

/-- The event reaches an entry for its own method and location. -/
def Dispatched (jvm : Jvm Class Method) (s : BpState Class Method Handler) (raw : Method) (location : ℕ) : Prop :=
  ∃ b ∈ s.breakpoints, b.pair = (raw, location) ∧ cbBreakpoint jvm s.breakpoints raw location = .ok b

/-- Every entry for this method and location has a class of the name of the declaring class, and no entry after it
is for an equal method. -/
def LastOfMethod (jvm : Jvm Class Method) (s : BpState Class Method Handler) (raw : Method) (location : ℕ) : Prop :=
  ∀ pre b post, s.breakpoints = pre ++ b :: post → b.pair = (raw, location) →
    jvm.className b.methodId.cls = jvm.className (jvm.declaringClass raw) ∧
      ∀ b' ∈ post, b'.methodId.eq jvm b.methodId = false

variable [DecidableEq Method] {valid : Method → ℕ → Bool}

/-- **Dispatch** of a breakpoint event, after any sequence of commands. -/
theorem dispatched_iff (jvm : Jvm Class Method) (valid : Method → ℕ → Bool)
    (cmds : List (BpCommand Class Method Handler)) (s : BpState Class Method Handler)
    (hrun : run (bpStep jvm valid) BpState.init cmds = some s) (raw : Method) (location : ℕ)
    (hset : (raw, location) ∈ s.jvmti) :
    Dispatched jvm s raw location ↔ LastOfMethod jvm s raw location := by
  have hs := registered_run hrun
  -- equality with the rebuilt method id is equality with the method id of the entry, when that is itself equal to it
  have htrans : ∀ m b : JmethodId Class Method, b.eq jvm (.fromRaw jvm raw) = true →
      m.eq jvm (.fromRaw jvm raw) = m.eq jvm b := by
    intro m b hb
    have hkey := (JmethodId.eq_iff jvm).mp hb
    rw [Bool.eq_iff_iff, JmethodId.eq_iff, JmethodId.eq_iff, hkey]
  constructor
  · rintro ⟨b, -, hb, hfound⟩ pre b' post hsplit hb'
    obtain ⟨pre', post', hsplit', heq, hlast⟩ := cbBreakpoint_eq_ok.mp hfound
    -- the entry found is the only one for the pair
    obtain ⟨-, rfl, rfl⟩ := split_unique (hsplit'.symm.trans hsplit) (hsplit' ▸ hs.nodup) (hb.trans hb'.symm)
    have hraw : b.methodId.methodIdRaw = raw := congrArg Prod.fst hb
    constructor
    · subst hraw
      exact eq_fromRaw_iff.mp heq
    · intro b'' hmem
      rw [← htrans _ _ heq]
      exact hlast b'' hmem
  · intro hlast
    obtain ⟨b, hmem, hb⟩ := List.mem_map.mp ((hs.mem_iff _).mp hset)
    have hraw : b.methodId.methodIdRaw = raw := congrArg Prod.fst hb
    obtain ⟨pre, post, hsplit⟩ := List.append_of_mem hmem
    obtain ⟨hcls, hpost⟩ := hlast pre b post hsplit hb
    have heq : b.methodId.eq jvm (.fromRaw jvm raw) = true := by
      subst hraw
      exact eq_fromRaw_iff.mpr hcls
    refine ⟨b, hmem, hb, cbBreakpoint_eq_ok.mpr ⟨pre, post, hsplit, heq, fun b' hb' => ?_⟩⟩
    rw [htrans _ _ heq]
    exact hpost b' hb'

/-- The state after `bp("Main.run()V", 10)` and `bp("Main.run()V", 11)`. -/
def twoLines : BpState Unit Unit Unit where
  breakpoints := [⟨10, ⟨(), ()⟩, 0, none⟩, ⟨11, ⟨(), ()⟩, 5, none⟩]
  jvmti := [((), 5), ((), 0)]

/-- The event of the first line reaches the entry of the second. -/
theorem twoLines_not_dispatched :
    run (bpStep mainJvm fun _ _ => true) BpState.init
        [.bp (.string "Main.run()V".toList) (some 10), .bp (.string "Main.run()V".toList) (some 11)] = some twoLines ∧
      ((), 0) ∈ twoLines.jvmti ∧ ¬ Dispatched mainJvm twoLines () 0 := by
  refine ⟨rfl, by decide, ?_⟩
  rintro ⟨b, -, hb, hfound⟩
  obtain rfl : ⟨11, ⟨(), ()⟩, 5, none⟩ = b := Except.ok.inj hfound
  exact absurd hb (by decide)

/-- The event of the second line reaches its own. -/
theorem twoLines_dispatched : Dispatched mainJvm twoLines () 5 := by
  refine (dispatched_iff mainJvm (fun _ _ => true)
    [.bp (.string "Main.run()V".toList) (some 10), .bp (.string "Main.run()V".toList) (some 11)] twoLines rfl () 5
    (by decide)).mpr fun pre b post hsplit hb => ⟨rfl, ?_⟩
  have hsplit' : [⟨10, ⟨(), ()⟩, 0, none⟩] ++ ⟨11, ⟨(), ()⟩, 5, none⟩ :: [] = pre ++ b :: post := hsplit
  obtain ⟨-, -, rfl⟩ := split_unique (f := Breakpoint.pair) hsplit' (by decide) hb.symm
  simp

end Dispatch

end YellowTree
