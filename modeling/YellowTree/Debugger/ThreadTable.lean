import YellowTree.Lib.Transition
import YellowTree.Lua.Value
import Mathlib.Logic.Function.Basic

/-!
# YellowTree.Debugger.ThreadTable — `current_thread` and the table `threads`

`current_thread` makes a jthread for the calling thread, looks for an entry of `threads` under the thread's name, and
returns the entry or enters the new jthread.  It asks Java for the name each time it needs it, and a name can change
in between.  A state holds the names, the table, the calls in progress of each thread (a breakpoint in one of the Java
calls can lead to another call, so they nest) and what each thread has obtained so far; a step is one reading of a
name, one access to the table, or the return.

* `OwnTable`: the table has at most the entry of each thread's own name, and what a call knows about it is so.
* `identified_of_own_names`: `current_thread` identifies the threads along every run in which each of them reads a name
  of its own, always the same, and none calls it anew between finding no entry and making one.
-/

namespace YellowTree

open Transition

variable {Tid : Type}

/-! ## The table -/

section Table

/-- A jthread: which Lua table it is, and the Java thread that it wraps.  Its event queue and its frames are its own. -/
structure Jthread (Tid : Type) where
  id : ℕ
  thread : Tid
  deriving DecidableEq

/-- How far a call has got: it has made its jthread; it has read the name and goes on to `if threads[thread.name]`; it
has found an entry, or none, and has read the name again; it has entered its jthread. -/
inductive CallPhase where
  | made
  | named (name : LuaString)
  | found
  | foundNamed (name : LuaString)
  | missing
  | missingNamed (name : LuaString)
  | entered
  deriving DecidableEq

namespace CallPhase

/-- `thread.name` comes next. -/
def readsName : CallPhase → Bool
  | .made | .found | .missing => true
  | _ => false

/-- A Java method runs, for the name or for the text of the new thread that is printed. -/
def runsJava (p : CallPhase) : Bool := p.readsName || p matches .entered

/-- The call has found no entry, and has made none. -/
def pending : CallPhase → Bool
  | .missing | .missingNamed _ => true
  | _ => false

end CallPhase

/-- A call of `current_thread` in progress. -/
structure ThreadCall (Tid : Type) where
  thread : Jthread Tid
  phase : CallPhase
  deriving DecidableEq

/-- The names of the threads, `threads`, the number of jthreads made, the calls of each thread in progress and what
the calls of each thread have returned (innermost and latest first). -/
structure ThreadTable (Tid : Type) where
  names : Tid → LuaString
  threads : LuaString → Option (Jthread Tid)
  made : ℕ
  calls : Tid → List (ThreadCall Tid)
  obtained : Tid → List (Option (Jthread Tid))

def ThreadTable.init (names : Tid → LuaString) : ThreadTable Tid := ⟨names, fun _ => none, 0, fun _ => [], fun _ => []⟩

/-- A thread gets a new name; it calls `current_thread`; its innermost call goes one operation further. -/
inductive ThreadLabel (Tid : Type) where
  | rename (t : Tid) (name : LuaString)
  | call (t : Tid)
  | advance (t : Tid)
  deriving DecidableEq

/-- `current_thread` can be called from Java code that one of its own calls runs. -/
def canCall : List (ThreadCall Tid) → Bool
  | [] => true
  | c :: _ => c.phase.runsJava

variable [DecidableEq Tid]

/-- `local thread = jclass.find("java/lang/Thread").currentThread()`. -/
def ThreadTable.newCall (s : ThreadTable Tid) (t : Tid) : ThreadTable Tid :=
  { s with made := s.made + 1, calls := Function.update s.calls t (⟨⟨s.made, t⟩, .made⟩ :: s.calls t) }

/-- The innermost call `c` of `t` has got to `phase`. -/
def ThreadTable.setPhase (s : ThreadTable Tid) (t : Tid) (c : ThreadCall Tid) (rest : List (ThreadCall Tid))
    (phase : CallPhase) : ThreadTable Tid :=
  { s with calls := Function.update s.calls t ({ c with phase := phase } :: rest) }

/-- The innermost call of `t` returns `j`; the calls `rest` are left. -/
def ThreadTable.returns (s : ThreadTable Tid) (t : Tid) (rest : List (ThreadCall Tid)) (j : Option (Jthread Tid)) :
    ThreadTable Tid :=
  { s with
    calls := Function.update s.calls t rest
    obtained := Function.update s.obtained t (j :: s.obtained t) }

/-- The innermost call `c` of `t` enters its jthread. -/
def ThreadTable.enter (s : ThreadTable Tid) (t : Tid) (c : ThreadCall Tid) (rest : List (ThreadCall Tid))
    (name : LuaString) : ThreadTable Tid :=
  { s with
    threads := Function.update s.threads name (some c.thread)
    calls := Function.update s.calls t ({ c with phase := .entered } :: rest) }

/-- The next operation of the innermost call. -/
def ThreadTable.advance (s : ThreadTable Tid) (t : Tid) (c : ThreadCall Tid) (rest : List (ThreadCall Tid)) :
    ThreadTable Tid :=
  match c.phase with
  -- if threads[thread.name] then
  | .made => s.setPhase t c rest (.named (s.names t))
  | .named name => s.setPhase t c rest (if (s.threads name).isSome then .found else .missing)
  -- return threads[thread.name]
  | .found => s.setPhase t c rest (.foundNamed (s.names t))
  | .foundNamed name => s.returns t rest (s.threads name)
  -- threads[thread.name] = thread
  | .missing => s.setPhase t c rest (.missingNamed (s.names t))
  | .missingNamed name => s.enter t c rest name
  -- return thread
  | .entered => s.returns t rest (some c.thread)

def currentThreadStep (s : ThreadTable Tid) : ThreadLabel Tid → Option (ThreadTable Tid)
  | .rename t name => some { s with names := Function.update s.names t name }
  | .call t => if canCall (s.calls t) then some (s.newCall t) else none
  | .advance t =>
    match s.calls t with
    | [] => none
    | c :: rest => some (s.advance t c rest)

/-- Every call returned a jthread that wraps its caller, the same one each time, and different ones to different
threads. -/
structure Identified (s : ThreadTable Tid) : Prop where
  wraps : ∀ t, ∀ j ∈ s.obtained t, j.map Jthread.thread = some t
  same : ∀ t, ∀ j ∈ s.obtained t, ∀ k ∈ s.obtained t, j = k
  different : ∀ t u, t ≠ u → ∀ j ∈ s.obtained t, ∀ k ∈ s.obtained u, j ≠ k

/-- When `current_thread` asks Java for the name of `t` it is `own t`, and no thread calls it during a call of its own
that has found no entry and has made none. -/
def KeepsNames (own : Tid → LuaString) (s : ThreadTable Tid) (e : ThreadLabel Tid) (_ : ThreadTable Tid) : Prop :=
  match e with
  | .rename _ _ => True
  | .call t => ∀ c rest, s.calls t = c :: rest → c.phase ≠ .missing
  | .advance t => ∀ c rest, s.calls t = c :: rest → c.phase.readsName = true → s.names t = own t

end Table

/-! ## Own names -/

section OwnNames

variable [DecidableEq Tid] {own : Tid → LuaString} {s s' : ThreadTable Tid} {t : Tid} {c : ThreadCall Tid}
  {rest : List (ThreadCall Tid)}

/-- What a call has read is the name `n` of its thread, and what it has found or entered is the entry at `n`. -/
def PhaseOk (n : LuaString) (entry : Option (Jthread Tid)) (c : ThreadCall Tid) : Prop :=
  match c.phase with
  | .made => True
  | .named name => name = n
  | .found => entry.isSome = true
  | .foundNamed name => name = n ∧ entry.isSome = true
  | .missing => entry = none
  | .missingNamed name => name = n ∧ entry = none
  | .entered => entry = some c.thread

/-- The entries of `threads` are at the own names of the threads they wrap; each thread obtains its entry; only the
innermost call of a thread can have found none. -/
structure OwnTable (own : Tid → LuaString) (s : ThreadTable Tid) : Prop where
  entry : ∀ n j, s.threads n = some j → n = own j.thread
  phase : ∀ t, ∀ c ∈ s.calls t, c.thread.thread = t ∧ PhaseOk (own t) (s.threads (own t)) c
  single : ∀ t, ∀ c ∈ (s.calls t).tail, c.phase.pending = false
  obtained : ∀ t, ∀ j ∈ s.obtained t, j = s.threads (own t) ∧ j.isSome = true

omit [DecidableEq Tid] in
theorem ownTable_init (own names : Tid → LuaString) : OwnTable own (ThreadTable.init names) where
  entry _ _ h := by cases h
  phase _ _ h := by cases h
  single _ _ h := by cases h
  obtained _ _ h := by cases h

omit [DecidableEq Tid] in
/-- Each thread obtains the entry at its own name. -/
theorem OwnTable.identified (hown : Function.Injective own) (hs : OwnTable own s) : Identified s := by
  have hwraps : ∀ t, ∀ j ∈ s.obtained t, j.map Jthread.thread = some t := by
    intro t j hj
    obtain ⟨hentry, hsome⟩ := hs.obtained t j hj
    obtain ⟨k, rfl⟩ := Option.isSome_iff_exists.mp hsome
    rw [Option.map_some, ← hown (hs.entry _ k hentry.symm)]
  refine ⟨hwraps, fun t j hj k hk => (hs.obtained t j hj).1.trans (hs.obtained t k hk).1.symm, ?_⟩
  intro t u htu j hj k hk hjk
  subst hjk
  exact htu (Option.some.inj ((hwraps t j hj).symm.trans (hwraps u j hk)))

/-- A thread calls `current_thread`. -/
theorem OwnTable.newCall (hs : OwnTable own s) (hcan : canCall (s.calls t) = true)
    (hmissing : ∀ c rest, s.calls t = c :: rest → c.phase ≠ .missing) : OwnTable own (s.newCall t) where
  entry := hs.entry
  phase := by
    refine (Function.forall_update_iff s.calls fun u calls =>
      ∀ c ∈ calls, c.thread.thread = u ∧ PhaseOk (own u) (s.threads (own u)) c).mpr
        ⟨List.forall_mem_cons.mpr ⟨⟨rfl, trivial⟩, hs.phase t⟩, fun u _ => hs.phase u⟩
  single := by
    refine (Function.forall_update_iff s.calls fun _ calls => ∀ c ∈ calls.tail, c.phase.pending = false).mpr
      ⟨?_, fun u _ => hs.single u⟩
    rw [List.tail_cons]
    cases hcalls : s.calls t with
    | nil => exact fun c hc => by cases hc
    | cons c rest =>
      rw [hcalls] at hcan
      refine List.forall_mem_cons.mpr ⟨?_, fun d hd => hs.single t d (by rw [hcalls]; exact hd)⟩
      have hc := hmissing c rest hcalls
      have hjava : c.phase.runsJava = true := hcan
      cases hphase : c.phase with
      | missing => exact absurd hphase hc
      | missingNamed name => rw [hphase] at hjava; cases hjava
      | _ => rfl
  obtained := hs.obtained

/-- The innermost call goes on, and the table stays. -/
theorem OwnTable.setPhase (hs : OwnTable own s) (hcalls : s.calls t = c :: rest) {phase : CallPhase}
    (hphase : PhaseOk (own t) (s.threads (own t)) { c with phase := phase }) :
    OwnTable own (s.setPhase t c rest phase) where
  entry := hs.entry
  phase := by
    have ht := hs.phase t
    rw [hcalls, List.forall_mem_cons] at ht
    exact (Function.forall_update_iff s.calls fun u calls =>
      ∀ c ∈ calls, c.thread.thread = u ∧ PhaseOk (own u) (s.threads (own u)) c).mpr
        ⟨List.forall_mem_cons.mpr ⟨⟨ht.1.1, hphase⟩, ht.2⟩, fun u _ => hs.phase u⟩
  single := by
    have ht := hs.single t
    rw [hcalls] at ht
    exact (Function.forall_update_iff s.calls fun _ calls => ∀ c ∈ calls.tail, c.phase.pending = false).mpr
      ⟨ht, fun u _ => hs.single u⟩
  obtained := hs.obtained

/-- The innermost call returns the entry at the own name. -/
theorem OwnTable.returns (hs : OwnTable own s) (hcalls : s.calls t = c :: rest) {j : Option (Jthread Tid)}
    (hj : j = s.threads (own t)) (hsome : j.isSome = true) : OwnTable own (s.returns t rest j) where
  entry := hs.entry
  phase := by
    have ht := hs.phase t
    rw [hcalls, List.forall_mem_cons] at ht
    exact (Function.forall_update_iff s.calls fun u calls =>
      ∀ c ∈ calls, c.thread.thread = u ∧ PhaseOk (own u) (s.threads (own u)) c).mpr ⟨ht.2, fun u _ => hs.phase u⟩
  single := by
    have ht := hs.single t
    rw [hcalls] at ht
    exact (Function.forall_update_iff s.calls fun _ calls => ∀ c ∈ calls.tail, c.phase.pending = false).mpr
      ⟨fun d hd => ht d (List.mem_of_mem_tail hd), fun u _ => hs.single u⟩
  obtained := (Function.forall_update_iff s.obtained fun u js => ∀ j ∈ js, j = s.threads (own u) ∧ j.isSome = true).mpr
    ⟨List.forall_mem_cons.mpr ⟨⟨hj, hsome⟩, hs.obtained t⟩, fun u _ => hs.obtained u⟩

omit [DecidableEq Tid] in
/-- A call around one that found no entry has neither found one nor made one. -/
theorem PhaseOk.enter {n : LuaString} {d : ThreadCall Tid} (h : PhaseOk n none d) (hd : d.phase.pending = false)
    (j : Option (Jthread Tid)) : PhaseOk n j d := by
  rcases d with ⟨k, phase⟩
  cases phase with
  | made => exact trivial
  | named name => exact h
  | found => cases h
  | foundNamed name => cases h.2
  | missing => cases hd
  | missingNamed name => cases hd
  | entered => cases h

/-- The innermost call, which has found no entry at its own name, makes one. -/
theorem OwnTable.enter (hown : Function.Injective own) (hs : OwnTable own s) (hcalls : s.calls t = c :: rest)
    (hnone : s.threads (own t) = none) : OwnTable own (s.enter t c rest (own t)) := by
  have ht := hs.phase t
  rw [hcalls, List.forall_mem_cons, hnone] at ht
  have hself : (s.enter t c rest (own t)).threads (own t) = some c.thread := Function.update_self ..
  have hother : ∀ u, u ≠ t → (s.enter t c rest (own t)).threads (own u) = s.threads (own u) :=
    fun u hu => Function.update_of_ne (fun h => hu (hown h)) ..
  have hpending := hs.single t
  rw [hcalls] at hpending
  refine ⟨fun n j hj => ?_, fun u => ?_, ?_, fun u j hj => ?_⟩
  · by_cases hn : n = own t
    · subst hn
      obtain rfl := Option.some.inj (hself.symm.trans hj)
      rw [ht.1.1]
    · exact hs.entry n j ((Function.update_of_ne hn ..).symm.trans hj)
  · by_cases hu : u = t
    · subst hu
      have hcalls' : (s.enter u c rest (own u)).calls u = { c with phase := .entered } :: rest :=
        Function.update_self ..
      rw [hcalls', hself]
      exact List.forall_mem_cons.mpr ⟨⟨ht.1.1, rfl⟩, fun d hd => ⟨(ht.2 d hd).1, (ht.2 d hd).2.enter (hpending d hd) _⟩⟩
    · have hcalls' : (s.enter t c rest (own t)).calls u = s.calls u := Function.update_of_ne hu ..
      rw [hcalls', hother u hu]
      exact hs.phase u
  · exact (Function.forall_update_iff s.calls fun _ calls => ∀ c ∈ calls.tail, c.phase.pending = false).mpr
      ⟨hpending, fun u _ => hs.single u⟩
  · obtain ⟨hj', hsome⟩ := hs.obtained u j hj
    by_cases hu : u = t
    · rw [hj', hu, hnone] at hsome
      cases hsome
    · exact ⟨hj'.trans (hother u hu).symm, hsome⟩

/-- The next operation of the innermost call, which asks for the name only while it is the own one. -/
theorem OwnTable.advance (hown : Function.Injective own) (hs : OwnTable own s) (hcalls : s.calls t = c :: rest)
    (hname : c.phase.readsName = true → s.names t = own t) : OwnTable own (s.advance t c rest) := by
  have hok := (hs.phase t c (by rw [hcalls]; exact List.mem_cons_self)).2
  unfold ThreadTable.advance
  unfold PhaseOk at hok
  cases hphase : c.phase with
  | made => exact hs.setPhase hcalls (hname (by rw [hphase]; rfl))
  | named name =>
    rw [hphase] at hok
    subst hok
    refine hs.setPhase hcalls ?_
    cases hfound : s.threads (own t) with
    | some j => rfl
    | none => rfl
  | found =>
    rw [hphase] at hok
    exact hs.setPhase hcalls ⟨hname (by rw [hphase]; rfl), hok⟩
  | foundNamed name =>
    rw [hphase] at hok
    obtain ⟨rfl, hsome⟩ := hok
    exact hs.returns hcalls rfl hsome
  | missing =>
    rw [hphase] at hok
    exact hs.setPhase hcalls ⟨hname (by rw [hphase]; rfl), hok⟩
  | missingNamed name =>
    rw [hphase] at hok
    obtain ⟨rfl, hnone⟩ := hok
    exact hs.enter hown hcalls hnone
  | entered =>
    rw [hphase] at hok
    exact hs.returns hcalls hok.symm rfl

/-- One step keeps the table. -/
theorem ownTable_step (hown : Function.Injective own) (s : ThreadTable Tid) (e : ThreadLabel Tid)
    (s' : ThreadTable Tid) (hs : OwnTable own s) (hC : KeepsNames own s e s')
    (h : currentThreadStep s e = some s') : OwnTable own s' := by
  cases e with
  | rename t name =>
    obtain rfl := Option.some.inj h
    exact ⟨hs.entry, hs.phase, hs.single, hs.obtained⟩
  | call t =>
    rw [currentThreadStep, Option.ite_none_right_eq_some] at h
    obtain ⟨hcan, h⟩ := h
    obtain rfl := Option.some.inj h
    exact hs.newCall hcan hC
  | advance t =>
    cases hcalls : s.calls t with
    | nil => rw [currentThreadStep, hcalls] at h; cases h
    | cons c rest =>
      rw [currentThreadStep, hcalls] at h
      obtain rfl := Option.some.inj h
      exact hs.advance hown hcalls (hC c rest hcalls)

end OwnNames

/-! ## Runs -/

section Runs

variable [DecidableEq Tid]

/-- **`current_thread` identifies the threads** along every run in which each thread that calls it has a name of its
own, and no call begins while another one of its thread has found no entry and has made none. -/
theorem identified_of_own_names {own : Tid → LuaString} (hown : Function.Injective own) (names : Tid → LuaString)
    (es : List (ThreadLabel Tid)) (hes : EachStep currentThreadStep (KeepsNames own) (ThreadTable.init names) es) :
    Always currentThreadStep Identified (ThreadTable.init names) es :=
  always_of_inv (ownTable_step hown) (fun _ hs => hs.identified hown) es _ (ownTable_init own names) hes

/-- A call of `current_thread` that finds no entry. -/
def newThread (t : Bool) : List (ThreadLabel Bool) :=
  [.call t, .advance t, .advance t, .advance t, .advance t, .advance t]

/-- The names `main` and `worker`. -/
def mainAndWorker : Bool → LuaString
  | true => "main".toList
  | false => "worker".toList

theorem mainAndWorker_injective : Function.Injective mainAndWorker := by
  intro t u h
  cases t with
  | true => cases u with
    | true => rfl
    | false => exact absurd h (by decide)
  | false => cases u with
    | true => exact absurd h (by decide)
    | false => rfl

/-- Each thread gets a jthread of its own. -/
theorem mainAndWorker_identified : Always currentThreadStep Identified (ThreadTable.init mainAndWorker)
    (newThread false ++ newThread true) := by
  refine identified_of_own_names mainAndWorker_injective mainAndWorker _ ?_
  have hreads : ∀ {s s' : ThreadTable Bool} {t : Bool}, s.names t = mainAndWorker t →
      KeepsNames mainAndWorker s (.advance t) s' := fun hname _ _ _ _ => hname
  have hcalls : ∀ {s s' : ThreadTable Bool} {t : Bool}, s.calls t = [] → KeepsNames mainAndWorker s (.call t) s' := by
    intro s s' t hnil c rest hc
    rw [hnil] at hc
    cases hc
  refine eachStep_cons rfl (hcalls rfl) (eachStep_cons rfl (hreads rfl) (eachStep_cons rfl (hreads rfl)
    (eachStep_cons rfl (hreads rfl) (eachStep_cons rfl (hreads rfl) (eachStep_cons rfl (hreads rfl) ?_)))))
  exact eachStep_cons rfl (hcalls rfl) (eachStep_cons rfl (hreads rfl) (eachStep_cons rfl (hreads rfl)
    (eachStep_cons rfl (hreads rfl) (eachStep_cons rfl (hreads rfl) (eachStep_cons rfl (hreads rfl) trivial)))))

/-- Two threads of one name, each of which calls `current_thread` once. -/
def sameNameLabels : List (ThreadLabel Bool) :=
  newThread false ++ [.call true, .advance true, .advance true, .advance true, .advance true]

/-- The second thread gets the jthread of the first. -/
theorem sameName_not_identified :
    ¬ Always currentThreadStep Identified (ThreadTable.init fun _ => "worker".toList) sameNameLabels := by
  have hrun : run currentThreadStep (ThreadTable.init fun _ => "worker".toList) sameNameLabels = some _ := rfl
  refine not_always_of_run hrun fun hid => ?_
  exact absurd (hid.wraps true (some ⟨0, false⟩) (by decide)) (by decide)

end Runs

end YellowTree
