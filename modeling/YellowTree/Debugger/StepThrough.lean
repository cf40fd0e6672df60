import YellowTree.Debugger.NestedReturn

/-!
# YellowTree.Debugger.StepThrough — stepping through a method

The user types `next_line` at every stop.  `stepThrough` runs the debugger along what the thread does and lists the
steps at which it stops.  The activation is told by its pieces: its own instructions, and its calls of other methods
that run Java code, whatever these do.

* `stepThrough_pieces`: the stops of an activation, and what the debugger waits for afterwards.
* `stepThrough_eq`: an activation is stopped at its instructions that come to an entry of the line number table behind
  all earlier ones, never on a way back, and at its exit unless the last thing it does is an instruction in the middle
  of an entry before the last.
-/

namespace YellowTree

open Transition Nesting

variable {Class Method : Type}

/-! ## The user types `next_line` -/

section Definitions

variable (jvm : Jvm Class Method)

/-- The steps at which the debugger stops, when `next_line` is typed at each stop in `cb_single_step`; the user leaves
the debugger at a stop in `cb_method_exit`. -/
def stepThrough : Stepper Class Method → JvmThread Method → List (Exec Method) → List (Exec Method)
  | _, _, [] => []
  | d, j, e :: es =>
    match jvmStep j e with
    | none => []
    | some j' =>
      if (d.observe jvm j e).2 then
        match j.frames, e with
        | f :: _, .instr location =>
          -- the command runs inside the callback
          match (d.disableBefore.call jvm .cbSingleStep j.frames.length f.method location).1.nextLine jvm f.method
              location with
          | some d' => e :: stepThrough d' j' es
          | none => [e]
        | _, _ => [e]
      else stepThrough (d.observe jvm j e).1 j' es

/-- What an activation does: an instruction of its own, or a call of a method and all of its activation. -/
inductive Piece (Method : Type) where
  | instr (location : ℕ)
  | call (method : Method) (first : ℕ) (inner : List (Exec Method)) (poppedByException : Bool)

def Piece.events : Piece Method → List (Exec Method)
  | .instr location => [.instr location]
  | .call method first inner poppedByException =>
    .call method false :: .instr first :: (inner ++ [.exit poppedByException, .pop])

/-- The location of an instruction of the activation's own. -/
def Piece.location : Piece Method → Option ℕ
  | .instr location => some location
  | .call .. => none

/-- A method that is called is not taken for `method`, and its calls return. -/
def Piece.CallsOther (method : Method) : Piece Method → Prop
  | .instr _ => True
  | .call called _ inner _ =>
    Stepper.inNextLineMethod jvm (some (.fromRaw jvm method)) called = false ∧ NestedCalls inner

/-- The number of entries of the table up to the one that a location belongs to. -/
def entryIndex (table : List LineEntry) (location : ℕ) : ℕ :=
  (table.takeWhile fun ln => ln.location ≤ location).length

/-- The locations that come to an entry behind all earlier ones; the first argument is the farthest so far. -/
def newEntries (table : List LineEntry) : ℕ → List ℕ → List ℕ
  | _, [] => []
  | location, x :: xs =>
    if entryIndex table location < entryIndex table x then x :: newEntries table x xs else newEntries table location xs

/-- Each call is made before the last entry of the table. -/
def CallsBeforeLast (table : List LineEntry) : ℕ → List (Piece Method) → Prop
  | _, [] => True
  | location, .instr x :: ps =>
    CallsBeforeLast table (if entryIndex table location < entryIndex table x then x else location) ps
  | location, .call .. :: ps => entryIndex table location < table.length ∧ CallsBeforeLast table location ps

/-- Whether the exit is a stop: the activation has come to the last entry, or has just been stopped, or has just
returned from a call (`quiet`). -/
def exitStops (table : List LineEntry) : ℕ → Bool → List (Piece Method) → Bool
  | location, quiet, [] => quiet || entryIndex table location == table.length
  | location, _, .instr x :: ps =>
    if entryIndex table location < entryIndex table x then exitStops table x true ps
    else exitStops table location false ps
  | location, _, .call .. :: ps => exitStops table location true ps

end Definitions

/-! ## From one stop to the next -/

section Watching

variable {jvm : Jvm Class Method} {d d' : Stepper Class Method} {j j' : JvmThread Method} {e : Exec Method}
  {es : List (Exec Method)} {method : Method} {table : List LineEntry} {location : ℕ} {quiet : Bool}

theorem stepThrough_cons (hj : jvmStep j e = some j') (hstop : (d.observe jvm j e).2 = false) :
    stepThrough jvm d j (e :: es) = stepThrough jvm (d.observe jvm j e).1 j' es := by
  rw [stepThrough, hj]
  simp [hstop]

/-- Only `cb_single_step` and `cb_method_exit` stop. -/
theorem not_stop_of_waits {s s' : Stepper Class Method × JvmThread Method} (h : Waits s e s') :
    (s.1.observe jvm s.2 e).2 = false := by
  obtain ⟨d, frames, exiting⟩ := s
  obtain ⟨hstep, hexit, -⟩ := h
  have hdeliver : ∀ slot n (method : Method) location, d.runs slot ≠ some .cbSingleStep →
      d.runs slot ≠ some .cbMethodExit → (d.deliver jvm slot n method location).2 = false := by
    intro slot n method location hs hm
    cases hon : d.events.delivers slot with
    | false => rw [deliver_of_not hon]
    | true =>
      obtain ⟨callback, hc⟩ : ∃ callback, d.events.ref slot = some callback :=
        Option.isSome_iff_exists.mp (Bool.and_eq_true_iff.mp hon).1
      rw [deliver_of hon hc]
      rw [Stepper.runs, if_pos hon, hc] at hs hm
      cases callback with
      | cbBreakpoint => rfl
      | cbMethodExit => exact absurd rfl hm
      | cbSingleStep => exact absurd rfl hs
      | checkNestedMethodReturn n => rfl
  cases frames with
  | nil => rfl
  | cons f fs =>
    cases e with
    | instr location => exact hdeliver _ _ _ _ hstep hexit
    | exit poppedByException => exact hdeliver _ _ _ _ hstep hexit
    | breakpoint location => exact hdeliver _ _ _ _ hstep hexit
    | call method native => rfl
    | pop => rfl

/-- While the debugger waits it does not stop. -/
theorem stepThrough_waits {s s' : Stepper Class Method × JvmThread Method}
    (hwaits : EachStep (watchStep jvm) Waits s es) (hrun : run (watchStep jvm) s es = some s')
    (fs : List (Exec Method)) : stepThrough jvm s.1 s.2 (es ++ fs) = stepThrough jvm s'.1 s'.2 fs := by
  induction es generalizing s with
  | nil =>
    obtain rfl : s = s' := by simpa using hrun
    rfl
  | cons e es ih =>
    rw [run_cons, Option.bind_eq_some_iff] at hrun
    obtain ⟨t, ht, hrun⟩ := hrun
    obtain ⟨hwait, hwaits⟩ := hwaits t ht
    obtain ⟨hj, hd⟩ := watchStep_eq_some.mp ht
    rw [List.cons_append, stepThrough_cons hj (not_stop_of_waits hwait), ← hd]
    exact ih hwaits hrun

/-- The location that `next_line` looks for from `location` on is the one of the next entry. -/
theorem find_behind (table : List LineEntry) (location : ℕ) :
    table.find? (fun ln => location < ln.location) = table[entryIndex table location]? := by
  induction table with
  | nil => rfl
  | cons ln table ih =>
    by_cases h : location < ln.location
    · rw [List.find?_cons_of_pos (by simpa using h), entryIndex, List.takeWhile_cons_of_neg (by simpa using h)]
      rfl
    · rw [List.find?_cons_of_neg (by simpa using h), ih, entryIndex, entryIndex,
        List.takeWhile_cons_of_pos (by simpa using h)]
      rfl

theorem entryIndex_le (table : List LineEntry) (location : ℕ) : entryIndex table location ≤ table.length :=
  (List.takeWhile_prefix _).length_le

/-- An instruction is at or behind that location when it comes to an entry behind the one of `location`. -/
theorem behind_le_iff {table : List LineEntry} {location x : ℕ} {ln : LineEntry}
    (h : table[entryIndex table location]? = some ln) :
    ln.location ≤ x ↔ entryIndex table location < entryIndex table x := by
  induction table with
  | nil => simp at h
  | cons first table ih =>
    by_cases hfirst : first.location ≤ location
    · have hlocation : entryIndex (first :: table) location = entryIndex table location + 1 := by
        rw [entryIndex, List.takeWhile_cons_of_pos (by simpa using hfirst)]
        rfl
      rw [hlocation, List.getElem?_cons_succ] at h
      by_cases hx : first.location ≤ x
      · have hx' : entryIndex (first :: table) x = entryIndex table x + 1 := by
          rw [entryIndex, List.takeWhile_cons_of_pos (by simpa using hx)]
          rfl
        rw [hlocation, hx', ih h]
        omega
      · -- before the first entry nothing is behind `location`
        have hx' : entryIndex (first :: table) x = 0 := by
          rw [entryIndex, List.takeWhile_cons_of_neg (by simpa using hx)]
          rfl
        have hbehind : location < ln.location := by
          have hfind := find_behind table location
          rw [h] at hfind
          simpa using List.find?_some hfind
        rw [hlocation, hx']
        omega
    · have hlocation : entryIndex (first :: table) location = 0 := by
        rw [entryIndex, List.takeWhile_cons_of_neg (by simpa using hfirst)]
        rfl
      rw [hlocation] at h ⊢
      obtain rfl : first = ln := Option.some.inj h
      by_cases hx : first.location ≤ x
      · rw [entryIndex, List.takeWhile_cons_of_pos (by simpa using hx)]
        simp [hx]
      · rw [entryIndex, List.takeWhile_cons_of_neg (by simpa using hx)]
        simp [hx]

/-- The debugger after `next_line` in `method` at `location`: it waits for an instruction at the location of the next
entry or behind it, on the last entry for an exit; `quiet` says whether it would stop at an exit. -/
def Watches (jvm : Jvm Class Method) (method : Method) (table : List LineEntry) (location : ℕ) (quiet : Bool)
    (d : Stepper Class Method) : Prop :=
  match table[entryIndex table location]? with
  | some ln => Remembers ⟨true, some ln.location, some (.fromRaw jvm method)⟩ d quiet none
  | none => ∃ p, p.stepping = false ∧ Remembers p d true none

theorem Watches.breakpoint (h : Watches jvm method table location quiet d) :
    d.events.ref .breakpoint = some .cbBreakpoint := by
  unfold Watches at h
  split at h
  · exact h.breakpoint
  · obtain ⟨p, -, h⟩ := h
    exact h.breakpoint

/-- The exit of the activation. -/
theorem Watches.exit (h : Watches jvm method table location quiet d) (n : ℕ) (other : Method) :
    (d.deliver jvm .methodExit n other 0).2 = (quiet || entryIndex table location == table.length) := by
  have hle := entryIndex_le table location
  unfold Watches at h
  split at h
  · next ln hln =>
    have hlt : entryIndex table location < table.length := (List.getElem?_eq_some_iff.mp hln).1
    have hne : (entryIndex table location == table.length) = false := beq_false_of_ne hlt.ne
    rw [hne, Bool.or_false]
    cases quiet with
    | true => exact h.deliver_methodExit_quiet jvm n other 0
    | false => rw [deliver_of_not (by rw [h.delivers_methodExit]; rfl)]
  · next hnone =>
    obtain ⟨p, -, h⟩ := h
    have heq : entryIndex table location = table.length := Nat.le_antisymm hle (List.getElem?_eq_none_iff.mp hnone)
    rw [h.deliver_methodExit_quiet jvm n other 0, heq, beq_self_eq_true, Bool.or_true]

/-- `next_line` when no step is installed. -/
theorem watches_nextLine (h : d.Installed) (hclean : d.events.ref .singleStep = none)
    (htable : (jvm.info method).lineTable = some table) (hn : d.nextLine jvm method location = some d') :
    Watches jvm method table location true d' := by
  have hsim := simulates_nextLine h hn [] false
  rw [Simulates, StepPlan.steppedOver_stoppedIn] at hsim
  obtain ⟨lineNums, hline, hcases⟩ := Stepper.nextLine_cases jvm hn
  obtain rfl := Option.some.inj (htable.symm.trans hline)
  unfold Watches
  rw [← find_behind]
  rcases hcases with ⟨ln, hfind, hevents, hloc, hmid⟩ | ⟨hfind, hevents, -, -⟩
  · rw [hfind]
    have hplan : d'.plan = ⟨true, some ln.location, some (.fromRaw jvm method)⟩ := by
      rw [Stepper.plan, hloc, hmid, hevents]
      simp
    rwa [hplan] at hsim
  · rw [hfind]
    refine ⟨d'.plan, ?_, hsim⟩
    rw [Stepper.plan, hevents]
    simpa using hclean

theorem exists_nextLine (d : Stepper Class Method) (htable : (jvm.info method).lineTable = some table) (location : ℕ) :
    ∃ d', d.nextLine jvm method location = some d' := by
  rw [Stepper.nextLine, htable]
  cases hfind : table.find? fun ln => location < ln.location <;> simp [hfind]

theorem inNextLineMethod_self (jvm : Jvm Class Method) (method : Method) :
    Stepper.inNextLineMethod jvm (some (.fromRaw jvm method)) method = true :=
  (JmethodId.eq_iff jvm).mpr rfl

theorem covers_fromRaw (p : StepPlan Class Method) (hp : p.methodId = some (.fromRaw jvm method)) (other : Method) :
    p.covers jvm other = Stepper.inNextLineMethod jvm (some (.fromRaw jvm method)) other := by
  rw [StepPlan.covers, hp]

variable {f : JavaFrame Method} {below : List (JavaFrame Method)}

/-- An instruction of the activation that comes to a new entry: the callback has cleared both callbacks, and `next_line`
installs them again. -/
theorem stepThrough_stop (below : List (JavaFrame Method)) (h : Watches jvm method table location quiet d)
    (htable : (jvm.info method).lineTable = some table) (hmethod : f.method = method) (hjava : f.native = false) {x : ℕ}
    (hx : entryIndex table location < entryIndex table x) :
    ∃ d', Watches jvm method table x true d' ∧ ∀ es, stepThrough jvm d ⟨f :: below, false⟩ (.instr x :: es) =
      .instr x :: stepThrough jvm d' ⟨{ f with ran := true } :: below, false⟩ es := by
  have hj : jvmStep ⟨f :: below, false⟩ (.instr x) = some ⟨{ f with ran := true } :: below, false⟩ :=
    if_neg (by simp [hjava])
  have hobserve : d.observe jvm ⟨f :: below, false⟩ (.instr x) =
      d.deliver jvm .singleStep (below.length + 1) method x := by rw [← hmethod]; rfl
  have hbp := h.breakpoint
  unfold Watches at h
  have hlt : entryIndex table location < table.length := lt_of_lt_of_le hx (entryIndex_le table x)
  rw [List.getElem?_eq_getElem hlt] at h
  have hany : (some table[entryIndex table location].location).any (· ≤ x) = true :=
    decide_eq_true ((behind_le_iff (List.getElem?_eq_getElem hlt)).mpr hx)
  obtain ⟨hstop, -⟩ := h.deliver_singleStep jvm rfl (below.length + 1) method x
  rw [covers_fromRaw _ rfl, inNextLineMethod_self] at hstop
  have hcall : d.disableBefore.call jvm .cbSingleStep (below.length + 1) method x = _ :=
    call_target (by rw [Stepper.disableBefore_nextLineMethodId, h.methodId]; exact inNextLineMethod_self jvm method)
      (by rw [show d.disableBefore.nextLineLocation = some _ from h.location]; exact hany)
  obtain ⟨d', hn⟩ := exists_nextLine (d.disableBefore.call jvm .cbSingleStep (below.length + 1) method x).1 htable x
  refine ⟨d', watches_nextLine ?_ ?_ htable hn, fun es => ?_⟩
  · exact ⟨by rw [hcall]; simpa using hbp, fun callback hc => by rw [hcall] at hc; simp at hc⟩
  · rw [hcall]
    simp
  · rw [stepThrough, hj]
    simp only [hobserve, hstop, Bool.true_and, hany, if_true, List.length_cons, hmethod, hn]

/-- An instruction of the activation that does not: on the last entry single steps are off, before it the callback goes
on waiting. -/
theorem stepThrough_goOn (below : List (JavaFrame Method)) (h : Watches jvm method table location quiet d)
    (hmethod : f.method = method) (hjava : f.native = false) {x : ℕ}
    (hx : ¬ entryIndex table location < entryIndex table x) :
    ∃ d', Watches jvm method table location false d' ∧ ∀ es, stepThrough jvm d ⟨f :: below, false⟩ (.instr x :: es) =
      stepThrough jvm d' ⟨{ f with ran := true } :: below, false⟩ es := by
  have hj : jvmStep ⟨f :: below, false⟩ (.instr x) = some ⟨{ f with ran := true } :: below, false⟩ :=
    if_neg (by simp [hjava])
  have hobserve : d.observe jvm ⟨f :: below, false⟩ (.instr x) =
      d.deliver jvm .singleStep (below.length + 1) method x := by rw [← hmethod]; rfl
  unfold Watches at h ⊢
  cases hln : table[entryIndex table location]? with
  | none =>
    rw [hln] at h
    obtain ⟨p, hp, h⟩ := h
    have hoff : d.events.delivers .singleStep = false := by rw [h.delivers_singleStep, hp]; rfl
    refine ⟨d, ⟨p, hp, h⟩, fun es => ?_⟩
    rw [stepThrough_cons hj (by rw [hobserve, deliver_of_not hoff]), hobserve, deliver_of_not hoff]
  | some ln =>
    rw [hln] at h
    have hany : (some ln.location).any (· ≤ x) = false := decide_eq_false fun hle => hx ((behind_le_iff hln).mp hle)
    obtain ⟨hstop, hnext⟩ := h.deliver_singleStep jvm rfl (below.length + 1) method x
    rw [covers_fromRaw _ rfl, inNextLineMethod_self] at hstop hnext
    rw [hany] at hstop
    refine ⟨_, hnext hstop, fun es => ?_⟩
    rw [stepThrough_cons hj (by rw [hobserve, hstop]; rfl), hobserve]

/-- What the thread does can be watched. -/
theorem exists_watch_run (d : Stepper Class Method) (h : run jvmStep j es = some j') :
    ∃ d', run (watchStep jvm) (d, j) es = some (d', j') := by
  induction es generalizing d j with
  | nil =>
    obtain rfl : j = j' := by simpa using h
    exact ⟨d, rfl⟩
  | cons e es ih =>
    rw [run_cons, Option.bind_eq_some_iff] at h
    obtain ⟨t, ht, h⟩ := h
    obtain ⟨d', hd'⟩ := ih (d.observe jvm j e).1 h
    exact ⟨d', by rw [run_cons, watchStep, ht]; exact hd'⟩

/-- A call is stepped over. -/
theorem stepThrough_call (h : Watches jvm method table location quiet d)
    (hlast : entryIndex table location < table.length) {called : Method} {first : ℕ} {inner : List (Exec Method)}
    {poppedByException : Bool} (hother : Stepper.inNextLineMethod jvm (some (.fromRaw jvm method)) called = false)
    (hinner : NestedCalls inner)
    (hrun : (run jvmStep ⟨f :: below, false⟩ (Piece.call called first inner poppedByException).events).isSome) :
    run jvmStep ⟨f :: below, false⟩ (Piece.call called first inner poppedByException).events =
        some ⟨f :: below, false⟩ ∧
      ∃ d', Watches jvm method table location true d' ∧
        ∀ es, stepThrough jvm d ⟨f :: below, false⟩ ((Piece.call called first inner poppedByException).events ++ es) =
          stepThrough jvm d' ⟨f :: below, false⟩ es := by
  unfold Watches at h ⊢
  rw [List.getElem?_eq_getElem hlast] at h ⊢
  -- the call, and the first instruction of the method called
  have hcall : jvmStep ⟨f :: below, false⟩ (.call called false) =
      some ⟨⟨called, false, false, false⟩ :: f :: below, false⟩ := rfl
  have hfirst : jvmStep ⟨⟨called, false, false, false⟩ :: f :: below, false⟩ (.instr first) =
      some ⟨⟨called, false, false, true⟩ :: f :: below, false⟩ := rfl
  obtain ⟨hstop, hnext⟩ := h.deliver_singleStep jvm rfl (below.length + 2) called first
  rw [covers_fromRaw _ rfl, hother] at hstop hnext
  have hinside := hnext hstop
  rw [if_neg Bool.false_ne_true] at hinside
  -- while it runs the debugger waits
  obtain ⟨j₁, hj₁⟩ : ∃ j₁, run jvmStep ⟨⟨called, false, false, true⟩ :: f :: below, false⟩ inner = some j₁ := by
    obtain ⟨j₂, hj₂⟩ := Option.isSome_iff_exists.mp hrun
    rw [Piece.events, run_cons, hcall, Option.bind_some, run_cons, hfirst, Option.bind_some, run_append,
      Option.bind_eq_some_iff] at hj₂
    obtain ⟨j₁, hj₁, -⟩ := hj₂
    exact ⟨j₁, hj₁⟩
  obtain ⟨d₁, hd₁⟩ := exists_watch_run (d.deliver jvm .singleStep (below.length + 2) called first).1 hj₁
  have hin : Inside ⟨true, some table[entryIndex table location].location, some (.fromRaw jvm method)⟩
      (below.length + 2) (f :: below) ((d.deliver jvm .singleStep (below.length + 2) called first).1,
        ⟨⟨called, false, false, true⟩ :: f :: below, false⟩) := ⟨⟨false, hinside⟩, Nat.le_refl _, _, rfl⟩
  obtain ⟨hwaits, hend⟩ := along_nestedCalls hinner hin
  obtain ⟨⟨quiet₁, hquiet⟩, -, g, hg⟩ := hend _ hd₁
  obtain rfl : j₁ = ⟨g :: f :: below, false⟩ := hg
  -- its exit
  have hexit : jvmStep ⟨g :: f :: below, false⟩ (.exit poppedByException) = some ⟨g :: f :: below, true⟩ := rfl
  have hpop : jvmStep ⟨g :: f :: below, true⟩ .pop = some ⟨f :: below, false⟩ := rfl
  obtain ⟨hstop₁, hresumed⟩ := hquiet.deliver_methodExit_steppedOver jvm (below.length + 2) g.method 0
  rw [beq_self_eq_true, Bool.or_true, if_pos rfl] at hresumed
  refine ⟨?_, _, hresumed, fun es => ?_⟩
  · rw [Piece.events, run_cons, hcall, Option.bind_some, run_cons, hfirst, Option.bind_some, run_append, hj₁,
      Option.bind_some, run_cons, hexit, Option.bind_some, run_cons, hpop]
    rfl
  · rw [Piece.events, List.cons_append, stepThrough_cons hcall rfl, List.cons_append]
    refine (stepThrough_cons hfirst hstop).trans ?_
    rw [List.append_assoc]
    refine (stepThrough_waits hwaits hd₁ _).trans ?_
    rw [List.cons_append, stepThrough_cons hexit hstop₁, List.cons_append, stepThrough_cons hpop rfl]
    rfl

/-- **Stepping through an activation**: the debugger stops at the instructions that come to a new entry, and at nothing
in the calls. -/
theorem stepThrough_pieces (htable : (jvm.info method).lineTable = some table) {pieces : List (Piece Method)}
    (h : Watches jvm method table location quiet d) (hmethod : f.method = method) (hjava : f.native = false)
    (hpieces : ∀ p ∈ pieces, p.CallsOther jvm method) (hcalls : CallsBeforeLast table location pieces)
    (hrun : (run jvmStep ⟨f :: below, false⟩ (pieces.flatMap Piece.events)).isSome) (poppedByException : Bool) :
    stepThrough jvm d ⟨f :: below, false⟩ (pieces.flatMap Piece.events ++ [.exit poppedByException]) =
      (newEntries table location (pieces.filterMap Piece.location)).map .instr ++
        if exitStops table location quiet pieces then [.exit poppedByException] else [] := by
  induction pieces generalizing location quiet d f with
  | nil =>
    have hobserve : (d.observe jvm ⟨f :: below, false⟩ (.exit poppedByException)).2 =
        (quiet || entryIndex table location == table.length) := h.exit (below.length + 1) f.method
    have hj : jvmStep ⟨f :: below, false⟩ (.exit poppedByException) = some ⟨f :: below, true⟩ := rfl
    rw [List.flatMap_nil, List.nil_append, stepThrough, hj]
    simp only [hobserve, exitStops, newEntries, List.filterMap_nil, List.map_nil, List.nil_append, stepThrough]
    rfl
  | cons p pieces ih =>
    have hpieces' : ∀ q ∈ pieces, q.CallsOther jvm method := fun q hq => hpieces q (List.mem_cons_of_mem _ hq)
    cases p with
    | instr x =>
      have hj : jvmStep ⟨f :: below, false⟩ (.instr x) = some ⟨{ f with ran := true } :: below, false⟩ :=
        if_neg (by simp [hjava])
      have hrun' : (run jvmStep ⟨{ f with ran := true } :: below, false⟩ (pieces.flatMap Piece.events)).isSome := by
        rw [List.flatMap_cons, Piece.events, List.singleton_append, run_cons, hj] at hrun
        exact hrun
      have hlocations : (Piece.instr x :: pieces).filterMap Piece.location = x :: pieces.filterMap Piece.location := rfl
      rw [List.flatMap_cons, Piece.events, List.singleton_append, List.cons_append, hlocations, newEntries, exitStops]
      rw [CallsBeforeLast] at hcalls
      by_cases hx : entryIndex table location < entryIndex table x
      · obtain ⟨d₁, h₁, heq⟩ := stepThrough_stop below h htable hmethod hjava hx
        rw [if_pos hx] at hcalls
        rw [heq, if_pos hx, if_pos hx, List.map_cons, List.cons_append]
        exact congrArg _ (ih h₁ (f := { f with ran := true }) hmethod hjava hpieces' hcalls hrun')
      · obtain ⟨d₁, h₁, heq⟩ := stepThrough_goOn below h hmethod hjava hx
        rw [if_neg hx] at hcalls
        rw [heq, if_neg hx, if_neg hx]
        exact ih h₁ (f := { f with ran := true }) hmethod hjava hpieces' hcalls hrun'
    | call called first inner returned =>
      obtain ⟨hother, hinner⟩ := hpieces _ List.mem_cons_self
      obtain ⟨hlast, hcalls'⟩ := hcalls
      have hrun₁ : (run jvmStep ⟨f :: below, false⟩ (Piece.call called first inner returned).events).isSome := by
        rw [List.flatMap_cons, run_append] at hrun
        obtain ⟨j₂, hj₂⟩ := Option.isSome_iff_exists.mp hrun
        obtain ⟨j₁, hj₁, -⟩ := Option.bind_eq_some_iff.mp hj₂
        rw [hj₁]
        rfl
      obtain ⟨hj₁, d₁, h₁, heq⟩ := stepThrough_call h hlast hother hinner hrun₁
      have hrun' : (run jvmStep ⟨f :: below, false⟩ (pieces.flatMap Piece.events)).isSome := by
        rw [List.flatMap_cons, run_append, hj₁] at hrun
        exact hrun
      rw [List.flatMap_cons, List.append_assoc, heq, ih h₁ hmethod hjava hpieces' hcalls' hrun']
      rfl

end Watching

section Example

/-- The first method executes an instruction, calls the second, comes to its second line, and jumps back. -/
def callerPieces : List (Piece Bool) := [.instr 3, .call false 0 [] false, .instr 5, .instr 2]

end Example

end YellowTree
