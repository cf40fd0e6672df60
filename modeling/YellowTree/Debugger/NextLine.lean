import YellowTree.Debugger.StopPoints

/-!
# YellowTree.Debugger.NextLine — where `next_line` stops and where it should

Both results are about every run of the thread after `next_line` was issued in an activation of `method` at
`location`, whatever an earlier `next_line` has left behind.

* `stopsInPlace_iff`: the first stop is not above the activation exactly when no stop point is, up to the first one.
* `neverMisses_iff`: the first stop is at the first instruction of the activation on another line, and no later than
  the activation's return, exactly when this instruction is at the target or behind it and no stop point comes before
  it, and a stop point comes before the return.
-/

namespace YellowTree

open Transition

variable {Class Method : Type} {jvm : Jvm Class Method}

/-! ## The activation -/

section Origin

/-- The activation in which `next_line` was issued is on the stack and not innermost. -/
def JvmThread.Deeper (j : JvmThread Method) : Prop := ∃ f ∈ j.frames.tail, f.origin = true

/-- The activation is the innermost one. -/
def JvmThread.inOrigin (j : JvmThread Method) : Bool :=
  match j.frames with
  | f :: _ => f.origin
  | [] => false

/-- The frames while the activation of `method` is on the stack, and after it was popped. -/
def OriginAt (method : Method) (fs : List (JavaFrame Method)) : Prop :=
  (∀ f ∈ fs, f.origin = false) ∨ ∃ above f below, fs = above ++ f :: below ∧ (∀ g ∈ above, g.origin = false) ∧
    f.origin = true ∧ f.method = method ∧ ∀ g ∈ below, g.origin = false ∧ g.ran = false

theorem originAt_stoppedIn (method : Method) (below : List (Method × Bool)) (exiting : Bool) :
    OriginAt method (JvmThread.stoppedIn method below exiting).frames := by
  refine Or.inr ⟨[], _, _, rfl, by simp, rfl, rfl, fun g hg => ?_⟩
  obtain ⟨b, -, rfl⟩ := List.mem_map.mp hg
  exact ⟨rfl, rfl⟩

theorem originAt_step {method : Method} (j : JvmThread Method) (e : Exec Method) (j' : JvmThread Method)
    (h : OriginAt method j.frames) (hstep : jvmStep j e = some j') : OriginAt method j'.frames := by
  cases moves_of_jvmStep hstep with
  | instr f fs location hf =>
    rcases h with h | ⟨above, g, below, hfs, habove, horigin, hmethod, hbelow⟩
    · refine Or.inl fun g hg => ?_
      rcases List.mem_cons.mp hg with rfl | hg'
      · exact h f List.mem_cons_self
      · exact h g (List.mem_cons_of_mem _ hg')
    · refine Or.inr ?_
      cases above with
      | nil =>
        obtain ⟨rfl, rfl⟩ := List.cons.inj hfs
        exact ⟨[], _, _, rfl, by simp, horigin, hmethod, hbelow⟩
      | cons a above =>
        obtain ⟨rfl, rfl⟩ := List.cons.inj hfs
        refine ⟨_ :: above, g, below, rfl, fun b hb => ?_, horigin, hmethod, hbelow⟩
        rcases List.mem_cons.mp hb with rfl | hb'
        · exact habove f List.mem_cons_self
        · exact habove b (List.mem_cons_of_mem _ hb')
  | call fs m native =>
    rcases h with h | ⟨above, g, below, rfl, habove, horigin, hmethod, hbelow⟩
    · exact Or.inl (List.forall_mem_cons.mpr ⟨rfl, h⟩)
    · exact Or.inr ⟨_ :: above, g, below, rfl, List.forall_mem_cons.mpr ⟨rfl, habove⟩, horigin, hmethod, hbelow⟩
  | exit f fs poppedByException => exact h
  | pop f fs =>
    rcases h with h | ⟨above, g, below, hfs, habove, horigin, hmethod, hbelow⟩
    · exact Or.inl fun g hg => h g (List.mem_cons_of_mem _ hg)
    · cases above with
      | nil =>
        obtain ⟨rfl, rfl⟩ := List.cons.inj hfs
        exact Or.inl fun b hb => (hbelow b hb).1
      | cons a above =>
        obtain ⟨rfl, rfl⟩ := List.cons.inj hfs
        exact Or.inr ⟨above, g, below, rfl, fun b hb => habove b (List.mem_cons_of_mem _ hb), horigin, hmethod, hbelow⟩
  | breakpoint f fs location hf => exact h

/-- The innermost frame is that of the activation; the frames below have not run. -/
theorem OriginAt.innermost {method : Method} {f : JavaFrame Method} {fs : List (JavaFrame Method)}
    (h : OriginAt method (f :: fs)) (hf : f.origin = true) : f.method = method ∧ ∀ g ∈ fs, g.ran = false := by
  rcases h with h | ⟨above, g, below, hfs, habove, -, hmethod, hbelow⟩
  · rw [h f List.mem_cons_self] at hf
    simp at hf
  · cases above with
    | cons a above =>
      obtain ⟨rfl, -⟩ := List.cons.inj hfs
      rw [habove f List.mem_cons_self] at hf
      simp at hf
    | nil =>
      obtain ⟨rfl, rfl⟩ := List.cons.inj hfs
      exact ⟨hmethod, fun g hg => (hbelow g hg).2⟩

end Origin

/-! ## The first stop is in the activation or after it -/

section InPlace

/-- The first stop is not above the activation, neither at an instruction nor at an exit. -/
def StopsInPlace (jvm : Jvm Class Method) (d : Stepper Class Method) (j : JvmThread Method)
    (es : List (Exec Method)) : Prop :=
  ∀ i, firstStop jvm d j es = some i → ∀ u, run jvmStep j (es.take i) = some u → ¬ u.Deeper

/-- Above the activation, where no frame is stepped over: an instruction of the method lies before the target, and an
exit comes after an instruction or a breakpoint that made it unseen. -/
def PassesBy (jvm : Jvm Class Method) (p : StepPlan Class Method) (quiet : Bool) (j : JvmThread Method)
    (e : Exec Method) : Prop :=
  j.Deeper → p.steppedOver jvm j = none →
    match j.frames, e with
    | f :: _, .instr location => p.stepping = true → p.covers jvm f.method = true →
        ∀ target, p.location = some target → location < target
    | _ :: _, .exit _ => quiet = false
    | _, _ => True

theorem passesBy_iff {p : StepPlan Class Method} {quiet : Bool} {j : JvmThread Method} {e : Exec Method} :
    (¬¬ j.Deeper → p.point jvm quiet j e = false) ↔ PassesBy jvm p quiet j e := by
  rw [not_not]
  refine imp_congr_right fun _ => ?_
  obtain ⟨frames, exiting⟩ := j
  cases frames with
  | nil => exact iff_of_true rfl fun _ => trivial
  | cons f fs =>
    cases e with
    | instr location =>
      show (p.stepping && (p.steppedOver jvm ⟨f :: fs, exiting⟩).isNone && p.covers jvm f.method &&
          p.location.any (· ≤ location)) = false ↔
        (p.steppedOver jvm ⟨f :: fs, exiting⟩ = none → p.stepping = true → p.covers jvm f.method = true →
          ∀ target, p.location = some target → location < target)
      have hany : p.location.any (· ≤ location) = false ↔ ∀ target, p.location = some target → location < target := by
        cases p.location <;> simp
      rw [← hany, ← Option.isNone_iff_eq_none]
      cases p.stepping <;> cases (p.steppedOver jvm ⟨f :: fs, exiting⟩).isNone <;> cases p.covers jvm f.method <;> simp
    | exit poppedByException =>
      show ((p.steppedOver jvm ⟨f :: fs, exiting⟩).isNone && quiet) = false ↔
        (p.steppedOver jvm ⟨f :: fs, exiting⟩ = none → quiet = false)
      rw [← Option.isNone_iff_eq_none]
      cases (p.steppedOver jvm ⟨f :: fs, exiting⟩).isNone <;> simp
    | call method native => exact iff_of_true rfl fun _ => trivial
    | pop => exact iff_of_true rfl fun _ => trivial
    | breakpoint location => exact iff_of_true rfl fun _ => trivial

/-- **The first stop is in place** exactly when, up to the first stop point, the thread passes by above the
activation. -/
theorem stopsInPlace_iff {d d' : Stepper Class Method} (h : d.Installed) {method : Method} {location : ℕ}
    (hn : d.nextLine jvm method location = some d') (below : List (Method × Bool)) (exiting : Bool)
    (es : List (Exec Method)) : StopsInPlace jvm d' (.stoppedIn method below exiting) es ↔
      (d'.plan.points jvm).UpToFirst jvmStep (PassesBy jvm d'.plan) true (.stoppedIn method below exiting) es := by
  have hsim := simulates_nextLine h hn below exiting
  rw [StopsInPlace, firstStop_eq hsim]
  refine (Observer.forall_first_iff (P := fun u : JvmThread Method => ¬ u.Deeper)).trans ?_
  exact Observer.UpToFirst.congr fun _ _ _ _ _ => passesBy_iff

/-- The debugger after `next_line` in the method of `mainJvm`. -/
def afterNextLine (location : ℕ) : Stepper Unit Unit :=
  (Stepper.initJvmtiCallbacks.nextLine mainJvm () location).getD Stepper.initJvmtiCallbacks

/-- On the first line the method calls a native one, after a single step. -/
theorem nativeCall_stopsInPlace : StopsInPlace mainJvm (afterNextLine 0) (.stoppedIn () [] false)
    [.instr 3, .call () true, .exit false, .pop, .instr 5] := by
  have hn : Stepper.initJvmtiCallbacks.nextLine mainJvm () 0 = some (afterNextLine 0) := rfl
  refine (stopsInPlace_iff installed_init hn [] false _).mpr ?_
  have top : ∀ {f : JavaFrame Unit} {exiting : Bool}, ¬ (⟨[f], exiting⟩ : JvmThread Unit).Deeper := by
    rintro f exiting ⟨g, hg, -⟩
    simp at hg
  -- the instruction, the call, the exit, which is not seen, and the pop
  refine Observer.upToFirst_cons rfl (fun hd => absurd hd top) ?_
  refine Observer.upToFirst_cons rfl (fun hd => absurd hd top) ?_
  refine Observer.upToFirst_cons rfl (fun _ _ => rfl) ?_
  refine Observer.upToFirst_cons rfl (fun _ _ => trivial) ?_
  exact Observer.upToFirst_cons rfl (fun hd => absurd hd top) trivial

/-- On the first line the method calls itself; the inner activation reaches the second line. -/
theorem recursion_not_stopsInPlace :
    ¬ StopsInPlace mainJvm (afterNextLine 0) (.stoppedIn () [] false) [.call () false, .instr 0, .instr 5] := by
  intro h
  exact h 2 (by decide) _ rfl ⟨_, List.mem_cons_self, rfl⟩

end InPlace

/-! ## The first stop is not missed -/

section NeverMisses

/-- The line number that `Frame:__tostring` shows for a location: the one of the last entry before the first entry
with a greater location. -/
def lineNum (jvm : Jvm Class Method) (method : Method) (location : ℕ) : Option ℕ :=
  ((((jvm.info method).lineTable.getD []).takeWhile (·.location ≤ location)).getLast?).map LineEntry.lineNum

/-- The activation executes an instruction of another line than the one at `location`. -/
def leavesLine (jvm : Jvm Class Method) (method : Method) (location : ℕ) (j : JvmThread Method) : Exec Method → Bool
  | .instr l => j.inOrigin && lineNum jvm method l != lineNum jvm method location
  | _ => false

/-- The run `pre` of the thread, part of `es`, leads to `j`, where it takes the step `e`; in `pre` the activation has
executed no instruction of another line. -/
structure OnLine (jvm : Jvm Class Method) (method : Method) (location : ℕ) (j₀ : JvmThread Method)
    (es pre : List (Exec Method)) (j : JvmThread Method) (e : Exec Method) : Prop where
  isPrefix : pre ++ [e] <+: es
  run : run jvmStep j₀ pre = some j
  enabled : (jvmStep j e).isSome
  stays : EachStep jvmStep (fun j e _ => leavesLine jvm method location j e = false) j₀ pre

/-- The first stop is at the first instruction of the activation on another line; if the activation's frame is popped
before that, there was a stop. -/
def NeverMisses (jvm : Jvm Class Method) (d : Stepper Class Method) (method : Method) (location : ℕ)
    (j₀ : JvmThread Method) (es : List (Exec Method)) : Prop :=
  ∀ pre j e, OnLine jvm method location j₀ es pre j e →
    (leavesLine jvm method location j e = true → firstStop jvm d j₀ (pre ++ [e]) = some pre.length) ∧
    (e = .pop → j.inOrigin = true → (firstStop jvm d j₀ (pre ++ [e])).isSome)

/-- The target was set, in the method, and lies at `location` or before it. -/
def StepPlan.reached (jvm : Jvm Class Method) (p : StepPlan Class Method) (method : Method) (location : ℕ) : Bool :=
  p.stepping && p.covers jvm method && p.location.any (· ≤ location)

/-- In the activation, the stop points are the instructions at the target or behind it. -/
theorem OriginAt.point_eq {method : Method} {f : JavaFrame Method} {fs : List (JavaFrame Method)}
    (h : OriginAt method (f :: fs)) (hf : f.origin = true) (p : StepPlan Class Method) (quiet : Bool) (l : ℕ) :
    p.point jvm quiet ⟨f :: fs, false⟩ (.instr l) = p.reached jvm method l := by
  obtain ⟨hmethod, hran⟩ := h.innermost hf
  show (p.stepping && (p.steppedOver jvm ⟨f :: fs, false⟩).isNone && p.covers jvm f.method &&
    p.location.any (· ≤ l)) = _
  rw [StepPlan.reached, hmethod]
  cases hc : p.covers jvm method with
  | false => simp
  | true =>
    -- nothing is stepped over: the frames below have not run, and this one is of the method of the target
    have hin : p.steppedOverIn jvm (f :: fs) = none := by
      rw [StepPlan.steppedOverIn, StepPlan.steppedOverIn_of_not_ran hran, hmethod, hc, Bool.not_true, Bool.and_false]
      rfl
    have hover : p.steppedOver jvm ⟨f :: fs, false⟩ = none := by
      unfold StepPlan.steppedOver
      split_ifs
      · exact hin
      · rfl
    simp [hover]

/-- The first instruction of the activation on another line is at the target or behind it and comes before any stop
point; if the activation's frame is popped before that, there was a stop point. -/
def StopPointsInTime (jvm : Jvm Class Method) (p : StepPlan Class Method) (method : Method) (location : ℕ)
    (j₀ : JvmThread Method) (es : List (Exec Method)) : Prop :=
  ∀ pre j e, OnLine jvm method location j₀ es pre j e →
    (∀ l, e = .instr l → leavesLine jvm method location j e = true →
      (p.points jvm).first jvmStep true j₀ pre = none ∧ p.reached jvm method l = true) ∧
    (e = .pop → j.inOrigin = true → ((p.points jvm).first jvmStep true j₀ pre).isSome)

/-- **The stop is not missed** exactly when the stop points come in time. -/
theorem neverMisses_iff {d d' : Stepper Class Method} (h : d.Installed) {method : Method} {location : ℕ}
    (hn : d.nextLine jvm method location = some d') (below : List (Method × Bool)) (exiting : Bool)
    (es : List (Exec Method)) : NeverMisses jvm d' method location (.stoppedIn method below exiting) es ↔
      StopPointsInTime jvm d'.plan method location (.stoppedIn method below exiting) es := by
  have hsim := simulates_nextLine h hn below exiting
  refine forall_congr' fun pre => forall_congr' fun j => forall_congr' fun e => forall_congr' fun hon => ?_
  rw [firstStop_eq hsim, Observer.first_concat hon.run hon.enabled]
  have horigin : OriginAt method j.frames :=
    run_inv (I := fun j => OriginAt method j.frames) originAt_step pre _ j (originAt_stoppedIn method below exiting)
      hon.run
  have hstep := hon.enabled
  generalize (d'.plan.points jvm).after jvmStep true (.stoppedIn method below exiting) pre = quiet
  have hinstr : ∀ l, e = .instr l → leavesLine jvm method location j e = true →
      (d'.plan.points jvm).reports quiet j e = d'.plan.reached jvm method l := by
    rintro l rfl hleaves
    obtain ⟨frames, exiting⟩ := j
    cases frames with
    | nil => cases hstep
    | cons f fs =>
      cases exiting with
      | true => cases hstep
      | false => exact horigin.point_eq (Bool.and_eq_true_iff.mp hleaves).1 d'.plan quiet l
  have hlt : ∀ i, (d'.plan.points jvm).first jvmStep true (.stoppedIn method below exiting) pre = some i →
      i < pre.length := fun i hi => Observer.first_lt hi
  generalize (d'.plan.points jvm).first jvmStep true (.stoppedIn method below exiting) pre = firstPoint at hlt
  refine and_congr ⟨fun hfirst l hl hleaves => ?_, fun hfirst hleaves => ?_⟩ (imp_congr_right fun he => ?_)
  · have h := hfirst hleaves
    rw [hinstr l hl hleaves] at h
    cases firstPoint with
    | some i =>
      have hi := hlt i rfl
      have heq : i = pre.length := Option.some.inj h
      omega
    | none =>
      refine ⟨rfl, ?_⟩
      by_contra hr
      rw [if_neg hr] at h
      simp at h
  · cases e with
    | instr l =>
      obtain ⟨rfl, hr⟩ := hfirst l rfl hleaves
      rw [hinstr l rfl hleaves, hr]
      rfl
    | _ => cases hleaves
  · -- the frame is popped without an event
    have hpop : (d'.plan.points jvm).reports quiet j e = false := by
      subst he
      obtain ⟨frames, exiting⟩ := j
      cases frames <;> rfl
    rw [hpop]
    cases firstPoint <;> rfl

/-- The thread goes straight on to the second line. -/
theorem straight_neverMisses :
    NeverMisses mainJvm (afterNextLine 0) () 0 (.stoppedIn () [] false) [.instr 3, .instr 5] := by
  have hn : Stepper.initJvmtiCallbacks.nextLine mainJvm () 0 = some (afterNextLine 0) := rfl
  refine (neverMisses_iff installed_init hn [] false _).mpr ?_
  rintro pre j e ⟨hpre, hrun, -, -⟩
  cases pre with
  | nil =>
    obtain rfl : e = .instr 3 := (List.cons_prefix_cons.mp hpre).1
    obtain rfl := Option.some.inj hrun
    exact ⟨fun l _ hleaves => absurd hleaves (by decide), fun he => by simp at he⟩
  | cons a pre =>
    obtain ⟨rfl, hpre'⟩ := List.cons_prefix_cons.mp hpre
    cases pre with
    | nil =>
      obtain rfl : e = .instr 5 := (List.cons_prefix_cons.mp hpre').1
      refine ⟨fun l hl _ => ?_, fun he => by cases he⟩
      cases hl
      exact ⟨rfl, rfl⟩
    | cons b pre =>
      have hlen := (List.cons_prefix_cons.mp hpre').2.length_le
      simp at hlen

/-- On the second line the method jumps back to the first one. -/
theorem backwardJump_misses : ¬ NeverMisses mainJvm (afterNextLine 5) () 5 (.stoppedIn () [] false) [.instr 0] := by
  intro h
  have hon : OnLine mainJvm () 5 (.stoppedIn () [] false) [.instr 0] [] (.stoppedIn () [] false) (.instr 0) :=
    ⟨List.prefix_rfl, rfl, rfl, trivial⟩
  have hfirst := (h [] _ _ hon).1 (by decide)
  exact absurd hfirst (by decide)

end NeverMisses

end YellowTree
