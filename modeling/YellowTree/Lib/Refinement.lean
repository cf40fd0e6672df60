import YellowTree.Lib.Transition

/-!
# Refinement — one transition system does what another one does

`act s e` says what the event `e`, taken in `s`, is for an observer: an action of a second system, or nothing.
`trace act step s es` are the actions of the run from `s` along `es`.  When each step of the first system is, under
`abs`, the step of the second that it stands for, or leaves `abs` as it is, the trace of every run is a run of the
second (`run_trace`).  `run_map_iff` is about a second system that takes the same events.
-/

namespace Transition

variable {σ ε τ α : Type*} {step : σ → ε → Option σ} {astep : τ → α → Option τ} {act : σ → ε → Option α}

/-- The actions of the run from `s` along `es`. -/
def trace (act : σ → ε → Option α) (step : σ → ε → Option σ) : σ → List ε → List α
  | _, [] => []
  | s, e :: es => (act s e).toList ++ (step s e).elim [] (trace act step · es)

@[simp] theorem trace_nil (s : σ) : trace act step s [] = [] := rfl

theorem trace_cons {s s' : σ} {e : ε} {es : List ε} (h : step s e = some s') :
    trace act step s (e :: es) = (act s e).toList ++ trace act step s' es := by
  rw [trace, h]
  rfl

theorem trace_append {es fs : List ε} {s s' : σ} (h : run step s es = some s') :
    trace act step s (es ++ fs) = trace act step s es ++ trace act step s' fs := by
  induction es generalizing s with
  | nil =>
    obtain rfl : s = s' := by simpa using h
    rfl
  | cons e es ih =>
    rw [run_cons, Option.bind_eq_some_iff] at h
    obtain ⟨t, ht, h⟩ := h
    rw [List.cons_append, trace_cons ht, trace_cons ht, ih h, List.append_assoc]

variable (act) in
/-- An action of the trace is that of a step of the run. -/
theorem exists_of_mem_trace {P : α → Prop} {I : σ → Prop} {C : σ → ε → σ → Prop}
    (hstep : ∀ s e s', I s → C s e s' → step s e = some s' → I s' ∧ ∀ a, act s e = some a → P a) :
    ∀ {es : List ε} {s s' : σ}, I s → EachStep step C s es → run step s es = some s' →
      ∀ a ∈ trace act step s es, P a
  | [], _, _, _, _, _, a, ha => by cases ha
  | e :: es, s, s', hI, hC, h, a, ha => by
    rw [run_cons, Option.bind_eq_some_iff] at h
    obtain ⟨t, ht, h⟩ := h
    obtain ⟨hCe, hC'⟩ := hC t ht
    obtain ⟨hIt, hP⟩ := hstep s e t hI hCe ht
    rw [trace_cons ht, List.mem_append] at ha
    rcases ha with ha | ha
    · exact hP a (Option.mem_toList.mp ha)
    · exact exists_of_mem_trace hstep hIt hC' h a ha

/-- **Refinement**: the trace of a run whose steps all meet `C` is a run of the abstract system. -/
theorem run_trace (abs : σ → τ) {I : σ → Prop} {C : σ → ε → σ → Prop}
    (hstep : ∀ s e s', I s → C s e s' → step s e = some s' →
      I s' ∧ run astep (abs s) (act s e).toList = some (abs s')) :
    ∀ {es : List ε} {s s' : σ}, I s → EachStep step C s es → run step s es = some s' →
      run astep (abs s) (trace act step s es) = some (abs s')
  | [], s, s', _, _, h => by
    obtain rfl : s = s' := by simpa using h
    rfl
  | e :: es, s, s', hI, hC, h => by
    rw [run_cons, Option.bind_eq_some_iff] at h
    obtain ⟨t, ht, h⟩ := h
    obtain ⟨hCe, hC'⟩ := hC t ht
    obtain ⟨hIt, habs⟩ := hstep s e t hI hCe ht
    rw [trace_cons ht, run_append, habs, Option.bind_some]
    exact run_trace abs hstep hIt hC' h

/-- **Lockstep**: where the second system takes the step that `f` says of each step that meets `C`, and is stuck at any
other, it follows a run to its end exactly when all steps meet `C`. -/
theorem run_map_iff (f : σ → τ) {tstep : τ → ε → Option τ} {I : σ → Prop} {P C : σ → ε → σ → Prop}
    (hstep : ∀ s e s', I s → P s e s' → step s e = some s' →
      I s' ∧ (C s e s' → tstep (f s) e = some (f s')) ∧ (¬ C s e s' → tstep (f s) e = none)) :
    ∀ {es : List ε} {s s' : σ}, I s → EachStep step P s es → run step s es = some s' →
      (run tstep (f s) es = some (f s') ↔ EachStep step C s es)
  | [], s, s', _, _, h => by
    obtain rfl : s = s' := by simpa using h
    exact iff_of_true rfl trivial
  | e :: es, s, s', hI, hP, h => by
    rw [run_cons, Option.bind_eq_some_iff] at h
    obtain ⟨t, ht, h⟩ := h
    obtain ⟨hPe, hP'⟩ := hP t ht
    obtain ⟨hIt, hyes, hno⟩ := hstep s e t hI hPe ht
    have ih := run_map_iff f hstep hIt hP' h
    rw [run_cons]
    by_cases hC : C s e t
    · rw [hyes hC, Option.bind_some, ih]
      exact ⟨eachStep_cons ht hC, fun hall => (hall t ht).2⟩
    · rw [hno hC, Option.bind_none]
      exact iff_of_false (fun hnone => by cases hnone) fun hall => hC (hall t ht).1

/-- A run of the abstract system can be followed when each action can, from any concrete state that stands for the
abstract one to another such state. -/
theorem exists_run_of_run {R : σ → τ → Prop} {P : List ε → Prop} {Q : α → Prop} (hnil : P [])
    (happend : ∀ es fs, P es → P fs → P (es ++ fs))
    (hact : ∀ s t a t', R s t → Q a → astep t a = some t' →
      ∃ es s', P es ∧ run step s es = some s' ∧ trace act step s es = [a] ∧ R s' t') :
    ∀ {as : List α} {s : σ} {t t' : τ}, R s t → (∀ a ∈ as, Q a) → run astep t as = some t' →
      ∃ es s', P es ∧ run step s es = some s' ∧ trace act step s es = as ∧ R s' t'
  | [], s, t, t', hR, _, h => by
    obtain rfl : t = t' := by simpa using h
    exact ⟨[], s, hnil, rfl, rfl, hR⟩
  | a :: as, s, t, t', hR, hQ, h => by
    rw [run_cons, Option.bind_eq_some_iff] at h
    obtain ⟨u, hu, h⟩ := h
    obtain ⟨es, r, hP, hrun, htrace, hR'⟩ := hact s t a u hR (hQ a List.mem_cons_self) hu
    obtain ⟨fs, s', hP', hrun', htrace', hR''⟩ :=
      exists_run_of_run hnil happend hact hR' (fun b hb => hQ b (List.mem_cons_of_mem _ hb)) h
    refine ⟨es ++ fs, s', happend es fs hP hP', ?_, ?_, hR''⟩
    · rw [run_append, hrun, Option.bind_some, hrun']
    · rw [trace_append hrun, htrace, htrace']
      rfl

end Transition
