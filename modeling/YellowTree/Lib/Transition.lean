import Mathlib.Data.List.Infix

/-!
# Transition — partial step functions and what holds along a run

`step s e` is the state after the event `e`, or `none` when `e` is not enabled in `s`; `run` iterates it over a
list of events.  Two predicates speak about the run from `s` along `es` as a whole:

* `Always step P s es`: `P` holds of every state reached;
* `EachStep step C s es`: `C` holds of every step taken (state before, event, state after).

`always_of_inv` carries an invariant along a run whose steps all meet a condition.  `always_iff_eachStep` says when
such a condition is exact: the invariant survives the steps that meet it, and a step that does not meet it breaks
the property at once.
-/

namespace Transition

variable {σ ε : Type*} {step : σ → ε → Option σ}

/-! ## Runs -/

section Runs

/-- The state after the events `es`, `none` if one of them is not enabled. -/
def run (step : σ → ε → Option σ) : σ → List ε → Option σ
  | s, [] => some s
  | s, e :: es => (step s e).bind (run step · es)

@[simp] theorem run_nil (s : σ) : run step s [] = some s := rfl

@[simp] theorem run_cons (s : σ) (e : ε) (es : List ε) :
    run step s (e :: es) = (step s e).bind (run step · es) := rfl

theorem run_append (s : σ) (es fs : List ε) :
    run step s (es ++ fs) = (run step s es).bind (run step · fs) := by
  induction es generalizing s with
  | nil => rfl
  | cons e es ih =>
    simp only [List.cons_append, run_cons, Option.bind_assoc]
    exact congrArg _ (funext ih)

/-- A run one event longer ends with one step. -/
theorem run_concat_eq_some {s s' : σ} {es : List ε} {e : ε} :
    run step s (es ++ [e]) = some s' ↔ ∃ t, run step s es = some t ∧ step t e = some s' := by
  rw [run_append, Option.bind_eq_some_iff]
  simp

/-- What holds at the start and is kept by every step holds after every run. -/
theorem run_inv {I : σ → Prop} (hstep : ∀ s e s', I s → step s e = some s' → I s') :
    ∀ (es : List ε) (s s' : σ), I s → run step s es = some s' → I s'
  | [], s, s', hI, h => by
    obtain rfl : s = s' := by simpa using h
    exact hI
  | e :: es, s, s', hI, h => by
    rw [run_cons, Option.bind_eq_some_iff] at h
    obtain ⟨t, ht, h⟩ := h
    exact run_inv hstep es t s' (hstep s e t hI ht) h

end Runs

/-! ## Properties of a whole run -/

section Along

/-- `P` holds of every state that the run from `s` along `es` reaches. -/
def Always (step : σ → ε → Option σ) (P : σ → Prop) : σ → List ε → Prop
  | s, [] => P s
  | s, e :: es => P s ∧ ∀ s', step s e = some s' → Always step P s' es

/-- `C` holds of every step that the run from `s` along `es` takes. -/
def EachStep (step : σ → ε → Option σ) (C : σ → ε → σ → Prop) : σ → List ε → Prop
  | _, [] => True
  | s, e :: es => ∀ s', step s e = some s' → C s e s' ∧ EachStep step C s' es

variable {P : σ → Prop} {C D : σ → ε → σ → Prop}

theorem Always.head {s : σ} {es : List ε} (h : Always step P s es) : P s := by
  cases es with
  | nil => exact h
  | cons e es => exact h.1

/-- `Always` in terms of `run`: `P` after every prefix of the events. -/
theorem always_iff {es : List ε} {s : σ} :
    Always step P s es ↔ ∀ pre, pre <+: es → ∀ s', run step s pre = some s' → P s' := by
  induction es generalizing s with
  | nil =>
    simp only [List.prefix_nil, forall_eq, run_nil, Option.some.injEq, forall_eq']
    rfl
  | cons e es ih =>
    constructor
    · rintro ⟨hP, h⟩ pre hpre s' hs'
      cases pre with
      | nil => simp only [run_nil, Option.some.injEq] at hs'; exact hs' ▸ hP
      | cons e' pre =>
        obtain ⟨rfl, hpre'⟩ := List.cons_prefix_cons.mp hpre
        rw [run_cons, Option.bind_eq_some_iff] at hs'
        obtain ⟨t, ht, hs'⟩ := hs'
        exact ih.mp (h t ht) pre hpre' s' hs'
    · intro h
      refine ⟨h [] List.nil_prefix s rfl, fun t ht => ih.mpr fun pre hpre s' hs' => ?_⟩
      exact h (e :: pre) (List.cons_prefix_cons.mpr ⟨rfl, hpre⟩) s' (by rw [run_cons, ht]; exact hs')

/-- `EachStep` in terms of `run`: `C` of the last step of every prefix of the events. -/
theorem eachStep_iff {es : List ε} {s : σ} :
    EachStep step C s es ↔
      ∀ pre e, pre ++ [e] <+: es → ∀ t s', run step s pre = some t → step t e = some s' → C t e s' := by
  induction es generalizing s with
  | nil => exact ⟨fun _ pre e h => by simp at h, fun _ => trivial⟩
  | cons e es ih =>
    constructor
    · intro h pre e' hpre t s' ht hs'
      cases pre with
      | nil =>
        obtain ⟨rfl, -⟩ := List.cons_prefix_cons.mp hpre
        obtain rfl : s = t := by simpa using ht
        exact (h s' hs').1
      | cons d pre =>
        obtain ⟨rfl, hpre'⟩ := List.cons_prefix_cons.mp hpre
        rw [run_cons, Option.bind_eq_some_iff] at ht
        obtain ⟨u, hu, ht⟩ := ht
        exact ih.mp (h u hu).2 pre e' hpre' t s' ht hs'
    · intro h u hu
      refine ⟨h [] e (by simp) s u rfl hu, ih.mpr fun pre e' hpre t s' ht hs' => ?_⟩
      exact h (e :: pre) e' (List.cons_prefix_cons.mpr ⟨rfl, hpre⟩) t s' (by rw [run_cons, hu]; exact ht) hs'

theorem eachStep_cons {s t : σ} {e : ε} {es : List ε} (h : step s e = some t) (hC : C s e t)
    (hes : EachStep step C t es) : EachStep step C s (e :: es) := by
  intro s' hs'
  obtain rfl := Option.some.inj (h.symm.trans hs')
  exact ⟨hC, hes⟩

theorem eachStep_append : ∀ {es fs : List ε} {s : σ}, EachStep step C s (es ++ fs) ↔
    EachStep step C s es ∧ ∀ s', run step s es = some s' → EachStep step C s' fs
  | [], fs, s => by simp [EachStep]
  | e :: es, fs, s => by
    simp only [List.cons_append, EachStep, eachStep_append, run_cons, Option.bind_eq_some_iff]
    constructor
    · intro h
      refine ⟨fun t ht => ⟨(h t ht).1, (h t ht).2.1⟩, ?_⟩
      rintro s' ⟨t, ht, hs'⟩
      exact (h t ht).2.2 s' hs'
    · rintro ⟨h, hfs⟩ t ht
      exact ⟨(h t ht).1, (h t ht).2, fun s' hs' => hfs s' ⟨t, ht, hs'⟩⟩

/-- What the events alone guarantee holds of every step. -/
theorem eachStep_of_forall : ∀ {es : List ε} {s : σ}, (∀ e ∈ es, ∀ s s', C s e s') → EachStep step C s es
  | [], _, _ => trivial
  | e :: _, s, h => fun s' _ => ⟨h e List.mem_cons_self s s', eachStep_of_forall fun e' he' =>
      h e' (List.mem_cons_of_mem _ he')⟩

/-- A run that ends outside `P` refutes `Always P`. -/
theorem not_always_of_run {s s' : σ} {es : List ε} (h : run step s es = some s') (hP : ¬ P s') :
    ¬ Always step P s es :=
  fun hA => hP (always_iff.mp hA es (List.prefix_refl es) s' h)

variable {I : σ → Prop}

/-- An invariant kept by the steps that meet `C` holds along every run whose steps all meet `C`. -/
theorem always_of_inv (hstep : ∀ s e s', I s → C s e s' → step s e = some s' → I s') (hP : ∀ s, I s → P s) :
    ∀ (es : List ε) (s : σ), I s → EachStep step C s es → Always step P s es
  | [], s, hI, _ => hP s hI
  | _ :: es, s, hI, h => ⟨hP s hI, fun s' hs' =>
      always_of_inv hstep hP es s' (hstep s _ s' hI (h s' hs').1 hs') (h s' hs').2⟩

/-- The same for a property of steps. -/
theorem eachStep_of_inv (hstep : ∀ s e s', I s → C s e s' → step s e = some s' → I s')
    (hD : ∀ s e s', I s → C s e s' → step s e = some s' → D s e s') :
    ∀ (es : List ε) (s : σ), I s → EachStep step C s es → EachStep step D s es
  | [], _, _, _ => trivial
  | _ :: es, s, hI, h => fun s' hs' => ⟨hD s _ s' hI (h s' hs').1 hs',
      eachStep_of_inv hstep hD es s' (hstep s _ s' hI (h s' hs').1 hs') (h s' hs').2⟩

/-- Under an invariant two properties of steps may be exchanged. -/
theorem eachStep_congr (hstep : ∀ s e s', I s → step s e = some s' → I s')
    (hCD : ∀ s e s', I s → step s e = some s' → (C s e s' ↔ D s e s')) (es : List ε) (s : σ) (hI : I s) :
    EachStep step C s es ↔ EachStep step D s es :=
  ⟨eachStep_of_inv (fun s e s' hI _ => hstep s e s' hI) (fun s e s' hI hC h => (hCD s e s' hI h).mp hC) es s hI,
    eachStep_of_inv (fun s e s' hI _ => hstep s e s' hI) (fun s e s' hI hD h => (hCD s e s' hI h).mpr hD) es s hI⟩

/-- **Exact conditions.**  If the invariant survives every step that meets `C` and gives `P`, and a step that does
not meet `C` leads outside `P`, then `P` holds along a run exactly when all its steps meet `C`. -/
theorem always_iff_eachStep (hstep : ∀ s e s', I s → C s e s' → step s e = some s' → I s')
    (hP : ∀ s, I s → P s) (hbad : ∀ s e s', I s → ¬ C s e s' → step s e = some s' → ¬ P s') :
    ∀ (es : List ε) (s : σ), I s → (Always step P s es ↔ EachStep step C s es) := by
  refine fun es s hI => ⟨fun hA => ?_, always_of_inv hstep hP es s hI⟩
  induction es generalizing s with
  | nil => trivial
  | cons e es ih =>
    intro s' hs'
    have hC : C s e s' := by
      by_contra hC
      exact hbad s e s' hI hC hs' (hA.2 s' hs').head
    exact ⟨hC, ih s' (hstep s e s' hI hC hs') (hA.2 s' hs')⟩

/-- The same for a property of states together with one of steps. -/
theorem always_and_eachStep_iff (hstep : ∀ s e s', I s → C s e s' → step s e = some s' → I s')
    (hP : ∀ s, I s → P s) (hD : ∀ s e s', I s → C s e s' → step s e = some s' → D s e s')
    (hbad : ∀ s e s', I s → ¬ C s e s' → step s e = some s' → D s e s' → ¬ P s') :
    ∀ (es : List ε) (s : σ), I s → (Always step P s es ∧ EachStep step D s es ↔ EachStep step C s es) := by
  intro es s hI
  constructor
  · rintro ⟨hA, hE⟩
    induction es generalizing s with
    | nil => trivial
    | cons e es ih =>
      intro s' hs'
      have hC : C s e s' := by
        by_contra hC
        exact hbad s e s' hI hC hs' (hE s' hs').1 (hA.2 s' hs').head
      exact ⟨hC, ih s' (hstep s e s' hI hC hs') (hA.2 s' hs') (hE s' hs').2⟩
  · intro hC
    exact ⟨always_of_inv hstep hP es s hI hC, eachStep_of_inv hstep hD es s hI hC⟩

end Along

end Transition
