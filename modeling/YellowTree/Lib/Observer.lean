import Mathlib.Data.List.Infix
import YellowTree.Lib.Transition

/-!
# Observer — what an observer of a run reports first

An `Observer` keeps a state of its own, updated by every step of a transition system that it sees, and reports some
of the steps; it does not influence the run.  `first` is the number of steps before the first reported one.

* `first_eq_of_simulates`: two observers report the same step first if a relation between their states makes them
  report the same steps and is kept by every step that they do not report.
* `UpToFirst`: a property of every step up to the first reported one, and of this one.
-/

open Transition

/-- An observer with states `τ`. -/
structure Observer (σ ε τ : Type*) where
  next : τ → σ → ε → τ
  reports : τ → σ → ε → Bool

namespace Observer

variable {σ ε τ τ' : Type*} {step : σ → ε → Option σ}

/-! ## The first reported step -/

section First

/-- The number of steps of the run from `s` along `es` before the first reported one; `none` if no step is reported. -/
def first (step : σ → ε → Option σ) (O : Observer σ ε τ) : τ → σ → List ε → Option ℕ
  | _, _, [] => none
  | t, s, e :: es =>
    match step s e with
    | none => none
    | some s' => if O.reports t s e then some 0 else (first step O (O.next t s e) s' es).map Nat.succ

/-- The state of the observer after the run. -/
def after (step : σ → ε → Option σ) (O : Observer σ ε τ) : τ → σ → List ε → τ
  | t, _, [] => t
  | t, s, e :: es =>
    match step s e with
    | none => t
    | some s' => after step O (O.next t s e) s' es

variable {O : Observer σ ε τ} {t : τ} {s s' : σ} {e : ε} {es : List ε}

theorem first_cons_of_reports (h : step s e = some s') (hr : O.reports t s e = true) :
    O.first step t s (e :: es) = some 0 := by
  rw [first, h]
  exact if_pos hr

theorem first_cons_of_not_reports (h : step s e = some s') (hr : O.reports t s e = false) :
    O.first step t s (e :: es) = (O.first step (O.next t s e) s' es).map Nat.succ := by
  rw [first, h]
  exact if_neg (by simp [hr])

/-- A step more: the first report is the one before, or the new step is reported. -/
theorem first_concat (h : run step s es = some s') (he : (step s' e).isSome) :
    O.first step t s (es ++ [e]) =
      (O.first step t s es).or (if O.reports (O.after step t s es) s' e then some es.length else none) := by
  induction es generalizing s t with
  | nil =>
    obtain rfl : s = s' := by simpa using h
    obtain ⟨u, hu⟩ := Option.isSome_iff_exists.mp he
    show O.first step t s [e] = none.or (if O.reports t s e then some 0 else none)
    by_cases hr : O.reports t s e = true
    · rw [first_cons_of_reports hu hr, if_pos hr]
      rfl
    · rw [Bool.not_eq_true] at hr
      rw [first_cons_of_not_reports hu hr, hr]
      rfl
  | cons d es ih =>
    rw [run_cons, Option.bind_eq_some_iff] at h
    obtain ⟨u, hu, h⟩ := h
    rw [List.cons_append]
    by_cases hr : O.reports t s d = true
    · rw [first_cons_of_reports hu hr, first_cons_of_reports hu hr]
      rfl
    · rw [Bool.not_eq_true] at hr
      rw [first_cons_of_not_reports hu hr, first_cons_of_not_reports hu hr, ih h, after, hu]
      cases O.first step (O.next t s d) u es with
      | some i => rfl
      | none =>
        rw [Option.none_or, Option.map_none, Option.none_or]
        split_ifs <;> rfl

/-- The first report lies inside the run. -/
theorem first_lt {i : ℕ} (h : O.first step t s es = some i) : i < es.length := by
  induction es generalizing s t i with
  | nil => cases h
  | cons e es ih =>
    unfold first at h
    cases hs : step s e with
    | none => rw [hs] at h; cases h
    | some s' =>
      rw [hs] at h
      dsimp only at h
      split_ifs at h
      · obtain rfl := Option.some.inj h
        exact Nat.succ_pos _
      · obtain ⟨k, hk, rfl⟩ := Option.map_eq_some_iff.mp h
        exact Nat.succ_lt_succ (ih hk)

end First

/-! ## Two observers of one run -/

section Simulation

variable {O : Observer σ ε τ} {O' : Observer σ ε τ'} {R : τ → τ' → σ → Prop}

/-- **Simulation.**  Observers whose related states report the same steps, and stay related over a step that is not
reported, report the same step first. -/
theorem first_eq_of_simulates
    (hreports : ∀ t t' s e s', R t t' s → step s e = some s' → O.reports t s e = O'.reports t' s e)
    (hnext : ∀ t t' s e s', R t t' s → step s e = some s' → O'.reports t' s e = false →
      R (O.next t s e) (O'.next t' s e) s') :
    ∀ (es : List ε) (t : τ) (t' : τ') (s : σ), R t t' s → O.first step t s es = O'.first step t' s es
  | [], _, _, _, _ => rfl
  | e :: es, t, t', s, hR => by
    cases hs : step s e with
    | none => rw [first, first, hs]
    | some s' =>
      have hrep := hreports t t' s e s' hR hs
      by_cases hr : O'.reports t' s e = true
      · rw [first_cons_of_reports hs hr, first_cons_of_reports hs (hrep.trans hr)]
      · rw [Bool.not_eq_true] at hr
        rw [first_cons_of_not_reports hs hr, first_cons_of_not_reports hs (hrep.trans hr),
          first_eq_of_simulates hreports hnext es _ _ _ (hnext t t' s e s' hR hs hr)]

end Simulation

/-! ## Up to the first report -/

section UpToFirst

/-- `C` holds of every step up to the first reported one, and of this one. -/
def UpToFirst (step : σ → ε → Option σ) (O : Observer σ ε τ) (C : τ → σ → ε → Prop) : τ → σ → List ε → Prop
  | _, _, [] => True
  | t, s, e :: es => ∀ s', step s e = some s' →
      C t s e ∧ (O.reports t s e = false → UpToFirst step O C (O.next t s e) s' es)

variable {O : Observer σ ε τ} {P : σ → Prop}

theorem upToFirst_cons {C : τ → σ → ε → Prop} {t : τ} {s s' : σ} {e : ε} {es : List ε} (h : step s e = some s')
    (hC : C t s e) (hes : O.UpToFirst step C (O.next t s e) s' es) : O.UpToFirst step C t s (e :: es) := by
  intro u hu
  obtain rfl := Option.some.inj (h.symm.trans hu)
  exact ⟨hC, fun _ => hes⟩

/-- The first reported step is taken in a state with `P` exactly when, up to it, no step outside `P` is reported. -/
theorem forall_first_iff {es : List ε} {t : τ} {s : σ} :
    (∀ i, O.first step t s es = some i → ∀ u, run step s (es.take i) = some u → P u) ↔
      O.UpToFirst step (fun t s e => ¬ P s → O.reports t s e = false) t s es := by
  induction es generalizing t s with
  | nil => exact ⟨fun _ => trivial, fun _ i hi => by cases hi⟩
  | cons e es ih =>
    constructor
    · intro h s' hs'
      by_cases hr : O.reports t s e = true
      · have hPs : P s := h 0 (first_cons_of_reports hs' hr) s rfl
        exact ⟨fun hn => absurd hPs hn, fun hf => absurd (hr.symm.trans hf) (by decide)⟩
      · rw [Bool.not_eq_true] at hr
        refine ⟨fun _ => hr, fun _ => ih.mp fun i hi u hu => h (i + 1) ?_ u ?_⟩
        · rw [first_cons_of_not_reports hs' hr, hi]
          rfl
        · rw [List.take_succ_cons, run_cons, hs']
          exact hu
    · intro h i hi u hu
      cases hs : step s e with
      | none => rw [first, hs] at hi; cases hi
      | some s' =>
        obtain ⟨hC, hrest⟩ := h s' hs
        by_cases hr : O.reports t s e = true
        · obtain rfl := Option.some.inj ((first_cons_of_reports hs hr).symm.trans hi)
          obtain rfl : s = u := by simpa using hu
          by_contra hPs
          exact absurd (hr.symm.trans (hC hPs)) (by decide)
        · rw [Bool.not_eq_true] at hr
          rw [first_cons_of_not_reports hs hr] at hi
          obtain ⟨k, hk, rfl⟩ := Option.map_eq_some_iff.mp hi
          rw [List.take_succ_cons, run_cons, hs] at hu
          exact ih.mpr (hrest hr) k hk u hu

theorem UpToFirst.congr {C D : τ → σ → ε → Prop} (hCD : ∀ t s e s', step s e = some s' → (C t s e ↔ D t s e))
    {es : List ε} {t : τ} {s : σ} : O.UpToFirst step C t s es ↔ O.UpToFirst step D t s es := by
  induction es generalizing t s with
  | nil => exact Iff.rfl
  | cons e es ih =>
    refine forall_congr' fun s' => forall_congr' fun hs' => ?_
    rw [hCD t s e s' hs', ih]

end UpToFirst

end Observer
