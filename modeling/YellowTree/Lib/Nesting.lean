import YellowTree.Lib.Transition

/-!
# Nesting — traces in which every call returns

A trace is well nested when every call in it is followed, behind a well-nested trace, by its return; a return may
consist of several events.  `WellNested.along` is induction over such traces for a transition system: an invariant that
is indexed by the activation, with a relation between an activation and the ones called from it.
-/

namespace Nesting

open Transition

variable {σ ε τ : Type*} {step : σ → ε → Option σ}

/-- Well-nested traces over plain events, calls and returns. -/
inductive WellNested (plain call : ε → Prop) (ret : List ε → Prop) : List ε → Prop where
  | nil : WellNested plain call ret []
  | plain (e : ε) (es : List ε) (he : plain e) (hes : WellNested plain call ret es) :
      WellNested plain call ret (e :: es)
  | call (c : ε) (inner r rest : List ε) (hc : call c) (hr : ret r) (hinner : WellNested plain call ret inner)
      (hrest : WellNested plain call ret rest) : WellNested plain call ret (c :: (inner ++ (r ++ rest)))

variable {plain call : ε → Prop} {ret : List ε → Prop} {C : σ → ε → σ → Prop} {I : τ → σ → Prop}

/-- **Induction over a well-nested trace.**  Plain events keep the invariant of the activation, a call leads to that of
a called one, and the return from there back; all steps on the way have `C`. -/
theorem WellNested.along (calls : τ → τ → Prop)
    (hplain : ∀ x s e s', plain e → I x s → step s e = some s' → C s e s' ∧ I x s')
    (hcall : ∀ x s c s', call c → I x s → step s c = some s' → C s c s' ∧ ∃ y, calls x y ∧ I y s')
    (hret : ∀ x y s r, ret r → calls x y → I y s → EachStep step C s r ∧ ∀ s', run step s r = some s' → I x s')
    {es : List ε} (h : WellNested plain call ret es) {x : τ} {s : σ} (hI : I x s) :
    EachStep step C s es ∧ ∀ s', run step s es = some s' → I x s' := by
  induction h generalizing x s with
  | nil =>
    refine ⟨trivial, fun s' hs' => ?_⟩
    obtain rfl := Option.some.inj hs'
    exact hI
  | plain e es he _ ih =>
    refine ⟨fun t ht => ?_, fun s' hs' => ?_⟩
    · obtain ⟨hC, hIt⟩ := hplain x s e t he hI ht
      exact ⟨hC, (ih hIt).1⟩
    · rw [run_cons, Option.bind_eq_some_iff] at hs'
      obtain ⟨t, ht, hs'⟩ := hs'
      exact (ih (hplain x s e t he hI ht).2).2 s' hs'
  | call c inner r rest hc hr _ _ ihinner ihrest =>
    -- the trace behind the call: the called activation, its return and the rest
    have hbody : ∀ t, step s c = some t → C s c t ∧ EachStep step C t (inner ++ (r ++ rest)) ∧
        ∀ s', run step t (inner ++ (r ++ rest)) = some s' → I x s' := by
      intro t ht
      obtain ⟨hC, y, hcalls, hIt⟩ := hcall x s c t hc hI ht
      obtain ⟨hinner, hIinner⟩ := ihinner hIt
      refine ⟨hC, eachStep_append.mpr ⟨hinner, fun u hu => eachStep_append.mpr ?_⟩, fun s' hs' => ?_⟩
      · obtain ⟨hreturn, hIreturn⟩ := hret x y u r hr hcalls (hIinner u hu)
        exact ⟨hreturn, fun v hv => (ihrest (hIreturn v hv)).1⟩
      · rw [run_append, Option.bind_eq_some_iff] at hs'
        obtain ⟨u, hu, hs'⟩ := hs'
        rw [run_append, Option.bind_eq_some_iff] at hs'
        obtain ⟨v, hv, hs'⟩ := hs'
        exact (ihrest ((hret x y u r hr hcalls (hIinner u hu)).2 v hv)).2 s' hs'
    refine ⟨fun t ht => ⟨(hbody t ht).1, (hbody t ht).2.1⟩, fun s' hs' => ?_⟩
    rw [run_cons, Option.bind_eq_some_iff] at hs'
    obtain ⟨t, ht, hs'⟩ := hs'
    exact (hbody t ht).2.2 s' hs'

end Nesting
