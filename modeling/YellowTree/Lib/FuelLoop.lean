import Mathlib.Order.Basic

/-!
# FuelLoop — programs with a state that may raise errors or run out of fuel

A result is a value with a state, an error, or no answer yet.  More fuel may only turn the last into something else
(`Le`).  `loop` runs a body over a list with an accumulator.

* `le_loop`: a loop whose body has more fuel answers no less.
* `ends_loop_iff`: when a condition on the state cannot come back once it is lost, a loop ends with it exactly when
  every round would, from the states of an invariant.
-/

namespace FuelLoop

variable {ε σ α β ι : Type*}

/-! ## Results -/

section Result

inductive Result (ε σ α : Type*) where
  | outOfFuel
  | error (e : ε)
  | ok (a : α) (s : σ)

def Result.bind (r : Result ε σ α) (f : α → σ → Result ε σ β) : Result ε σ β :=
  match r with
  | .outOfFuel => .outOfFuel
  | .error e => .error e
  | .ok a s => f a s

/-- The second result is the first one, unless this has no answer yet. -/
def Le (r r' : Result ε σ α) : Prop := r ≠ .outOfFuel → r' = r

/-- The program ends without an error in a state with `Q`. -/
def Ends (Q : σ → Prop) (r : Result ε σ α) : Prop := ∃ a s, r = .ok a s ∧ Q s

variable {r r' : Result ε σ α} {f f' : α → σ → Result ε σ β} {Q : σ → Prop} {a : α} {s : σ}

theorem le_refl (r : Result ε σ α) : Le r r := fun _ => rfl

theorem le_trans {r'' : Result ε σ α} (h : Le r r') (h' : Le r' r'') : Le r r'' := by
  intro hr
  rw [h' (by rw [h hr]; exact hr), h hr]

theorem bind_eq_ok_iff {b : β} {s' : σ} : r.bind f = .ok b s' ↔ ∃ a s, r = .ok a s ∧ f a s = .ok b s' := by
  cases r with
  | outOfFuel => exact iff_of_false (by simp [Result.bind]) (by simp)
  | error e => exact iff_of_false (by simp [Result.bind]) (by simp)
  | ok a s =>
    constructor
    · exact fun h => ⟨a, s, rfl, h⟩
    · rintro ⟨a', s'', h, hf⟩
      obtain ⟨rfl, rfl⟩ := Result.ok.inj h
      exact hf

theorem le_bind (hr : Le r r') (hf : ∀ a s, Le (f a s) (f' a s)) : Le (r.bind f) (r'.bind f') := by
  intro h
  cases r with
  | outOfFuel => exact absurd rfl h
  | error e =>
    rw [hr (by simp)]
    rfl
  | ok a s =>
    rw [hr (by simp)]
    exact hf a s h

theorem bind_ne_outOfFuel (hr : r ≠ .outOfFuel) (hf : ∀ a s, r = .ok a s → f a s ≠ .outOfFuel) :
    r.bind f ≠ .outOfFuel := by
  cases r with
  | outOfFuel => exact absurd rfl hr
  | error e => simp [Result.bind]
  | ok a s => exact hf a s rfl

@[simp] theorem ends_ok : Ends Q (Result.ok a s : Result ε σ α) ↔ Q s := by
  constructor
  · rintro ⟨a', s', h, hQ⟩
    obtain ⟨-, rfl⟩ := Result.ok.inj h
    exact hQ
  · exact fun hQ => ⟨a, s, rfl, hQ⟩

@[simp] theorem not_ends_error {e : ε} : ¬ Ends Q (Result.error e : Result ε σ α) := by
  rintro ⟨a, s, h, -⟩
  cases h

theorem ends_bind_iff : Ends Q (r.bind f) ↔ ∃ a s, r = .ok a s ∧ Ends Q (f a s) := by
  constructor
  · rintro ⟨b, s', h, hQ⟩
    obtain ⟨a, s, hr, hf⟩ := bind_eq_ok_iff.mp h
    exact ⟨a, s, hr, b, s', hf, hQ⟩
  · rintro ⟨a, s, rfl, h⟩
    exact h

end Result

/-! ## Loops over a list -/

section Loop

/-- The body takes an element and the accumulator. -/
def loop (body : ι → α → σ → Result ε σ α) : List ι → α → σ → Result ε σ α
  | [], a, s => .ok a s
  | i :: is, a, s => (body i a s).bind (loop body is)

variable {body body' : ι → α → σ → Result ε σ α} {P Q : σ → Prop} {Good : ι → Prop}

theorem le_loop (h : ∀ i a s, Le (body i a s) (body' i a s)) :
    ∀ (is : List ι) (a : α) (s : σ), Le (loop body is a s) (loop body' is a s)
  | [], _, _ => le_refl _
  | i :: is, a, s => le_bind (h i a s) (le_loop h is)

/-- What a round cannot bring back a loop cannot. -/
theorem loop_back (hback : ∀ i a s a' s', body i a s = .ok a' s' → Q s' → Q s) :
    ∀ (is : List ι) (a : α) (s : σ) (a' : α) (s' : σ), loop body is a s = .ok a' s' → Q s' → Q s
  | [], _, _, _, _, h, hQ => by
    obtain ⟨-, rfl⟩ := Result.ok.inj h
    exact hQ
  | i :: is, a, s, a', s', h, hQ => by
    obtain ⟨b, t, hi, his⟩ := bind_eq_ok_iff.mp h
    exact hback i a s b t hi (loop_back hback is b t a' s' his hQ)

/-- An invariant of the rounds that end with `Q` holds at the end of a loop that does. -/
theorem loop_keep (hback : ∀ i a s a' s', body i a s = .ok a' s' → Q s' → Q s)
    (hkeep : ∀ i a s a' s', P s → body i a s = .ok a' s' → Q s' → P s') :
    ∀ (is : List ι) (a : α) (s : σ) (a' : α) (s' : σ), P s → loop body is a s = .ok a' s' → Q s' → P s'
  | [], _, _, _, _, hP, h, _ => by
    obtain ⟨-, rfl⟩ := Result.ok.inj h
    exact hP
  | i :: is, a, s, a', s', hP, h, hQ => by
    obtain ⟨b, t, hi, his⟩ := bind_eq_ok_iff.mp h
    have hQt := loop_back hback is b t a' s' his hQ
    exact loop_keep hback hkeep is b t a' s' (hkeep i a s b t hP hi hQt) his hQ

/-- A loop whose rounds have enough fuel in the states of an invariant has enough. -/
theorem loop_ne_outOfFuel (hbody : ∀ i a s, P s → body i a s ≠ .outOfFuel)
    (hkeep : ∀ i a s a' s', P s → body i a s = .ok a' s' → P s') :
    ∀ (is : List ι) (a : α) (s : σ), P s → loop body is a s ≠ .outOfFuel
  | [], _, _, _ => by simp [loop]
  | i :: is, a, s, hP => bind_ne_outOfFuel (hbody i a s hP) fun b t ht =>
      loop_ne_outOfFuel hbody hkeep is b t (hkeep i a s b t hP ht)

/-- A loop ends with `Q` exactly when each round, from a state of the invariant, does. -/
theorem ends_loop_iff (hback : ∀ i a s a' s', body i a s = .ok a' s' → Q s' → Q s)
    (hkeep : ∀ i a s a' s', P s → body i a s = .ok a' s' → Q s' → P s') (hPQ : ∀ s, P s → Q s)
    (hbody : ∀ i a s, P s → (Ends Q (body i a s) ↔ Good i)) (is : List ι) {a : α} {s : σ} (hP : P s) :
    Ends Q (loop body is a s) ↔ ∀ i ∈ is, Good i := by
  induction is generalizing a s with
  | nil => exact iff_of_true (ends_ok.mpr (hPQ s hP)) (by simp)
  | cons i is ih =>
    rw [List.forall_mem_cons, ← hbody i a s hP]
    show Ends Q ((body i a s).bind (loop body is)) ↔ _
    rw [ends_bind_iff]
    constructor
    · rintro ⟨b, t, ht, hend⟩
      obtain ⟨a', s', hloop, hQ⟩ := id hend
      have hQt := loop_back hback is b t a' s' hloop hQ
      exact ⟨⟨b, t, ht, hQt⟩, (ih (hkeep i a s b t hP ht hQt)).mp hend⟩
    · rintro ⟨⟨b, t, ht, hQt⟩, hall⟩
      exact ⟨b, t, ht, (ih (hkeep i a s b t hP ht hQt)).mpr hall⟩

end Loop

end FuelLoop
