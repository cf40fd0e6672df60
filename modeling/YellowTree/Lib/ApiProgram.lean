import Mathlib.Logic.Basic

/-!
# ApiProgram — programs that call a foreign interface

A `Prog` calls operations, each of which has replies of a type of its own, and ends with a value or an error.  An
`Interface` says what an operation requires of its caller and which replies it may give.  `Meets i p s Q E` is the
weakest precondition of `p`: from `s`, and whatever the replies, each operation that `p` calls has what it requires, and
`p` ends with a value as `Q` says or with an error as `E` says.  `Prog.eval` is how `p` ends when the replies are given
by a function.

* `meets_iff`: this is so exactly when it is so along every run.
* `meets_bind`, `meets_attempt`, `Meets.each`: sequences, errors that are caught, loops.
* `Prog.eval_bind`: a sequence, when the replies are given.
-/

namespace ApiProgram

universe u

variable {Op : Type*} {Reply : Op → Type*} {ε ε' α β ι σ : Type*}

/-! ## Programs -/

section Programs

inductive Prog (Op : Type*) (Reply : Op → Type*) (ε α : Type*) where
  | ret (a : α)
  | raise (e : ε)
  | call (o : Op) (k : Reply o → Prog Op Reply ε α)

namespace Prog

def bind : Prog Op Reply ε α → (α → Prog Op Reply ε β) → Prog Op Reply ε β
  | ret a, f => f a
  | raise e, _ => raise e
  | call o k, f => call o fun r => (k r).bind f

/-- One operation. -/
def op (o : Op) : Prog Op Reply ε (Reply o) := call o ret

/-- Catches the error. -/
def attempt : Prog Op Reply ε α → Prog Op Reply ε' (Except ε α)
  | ret a => ret (.ok a)
  | raise e => ret (.error e)
  | call o k => call o fun r => (k r).attempt

def ofExcept : Except ε α → Prog Op Reply ε α
  | .ok a => ret a
  | .error e => raise e

/-- The results of the rounds of a loop. -/
def each (f : ι → Prog Op Reply ε α) : List ι → Prog Op Reply ε (List α)
  | [] => ret []
  | x :: xs => (f x).bind fun a => (each f xs).bind fun as => ret (a :: as)

/-- How the program ends when the replies are these; `none` where there is none. -/
def eval (reply : (o : Op) → Option (Reply o)) : Prog Op Reply ε α → Option (Except ε α)
  | ret a => some (.ok a)
  | raise e => some (.error e)
  | call o k => (reply o).bind fun r => (k r).eval reply

instance : Monad (Prog Op Reply ε) where
  pure := ret
  bind := bind

/-! ## Replies that are given -/

section Eval

variable {reply : (o : Op) → Option (Reply o)}

theorem eval_ofExcept (x : Except ε α) : (ofExcept x : Prog Op Reply ε α).eval reply = some x := by
  cases x <;> rfl

theorem eval_call {o : Op} {r : Reply o} (h : reply o = some r) (k : Reply o → Prog Op Reply ε α) :
    (call o k).eval reply = (k r).eval reply := by
  rw [eval, h, Option.bind_some]

/-- What comes after a value; an error is the end. -/
def andThen (x : Except ε α) (f : α → Option (Except ε β)) : Option (Except ε β) :=
  match x with
  | .ok a => f a
  | .error e => some (.error e)

theorem eval_bind {α β : Type u} {p : Prog Op Reply ε α} {x : Except ε α} (h : p.eval reply = some x)
    (f : α → Prog Op Reply ε β) : (p >>= f).eval reply = andThen x fun a => (f a).eval reply := by
  induction p with
  | ret a =>
    obtain rfl := Option.some.inj h
    rfl
  | raise e =>
    obtain rfl := Option.some.inj h
    rfl
  | call o k ih =>
    obtain ⟨r, hr, hk⟩ := Option.bind_eq_some_iff.mp h
    rw [← ih r hk]
    exact eval_call hr _

end Eval

end Prog

end Programs

/-! ## Interfaces and runs -/

section Runs

structure Interface (Op : Type*) (Reply : Op → Type*) (σ : Type*) where
  requires : σ → Op → Prop
  replies : σ → (o : Op) → Reply o → σ → Prop

variable (i : Interface Op Reply σ)

/-- Some operations of the program, with their replies. -/
inductive Steps : Prog Op Reply ε α → σ → Prog Op Reply ε α → σ → Prop where
  | refl (p : Prog Op Reply ε α) (s : σ) : Steps p s p s
  | step {o : Op} {k : Reply o → Prog Op Reply ε α} {r : Reply o} {s s' t : σ} {p : Prog Op Reply ε α}
      (hr : i.replies s o r s') (hrest : Steps (k r) s' p t) : Steps (.call o k) s p t

/-- The next operation has what it requires, or the end is as it should be. -/
def Prog.Good (Q : α → σ → Prop) (E : ε → σ → Prop) : Prog Op Reply ε α → σ → Prop
  | .ret a, s => Q a s
  | .raise e, s => E e s
  | .call o _, s => i.requires s o

/-- In every run from `s` each operation has what it requires. -/
def Safe (p : Prog Op Reply ε α) (s : σ) : Prop :=
  ∀ p' s', Steps i p s p' s' → p'.Good i (fun _ _ => True) (fun _ _ => True) s'

/-- The weakest precondition. -/
def Meets : Prog Op Reply ε α → σ → (α → σ → Prop) → (ε → σ → Prop) → Prop
  | .ret a, s, Q, _ => Q a s
  | .raise e, s, _, E => E e s
  | .call o k, s, Q, E => i.requires s o ∧ ∀ r s', i.replies s o r s' → Meets (k r) s' Q E

end Runs

/-! ## Rules -/

section Rules

variable {i : Interface Op Reply σ} {p : Prog Op Reply ε α} {s : σ} {Q Q' : α → σ → Prop} {E E' : ε → σ → Prop}

/-- A sequence. -/
theorem meets_prog_bind {f : α → Prog Op Reply ε β} {Q : β → σ → Prop} :
    Meets i (p.bind f) s Q E ↔ Meets i p s (fun a t => Meets i (f a) t Q E) E := by
  induction p generalizing s with
  | ret a => exact Iff.rfl
  | raise e => exact Iff.rfl
  | call o k ih =>
    exact and_congr_right fun _ => forall_congr' fun r => forall_congr' fun s' => imp_congr_right fun _ => ih r

@[simp] theorem meets_bind {α β : Type u} {p : Prog Op Reply ε α} {f : α → Prog Op Reply ε β} {Q : β → σ → Prop} :
    Meets i (p >>= f) s Q E ↔ Meets i p s (fun a t => Meets i (f a) t Q E) E :=
  meets_prog_bind

/-- An error that is caught. -/
@[simp] theorem meets_attempt {Q : Except ε α → σ → Prop} {E : ε' → σ → Prop} :
    Meets i p.attempt s Q E ↔ Meets i p s (fun a => Q (.ok a)) (fun e => Q (.error e)) := by
  induction p generalizing s with
  | ret a => exact Iff.rfl
  | raise e => exact Iff.rfl
  | call o k ih =>
    exact and_congr_right fun _ => forall_congr' fun r => forall_congr' fun s' => imp_congr_right fun _ => ih r

theorem Meets.ite {c : Prop} [Decidable c] {q : Prog Op Reply ε α} (hp : c → Meets i p s Q E)
    (hq : ¬ c → Meets i q s Q E) : Meets i (if c then p else q) s Q E := by
  by_cases hc : c
  · rw [if_pos hc]
    exact hp hc
  · rw [if_neg hc]
    exact hq hc

theorem Meets.ofExcept {x : Except ε α} (hok : ∀ a, x = .ok a → Q a s) (herror : ∀ e, x = .error e → E e s) :
    Meets i (.ofExcept x) s Q E := by
  cases x with
  | ok a => exact hok a rfl
  | error e => exact herror e rfl

theorem Meets.mono (h : Meets i p s Q E) (hQ : ∀ a t, Q a t → Q' a t) (hE : ∀ e t, E e t → E' e t) :
    Meets i p s Q' E' := by
  induction p generalizing s with
  | ret a => exact hQ a s h
  | raise e => exact hE e s h
  | call o k ih => exact ⟨h.1, fun r s' hr => ih r (h.2 r s' hr)⟩

/-- A loop keeps what each round keeps. -/
theorem Meets.each {f : ι → Prog Op Reply ε α} {I : σ → Prop} : ∀ {xs : List ι} {s : σ}, I s →
    (∀ x ∈ xs, ∀ t, I t → Meets i (f x) t (fun _ => I) E) → Meets i (.each f xs) s (fun _ => I) E
  | [], _, hs, _ => hs
  | x :: _, _, hs, hf => meets_prog_bind.mpr ((hf x List.mem_cons_self _ hs).mono
      (fun _ _ ht => meets_prog_bind.mpr (Meets.each ht fun y hy => hf y (List.mem_cons_of_mem x hy)))
      fun _ _ h => h)

/-- **The weakest precondition is about runs.** -/
theorem meets_iff : Meets i p s Q E ↔ ∀ p' s', Steps i p s p' s' → p'.Good i Q E s' := by
  constructor
  · intro h p' s' hsteps
    induction hsteps with
    | refl p s =>
      cases p with
      | ret a => exact h
      | raise e => exact h
      | call o k => exact h.1
    | step hr _ ih => exact ih (h.2 _ _ hr)
  · intro h
    induction p generalizing s with
    | ret a => exact h _ _ (.refl _ _)
    | raise e => exact h _ _ (.refl _ _)
    | call o k ih => exact ⟨h _ _ (.refl _ _), fun r s' hr => ih r fun p' t hsteps => h p' t (.step hr hsteps)⟩

theorem safe_iff : Safe i p s ↔ Meets i p s (fun _ _ => True) (fun _ _ => True) := meets_iff.symm

/-- How a run that has come to its end ended. -/
theorem Meets.of_steps {a : α} {t : σ} (h : Meets i p s Q E) (hsteps : Steps i p s (.ret a) t) : Q a t :=
  meets_iff.mp h _ _ hsteps

end Rules

end ApiProgram
