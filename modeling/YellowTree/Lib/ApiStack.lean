import Mathlib.Data.List.Basic
import Mathlib.Data.Int.Notation
import Mathlib.Order.Basic

/-!
# ApiStack — the stack through which a host calls functions of an embedded language

The host pushes a function and its arguments and makes a protected call, which takes them off and leaves a fixed number
of results, or one message.  A host loop makes one such call in every round and leaves by a test.

* `pcall_eq`: what is under the function stays where it is.
* `isSome_startOf_iff`: with a test that follows from the outcome of the round, a round is started exactly when all
  earlier outcomes fail the test.
-/

namespace ApiStack

variable {α σ ι : Type*}

/-! ## The stack -/

section Stack

/-- How a called function ends: with an error value, or with results, the first one first. -/
inductive Outcome (α : Type*) where
  | error (e : α)
  | returned (vs : List α)

/-- The number of elements; the top is the head of the list. -/
def gettop (s : List α) : ℕ := s.length

def push (s : List α) (v : α) : List α := v :: s

def pop (s : List α) (n : ℕ) : List α := s.drop n

/-- A positive index counts from the bottom, a negative one from the top. -/
def index (s : List α) (i : ℤ) : Option α :=
  if 0 < i then s.reverse[(i - 1).toNat]? else if i < 0 then s[(-i - 1).toNat]? else none

/-- `n` results: what is too many is dropped, what is missing is `fill`. -/
def adjust (fill : α) (n : ℕ) (vs : List α) : List α := (vs ++ List.replicate n fill).take n

/-- A protected call with `nargs` arguments: the stack afterwards, and whether the call failed.  The value at the index
`msgh`, if any, makes the message of the error value. -/
def pcall (fill : α) (handle : α → α → α) (s : List α) (nargs nresults : ℕ) (msgh : ℤ) :
    Outcome α → List α × Bool
  | .returned vs => ((adjust fill nresults vs).reverse ++ pop s (nargs + 1), false)
  | .error e => (push (pop s (nargs + 1)) (((index s msgh).map fun h => handle h e).getD e), true)

variable {fill : α}

@[simp] theorem length_adjust (n : ℕ) (vs : List α) : (adjust fill n vs).length = n := by
  unfold adjust
  rw [List.length_take, List.length_append, List.length_replicate]
  omega

/-- With the function and its arguments on top, a call replaces these, and nothing under them. -/
theorem pcall_eq (fill : α) (handle : α → α → α) (args : List α) (f : α) (s : List α) (nresults : ℕ) (msgh : ℤ)
    (o : Outcome α) :
    ∃ top, (pcall fill handle (args ++ f :: s) args.length nresults msgh o).1 = top ++ s ∧
      top.length = if (pcall fill handle (args ++ f :: s) args.length nresults msgh o).2 then 1 else nresults := by
  have hpop : pop (args ++ f :: s) (args.length + 1) = s := by
    unfold pop
    rw [← List.drop_drop, List.drop_left]
    rfl
  cases o with
  | returned vs =>
    refine ⟨(adjust fill nresults vs).reverse, ?_, ?_⟩
    · show _ ++ pop _ _ = _
      rw [hpop]
    · rw [List.length_reverse, length_adjust]
      rfl
  | error e =>
    refine ⟨[((index (args ++ f :: s) msgh).map fun h => handle h e).getD e], ?_, rfl⟩
    show push (pop _ _) _ = _
    rw [hpop]
    rfl

end Stack

/-! ## Host loops -/

section Loop

/-- A round takes a state and what comes from outside to a state, and says whether the loop is left.  `startOf` is the
state at the start of a round, if it is reached. -/
def startOf (round : σ → ι → σ × Bool) (s : σ) (ins : ℕ → ι) : ℕ → Option σ
  | 0 => some s
  | n + 1 => (startOf round s ins n).bind fun t => if (round t (ins n)).2 then none else some (round t (ins n)).1

variable {round : σ → ι → σ × Bool} {s : σ} {ins : ℕ → ι}

/-- A round is started after one that did not leave. -/
theorem startOf_succ_eq_some {n : ℕ} {t : σ} :
    startOf round s ins (n + 1) = some t ↔
      ∃ u, startOf round s ins n = some u ∧ (round u (ins n)).2 = false ∧ (round u (ins n)).1 = t := by
  rw [startOf, Option.bind_eq_some_iff]
  refine exists_congr fun u => and_congr_right fun _ => ?_
  cases h : (round u (ins n)).2 <;> simp

/-- What holds at the start and is kept by the rounds that go on holds at the start of every round. -/
theorem startOf_inv (I : σ → Prop) (hs : I s) (hround : ∀ t i, I t → (round t i).2 = false → I (round t i).1) :
    ∀ (n : ℕ) (t : σ), startOf round s ins n = some t → I t
  | 0, t, h => by
    obtain rfl := Option.some.inj h
    exact hs
  | n + 1, t, h => by
    obtain ⟨u, hu, hgo, rfl⟩ := startOf_succ_eq_some.mp h
    exact hround u (ins n) (startOf_inv I hs hround n u hu) hgo

/-- A round is started exactly when every earlier one failed the test. -/
theorem isSome_startOf_iff (I : σ → Prop) (test : ι → Bool) (hs : I s)
    (hround : ∀ t i, I t → (round t i).2 = false → I (round t i).1)
    (htest : ∀ t i, I t → (round t i).2 = test i) (n : ℕ) :
    (startOf round s ins n).isSome = true ↔ ∀ j < n, test (ins j) = false := by
  induction n with
  | zero => exact iff_of_true rfl fun j hj => absurd hj (by omega)
  | succ n ih =>
    constructor
    · intro h j hj
      obtain ⟨t, ht⟩ := Option.isSome_iff_exists.mp h
      obtain ⟨u, hu, hgo, -⟩ := startOf_succ_eq_some.mp ht
      rcases Nat.lt_succ_iff_lt_or_eq.mp hj with hj | rfl
      · exact ih.mp (by rw [hu]; rfl) j hj
      · rw [← htest u (ins j) (startOf_inv I hs hround j u hu)]
        exact hgo
    · intro h
      obtain ⟨u, hu⟩ := Option.isSome_iff_exists.mp (ih.mpr fun j hj => h j (by omega))
      have hgo : (round u (ins n)).2 = false := by
        rw [htest u (ins n) (startOf_inv I hs hround n u hu)]
        exact h n (by omega)
      rw [startOf_succ_eq_some.mpr ⟨u, hu, hgo, rfl⟩]
      rfl

end Loop

end ApiStack
