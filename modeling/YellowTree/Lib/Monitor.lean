import Mathlib.Data.Nat.Basic

/-!
# Monitor — a re-entrant lock

A monitor is free or held by one thread a positive number of times.  `acquire` fails when another thread holds it,
`release` when the thread itself does not.  `holds m t` is how often `t` holds it; a step of `t` changes it for `t`
only (`holds_of_acquire`, `holds_of_release`), and two threads never hold it together (`holds_exclusive`).
-/

/-- Free, or held by a thread `n + 1` times. -/
structure Monitor (Tid : Type*) where
  holder : Option (Tid × ℕ)
  deriving DecidableEq

namespace Monitor

variable {Tid : Type*} [DecidableEq Tid]

def free : Monitor Tid := ⟨none⟩

def holds (m : Monitor Tid) (t : Tid) : ℕ :=
  match m.holder with
  | none => 0
  | some (u, n) => if u = t then n + 1 else 0

/-- One more hold of `t`; `none` while another thread holds the monitor. -/
def acquire (m : Monitor Tid) (t : Tid) : Option (Monitor Tid) :=
  match m.holder with
  | none => some ⟨some (t, 0)⟩
  | some (u, n) => if u = t then some ⟨some (u, n + 1)⟩ else none

/-- One hold of `t` less; `none` when `t` has none. -/
def release (m : Monitor Tid) (t : Tid) : Option (Monitor Tid) :=
  match m.holder with
  | none => none
  | some (u, n) => if u = t then some (if n = 0 then free else ⟨some (u, n - 1)⟩) else none

theorem holds_exclusive {m : Monitor Tid} {t u : Tid} (ht : 0 < m.holds t) (hu : 0 < m.holds u) : t = u := by
  rcases m with ⟨_ | ⟨v, n⟩⟩
  · simp [holds] at ht
  · by_cases hvt : v = t
    · by_cases hvu : v = u
      · exact hvt.symm.trans hvu
      · simp [holds, hvu] at hu
    · simp [holds, hvt] at ht

theorem acquire_of_holds {m : Monitor Tid} {t : Tid} (h : 0 < m.holds t) : (m.acquire t).isSome := by
  rcases m with ⟨_ | ⟨u, n⟩⟩
  · rfl
  · by_cases hut : u = t
    · simp [acquire, hut]
    · simp [holds, hut] at h

theorem release_of_holds {m : Monitor Tid} {t : Tid} (h : 0 < m.holds t) : (m.release t).isSome := by
  rcases m with ⟨_ | ⟨u, n⟩⟩
  · simp [holds] at h
  · by_cases hut : u = t
    · simp [release, hut]
    · simp [holds, hut] at h

theorem exists_holds {m : Monitor Tid} {t : Tid} (h : m.acquire t = none) : ∃ u, u ≠ t ∧ 0 < m.holds u := by
  rcases m with ⟨_ | ⟨u, n⟩⟩
  · cases h
  · refine ⟨u, fun hut => ?_, by simp [holds]⟩
    simp [acquire, hut] at h

theorem holds_of_acquire {m m' : Monitor Tid} {t : Tid} (h : m.acquire t = some m') (u : Tid) :
    m'.holds u = if u = t then m.holds t + 1 else m.holds u := by
  rcases m with ⟨_ | ⟨v, n⟩⟩
  · obtain rfl := Option.some.inj h
    by_cases hu : u = t
    · simp [holds, hu]
    · simp [holds, hu, Ne.symm hu]
  · simp only [acquire, Option.ite_none_right_eq_some, Option.some.injEq] at h
    obtain ⟨rfl, rfl⟩ := h
    by_cases hu : u = v
    · simp [holds, hu]
    · simp [holds, hu, Ne.symm hu]

theorem holds_of_release {m m' : Monitor Tid} {t : Tid} (h : m.release t = some m') :
    0 < m.holds t ∧ ∀ u, m'.holds u = if u = t then m.holds t - 1 else m.holds u := by
  rcases m with ⟨_ | ⟨v, n⟩⟩
  · exact absurd h (by simp [release])
  · simp only [release, Option.ite_none_right_eq_some, Option.some.injEq] at h
    obtain ⟨rfl, rfl⟩ := h
    refine ⟨by simp [holds], fun u => ?_⟩
    by_cases hn : n = 0
    · by_cases hu : u = v
      · simp [holds, hn, hu, free]
      · simp [holds, hn, hu, Ne.symm hu, free]
    · by_cases hu : u = v
      · simp only [holds, hn, hu, if_true, if_false]
        omega
      · simp [holds, hn, hu, Ne.symm hu]

end Monitor
