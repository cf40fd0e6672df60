import Mathlib.Data.List.Nodup
import Mathlib.Logic.Function.Basic
import YellowTree.Lib.Transition

/-!
# SharedStack — frames of several threads with their entries on one stack

Every thread has frames, innermost first, and each frame gets a new entry on one stack that all threads share.  A
thread ends the use of an entry by popping the *top* of the stack, whatever it is, and drops the frame later.  The
entry of a frame in use is anchored while it is on the stack.

* `inv_step`, `Inv.anchored`: frames in use keep their entries while each pop is by the latest frame in use.
* `Inv.not_anchored`: a pop by another frame takes the entry of a frame in use.
-/

namespace SharedStack

open Transition

variable {Tid : Type*}

/-- The stack, the next entry, and the frames of each thread with their entries; `true` while the entry is in use. -/
structure State (Tid : Type*) where
  stack : List ℕ
  next : ℕ
  frames : Tid → List (ℕ × Bool)

def State.init : State Tid := ⟨[], 0, fun _ => []⟩

inductive Event (Tid : Type*) where
  | push (t : Tid)
  | pop (t : Tid)
  | drop (t : Tid)

def step [DecidableEq Tid] (s : State Tid) : Event Tid → Option (State Tid)
  | .push t => some ⟨s.next :: s.stack, s.next + 1, Function.update s.frames t ((s.next, true) :: s.frames t)⟩
  | .pop t =>
    match s.frames t with
    | (c, true) :: rest => some ⟨s.stack.tail, s.next, Function.update s.frames t ((c, false) :: rest)⟩
    | _ => none
  | .drop t =>
    match s.frames t with
    | (_, false) :: rest => some { s with frames := Function.update s.frames t rest }
    | _ => none

/-- Every entry in use is on the stack. -/
def Anchored (s : State Tid) : Prop := ∀ t c, (c, true) ∈ s.frames t → c ∈ s.stack

/-- A thread that pops has the latest entry in use. -/
def LatestFirst (s : State Tid) (e : Event Tid) (_ : State Tid) : Prop :=
  ∀ t c rest, e = .pop t → s.frames t = (c, true) :: rest → ∀ u d, (d, true) ∈ s.frames u → d ≤ c

/-- The stack has the entries in use, latest first; an entry belongs to one frame. -/
structure Inv (s : State Tid) : Prop where
  sorted : s.stack.Pairwise (· > ·)
  mem_iff : ∀ c, c ∈ s.stack ↔ ∃ t, (c, true) ∈ s.frames t
  lt_next : ∀ t, ∀ f ∈ s.frames t, f.1 < s.next
  nodup : ∀ t, ((s.frames t).map Prod.fst).Nodup
  disjoint : ∀ t u, ∀ f ∈ s.frames t, ∀ g ∈ s.frames u, f.1 = g.1 → t = u

/-! ## The invariant -/

section Invariant

theorem inv_init : Inv (State.init : State Tid) where
  sorted := List.Pairwise.nil
  mem_iff c := by simp [State.init]
  lt_next t f hf := by cases hf
  nodup t := List.nodup_nil
  disjoint t u f hf := by cases hf

theorem Inv.anchored {s : State Tid} (hs : Inv s) : Anchored s := fun t c hc => (hs.mem_iff c).mpr ⟨t, hc⟩

variable [DecidableEq Tid]

theorem step_pop_eq {s : State Tid} {t : Tid} {c : ℕ} {rest : List (ℕ × Bool)} (h : s.frames t = (c, true) :: rest) :
    step s (.pop t) = some ⟨s.stack.tail, s.next, Function.update s.frames t ((c, false) :: rest)⟩ := by
  dsimp only [step]
  rw [h]

theorem step_drop_eq {s : State Tid} {t : Tid} {c : ℕ} {rest : List (ℕ × Bool)}
    (h : s.frames t = (c, false) :: rest) :
    step s (.drop t) = some { s with frames := Function.update s.frames t rest } := by
  dsimp only [step]
  rw [h]

theorem step_pop {s s' : State Tid} {t : Tid} (h : step s (.pop t) = some s') :
    ∃ c rest, s.frames t = (c, true) :: rest ∧
      s' = ⟨s.stack.tail, s.next, Function.update s.frames t ((c, false) :: rest)⟩ := by
  dsimp only [step] at h
  split at h
  · rename_i c rest hframes
    exact ⟨c, rest, hframes, (Option.some.inj h).symm⟩
  · simp at h

/-- The frames of a thread after the frames of `t` have been replaced. -/
theorem mem_update {frames : Tid → List (ℕ × Bool)} {t u : Tid} {l : List (ℕ × Bool)} {f : ℕ × Bool} :
    f ∈ Function.update frames t l u ↔ (u = t ∧ f ∈ l) ∨ (u ≠ t ∧ f ∈ frames u) := by
  by_cases hu : u = t
  · subst hu
    rw [Function.update_self]
    simp
  · rw [Function.update_of_ne hu]
    simp [hu]

theorem Inv.push {s : State Tid} (hs : Inv s) (t : Tid) :
    Inv ⟨s.next :: s.stack, s.next + 1, Function.update s.frames t ((s.next, true) :: s.frames t)⟩ := by
  have hbelow : ∀ c ∈ s.stack, c < s.next := by
    intro c hc
    obtain ⟨u, hu⟩ := (hs.mem_iff c).mp hc
    exact hs.lt_next u _ hu
  have hfresh : ∀ u, ∀ f ∈ s.frames u, f.1 ≠ s.next := fun u f hf => Nat.ne_of_lt (hs.lt_next u f hf)
  refine ⟨List.pairwise_cons.mpr ⟨hbelow, hs.sorted⟩, ?_, ?_, ?_, ?_⟩
  · intro c
    rw [List.mem_cons, hs.mem_iff]
    constructor
    · rintro (rfl | ⟨u, hu⟩)
      · exact ⟨t, mem_update.mpr (Or.inl ⟨rfl, List.mem_cons_self⟩)⟩
      · by_cases hut : u = t
        · exact ⟨t, mem_update.mpr (Or.inl ⟨rfl, List.mem_cons_of_mem _ (hut ▸ hu)⟩)⟩
        · exact ⟨u, mem_update.mpr (Or.inr ⟨hut, hu⟩)⟩
    · rintro ⟨u, hu⟩
      rcases mem_update.mp hu with ⟨-, hu⟩ | ⟨-, hu⟩
      · rcases List.mem_cons.mp hu with hu | hu
        · exact Or.inl (congrArg Prod.fst hu)
        · exact Or.inr ⟨t, hu⟩
      · exact Or.inr ⟨u, hu⟩
  · intro u f hf
    rcases mem_update.mp hf with ⟨-, hf'⟩ | ⟨-, hf'⟩
    · rcases List.mem_cons.mp hf' with rfl | hf''
      · exact Nat.lt_succ_self _
      · exact Nat.lt_succ_of_lt (hs.lt_next t f hf'')
    · exact Nat.lt_succ_of_lt (hs.lt_next u f hf')
  · intro u
    by_cases hut : u = t
    · subst hut
      show ((Function.update s.frames u _ u).map Prod.fst).Nodup
      rw [Function.update_self, List.map_cons, List.nodup_cons]
      refine ⟨fun hmem => ?_, hs.nodup u⟩
      obtain ⟨f, hf, heq⟩ := List.mem_map.mp hmem
      exact hfresh u f hf heq
    · show ((Function.update s.frames t _ u).map Prod.fst).Nodup
      rw [Function.update_of_ne hut]
      exact hs.nodup u
  · intro u v f hf g hg heq
    rcases mem_update.mp hf with ⟨rfl, hf'⟩ | ⟨-, hf'⟩ <;> rcases mem_update.mp hg with ⟨rfl, hg'⟩ | ⟨-, hg'⟩
    · rfl
    · rcases List.mem_cons.mp hf' with rfl | hf''
      · exact absurd heq.symm (hfresh v g hg')
      · exact hs.disjoint _ _ f hf'' g hg' heq
    · rcases List.mem_cons.mp hg' with rfl | hg''
      · exact absurd heq (hfresh u f hf')
      · exact hs.disjoint _ _ f hf' g hg'' heq
    · exact hs.disjoint _ _ f hf' g hg' heq

omit [DecidableEq Tid] in
/-- The top of the stack is the latest entry in use. -/
theorem Inv.stack_eq {s : State Tid} (hs : Inv s) {c : ℕ} (hc : c ∈ s.stack) (hmax : ∀ d ∈ s.stack, d ≤ c) :
    s.stack = c :: s.stack.tail := by
  have hsorted := hs.sorted
  cases hstack : s.stack with
  | nil => rw [hstack] at hc; cases hc
  | cons d l =>
    rw [hstack] at hc hmax hsorted
    have hd := hmax d List.mem_cons_self
    rcases List.mem_cons.mp hc with rfl | hc
    · rfl
    · have := (List.pairwise_cons.mp hsorted).1 c hc
      omega

theorem Inv.pop {s : State Tid} (hs : Inv s) {t : Tid} {c : ℕ} {rest : List (ℕ × Bool)}
    (hframes : s.frames t = (c, true) :: rest) (hlatest : ∀ u d, (d, true) ∈ s.frames u → d ≤ c) :
    Inv ⟨s.stack.tail, s.next, Function.update s.frames t ((c, false) :: rest)⟩ := by
  have huse : (c, true) ∈ s.frames t := by rw [hframes]; exact List.mem_cons_self
  have hstack := hs.stack_eq ((hs.mem_iff c).mpr ⟨t, huse⟩) fun d hd => by
    obtain ⟨u, hu⟩ := (hs.mem_iff d).mp hd
    exact hlatest u d hu
  have hsorted := hs.sorted
  rw [hstack, List.pairwise_cons] at hsorted
  have htail : ∀ x, x ∈ s.stack.tail ↔ x ∈ s.stack ∧ x ≠ c := by
    intro x
    rw [hstack, List.mem_cons, List.tail_cons]
    refine ⟨fun hx => ⟨Or.inr hx, Nat.ne_of_lt (hsorted.1 x hx)⟩, ?_⟩
    rintro ⟨rfl | hx, hne⟩
    · exact absurd rfl hne
    · exact hx
  have hnodup := hs.nodup t
  rw [hframes, List.map_cons, List.nodup_cons] at hnodup
  -- the frame changes its mark only
  have hold : ∀ u, ∀ f ∈ Function.update s.frames t ((c, false) :: rest) u, ∃ b, (f.1, b) ∈ s.frames u :=
    fun u f hf => by
      rcases mem_update.mp hf with ⟨rfl, hf'⟩ | ⟨-, hf'⟩
      · rcases List.mem_cons.mp hf' with rfl | hf''
        · exact ⟨true, huse⟩
        · exact ⟨f.2, by rw [hframes]; exact List.mem_cons_of_mem _ hf''⟩
      · exact ⟨f.2, hf'⟩
  refine ⟨hsorted.2, ?_, ?_, ?_, ?_⟩
  · intro x
    rw [htail, hs.mem_iff]
    constructor
    · rintro ⟨⟨u, hu⟩, hne⟩
      refine ⟨u, mem_update.mpr ?_⟩
      by_cases hut : u = t
      · subst hut
        rw [hframes] at hu
        rcases List.mem_cons.mp hu with hu | hu
        · exact absurd (congrArg Prod.fst hu) hne
        · exact Or.inl ⟨rfl, List.mem_cons_of_mem _ hu⟩
      · exact Or.inr ⟨hut, hu⟩
    · rintro ⟨u, hu⟩
      rcases mem_update.mp hu with ⟨rfl, hu'⟩ | ⟨hut, hu'⟩
      · rcases List.mem_cons.mp hu' with hu' | hu'
        · simp at hu'
        · refine ⟨⟨u, by rw [hframes]; exact List.mem_cons_of_mem _ hu'⟩, fun hxc => ?_⟩
          exact hnodup.1 (hxc ▸ List.mem_map_of_mem hu')
      · refine ⟨⟨u, hu'⟩, fun hxc => ?_⟩
        exact hut (hs.disjoint u t _ hu' _ huse hxc)
  · intro u f hf
    obtain ⟨b, hb⟩ := hold u f hf
    exact hs.lt_next u (f.1, b) hb
  · intro u
    by_cases hut : u = t
    · subst hut
      show ((Function.update s.frames u _ u).map Prod.fst).Nodup
      rw [Function.update_self, List.map_cons, List.nodup_cons]
      exact hnodup
    · show ((Function.update s.frames t _ u).map Prod.fst).Nodup
      rw [Function.update_of_ne hut]
      exact hs.nodup u
  · intro u v f hf g hg heq
    obtain ⟨b, hb⟩ := hold u f hf
    obtain ⟨b', hb'⟩ := hold v g hg
    exact hs.disjoint u v _ hb _ hb' heq

theorem Inv.drop {s : State Tid} (hs : Inv s) {t : Tid} {c : ℕ} {rest : List (ℕ × Bool)}
    (hframes : s.frames t = (c, false) :: rest) : Inv { s with frames := Function.update s.frames t rest } := by
  have hold : ∀ u, ∀ f ∈ Function.update s.frames t rest u, f ∈ s.frames u := by
    intro u f hf
    rcases mem_update.mp hf with ⟨rfl, hf'⟩ | ⟨-, hf'⟩
    · rw [hframes]; exact List.mem_cons_of_mem _ hf'
    · exact hf'
  refine ⟨hs.sorted, fun x => ?_, fun u f hf => hs.lt_next u f (hold u f hf), fun u => ?_,
    fun u v f hf g hg => hs.disjoint u v f (hold u f hf) g (hold v g hg)⟩
  · rw [hs.mem_iff]
    constructor
    · rintro ⟨u, hu⟩
      refine ⟨u, mem_update.mpr ?_⟩
      by_cases hut : u = t
      · subst hut
        rw [hframes] at hu
        rcases List.mem_cons.mp hu with hu | hu
        · simp at hu
        · exact Or.inl ⟨rfl, hu⟩
      · exact Or.inr ⟨hut, hu⟩
    · rintro ⟨u, hu⟩
      exact ⟨u, hold u _ hu⟩
  · by_cases hut : u = t
    · subst hut
      show ((Function.update s.frames u _ u).map Prod.fst).Nodup
      have hnodup := hs.nodup u
      rw [hframes, List.map_cons, List.nodup_cons] at hnodup
      rw [Function.update_self]
      exact hnodup.2
    · show ((Function.update s.frames t _ u).map Prod.fst).Nodup
      rw [Function.update_of_ne hut]
      exact hs.nodup u

theorem inv_step (s : State Tid) (e : Event Tid) (s' : State Tid) (hs : Inv s) (hC : LatestFirst s e s')
    (h : step s e = some s') : Inv s' := by
  cases e with
  | push t =>
    obtain rfl := Option.some.inj h
    exact hs.push t
  | pop t =>
    obtain ⟨c, rest, hframes, rfl⟩ := step_pop h
    exact hs.pop hframes (hC t c rest rfl hframes)
  | drop t =>
    dsimp only [step] at h
    split at h
    · rename_i c rest hframes
      obtain rfl := Option.some.inj h
      exact hs.drop hframes
    · simp at h

/-- A pop by another than the latest frame in use takes the entry of a frame in use. -/
theorem Inv.not_anchored {s s' : State Tid} {e : Event Tid} (hs : Inv s) (hC : ¬ LatestFirst s e s')
    (h : step s e = some s') : ¬ Anchored s' := by
  simp only [LatestFirst, not_forall, not_le] at hC
  obtain ⟨t, c, rest, rfl, hframes, u, d, hd, hlt⟩ := hC
  obtain ⟨c', rest', hframes', rfl⟩ := step_pop h
  obtain ⟨hc, rfl⟩ := List.cons.inj (hframes.symm.trans hframes')
  obtain rfl : c = c' := congrArg Prod.fst hc
  have hsorted := hs.sorted
  have hdmem := (hs.mem_iff d).mpr ⟨u, hd⟩
  intro hanch
  cases hstack : s.stack with
  | nil => rw [hstack] at hdmem; cases hdmem
  | cons top l =>
    rw [hstack] at hdmem hsorted
    have htop : d ≤ top := by
      rcases List.mem_cons.mp hdmem with rfl | hdl
      · exact le_refl _
      · exact le_of_lt ((List.pairwise_cons.mp hsorted).1 d hdl)
    -- the entry on top is in use, and not that of the thread that pops
    obtain ⟨v, hv⟩ := (hs.mem_iff top).mp (by rw [hstack]; exact List.mem_cons_self)
    have hmem : (top, true) ∈ Function.update s.frames t ((c, false) :: rest) v := by
      refine mem_update.mpr ?_
      by_cases hvt : v = t
      · subst hvt
        rw [hframes] at hv
        rcases List.mem_cons.mp hv with hv | hv
        · have : top = c := congrArg Prod.fst hv
          omega
        · exact Or.inl ⟨rfl, List.mem_cons_of_mem _ hv⟩
      · exact Or.inr ⟨hvt, hv⟩
    have hin : top ∈ s.stack.tail := hanch v top hmem
    rw [hstack, List.tail_cons] at hin
    have := (List.pairwise_cons.mp hsorted).1 top hin
    omega

end Invariant

end SharedStack
