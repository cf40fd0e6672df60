import Mathlib.Data.List.Perm.Basic
import Mathlib.Data.List.Nodup

/-!
# Handles — pools of handles, and who owns them

A `Pool` hands out handles and takes them back.  A handle is never handed out twice.  `Split p owned unowned` says that
the live handles are those that have an owner and those that have none, each once: with it, what an owner gives back is
live, and nothing else is given back.
-/

namespace Handles

/-- The live handles, and the next one that is handed out. -/
structure Pool where
  next : ℕ
  live : List ℕ
  deriving DecidableEq

namespace Pool

def empty : Pool := ⟨0, []⟩

/-- Hands out the handle `p.next`. -/
def alloc (p : Pool) : Pool := ⟨p.next + 1, p.next :: p.live⟩

/-- Takes a handle back. -/
def free (p : Pool) (h : ℕ) : Pool := ⟨p.next, p.live.erase h⟩

@[simp] theorem alloc_next (p : Pool) : p.alloc.next = p.next + 1 := rfl

@[simp] theorem alloc_live (p : Pool) : p.alloc.live = p.next :: p.live := rfl

@[simp] theorem free_next (p : Pool) (h : ℕ) : (p.free h).next = p.next := rfl

@[simp] theorem free_live (p : Pool) (h : ℕ) : (p.free h).live = p.live.erase h := rfl

/-- Each live handle was handed out, and is live once. -/
structure Sound (p : Pool) : Prop where
  nodup : p.live.Nodup
  lt_next : ∀ h ∈ p.live, h < p.next

theorem sound_empty : empty.Sound := ⟨List.nodup_nil, fun _ h => absurd h List.not_mem_nil⟩

variable {p : Pool}

theorem Sound.alloc (h : p.Sound) : p.alloc.Sound := by
  refine ⟨List.nodup_cons.mpr ⟨fun hmem => Nat.lt_irrefl _ (h.lt_next _ hmem), h.nodup⟩, ?_⟩
  intro x hx
  rcases List.mem_cons.mp hx with rfl | hx
  · exact Nat.lt_succ_self _
  · exact Nat.lt_succ_of_lt (h.lt_next x hx)

theorem Sound.free (h : p.Sound) (x : ℕ) : (p.free x).Sound :=
  ⟨h.nodup.erase x, fun y hy => h.lt_next y (List.mem_of_mem_erase hy)⟩

theorem Sound.mem_free_iff (h : p.Sound) {x y : ℕ} : y ∈ (p.free x).live ↔ y ≠ x ∧ y ∈ p.live :=
  h.nodup.mem_erase_iff

/-- What is taken back is never live again. -/
theorem Sound.not_mem_free (h : p.Sound) (x : ℕ) : x ∉ (p.free x).live := fun hx => (h.mem_free_iff.mp hx).1 rfl

end Pool

/-- The live handles are those with an owner and those without, each once. -/
structure Split (p : Pool) (owned unowned : List ℕ) : Prop where
  sound : p.Sound
  perm : p.live.Perm (owned ++ unowned)

namespace Split

variable {p : Pool} {owned unowned owned' : List ℕ} {h : ℕ}

theorem empty : Split Pool.empty [] [] := ⟨Pool.sound_empty, List.Perm.nil⟩

/-- Only the handles of the owners matter, not their order. -/
theorem of_perm (hs : Split p owned unowned) (hperm : owned.Perm owned') : Split p owned' unowned :=
  ⟨hs.sound, hs.perm.trans (hperm.append_right unowned)⟩

theorem of_perm_unowned {unowned' : List ℕ} (hs : Split p owned unowned) (hperm : unowned.Perm unowned') :
    Split p owned unowned' :=
  ⟨hs.sound, hs.perm.trans (hperm.append_left owned)⟩

/-- A new handle that gets an owner. -/
theorem alloc_owned (hs : Split p owned unowned) : Split p.alloc (p.next :: owned) unowned :=
  ⟨hs.sound.alloc, hs.perm.cons p.next⟩

/-- A handle loses its owner. -/
theorem abandon (hs : Split p (h :: owned) unowned) : Split p owned (h :: unowned) :=
  ⟨hs.sound, hs.perm.trans List.perm_middle.symm⟩

/-- An owner gives its handle back. -/
theorem free (hs : Split p (h :: owned) unowned) : Split (p.free h) owned unowned := by
  refine ⟨hs.sound.free h, ?_⟩
  have herase := hs.perm.erase h
  rwa [List.cons_append, List.erase_cons_head] at herase

theorem mem_of_owned (hs : Split p owned unowned) (hmem : h ∈ owned) : h ∈ p.live :=
  hs.perm.mem_iff.mpr (List.mem_append_left _ hmem)

theorem mem_of_unowned (hs : Split p owned unowned) (hmem : h ∈ unowned) : h ∈ p.live :=
  hs.perm.mem_iff.mpr (List.mem_append_right _ hmem)

theorem length_live (hs : Split p owned unowned) : p.live.length = owned.length + unowned.length := by
  rw [hs.perm.length_eq, List.length_append]

end Split

end Handles
