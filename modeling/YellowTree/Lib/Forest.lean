import Mathlib.Data.List.Sort
import Mathlib.Data.Nat.Basic

/-!
# Forest — trees written down as a table in preorder

A program that meets the nodes of some trees one after the other often keeps them in a table, each with the number of
its parent.  Here the nodes are numbered from 1 on and 0 is the parent of the roots.  `Placed` says that a table, given
by the parent and the label of a number, holds a forest from a number on; `HasPath` that a number has certain ancestors.

* `Placed.hasPath`: following the parents from a node gives the path that it has in the forest.
* `HasPath.chain_eq`, `HasPath.mergeSort`: the walk ends, and its numbers fall, so that they are sorted by reversing
  them.
-/

/-- Trees side by side: the first one's root, the trees below it, and the trees after it. -/
inductive Forest (α : Type*) where
  | nil
  | node (a : α) (children rest : Forest α)

namespace Forest

variable {α : Type*}

/-! ## Preorder -/

section Preorder

def size : Forest α → ℕ
  | nil => 0
  | node _ children rest => children.size + 1 + rest.size

def preorder : Forest α → List α
  | nil => []
  | node a children rest => a :: (children.preorder ++ rest.preorder)

/-- The parent of each node; the roots have the parent `p`, and the nodes are numbered from `n + 1` on. -/
def parents : ℕ → ℕ → Forest α → List ℕ
  | _, _, nil => []
  | p, n, node _ children rest =>
    p :: (children.parents (n + 1) (n + 1) ++ rest.parents p (n + 1 + children.size))

/-- The labels above each node, from the root down; `path` is what is above the roots. -/
def paths : List α → Forest α → List (List α)
  | _, nil => []
  | path, node a children rest => path :: (children.paths (path ++ [a]) ++ rest.paths path)

/-- The trees of the second forest come after those of the first. -/
def append : Forest α → Forest α → Forest α
  | nil, g => g
  | node a children rest, g => node a children (rest.append g)

@[simp] theorem length_preorder (f : Forest α) : f.preorder.length = f.size := by
  induction f with
  | nil => rfl
  | node a children rest ihc ihr =>
    rw [preorder, List.length_cons, List.length_append, ihc, ihr, size]
    omega

@[simp] theorem length_parents (f : Forest α) (p n : ℕ) : (f.parents p n).length = f.size := by
  induction f generalizing p n with
  | nil => rfl
  | node a children rest ihc ihr =>
    rw [parents, List.length_cons, List.length_append, ihc, ihr, size]
    omega

@[simp] theorem length_paths (f : Forest α) (path : List α) : (f.paths path).length = f.size := by
  induction f generalizing path with
  | nil => rfl
  | node a children rest ihc ihr =>
    rw [paths, List.length_cons, List.length_append, ihc, ihr, size]
    omega

theorem preorder_append (f g : Forest α) : (f.append g).preorder = f.preorder ++ g.preorder := by
  induction f with
  | nil => rfl
  | node a children rest ihc ihr => rw [append, preorder, ihr, preorder, List.cons_append, List.append_assoc]

theorem parents_append (f g : Forest α) (p n : ℕ) :
    (f.append g).parents p n = f.parents p n ++ g.parents p (n + f.size) := by
  induction f generalizing n with
  | nil => rfl
  | node a children rest ihc ihr =>
    have hn : n + 1 + children.size + rest.size = n + (node a children rest).size := by
      rw [size]
      omega
    rw [append, parents, ihr, parents, List.cons_append, List.append_assoc, hn]

end Preorder

/-! ## Following the parents -/

section Table

variable {parent : ℕ → Option ℕ} {label : ℕ → Option α} {p n i : ℕ} {f : Forest α} {a : α} {above : List ℕ}
  {path : List α}

/-- The table holds the forest, its nodes numbered from `n + 1` on, below `p`. -/
structure Placed (parent : ℕ → Option ℕ) (label : ℕ → Option α) (p n : ℕ) (f : Forest α) : Prop where
  parent : ∀ j x, (f.parents p n)[j]? = some x → parent (n + 1 + j) = some x
  label : ∀ j a, f.preorder[j]? = some a → label (n + 1 + j) = some a

theorem Placed.root {children rest : Forest α} (h : Placed parent label p n (node a children rest)) :
    parent (n + 1) = some p ∧ label (n + 1) = some a := ⟨h.parent 0 p rfl, h.label 0 a rfl⟩

theorem Placed.children {children rest : Forest α} (h : Placed parent label p n (node a children rest)) :
    Placed parent label (n + 1) (n + 1) children := by
  constructor
  · intro j x hx
    have hlt : j < (children.parents (n + 1) (n + 1)).length := (List.getElem?_eq_some_iff.mp hx).1
    have hparent := h.parent (j + 1) x (by rwa [parents, List.getElem?_cons_succ, List.getElem?_append_left hlt])
    rwa [show n + 1 + (j + 1) = n + 1 + 1 + j by omega] at hparent
  · intro j b hb
    have hlt : j < children.preorder.length := (List.getElem?_eq_some_iff.mp hb).1
    have hlabel := h.label (j + 1) b (by rwa [preorder, List.getElem?_cons_succ, List.getElem?_append_left hlt])
    rwa [show n + 1 + (j + 1) = n + 1 + 1 + j by omega] at hlabel

theorem Placed.rest {children rest : Forest α} (h : Placed parent label p n (node a children rest)) :
    Placed parent label p (n + 1 + children.size) rest := by
  constructor
  · intro j x hx
    have hle : (children.parents (n + 1) (n + 1)).length ≤ children.size + j := by rw [length_parents]; omega
    have hparent := h.parent (children.size + j + 1) x (by
      rw [parents, List.getElem?_cons_succ, List.getElem?_append_right hle, length_parents]
      simpa using hx)
    rwa [show n + 1 + (children.size + j + 1) = n + 1 + children.size + 1 + j by omega] at hparent
  · intro j b hb
    have hle : children.preorder.length ≤ children.size + j := by rw [length_preorder]; omega
    have hlabel := h.label (children.size + j + 1) b (by
      rw [preorder, List.getElem?_cons_succ, List.getElem?_append_right hle, length_preorder]
      simpa using hb)
    rwa [show n + 1 + (children.size + j + 1) = n + 1 + children.size + 1 + j by omega] at hlabel

/-- Following the parents from `i` gives the numbers `above`, innermost first, and their labels from the root down. -/
inductive HasPath (parent : ℕ → Option ℕ) (label : ℕ → Option α) : ℕ → List ℕ → List α → Prop
  | root {i : ℕ} (h : parent i = some 0) : HasPath parent label i [] []
  | child {i p : ℕ} {a : α} {above : List ℕ} {path : List α} (h : parent i = some p) (hpos : p ≠ 0) (hlt : p < i)
      (hlabel : label p = some a) (hpath : HasPath parent label p above path) :
      HasPath parent label i (p :: above) (path ++ [a])

/-- What is above the nodes whose parent is `p`. -/
def Above (parent : ℕ → Option ℕ) (label : ℕ → Option α) (p : ℕ) (path : List α) : Prop :=
  (p = 0 ∧ path = []) ∨
    p ≠ 0 ∧ ∃ a above path', label p = some a ∧ HasPath parent label p above path' ∧ path = path' ++ [a]

theorem Above.hasPath (h : Above parent label p path) (hi : parent i = some p) (hlt : p < i) :
    ∃ above, HasPath parent label i above path := by
  rcases h with ⟨rfl, rfl⟩ | ⟨hpos, a, above, path', hlabel, hpath, rfl⟩
  · exact ⟨[], .root hi⟩
  · exact ⟨p :: above, .child hi hpos hlt hlabel hpath⟩

/-- **The path of a node** is found by following the parents. -/
theorem Placed.hasPath (h : Placed parent label p n f) (habove : Above parent label p path) (hp : p ≤ n) :
    ∀ j q, (f.paths path)[j]? = some q → ∃ above, HasPath parent label (n + 1 + j) above q := by
  induction f generalizing p n path with
  | nil =>
    intro j q hq
    simp [paths] at hq
  | node a children rest ihc ihr =>
    obtain ⟨hparent, hlabel⟩ := h.root
    obtain ⟨above, hroot⟩ := habove.hasPath hparent (Nat.lt_succ_of_le hp)
    have hchildren : Above parent label (n + 1) (path ++ [a]) := Or.inr ⟨by omega, a, above, path, hlabel, hroot, rfl⟩
    intro j q hq
    rw [paths] at hq
    cases j with
    | zero =>
      obtain rfl : path = q := by simpa using hq
      exact ⟨above, hroot⟩
    | succ j =>
      rw [List.getElem?_cons_succ] at hq
      by_cases hj : j < (children.paths (path ++ [a])).length
      · rw [List.getElem?_append_left hj] at hq
        have hpath := ihc h.children hchildren (Nat.le_refl _) j q hq
        rwa [show n + 1 + 1 + j = n + 1 + (j + 1) by omega] at hpath
      · rw [List.getElem?_append_right (by omega), length_paths] at hq
        rw [length_paths] at hj
        have hpath := ihr h.rest habove (by omega) _ q hq
        rwa [show n + 1 + children.size + 1 + (j - children.size) = n + 1 + (j + 1) by omega] at hpath

/-- The ancestors of `i`, innermost first; `none` when a number is not in the table or the walk is longer than its
fuel. -/
def chain (parent : ℕ → Option ℕ) : ℕ → ℕ → Option (List ℕ)
  | 0, _ => none
  | fuel + 1, i =>
    match parent i with
    | none => none
    | some 0 => some []
    | some (p + 1) => (chain parent fuel (p + 1)).map ((p + 1) :: ·)

namespace HasPath

theorem chain_eq (h : HasPath parent label i above path) {fuel : ℕ} (hfuel : i < fuel) :
    chain parent fuel i = some above := by
  induction h generalizing fuel with
  | root h =>
    obtain ⟨fuel, rfl⟩ : ∃ k, fuel = k + 1 := ⟨fuel - 1, by omega⟩
    rw [chain, h]
  | @child i p a above path h hpos hlt hlabel hpath ih =>
    obtain ⟨fuel, rfl⟩ : ∃ k, fuel = k + 1 := ⟨fuel - 1, by omega⟩
    obtain ⟨q, rfl⟩ : ∃ q, p = q + 1 := ⟨p - 1, by omega⟩
    rw [chain, h]
    dsimp only
    rw [ih (by omega)]
    rfl

theorem parent_eq (h : HasPath parent label i above path) : parent i = some (above.headD 0) := by
  cases h with
  | root h => exact h
  | child h hpos hlt hlabel hpath => exact h

theorem ne_zero_of_mem (h : HasPath parent label i above path) : ∀ x ∈ above, x ≠ 0 := by
  induction h with
  | root h => simp
  | child h hpos hlt hlabel hpath ih =>
    intro x hx
    rcases List.mem_cons.mp hx with rfl | hx
    · exact hpos
    · exact ih x hx

theorem lt_of_mem (h : HasPath parent label i above path) : ∀ x ∈ above, x < i := by
  induction h with
  | root h => simp
  | child h hpos hlt hlabel hpath ih =>
    intro x hx
    rcases List.mem_cons.mp hx with rfl | hx
    · exact hlt
    · exact (ih x hx).trans hlt

theorem pairwise (h : HasPath parent label i above path) : above.Pairwise (· > ·) := by
  induction h with
  | root h => exact List.Pairwise.nil
  | child h hpos hlt hlabel hpath ih => exact List.pairwise_cons.mpr ⟨hpath.lt_of_mem, ih⟩

/-- The ancestors fall, so sorting reverses them. -/
theorem mergeSort (h : HasPath parent label i above path) : above.mergeSort (· ≤ ·) = above.reverse := by
  have hperm : (above.mergeSort (· ≤ ·)).Perm above.reverse :=
    (List.mergeSort_perm above _).trans above.reverse_perm.symm
  refine hperm.eq_of_pairwise ?_ (List.pairwise_mergeSort (by simp; omega) (by simp; omega) above) ?_
  · intro x y _ _ hxy hyx
    exact Nat.le_antisymm (by simpa using hxy) (by simpa using hyx)
  · rw [List.pairwise_reverse]
    refine h.pairwise.imp ?_
    intro x y hxy
    simpa using hxy.le

theorem map_label (h : HasPath parent label i above path) : above.reverse.map label = path.map some := by
  induction h with
  | root h => rfl
  | child h hpos hlt hlabel hpath ih => rw [List.reverse_cons, List.map_append, ih, List.map_append, List.map_singleton,
      hlabel, List.map_singleton]

end HasPath

end Table

end Forest
