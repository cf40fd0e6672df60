import Mathlib.Data.List.Forall2
import Mathlib.Data.List.Induction
import Mathlib.Data.List.Nodup
import Mathlib.Logic.Function.Basic

/-!
# ListSplit — an element of a list and what stands before and after it

Loops that look for the first or the last element with a property are described by a split `pre ++ x :: post` of the
list.  `split_cases` compares two splits of one list; `split_unique` is the case of a list without repeated keys,
`split_span` that of the first element outside a class, `split_behind` and `split_left` those of an element that does
not occur in a part of the list.  `mem_splitOn` is about the pieces of a list that is cut at an element,
`intercalate_concat` about pieces joined one by one.  `foldl_last_eq_some` describes the loop that keeps the last
element found, `foldl_update_eq` the one that does so for every key; `lookup_of_mem` is about a list of pairs with
different keys.
-/

namespace ListSplit

variable {α β : Type*}

/-! ## Two splits of one list -/

section Splits

/-- Two places in one list: the same place, or one before the other. -/
theorem split_cases {pre pre' post post' : List α} {x x' : α} (h : pre ++ x :: post = pre' ++ x' :: post') :
    (pre = pre' ∧ x = x' ∧ post = post') ∨ (∃ l, pre' = pre ++ x :: l) ∨ ∃ l, pre = pre' ++ x' :: l := by
  rcases List.append_eq_append_iff.mp h with ⟨l, hpre, hrest⟩ | ⟨l, hpre, hrest⟩
  · cases l with
    | nil =>
      obtain ⟨hx, hpost⟩ := List.cons.inj hrest
      exact Or.inl ⟨by simpa using hpre.symm, hx, hpost⟩
    | cons y l => exact Or.inr (Or.inl ⟨l, by rw [hpre, (List.cons.inj hrest).1]⟩)
  · cases l with
    | nil =>
      obtain ⟨hx, hpost⟩ := List.cons.inj hrest
      exact Or.inl ⟨by simpa using hpre, hx.symm, hpost.symm⟩
    | cons y l => exact Or.inr (Or.inr ⟨l, by rw [hpre, (List.cons.inj hrest).1]⟩)

/-- In a list without repeated keys an element is found at one place only. -/
theorem split_unique {f : α → β} {pre pre' post post' : List α} {x x' : α}
    (h : pre ++ x :: post = pre' ++ x' :: post') (hnodup : ((pre ++ x :: post).map f).Nodup) (hf : f x = f x') :
    pre = pre' ∧ x = x' ∧ post = post' := by
  have key : ∀ {p l q : List α} {y y' : α}, ((p ++ y :: l ++ y' :: q).map f).Nodup → f y ≠ f y' := by
    intro p l q y y' hnd heq
    rw [List.map_append, List.map_append, List.nodup_append] at hnd
    exact hnd.2.2 (f y) (by simp) (f y') (by simp) heq
  rcases split_cases h with h | ⟨l, rfl⟩ | ⟨l, rfl⟩
  · exact h
  · exact absurd hf (key (h ▸ hnodup))
  · exact absurd hf.symm (key hnodup)

/-- The first element outside a class splits a list in one way. -/
theorem split_span {f : α → Bool} {u u' v v' : List α} {a a' : α} (h : u ++ a :: v = u' ++ a' :: v')
    (hu : ∀ x ∈ u, f x = true) (ha : f a = false) (hu' : ∀ x ∈ u', f x = true) (ha' : f a' = false) :
    u = u' ∧ a = a' ∧ v = v' := by
  rcases split_cases h with heq | ⟨l, rfl⟩ | ⟨l, rfl⟩
  · exact heq
  · have hmem := hu' a (by simp)
    rw [ha] at hmem
    cases hmem
  · have hmem := hu a' (by simp)
    rw [ha'] at hmem
    cases hmem

/-- A place of an element that is not in `b` is the one behind `b`, or comes after it. -/
theorem split_behind {p q b r : List α} {a : α} (h : p ++ a :: q = b ++ a :: r) (hb : a ∉ b) :
    (p = b ∧ q = r) ∨ ∃ p', p = b ++ a :: p' ∧ p' ++ a :: q = r := by
  rcases split_cases h with ⟨rfl, -, rfl⟩ | ⟨l, rfl⟩ | ⟨l, rfl⟩
  · exact Or.inl ⟨rfl, rfl⟩
  · exact absurd (by simp) hb
  · refine Or.inr ⟨l, rfl, ?_⟩
    rw [List.append_assoc] at h
    exact (List.cons.inj (List.append_cancel_left h)).2

/-- An element that is not in the second half of a list stands in the first. -/
theorem split_left {p q s w : List α} {a : α} (h : p ++ a :: q = s ++ w) (hw : a ∉ w) : ∃ z, s = p ++ a :: z := by
  rcases List.append_eq_append_iff.mp h with ⟨l, rfl, hrest⟩ | ⟨l, rfl, hrest⟩
  · cases l with
    | nil =>
      rw [List.nil_append] at hrest
      exact absurd (hrest ▸ List.mem_cons_self) hw
    | cons b l =>
      obtain ⟨rfl, -⟩ := List.cons.inj hrest
      exact ⟨l, rfl⟩
  · exact absurd (hrest ▸ List.mem_append_right _ List.mem_cons_self) hw

/-- The pieces of a list that is cut at an element. -/
theorem mem_splitOn [BEq α] [LawfulBEq α] {a : α} : ∀ {s p : List α}, p ∈ s.splitOn a → ∀ c ∈ p, c ∈ s ∧ c ≠ a
  | [], p, hp, c, hc => by
    rw [List.splitOn_nil, List.mem_singleton] at hp
    rw [hp] at hc
    simp at hc
  | x :: s, p, hp, c, hc => by
    rw [List.splitOn_cons_eq_if_modifyHead] at hp
    by_cases hx : (x == a) = true
    · rw [if_pos hx] at hp
      rcases List.mem_cons.mp hp with rfl | hp
      · simp at hc
      · obtain ⟨hmem, hne⟩ := mem_splitOn hp c hc
        exact ⟨List.mem_cons_of_mem x hmem, hne⟩
    · rw [if_neg hx] at hp
      obtain ⟨q, qs, hsplit⟩ := List.exists_cons_of_ne_nil (List.splitOn_ne_nil a s)
      rw [hsplit, List.modifyHead_cons] at hp
      rcases List.mem_cons.mp hp with rfl | hp
      · rcases List.mem_cons.mp hc with rfl | hc
        · exact ⟨List.mem_cons_self, fun heq => hx (beq_iff_eq.mpr heq)⟩
        · obtain ⟨hmem, hne⟩ := mem_splitOn (hsplit ▸ List.mem_cons_self) c hc
          exact ⟨List.mem_cons_of_mem x hmem, hne⟩
      · obtain ⟨hmem, hne⟩ := mem_splitOn (hsplit ▸ List.mem_cons_of_mem q hp) c hc
        exact ⟨List.mem_cons_of_mem x hmem, hne⟩

end Splits

/-! ## Tables of the elements -/

section Tables

variable {κ : Type*} [DecidableEq κ]

/-- A table filled in the order of a list has the last element of each key. -/
theorem foldl_update_eq (key : α → κ) (val : α → β) (xs : List α) (k : κ) :
    xs.foldl (fun table x => Function.update table (key x) (some (val x))) (fun _ => none) k =
      ((xs.filter (key · = k)).getLast?).map val := by
  induction xs using List.reverseRecOn with
  | nil => rfl
  | append_singleton xs x ih =>
    rw [List.foldl_append, List.foldl_cons, List.foldl_nil, List.filter_append]
    by_cases h : key x = k
    · subst h
      simp
    · rw [Function.update_of_ne (Ne.symm h), ih]
      simp [h]

omit [DecidableEq κ] in
/-- In a list without repeated keys every pair is found. -/
theorem lookup_of_mem [BEq κ] [LawfulBEq κ] {pairs : List (κ × β)} (hnodup : (pairs.map Prod.fst).Nodup)
    {p : κ × β} (hp : p ∈ pairs) : pairs.lookup p.1 = some p.2 := by
  obtain ⟨pre, post, rfl⟩ := List.append_of_mem hp
  rw [List.map_append, List.nodup_append] at hnodup
  refine List.lookup_eq_some_iff.mpr ⟨pre, post, rfl, fun q hq => ?_⟩
  have hne : q.1 ≠ p.1 := hnodup.2.2 q.1 (List.mem_map_of_mem hq) p.1 (by simp)
  simpa using hne.symm

end Tables

/-! ## Joined lists -/

section Joined

/-- A piece is joined at the end. -/
theorem intercalate_concat {sep x : List α} : ∀ {l : List (List α)}, l ≠ [] →
    sep.intercalate (l ++ [x]) = sep.intercalate l ++ sep ++ x
  | [y], _ => by simp
  | y :: z :: l, _ => by
    have ih : sep.intercalate (z :: l ++ [x]) = sep.intercalate (z :: l) ++ sep ++ x := intercalate_concat (by simp)
    rw [List.cons_append, List.intercalate_cons_of_ne_nil (by simp), ih, List.intercalate_cons_cons]
    simp only [List.append_assoc]

theorem map_intercalate (f : α → β) (sep : List α) : ∀ l : List (List α),
    (sep.intercalate l).map f = (sep.map f).intercalate (l.map (List.map f))
  | [] => rfl
  | [y] => by simp
  | y :: z :: l => by
    have ih := map_intercalate f sep (z :: l)
    rw [List.intercalate_cons_cons, List.map_append, List.map_append, ih]
    simp

end Joined

/-! ## Loops -/

section Loops

/-- A loop that overwrites what it found ends with the last element that satisfies the test. -/
theorem foldl_last_eq_some {p : α → Bool} {xs : List α} {x : α} :
    xs.foldl (fun found y => if p y then some y else found) none = some x ↔
      ∃ pre post, xs = pre ++ x :: post ∧ p x = true ∧ ∀ y ∈ post, p y = false := by
  have hfind : xs.foldl (fun found y => if p y then some y else found) none = xs.reverse.find? p := by
    induction xs using List.reverseRecOn with
    | nil => rfl
    | append_singleton xs z ih =>
      rw [List.foldl_append, List.reverse_append, ih]
      by_cases hz : p z = true
      · simp [hz]
      · simp [hz]
  rw [hfind, List.find?_eq_some_iff_append]
  constructor
  · rintro ⟨hx, as, bs, hsplit, has⟩
    refine ⟨bs.reverse, as.reverse, ?_, hx, fun y hy => by simpa using has y (List.mem_reverse.mp hy)⟩
    rw [← List.reverse_reverse xs, hsplit]
    simp
  · rintro ⟨pre, post, rfl, hx, hpost⟩
    refine ⟨hx, post.reverse, pre.reverse, by simp, fun y hy => ?_⟩
    simpa using hpost y (List.mem_reverse.mp hy)

/-- A partial function matches a list of results position by position when it filters nothing out. -/
theorem forall₂_some_iff {f : α → Option β} : ∀ {xs : List α} {ys : List β},
    List.Forall₂ (fun x y => f x = some y) xs ys ↔ xs.filterMap f = ys ∧ ys.length = xs.length
  | [], ys => by
    rw [List.forall₂_nil_left_iff, List.filterMap_nil]
    exact ⟨fun h => ⟨h.symm, by simp [h]⟩, fun h => h.1.symm⟩
  | x :: xs, [] => by
    refine ⟨fun h => by simp at h, fun h => absurd h.2 (by simp)⟩
  | x :: xs, y :: ys => by
    rw [List.forall₂_cons, forall₂_some_iff]
    cases hx : f x with
    | none =>
      rw [List.filterMap_cons_none hx]
      refine ⟨fun h => by simp at h, fun ⟨h, hl⟩ => ?_⟩
      have hle := List.length_filterMap_le f xs
      rw [h] at hle
      simp only [List.length_cons] at hle hl
      omega
    | some z =>
      rw [List.filterMap_cons_some hx]
      simp [and_assoc]

end Loops

end ListSplit
