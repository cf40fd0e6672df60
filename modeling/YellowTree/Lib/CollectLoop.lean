import Mathlib.Data.List.Basic

/-!
# CollectLoop — a loop that collects values until it has enough

`collect f n` goes through a list: `f` fails on an element, refuses it, or gives a value for it.  The loop ends at the
element with which it has `n` values.

* `collect_append`: a loop over two lists is one loop after the other.
* `collect_eq_some_iff`: it ends at an element exactly when `f` fails on none before it and `n` values are given up to
  there.
-/

namespace CollectLoop

variable {α β γ ε : Type*}

/-- The loop, with the values collected so far. -/
def collect (f : α → Except ε (Option β)) (n : ℕ) : List α → List β → Except ε (Option (α × List β))
  | [], _ => .ok none
  | a :: as, bs =>
    match f a with
    | .error e => .error e
    | .ok r => if (bs ++ r.toList).length = n then .ok (some (a, bs ++ r.toList)) else collect f n as (bs ++ r.toList)

/-- The values for the elements of a list. -/
def given (f : α → Except ε (Option β)) (as : List α) : List β := as.filterMap fun a => (f a).toOption.join

/-- `f` gives a value for the element. -/
def gives (f : α → Except ε (Option β)) (a : α) : Bool := (f a).toOption.join.isSome

variable {f : α → Except ε (Option β)} {n : ℕ}

theorem given_cons {a : α} {r : Option β} (h : f a = .ok r) (as : List α) :
    given f (a :: as) = r.toList ++ given f as := by
  cases r with
  | none => exact List.filterMap_cons_none (by rw [h]; rfl)
  | some b => exact List.filterMap_cons_some (by rw [h]; rfl)

theorem given_append (as as' : List α) : given f (as ++ as') = given f as ++ given f as' := List.filterMap_append

theorem given_concat {a : α} {b : β} (h : f a = .ok (some b)) (as : List α) :
    given f (as ++ [a]) = given f as ++ [b] := by
  rw [given_append, given_cons h]
  rfl

theorem given_map (g : γ → α) (cs : List γ) : given f (cs.map g) = given (f ∘ g) cs := List.filterMap_map

theorem mem_given {as : List α} {b : β} : b ∈ given f as ↔ ∃ a, a ∈ as ∧ f a = .ok (some b) := by
  have hsome : ∀ a, (f a).toOption.join = some b ↔ f a = .ok (some b) := by
    intro a
    rcases f a with e | _ | c <;> simp [Except.toOption]
  simp only [given, List.mem_filterMap, hsome]

/-- The values come from the elements that have one, in their order. -/
theorem getElem?_given {b : β} : ∀ {as : List α} {i : ℕ},
    (given f as)[i]? = some b ↔ ∃ a, (as.filter (gives f))[i]? = some a ∧ f a = .ok (some b)
  | [], i => by simp [given]
  | a :: as, i => by
    rcases ha : f a with e | _ | c
    · have hg : gives f a = false := by rw [gives, ha]; rfl
      have hnone : given f (a :: as) = given f as := List.filterMap_cons_none (by rw [ha]; rfl)
      rw [hnone, List.filter_cons_of_neg (by simp [hg])]
      exact getElem?_given
    · have hg : gives f a = false := by rw [gives, ha]; rfl
      rw [given_cons ha, List.filter_cons_of_neg (by simp [hg])]
      exact getElem?_given
    · have hg : gives f a = true := by rw [gives, ha]; rfl
      rw [given_cons ha, List.filter_cons_of_pos hg]
      cases i with
      | zero =>
        constructor
        · intro h
          obtain rfl : c = b := by simpa using h
          exact ⟨a, rfl, ha⟩
        · rintro ⟨a', ha', hb⟩
          obtain rfl : a = a' := by simpa using ha'
          rw [ha] at hb
          simpa using hb
      | succ i =>
        have hsucc : (given f as)[i]? = some b ↔ ∃ a, (as.filter (gives f))[i]? = some a ∧ f a = .ok (some b) :=
          getElem?_given
        exact hsucc

theorem length_given_eq (as : List α) : (given f as).length = (as.filter (gives f)).length := by
  rw [given, List.length_filterMap_eq_countP, List.countP_eq_length_filter]
  rfl

/-- A list with a value for each element has as many values, and only then. -/
theorem length_given {as : List α} : (given f as).length = as.length ↔ ∀ a ∈ as, ∃ b, f a = .ok (some b) := by
  have hsome : ∀ a, (f a).toOption.join.isSome = true ↔ ∃ b, f a = .ok (some b) := by
    intro a
    rcases f a with e | _ | b <;> simp [Except.toOption]
  simp only [given, List.filterMap_length_eq_length, hsome]

/-- They are given one by one. -/
theorem forall₂_given : ∀ {as : List α}, (∀ a ∈ as, ∃ b, f a = .ok (some b)) →
    List.Forall₂ (fun a b => f a = .ok (some b)) as (given f as)
  | [], _ => .nil
  | a :: as, h => by
    obtain ⟨⟨b, hb⟩, has⟩ := List.forall_mem_cons.mp h
    rw [given_cons hb]
    exact .cons hb (forall₂_given has)

theorem collect_cons_error {a : α} {e : ε} (h : f a = .error e) (as : List α) (bs : List β) :
    collect f n (a :: as) bs = .error e := by
  rw [collect, h]

/-- The step that ends the loop. -/
theorem collect_cons_end {a : α} {r : Option β} (h : f a = .ok r) (as : List α) {bs : List β}
    (hn : (bs ++ r.toList).length = n) : collect f n (a :: as) bs = .ok (some (a, bs ++ r.toList)) := by
  rw [collect, h]
  exact if_pos hn

/-- The steps that do not. -/
theorem collect_cons {a : α} {r : Option β} (h : f a = .ok r) (as : List α) {bs : List β}
    (hn : (bs ++ r.toList).length ≠ n) : collect f n (a :: as) bs = collect f n as (bs ++ r.toList) := by
  rw [collect, h]
  exact if_neg hn

theorem collect_append (as as' : List α) : ∀ bs : List β,
    collect f n (as ++ as') bs =
      match collect f n as bs with
      | .error e => .error e
      | .ok (some x) => .ok (some x)
      | .ok none => collect f n as' (bs ++ given f as) := by
  induction as with
  | nil => exact fun bs => by rw [given, List.filterMap_nil, List.append_nil]; rfl
  | cons a as ih =>
    intro bs
    cases ha : f a with
    | error e => rw [List.cons_append, collect_cons_error ha, collect_cons_error ha]
    | ok r =>
      by_cases hn : (bs ++ r.toList).length = n
      · rw [List.cons_append, collect_cons_end ha _ hn, collect_cons_end ha _ hn]
      · rw [List.cons_append, collect_cons ha _ hn, collect_cons ha _ hn, ih, given_cons ha, List.append_assoc]

/-- It ends at one of the elements. -/
theorem mem_of_collect {as : List α} {a : α} {cs : List β} : ∀ {bs : List β},
    collect f n as bs = .ok (some (a, cs)) → a ∈ as := by
  induction as with
  | nil => exact fun h => by simp [collect] at h
  | cons x as ih =>
    intro bs h
    cases hx : f x with
    | error e =>
      rw [collect_cons_error hx] at h
      cases h
    | ok r =>
      by_cases hn : (bs ++ r.toList).length = n
      · rw [collect_cons_end hx _ hn] at h
        obtain ⟨rfl, -⟩ : x = a ∧ bs ++ r.toList = cs := by simpa using h
        exact List.mem_cons_self
      · rw [collect_cons hx _ hn] at h
        exact List.mem_cons_of_mem _ (ih h)

/-- **The end of the loop.** -/
theorem collect_eq_some_iff {as : List α} {a : α} {cs : List β} : ∀ {bs : List β}, bs.length < n →
    (collect f n as bs = .ok (some (a, cs)) ↔ ∃ pre post b, as = pre ++ a :: post ∧
      (∀ x ∈ pre, ∃ r, f x = .ok r) ∧ f a = .ok (some b) ∧ cs = bs ++ given f pre ++ [b] ∧ cs.length = n) := by
  induction as with
  | nil => exact fun _ => ⟨fun h => by simp [collect] at h, fun ⟨pre, post, b, h, _⟩ => by simp at h⟩
  | cons x as ih =>
    intro bs hlt
    cases hx : f x with
    | error e =>
      rw [collect_cons_error hx]
      refine ⟨fun h => by simp at h, ?_⟩
      rintro ⟨pre, post, b, hsplit, hpre, ha, -⟩
      rcases List.cons_eq_append_iff.mp hsplit with ⟨rfl, hcons⟩ | ⟨pre', rfl, -⟩
      · obtain ⟨rfl, -⟩ := List.cons.inj hcons
        cases hx.symm.trans ha
      · obtain ⟨r, hr⟩ := hpre x List.mem_cons_self
        cases hx.symm.trans hr
    | ok r =>
      by_cases hn : (bs ++ r.toList).length = n
      · -- the loop ends here, and only here
        rw [collect_cons_end hx _ hn]
        obtain ⟨b, rfl⟩ : ∃ b, r = some b := by
          cases r with
          | none => simp only [Option.toList_none, List.append_nil] at hn; omega
          | some b => exact ⟨b, rfl⟩
        constructor
        · intro h
          obtain ⟨rfl, rfl⟩ : x = a ∧ bs ++ [b] = cs := by simpa using h
          exact ⟨[], as, b, rfl, fun y hy => by simp at hy, hx, by simp [given], hn⟩
        · rintro ⟨pre, post, b', hsplit, -, ha, hcs, hlen⟩
          rcases List.cons_eq_append_iff.mp hsplit with ⟨rfl, hcons⟩ | ⟨pre', rfl, -⟩
          · obtain ⟨rfl, -⟩ := List.cons.inj hcons
            obtain rfl : b = b' := by simpa [hx] using ha
            rw [hcs]
            simp [given]
          · rw [hcs, given_cons hx] at hlen
            simp only [List.length_append, Option.toList_some, List.length_cons, List.length_nil] at hlen hn
            omega
      · have hlt' : (bs ++ r.toList).length < n := by
          have hr : r.toList.length ≤ 1 := by cases r <;> simp
          rw [List.length_append] at hn ⊢
          omega
        rw [collect_cons hx _ hn, ih hlt']
        constructor
        · rintro ⟨pre, post, b, rfl, hpre, ha, hcs, hlen⟩
          refine ⟨x :: pre, post, b, rfl, List.forall_mem_cons.mpr ⟨⟨r, hx⟩, hpre⟩, ha, ?_, hlen⟩
          rw [hcs, given_cons hx, List.append_assoc bs]
        · rintro ⟨pre, post, b, hsplit, hpre, ha, hcs, hlen⟩
          rcases List.cons_eq_append_iff.mp hsplit with ⟨rfl, hcons⟩ | ⟨pre', rfl, rfl⟩
          · obtain ⟨rfl, -⟩ := List.cons.inj hcons
            obtain rfl : r = some b := by simpa [hx] using ha
            refine absurd ?_ hn
            rw [← hlen, hcs]
            simp [given]
          · refine ⟨pre', post, b, rfl, fun z hz => hpre z (List.mem_cons_of_mem _ hz), ha, ?_, hlen⟩
            rw [hcs, given_cons hx]
            simp only [List.append_assoc]

/-- A loop over as many elements as values are missing ends only when each of them has a value. -/
theorem all_of_collect {as : List α} {a : α} {bs cs : List β} (hlt : bs.length < n) (hlen : bs.length + as.length = n)
    (h : collect f n as bs = .ok (some (a, cs))) : ∀ x ∈ as, ∃ b, f x = .ok (some b) := by
  obtain ⟨pre, post, b, rfl, -, ha, hcs, hn⟩ := (collect_eq_some_iff hlt).mp h
  have hle : (given f pre).length ≤ pre.length := List.length_filterMap_le _ _
  rw [hcs] at hn
  simp only [List.length_append, List.length_cons, List.length_nil] at hn hlen
  have hpost : post = [] := List.length_eq_zero_iff.mp (by omega)
  have hpre := length_given.mp (show (given f pre).length = pre.length by omega)
  subst hpost
  intro x hx
  rcases List.mem_append.mp hx with hx | hx
  · exact hpre x hx
  · obtain rfl := List.mem_singleton.mp hx
    exact ⟨b, ha⟩

end CollectLoop
