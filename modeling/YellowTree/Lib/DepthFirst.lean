import Mathlib.Data.List.Basic
import Mathlib.Logic.Relation

/-!
# DepthFirst — the first value found in a depth-first search

`Ranked α` is a graph without cycles: each node has a list of successors, of smaller rank.  `firstFound G own a` is
the value of the first node that has one, in the order of a depth-first search from `a`: `a` itself, then the searches
from its successors, in their order (`firstFound_eq`).
-/

namespace DepthFirst

variable {α β : Type*}

/-- A graph without cycles. -/
structure Ranked (α : Type*) where
  next : α → List α
  rank : α → ℕ
  rank_lt : ∀ a, ∀ b ∈ next a, rank b < rank a

/-- The search from a node, to a depth of `fuel`. -/
def search (next : α → List α) (own : α → Option β) : ℕ → α → Option β
  | 0, _ => none
  | fuel + 1, a => (own a).or ((next a).findSome? (search next own fuel))

/-- The value found in a depth-first search from `a`. -/
def firstFound (G : Ranked α) (own : α → Option β) (a : α) : Option β := search G.next own (G.rank a + 1) a

variable {G : Ranked α} {own : α → Option β} {a b : α} {x : β}

theorem findSome?_congr {f g : α → Option β} : ∀ {l : List α}, (∀ b ∈ l, f b = g b) → l.findSome? f = l.findSome? g
  | [], _ => rfl
  | b :: l, h => by
    have hb := h b List.mem_cons_self
    have hl := findSome?_congr (l := l) fun c hc => h c (List.mem_cons_of_mem _ hc)
    simp only [List.findSome?_cons, hb, hl]

/-- More depth than the rank of the node changes nothing. -/
theorem search_fuel : ∀ (n m : ℕ) (a : α), G.rank a < n → G.rank a < m → search G.next own n a = search G.next own m a
  | 0, _, _, hn, _ => absurd hn (Nat.not_lt_zero _)
  | _ + 1, 0, _, _, hm => absurd hm (Nat.not_lt_zero _)
  | n + 1, m + 1, a, hn, hm => by
    unfold search
    rw [findSome?_congr fun b hb => ?_]
    have hlt := G.rank_lt a b hb
    exact search_fuel n m b (by omega) (by omega)

/-- A node without a value is searched through its successors. -/
theorem firstFound_eq : firstFound G own a = (own a).or ((G.next a).findSome? (firstFound G own)) := by
  show (own a).or ((G.next a).findSome? (search G.next own (G.rank a))) = _
  rw [findSome?_congr fun b hb => ?_]
  exact search_fuel _ _ b (G.rank_lt a b hb) (Nat.lt_succ_self _)

/-- What is found is the value of a node that can be reached. -/
theorem exists_of_firstFound : ∀ {a : α}, firstFound G own a = some x →
    ∃ b, Relation.ReflTransGen (fun a b => b ∈ G.next a) a b ∧ own b = some x := by
  suffices h : ∀ (n : ℕ) (a : α), G.rank a < n → firstFound G own a = some x →
      ∃ b, Relation.ReflTransGen (fun a b => b ∈ G.next a) a b ∧ own b = some x from
    fun {a} => h _ a (Nat.lt_succ_self _)
  intro n
  induction n with
  | zero => exact fun _ h => absurd h (Nat.not_lt_zero _)
  | succ n ih =>
    intro a hn hfound
    rw [firstFound_eq] at hfound
    cases hown : own a with
    | some y =>
      rw [hown, Option.some_or] at hfound
      exact ⟨a, .refl, hown.trans hfound⟩
    | none =>
      rw [hown, Option.none_or] at hfound
      obtain ⟨b, hb, hfb⟩ := List.exists_of_findSome?_eq_some hfound
      have hlt := G.rank_lt a b hb
      obtain ⟨c, hreach, hc⟩ := ih b (by omega) hfb
      exact ⟨c, .head hb hreach, hc⟩

/-- A search finds nothing only where no node that can be reached has a value. -/
theorem own_eq_none_of_firstFound (hfound : firstFound G own a = none)
    (hreach : Relation.ReflTransGen (fun a b => b ∈ G.next a) a b) : own b = none := by
  induction hreach using Relation.ReflTransGen.head_induction_on with
  | refl =>
    rw [firstFound_eq, Option.or_eq_none_iff] at hfound
    exact hfound.1
  | head hb _ ih =>
    rw [firstFound_eq, Option.or_eq_none_iff, List.findSome?_eq_none_iff] at hfound
    exact ih (hfound.2 _ hb)

end DepthFirst
