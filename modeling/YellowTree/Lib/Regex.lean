import Mathlib.Data.List.Basic
import Mathlib.Logic.Function.Basic

/-!
# Regex — regular expressions matched by backtracking

A pattern is a regular expression with numbered groups.  `Pattern.ends` lists the ways in which it can match at the
beginning of a text, in the order in which a backtracking matcher tries them: the first alternative first, as many
characters as possible for a greedy repetition, as few for a lazy one.  `search` takes the first of them at the
leftmost place that has one.

`Pattern.Spans` says which texts a pattern matches and what the groups then hold, without the order.  The matcher is
sound and complete for it (`mem_ends_iff`), so that `search` finds something exactly where there is something to find
(`exists_of_search`, `search_of_spans`).
-/

namespace Regex

variable {α : Type*}

/-! ## Patterns -/

section Patterns

/-- `chars p` is one character of a class; `star greedy p` any number of them. -/
inductive Pattern (α : Type*) where
  | empty
  | chars (p : α → Bool)
  | seq (a b : Pattern α)
  | alt (a b : Pattern α)
  | star (greedy : Bool) (p : α → Bool)
  | group (k : ℕ) (a : Pattern α)

/-- What the groups hold. -/
abbrev Groups (α : Type*) := ℕ → Option (List α)

def Groups.none : Groups α := fun _ => Option.none

/-- `a?`. -/
def Pattern.opt (a : Pattern α) : Pattern α := .alt a .empty

/-- `p+`. -/
def Pattern.plus (p : α → Bool) : Pattern α := .seq (.chars p) (.star true p)

/-- Patterns one after the other. -/
def Pattern.seqs : List (Pattern α) → Pattern α
  | [] => .empty
  | a :: as => .seq a (seqs as)

/-- The text `s` itself. -/
def Pattern.text [BEq α] (s : List α) : Pattern α := .seqs (s.map fun a => .chars (· == a))

/-- What is left of a text behind a repetition, the order of the tries being that of the repetition. -/
def starEnds (greedy : Bool) (p : α → Bool) : List α → List (List α)
  | [] => [[]]
  | a :: s =>
    if p a then if greedy then starEnds greedy p s ++ [a :: s] else (a :: s) :: starEnds greedy p s
    else [a :: s]

/-- The matches at the beginning of a text: what is left of the text, and the groups. -/
def Pattern.ends : Pattern α → List α → Groups α → List (List α × Groups α)
  | .empty, s, g => [(s, g)]
  | .chars p, s, g =>
    match s with
    | [] => []
    | a :: s => if p a then [(s, g)] else []
  | .seq a b, s, g => (a.ends s g).flatMap fun e => b.ends e.1 e.2
  | .alt a b, s, g => a.ends s g ++ b.ends s g
  | .star greedy p, s, g => (starEnds greedy p s).map fun r => (r, g)
  | .group k a, s, g => (a.ends s g).map fun e => (e.1, Function.update e.2 k (some (s.take (s.length - e.1.length))))

/-- The groups of the first match at the leftmost place. -/
def search (a : Pattern α) : List α → Option (Groups α)
  | [] => (a.ends [] Groups.none).head?.map Prod.snd
  | c :: s =>
    match (a.ends (c :: s) Groups.none).head? with
    | some e => some e.2
    | none => search a s

end Patterns

/-! ## What a pattern matches -/

section Spans

/-- The pattern matches the text `w`, and takes the groups from `g` to `g'`. -/
def Pattern.Spans : Pattern α → List α → Groups α → Groups α → Prop
  | .empty, w, g, g' => w = [] ∧ g' = g
  | .chars p, w, g, g' => (∃ a, p a = true ∧ w = [a]) ∧ g' = g
  | .seq a b, w, g, g' => ∃ u v m, w = u ++ v ∧ a.Spans u g m ∧ b.Spans v m g'
  | .alt a b, w, g, g' => a.Spans w g g' ∨ b.Spans w g g'
  | .star _ p, w, g, g' => (∀ a ∈ w, p a = true) ∧ g' = g
  | .group k a, w, g, g' => ∃ m, a.Spans w g m ∧ g' = Function.update m k (some w)

variable {p : α → Bool} {greedy : Bool} {a : Pattern α} {s r w : List α} {g g' : Groups α}

theorem mem_starEnds_iff : ∀ {s : List α}, r ∈ starEnds greedy p s ↔ ∃ w, s = w ++ r ∧ ∀ a ∈ w, p a = true
  | [] => by
    unfold starEnds
    rw [List.mem_singleton]
    constructor
    · rintro rfl
      exact ⟨[], rfl, fun a ha => by simp at ha⟩
    · rintro ⟨w, hw, -⟩
      exact (List.append_eq_nil_iff.mp hw.symm).2
  | a :: s => by
    have hsplit : (∃ w, a :: s = w ++ r ∧ ∀ b ∈ w, p b = true) ↔
        r = a :: s ∨ p a = true ∧ ∃ w, s = w ++ r ∧ ∀ b ∈ w, p b = true := by
      constructor
      · rintro ⟨w, hw, hall⟩
        cases w with
        | nil => exact Or.inl hw.symm
        | cons b w =>
          obtain ⟨rfl, hs⟩ := List.cons.inj hw
          exact Or.inr ⟨hall a List.mem_cons_self, w, hs, fun b hb => hall b (List.mem_cons_of_mem _ hb)⟩
      · rintro (rfl | ⟨ha, w, rfl, hall⟩)
        · exact ⟨[], rfl, fun b hb => by simp at hb⟩
        · exact ⟨a :: w, rfl, List.forall_mem_cons.mpr ⟨ha, hall⟩⟩
    rw [hsplit, ← mem_starEnds_iff (s := s)]
    rw [starEnds]
    by_cases ha : p a = true
    · rw [if_pos ha]
      cases greedy with
      | true => simp [ha, or_comm]
      | false => simp [ha]
    · rw [if_neg ha]
      simp [ha]

/-- The matcher finds every match, and nothing else. -/
theorem mem_ends_iff : ∀ {a : Pattern α} {s r : List α} {g g' : Groups α},
    (r, g') ∈ a.ends s g ↔ ∃ w, s = w ++ r ∧ a.Spans w g g'
  | .empty, s, r, g, g' => by
    simp only [Pattern.ends, Pattern.Spans, List.mem_singleton, Prod.mk.injEq]
    constructor
    · rintro ⟨rfl, rfl⟩
      exact ⟨[], rfl, rfl, rfl⟩
    · rintro ⟨w, rfl, rfl, rfl⟩
      exact ⟨rfl, rfl⟩
  | .chars p, s, r, g, g' => by
    simp only [Pattern.ends, Pattern.Spans]
    cases s with
    | nil =>
      refine iff_of_false (fun h => by simp at h) ?_
      rintro ⟨w, hw, ⟨a, -, rfl⟩, -⟩
      simp at hw
    | cons b s =>
      dsimp only
      constructor
      · intro h
        split_ifs at h with hb
        · obtain ⟨rfl, rfl⟩ := Prod.mk.inj (List.mem_singleton.mp h)
          exact ⟨[b], rfl, ⟨b, hb, rfl⟩, rfl⟩
        · simp at h
      · rintro ⟨w, hw, ⟨a, ha, rfl⟩, rfl⟩
        obtain ⟨rfl, rfl⟩ := List.cons.inj hw
        rw [if_pos ha]
        exact List.mem_singleton.mpr rfl
  | .seq a b, s, r, g, g' => by
    simp only [Pattern.ends, Pattern.Spans, List.mem_flatMap]
    constructor
    · rintro ⟨⟨t, m⟩, ha, hb⟩
      obtain ⟨u, rfl, hu⟩ := mem_ends_iff.mp ha
      obtain ⟨v, hv, hspans⟩ := mem_ends_iff.mp hb
      have hv : t = v ++ r := hv
      exact ⟨u ++ v, by rw [hv, List.append_assoc], u, v, m, rfl, hu, hspans⟩
    · rintro ⟨w, rfl, u, v, m, rfl, hu, hv⟩
      exact ⟨(v ++ r, m), mem_ends_iff.mpr ⟨u, by rw [List.append_assoc], hu⟩, mem_ends_iff.mpr ⟨v, rfl, hv⟩⟩
  | .alt a b, s, r, g, g' => by
    simp only [Pattern.ends, Pattern.Spans, List.mem_append]
    rw [mem_ends_iff, mem_ends_iff, ← exists_or]
    exact exists_congr fun w => and_or_left.symm
  | .star greedy p, s, r, g, g' => by
    simp only [Pattern.ends, Pattern.Spans, List.mem_map]
    constructor
    · rintro ⟨t, ht, heq⟩
      obtain ⟨rfl, rfl⟩ := Prod.mk.inj heq
      obtain ⟨w, hw, hall⟩ := mem_starEnds_iff.mp ht
      exact ⟨w, hw, hall, rfl⟩
    · rintro ⟨w, hw, hall, rfl⟩
      exact ⟨r, mem_starEnds_iff.mpr ⟨w, hw, hall⟩, rfl⟩
  | .group k a, s, r, g, g' => by
    simp only [Pattern.ends, Pattern.Spans, List.mem_map]
    have htake : ∀ w : List α, (w ++ r).take ((w ++ r).length - r.length) = w := by
      intro w
      rw [List.length_append, Nat.add_sub_cancel, List.take_left]
    constructor
    · rintro ⟨⟨t, m⟩, ht, heq⟩
      obtain ⟨rfl, rfl⟩ := Prod.mk.inj heq
      obtain ⟨w, rfl, hw⟩ := mem_ends_iff.mp ht
      exact ⟨w, rfl, m, hw, by rw [htake w]⟩
    · rintro ⟨w, rfl, m, hw, rfl⟩
      exact ⟨(r, m), mem_ends_iff.mpr ⟨w, rfl, hw⟩, by rw [htake w]⟩

theorem spans_opt : a.opt.Spans w g g' ↔ a.Spans w g g' ∨ w = [] ∧ g' = g := Iff.rfl

theorem spans_plus : (Pattern.plus p).Spans w g g' ↔ w ≠ [] ∧ (∀ a ∈ w, p a = true) ∧ g' = g := by
  simp only [Pattern.plus, Pattern.Spans]
  constructor
  · rintro ⟨u, v, m, rfl, ⟨⟨b, hb, rfl⟩, rfl⟩, hall, rfl⟩
    exact ⟨List.cons_ne_nil _ _, List.forall_mem_cons.mpr ⟨hb, hall⟩, rfl⟩
  · rintro ⟨hne, hall, rfl⟩
    obtain ⟨b, v, rfl⟩ := List.exists_cons_of_ne_nil hne
    obtain ⟨hb, hv⟩ := List.forall_mem_cons.mp hall
    exact ⟨[b], v, g', rfl, ⟨⟨b, hb, rfl⟩, rfl⟩, hv, rfl⟩

theorem spans_char [BEq α] [LawfulBEq α] {b : α} :
    (Pattern.chars (· == b)).Spans w g g' ↔ w = [b] ∧ g' = g := by
  simp only [Pattern.Spans]
  refine and_congr_left fun _ => ?_
  constructor
  · rintro ⟨c, hc, rfl⟩
    rw [beq_iff_eq.mp hc]
  · rintro rfl
    exact ⟨b, beq_self_eq_true b, rfl⟩

theorem spans_text [BEq α] [LawfulBEq α] : (Pattern.text s).Spans w g g' ↔ w = s ∧ g' = g := by
  induction s generalizing w with
  | nil => exact Iff.rfl
  | cons b s ih =>
    show (∃ u v m, w = u ++ v ∧ (Pattern.chars (· == b)).Spans u g m ∧ (Pattern.text s).Spans v m g') ↔ _
    constructor
    · rintro ⟨u, v, m, rfl, hu, hv⟩
      obtain ⟨rfl, rfl⟩ := spans_char.mp hu
      obtain ⟨rfl, rfl⟩ := ih.mp hv
      exact ⟨rfl, rfl⟩
    · rintro ⟨rfl, rfl⟩
      exact ⟨[b], s, g', rfl, spans_char.mpr ⟨rfl, rfl⟩, ih.mpr ⟨rfl, rfl⟩⟩

end Spans

/-! ## Sequences, from the left -/

section Sequences

variable {p : α → Bool} {greedy : Bool} {as : List (Pattern α)} {w s : List α} {g g' : Groups α} {k : ℕ}

theorem spans_cons {a : Pattern α} : (Pattern.seqs (a :: as)).Spans w g g' ↔
    ∃ u v m, w = u ++ v ∧ a.Spans u g m ∧ (Pattern.seqs as).Spans v m g' := Iff.rfl

/-- The first pattern sees no groups and sets none. -/
theorem spans_cons_of {a : Pattern α} {P : List α → Prop} (ha : ∀ {u g m}, a.Spans u g m ↔ P u ∧ m = g) :
    (Pattern.seqs (a :: as)).Spans w g g' ↔ ∃ u v, w = u ++ v ∧ P u ∧ (Pattern.seqs as).Spans v g g' := by
  rw [spans_cons]
  constructor
  · rintro ⟨u, v, m, hw, hu, hv⟩
    obtain ⟨hP, rfl⟩ := ha.mp hu
    exact ⟨u, v, hw, hP, hv⟩
  · rintro ⟨u, v, hw, hP, hv⟩
    exact ⟨u, v, g, hw, ha.mpr ⟨hP, rfl⟩, hv⟩

/-- A group around such a pattern. -/
theorem spans_cons_group {a : Pattern α} {P : List α → Prop} (ha : ∀ {u g m}, a.Spans u g m ↔ P u ∧ m = g) :
    (Pattern.seqs (.group k a :: as)).Spans w g g' ↔
      ∃ u v, w = u ++ v ∧ P u ∧ (Pattern.seqs as).Spans v (Function.update g k (some u)) g' := by
  rw [spans_cons]
  constructor
  · rintro ⟨u, v, m, hw, ⟨m', hu, rfl⟩, hv⟩
    obtain ⟨hP, rfl⟩ := ha.mp hu
    exact ⟨u, v, hw, hP, hv⟩
  · rintro ⟨u, v, hw, hP, hv⟩
    exact ⟨u, v, _, hw, ⟨g, ha.mpr ⟨hP, rfl⟩, rfl⟩, hv⟩

theorem spans_cons_plus : (Pattern.seqs (.plus p :: as)).Spans w g g' ↔
    ∃ u v, w = u ++ v ∧ (u ≠ [] ∧ ∀ a ∈ u, p a = true) ∧ (Pattern.seqs as).Spans v g g' :=
  spans_cons_of (spans_plus.trans and_assoc.symm)

theorem spans_cons_star : (Pattern.seqs (.star greedy p :: as)).Spans w g g' ↔
    ∃ u v, w = u ++ v ∧ (∀ a ∈ u, p a = true) ∧ (Pattern.seqs as).Spans v g g' := spans_cons_of Iff.rfl

theorem spans_cons_group_star : (Pattern.seqs (.group k (.star greedy p) :: as)).Spans w g g' ↔
    ∃ u v, w = u ++ v ∧ (∀ a ∈ u, p a = true) ∧ (Pattern.seqs as).Spans v (Function.update g k (some u)) g' :=
  spans_cons_group Iff.rfl

variable [BEq α] [LawfulBEq α] {b : α}

theorem spans_opt_char : (Pattern.chars (· == b)).opt.Spans w g g' ↔ (w = [b] ∨ w = []) ∧ g' = g := by
  rw [spans_opt, spans_char, or_and_right]

theorem spans_cons_char : (Pattern.seqs (.chars (· == b) :: as)).Spans w g g' ↔
    ∃ v, w = b :: v ∧ (Pattern.seqs as).Spans v g g' := by
  rw [spans_cons_of spans_char]
  constructor
  · rintro ⟨u, v, rfl, rfl, hv⟩
    exact ⟨v, rfl, hv⟩
  · rintro ⟨v, rfl, hv⟩
    exact ⟨[b], v, rfl, rfl, hv⟩

theorem spans_cons_text : (Pattern.seqs (.text s :: as)).Spans w g g' ↔
    ∃ v, w = s ++ v ∧ (Pattern.seqs as).Spans v g g' := by
  rw [spans_cons_of spans_text]
  constructor
  · rintro ⟨u, v, rfl, rfl, hv⟩
    exact ⟨v, rfl, hv⟩
  · rintro ⟨v, rfl, hv⟩
    exact ⟨s, v, rfl, rfl, hv⟩

theorem spans_cons_opt_char : (Pattern.seqs ((Pattern.chars (· == b)).opt :: as)).Spans w g g' ↔
    ∃ u v, w = u ++ v ∧ (u = [b] ∨ u = []) ∧ (Pattern.seqs as).Spans v g g' := spans_cons_of spans_opt_char

end Sequences

/-! ## Searching -/

section Search

variable {a : Pattern α} {s : List α} {g : Groups α}

/-- The first match at the beginning of a text, if there is one. -/
theorem search_eq (a : Pattern α) (s : List α) : search a s =
    match (a.ends s Groups.none).head? with
    | some e => some e.2
    | none => s.tail?.bind (search a) := by
  cases s with
  | nil =>
    unfold search
    cases (a.ends [] Groups.none).head? <;> rfl
  | cons c s => rfl

/-- What is found is a match somewhere in the text. -/
theorem exists_of_search : ∀ {s : List α}, search a s = some g →
    ∃ pre w post, s = pre ++ w ++ post ∧ a.Spans w Groups.none g := by
  intro s
  induction s with
  | nil =>
    intro h
    obtain ⟨⟨r, g'⟩, he, rfl⟩ := Option.map_eq_some_iff.mp h
    obtain ⟨w, hw, hspans⟩ := mem_ends_iff.mp (List.mem_of_mem_head? he)
    exact ⟨[], w, r, hw, hspans⟩
  | cons c s ih =>
    intro h
    rw [search_eq] at h
    cases he : (a.ends (c :: s) Groups.none).head? with
    | some e =>
      rw [he] at h
      obtain rfl := Option.some.inj h
      obtain ⟨w, hw, hspans⟩ := mem_ends_iff.mp (List.mem_of_mem_head? he)
      exact ⟨[], w, e.1, hw, hspans⟩
    | none =>
      rw [he] at h
      obtain ⟨pre, w, post, rfl, hspans⟩ := ih h
      exact ⟨c :: pre, w, post, rfl, hspans⟩

/-- Where a text begins with a match, one at its beginning is found. -/
theorem search_of_spans {w : List α} (post : List α) (hw : a.Spans w Groups.none g) :
    ∃ w' post' g', w ++ post = w' ++ post' ∧ a.Spans w' Groups.none g' ∧ search a (w ++ post) = some g' := by
  have hmem : (post, g) ∈ a.ends (w ++ post) Groups.none := mem_ends_iff.mpr ⟨w, rfl, hw⟩
  cases he : (a.ends (w ++ post) Groups.none).head? with
  | none =>
    rw [List.head?_eq_none_iff] at he
    rw [he] at hmem
    simp at hmem
  | some e =>
    obtain ⟨w', hw', hspans⟩ := mem_ends_iff.mp (List.mem_of_mem_head? he)
    exact ⟨w', e.1, e.2, hw', hspans, by rw [search_eq, he]⟩

end Search

end Regex
