import Mathlib.Data.List.TakeWhile
import Mathlib.Logic.Function.Basic
import YellowTree.Bridge.Descriptor
import YellowTree.Lib.ListSplit

/-!
# YellowTree.Debugger.Options — the agent's option string

`setopts` cuts its argument at the first comma and calls itself on what follows before it sets the option in front, so
that a key that occurs twice keeps the value on the left.  The calls are counted: `setopts n` may nest `n` of them.

* `assignments`: the pairs of the segments of a string, from left to right.
* `setopts_overrides`: one call for each comma and one more are enough, and then the leftmost pair of each key is set.
-/

namespace YellowTree

variable {Class Ref : Type} [DecidableEq Class] [DecidableEq Ref]

/-! ## The embedding -/

section Embedding

/-- The global table `options`, where an absent key has the value nil, and the lines that `dbgio` has printed. -/
structure OptionState (Class Ref : Type) where
  options : Value Class Ref → Value Class Ref
  printed : List LuaString

/-- The end of `setopts`: parse option key and value. -/
def OptionState.setOption (st : OptionState Class Ref) (opt : LuaString) : OptionState Class Ref :=
  match opt.idxOf? '=' with
  | none => { st with printed := st.printed ++ ["Invalid option: ".toList ++ opt] }
  | some seploc =>
    { st with
      options := Function.update st.options (.string (opt.take seploc)) (.string (opt.drop (seploc + 1))) }

/-- `setopts`; `none` when more calls are nested than the first argument allows. -/
def setopts : ℕ → LuaString → OptionState Class Ref → Option (OptionState Class Ref)
  | 0, _, _ => none
  | calls + 1, optstring, st =>
    if optstring.length = 0 then some st
    else
      match optstring.idxOf? ',' with
      | some seploc => (setopts calls (optstring.drop (seploc + 1)) st).map (·.setOption (optstring.take seploc))
      | none => some (st.setOption optstring)

end Embedding

/-! ## What is set -/

section Spec

/-- The pair of a segment: what stands before and after its first `=`. -/
def keyValue (segment : LuaString) : Option (LuaString × LuaString) :=
  match segment.dropWhile (· != '=') with
  | [] => none
  | _ :: value => some (segment.takeWhile (· != '='), value)

/-- The pairs of the segments between the commas, from left to right. -/
def assignments (s : LuaString) : List (LuaString × LuaString) := (s.splitOn ',').filterMap keyValue

/-- A table overridden by the leftmost pair of each key. -/
def overridden (options : Value Class Ref → Value Class Ref) (pairs : List (LuaString × LuaString)) :
    Value Class Ref → Value Class Ref
  | .string k => ((pairs.lookup k).map .string).getD (options (.string k))
  | x => options x

/-- `k=v,k=v`. -/
def encodeOptions (pairs : List (LuaString × LuaString)) : LuaString :=
  [','].intercalate (pairs.map fun p => p.1 ++ '=' :: p.2)

end Spec

/-! ## Segments -/

section Segments

variable {k v : LuaString}

theorem keyValue_append (hk : '=' ∉ k) : keyValue (k ++ '=' :: v) = some (k, v) := by
  have hall : ∀ c ∈ k, (c != '=') = true := by
    intro c hc
    simpa using fun heq : c = '=' => hk (heq ▸ hc)
  rw [keyValue, List.dropWhile_append_of_pos hall, List.takeWhile_append_of_pos hall]
  simp

theorem keyValue_of_notMem (h : '=' ∉ k) : keyValue k = none := by
  have hall : k.dropWhile (· != '=') = [] := by
    rw [List.dropWhile_eq_nil_iff]
    intro c hc
    simpa using fun heq : c = '=' => h (heq ▸ hc)
  rw [keyValue, hall]

omit [DecidableEq Class] [DecidableEq Ref] in
theorem overridden_nil (options : Value Class Ref → Value Class Ref) : overridden options [] = options := by
  funext x
  cases x <;> rfl

/-- The leftmost pair is the one that is set last. -/
theorem overridden_cons (options : Value Class Ref → Value Class Ref) (pairs : List (LuaString × LuaString)) :
    overridden options ((k, v) :: pairs) = Function.update (overridden options pairs) (.string k) (.string v) := by
  funext x
  by_cases hx : x = .string k
  · rw [hx, Function.update_self, overridden, List.lookup_cons_self]
    rfl
  · rw [Function.update_of_ne hx]
    cases x with
    | string k' =>
      have hne : (k' == k) = false := by
        rw [beq_eq_false_iff_ne]
        exact fun heq => hx (heq ▸ rfl)
      rw [overridden, overridden, List.lookup_cons, hne]
    | _ => rfl

/-- One segment, with an `=` or without. -/
theorem setOption_eq (st : OptionState Class Ref) (segment : LuaString) : st.setOption segment =
    ⟨overridden st.options (keyValue segment).toList, (st.setOption segment).printed⟩ := by
  have hoptions : (st.setOption segment).options = overridden st.options (keyValue segment).toList := by
    by_cases h : '=' ∈ segment
    · obtain ⟨key, value, rfl, hkey⟩ := List.eq_append_cons_of_mem h
      rw [keyValue_append hkey, OptionState.setOption, idxOf?_append_cons hkey, Option.toList_some, overridden_cons,
        overridden_nil]
      simp
    · rw [keyValue_of_notMem h, OptionState.setOption, List.idxOf?_eq_none_iff.mpr h]
      exact (overridden_nil _).symm
  rw [← hoptions]

theorem setOption_printed (st : OptionState Class Ref) {segment : LuaString} (h : '=' ∈ segment) :
    (st.setOption segment).printed = st.printed := by
  obtain ⟨key, value, rfl, hkey⟩ := List.eq_append_cons_of_mem h
  rw [OptionState.setOption, idxOf?_append_cons hkey]

end Segments

/-! ## The whole string -/

section Whole

variable {s : LuaString} (st : OptionState Class Ref)

theorem overridden_append (options : Value Class Ref → Value Class Ref)
    (pairs pairs' : List (LuaString × LuaString)) :
    overridden options (pairs ++ pairs') = overridden (overridden options pairs') pairs := by
  induction pairs with
  | nil => rw [List.nil_append, overridden_nil]
  | cons p pairs ih => rw [List.cons_append, overridden_cons, ih, ← overridden_cons]

/-- The rest of the string is parsed first. -/
theorem setopts_comma (n : ℕ) {segment : LuaString} (h : ',' ∉ segment) (rest : LuaString) :
    setopts (n + 1) (segment ++ ',' :: rest) st = (setopts n rest st).map (·.setOption segment) := by
  have hdrop : (segment ++ ',' :: rest).drop (segment.length + 1) = rest := by simp
  rw [setopts, if_neg (by simp), idxOf?_append_cons h]
  simp only [hdrop, List.take_left]

theorem setopts_last (n : ℕ) {segment : LuaString} (h : ',' ∉ segment) (hne : segment ≠ []) :
    setopts (n + 1) segment st = some (st.setOption segment) := by
  rw [setopts, if_neg (mt List.length_eq_zero_iff.mp hne), List.idxOf?_eq_none_iff.mpr h]

/-- Enough nested calls set the pairs of all segments; nothing is printed when every segment has an `=`. -/
theorem setopts_eq : ∀ (n : ℕ) (s : LuaString), s.count ',' < n → ∃ printed,
    setopts n s st = some ⟨overridden st.options (assignments s), printed⟩ ∧
      ((∀ segment ∈ s.splitOn ',', '=' ∈ segment) → printed = st.printed)
  | n + 1, s, hn => by
    by_cases hcomma : ',' ∈ s
    · obtain ⟨segment, rest, rfl, hsegment⟩ := List.eq_append_cons_of_mem hcomma
      have hcount : rest.count ',' < n := by
        rw [List.count_append, List.count_cons_self] at hn
        omega
      have hsplit := List.splitOn_append_cons_self_of_not_mem hsegment rest
      have hassign : assignments (segment ++ ',' :: rest) = (keyValue segment).toList ++ assignments rest := by
        rw [assignments, hsplit, List.filterMap_cons]
        cases keyValue segment <;> rfl
      obtain ⟨printed, hrest, hprinted⟩ := setopts_eq n rest hcount
      rw [setopts_comma st n hsegment, hrest, Option.map_some, hassign, overridden_append]
      refine ⟨_, congrArg some (setOption_eq _ segment), fun h => ?_⟩
      rw [hsplit] at h
      rw [setOption_printed _ (h _ List.mem_cons_self), hprinted fun x hx => h x (List.mem_cons_of_mem _ hx)]
    have hsplit := List.splitOn_eq_singleton hcomma
    have hassign : assignments s = (keyValue s).toList := by
      rw [assignments, hsplit, List.filterMap_cons]
      cases keyValue s <;> rfl
    by_cases hs : s = []
    · subst hs
      refine ⟨st.printed, ?_, fun _ => rfl⟩
      rw [setopts, if_pos List.length_nil, hassign]
      exact congrArg (fun t => some (OptionState.mk t _)) (overridden_nil _).symm
    · rw [setopts_last st n hcomma hs, hassign]
      refine ⟨_, congrArg some (setOption_eq _ s), fun h => ?_⟩
      exact setOption_printed _ (h s (hsplit ▸ List.mem_singleton_self s))

/-! ### Encoded pairs -/

variable {pairs : List (LuaString × LuaString)}

theorem splitOn_encodeOptions (hne : pairs ≠ []) (h : ∀ p ∈ pairs, ',' ∉ p.1 ∧ ',' ∉ p.2) :
    (encodeOptions pairs).splitOn ',' = pairs.map fun p => p.1 ++ '=' :: p.2 := by
  refine List.splitOn_intercalate ',' (fun segment hsegment => ?_) (by simpa using hne)
  obtain ⟨p, hp, rfl⟩ := List.mem_map.mp hsegment
  obtain ⟨hk, hv⟩ := h p hp
  simp [hk, hv]

theorem assignments_encodeOptions (hcomma : ∀ p ∈ pairs, ',' ∉ p.1 ∧ ',' ∉ p.2) (hkey : ∀ p ∈ pairs, '=' ∉ p.1) :
    assignments (encodeOptions pairs) = pairs := by
  by_cases hne : pairs = []
  · rw [hne]
    rfl
  rw [assignments, splitOn_encodeOptions hne hcomma, List.filterMap_map]
  have hall : ∀ p ∈ pairs, (keyValue ∘ fun p : LuaString × LuaString => p.1 ++ '=' :: p.2) p = some p := by
    intro p hp
    exact keyValue_append (hkey p hp)
  rw [List.filterMap_congr hall, List.filterMap_some]

/-- Nothing is printed about encoded pairs. -/
theorem setopts_encodeOptions (n : ℕ) (hn : (encodeOptions pairs).count ',' < n)
    (hcomma : ∀ p ∈ pairs, ',' ∉ p.1 ∧ ',' ∉ p.2) (hkey : ∀ p ∈ pairs, '=' ∉ p.1) :
    setopts n (encodeOptions pairs) st = some ⟨overridden st.options pairs, st.printed⟩ := by
  obtain ⟨printed, hset, hprinted⟩ := setopts_eq st n _ hn
  rw [assignments_encodeOptions hcomma hkey] at hset
  by_cases hne : pairs = []
  · subst hne
    cases n with
    | zero => omega
    | succ n =>
      rw [overridden_nil]
      rfl
  have hsegments : ∀ segment ∈ (encodeOptions pairs).splitOn ',', '=' ∈ segment := by
    intro segment hsegment
    rw [splitOn_encodeOptions hne hcomma] at hsegment
    obtain ⟨p, -, rfl⟩ := List.mem_map.mp hsegment
    simp
  rw [hset, hprinted hsegments]

omit [DecidableEq Class] [DecidableEq Ref] in
/-- The value of a key that occurs once. -/
theorem overridden_of_mem (options : Value Class Ref → Value Class Ref) (hnodup : (pairs.map Prod.fst).Nodup)
    {p : LuaString × LuaString} (hp : p ∈ pairs) : overridden options pairs (.string p.1) = .string p.2 := by
  rw [overridden, ListSplit.lookup_of_mem hnodup hp]
  rfl

theorem overridden_of_notMem (options : Value Class Ref → Value Class Ref) {x : Value Class Ref}
    (h : ∀ p ∈ pairs, x ≠ .string p.1) : overridden options pairs x = options x := by
  induction pairs with
  | nil => rw [overridden_nil]
  | cons q pairs ih =>
    rw [overridden_cons, Function.update_of_ne (h q List.mem_cons_self)]
    exact ih fun p hp => h p (List.mem_cons_of_mem _ hp)

/-- `setopts` ends and overrides the options by the leftmost pair of each key; pairs that are encoded are set, and
nothing else is. -/
theorem setopts_overrides (s : LuaString) (n : ℕ) (hn : s.count ',' < n) :
    (∃ printed, setopts n s st = some ⟨overridden st.options (assignments s), printed⟩) ∧
      ∀ pairs, (pairs.map Prod.fst).Nodup → (∀ p ∈ pairs, ',' ∉ p.1 ∧ '=' ∉ p.1 ∧ ',' ∉ p.2) →
        s = encodeOptions pairs → ∃ options, setopts n s st = some ⟨options, st.printed⟩ ∧
          (∀ p ∈ pairs, options (.string p.1) = .string p.2) ∧
          ∀ x, (∀ p ∈ pairs, x ≠ .string p.1) → options x = st.options x := by
  constructor
  · obtain ⟨printed, hset, -⟩ := setopts_eq st n s hn
    exact ⟨printed, hset⟩
  · rintro pairs hnodup hpairs rfl
    have hset := setopts_encodeOptions st n hn (fun p hp => ⟨(hpairs p hp).1, (hpairs p hp).2.2⟩)
      fun p hp => (hpairs p hp).2.1
    exact ⟨_, hset, fun p hp => overridden_of_mem _ hnodup hp, fun x hx => overridden_of_notMem _ hx⟩

/-- The left one of two values of a key is kept, and a value may contain `=`. -/
theorem runfile_overrides :
    ((setopts 3 "f=a,x,f=b".toList (⟨fun _ => .nil, []⟩ : OptionState Unit Unit)).map fun st =>
      (st.options (.string ['f']), st.printed)) = some (.string ['a'], ["Invalid option: x".toList]) ∧
    ∃ options, setopts 2 "x=1=2,y=".toList (⟨fun _ => .nil, []⟩ : OptionState Unit Unit) = some ⟨options, []⟩ ∧
      options (.string ['x']) = .string "1=2".toList ∧ options (.string ['z']) = .nil := by
  refine ⟨by decide, ?_⟩
  have hboth := setopts_overrides (⟨fun _ => .nil, []⟩ : OptionState Unit Unit) "x=1=2,y=".toList 2 (by decide)
  obtain ⟨options, hset, hmem, hrest⟩ :=
    hboth.2 [(['x'], "1=2".toList), (['y'], [])] (by decide) (by decide) (by decide)
  exact ⟨options, hset, hmem (['x'], "1=2".toList) (by decide), hrest (.string ['z']) (by decide)⟩

end Whole

end YellowTree
