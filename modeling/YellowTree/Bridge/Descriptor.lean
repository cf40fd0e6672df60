import YellowTree.Lua.Value

/-!
# YellowTree.Bridge.Descriptor — JVM field descriptors and `parse_arg_spec`

`FieldType` is a field type of the class file format, `descriptor` its text.  `parseArgSpec` is the loop that
`jcallable_method.lua` runs over the text between the parentheses of a method descriptor.  It knows arrays of one
dimension only: `pieces t` are the strings it cuts a descriptor into (`parseArgSpec_params`), one string exactly when
`t` is not an array of arrays.

* `splitsExactly_iff`: a list of descriptors is split as it should be exactly when it has no array of arrays.
-/

namespace YellowTree

/-! ## Field types -/

section FieldType

inductive PrimType where
  | Z | B | C | S | I | J | F | D
  deriving DecidableEq

def PrimType.char : PrimType → Char
  | .Z => 'Z' | .B => 'B' | .C => 'C' | .S => 'S' | .I => 'I' | .J => 'J' | .F => 'F' | .D => 'D'

/-- A class name in internal form (`java/lang/String`). -/
structure ClassName where
  text : LuaString
  legal : text ≠ [] ∧ ∀ c ∈ text, c ≠ ';' ∧ c ≠ '.' ∧ c ≠ '['
  deriving DecidableEq

inductive FieldType where
  | prim (p : PrimType)
  | cls (name : ClassName)
  | arr (elem : FieldType)
  deriving DecidableEq

namespace FieldType

/-- The text of a field type: `I`, `Ljava/lang/String;`, `[I`. -/
def descriptor : FieldType → LuaString
  | .prim p => [p.char]
  | .cls n => 'L' :: (n.text ++ [';'])
  | .arr t => '[' :: t.descriptor

/-- The strings that `parse_arg_spec` cuts a descriptor into: `[[` is taken for an array of a primitive. -/
def pieces : FieldType → List LuaString
  | .arr (.arr t) => ['[', '['] :: t.pieces
  | .arr (.prim p) => [['[', p.char]]
  | .arr (.cls n) => ['[' :: 'L' :: (n.text ++ [';'])]
  | .prim p => [[p.char]]
  | .cls n => ['L' :: (n.text ++ [';'])]

/-- Not an array of arrays. -/
def flat : FieldType → Bool
  | .arr (.arr _) => false
  | _ => true

theorem pieces_ne_nil (t : FieldType) : t.pieces ≠ [] := by
  fun_cases pieces t <;> simp

theorem pieces_of_flat {t : FieldType} (h : t.flat = true) : t.pieces = [t.descriptor] := by
  fun_cases pieces t
  · simp [flat] at h
  all_goals rfl

theorem one_lt_length_pieces {t : FieldType} (h : t.flat = false) : 1 < t.pieces.length := by
  fun_cases pieces t
  case case1 t =>
    have := List.length_pos_of_ne_nil (pieces_ne_nil t)
    simp only [List.length_cons]
    omega
  all_goals simp [flat] at h

theorem length_pieces_pos (t : FieldType) : 1 ≤ t.pieces.length :=
  List.length_pos_of_ne_nil (pieces_ne_nil t)

theorem dot_notMem_descriptor (t : FieldType) : '.' ∉ t.descriptor := by
  induction t with
  | prim p => cases p <;> decide
  | cls n =>
    have hn : '.' ∉ n.text := fun h => (n.legal.2 _ h).2.1 rfl
    simp [descriptor, hn]
  | arr t ih => simp [descriptor, ih]

end FieldType

end FieldType

/-! ## `parse_arg_spec` -/

section Parse

/-- The `while` loop of `parse_arg_spec`; `none` when `endi + 1` is evaluated with `endi` nil.  Every round removes
at least one character, so the length of the text is enough fuel (`parseArgSpecLoop_fuel`). -/
def parseArgSpecLoop : ℕ → LuaString → Option (List LuaString)
  | 0, _ => some []
  | fuel + 1, argspec =>
    if argspec = [] then some []
    else
      let char1 := argspec.take 1
      let char2 := (argspec.drop 1).take 1
      if char1 = ['L'] ∨ (char1 = ['['] ∧ char2 = ['L']) then
        -- object / object array
        match argspec.idxOf? ';' with
        | none => none
        | some endi => (parseArgSpecLoop fuel (argspec.drop (endi + 1))).map (argspec.take (endi + 1) :: ·)
      else if char1 = ['['] then
        -- primitive array
        (parseArgSpecLoop fuel (argspec.drop 2)).map ((char1 ++ char2) :: ·)
      else
        -- primitive type (single char)
        (parseArgSpecLoop fuel (argspec.drop 1)).map (char1 :: ·)

/-- Split an argument spec into its components. -/
def parseArgSpec (argspec : LuaString) : Option (List LuaString) := parseArgSpecLoop argspec.length argspec

theorem parseArgSpecLoop_fuel : ∀ (n m : ℕ) (s : LuaString), s.length ≤ n → s.length ≤ m →
    parseArgSpecLoop n s = parseArgSpecLoop m s
  | 0, m, s, hn, _ => by
    obtain rfl : s = [] := List.length_eq_zero_iff.mp (by omega)
    cases m <;> simp [parseArgSpecLoop]
  | n + 1, 0, s, _, hm => by
    obtain rfl : s = [] := List.length_eq_zero_iff.mp (by omega)
    simp [parseArgSpecLoop]
  | n + 1, m + 1, s, hn, hm => by
    by_cases hs : s = []
    · simp [parseArgSpecLoop, hs]
    have hpos := List.length_pos_of_ne_nil hs
    have hdrop : ∀ k, 1 ≤ k → parseArgSpecLoop n (s.drop k) = parseArgSpecLoop m (s.drop k) := fun k hk =>
      parseArgSpecLoop_fuel n m (s.drop k) (by rw [List.length_drop]; omega) (by rw [List.length_drop]; omega)
    unfold parseArgSpecLoop
    simp only [hs, if_false, hdrop 1 le_rfl, hdrop 2 (by omega)]
    split_ifs with h1 h2
    · cases hi : s.idxOf? ';' with
      | none => rfl
      | some endi => simp only [hdrop (endi + 1) (by omega)]
    · rfl
    · rfl

/-- One round of the loop. -/
theorem parseArgSpec_round {s : LuaString} (hs : s ≠ []) :
    parseArgSpec s =
      if s.take 1 = ['L'] ∨ (s.take 1 = ['['] ∧ (s.drop 1).take 1 = ['L']) then
        match s.idxOf? ';' with
        | none => none
        | some endi => (parseArgSpec (s.drop (endi + 1))).map (s.take (endi + 1) :: ·)
      else if s.take 1 = ['['] then (parseArgSpec (s.drop 2)).map ((s.take 1 ++ (s.drop 1).take 1) :: ·)
      else (parseArgSpec (s.drop 1)).map (s.take 1 :: ·) := by
  have hpos := List.length_pos_of_ne_nil hs
  have hdrop : ∀ k, 1 ≤ k → parseArgSpecLoop (s.length - 1) (s.drop k) = parseArgSpec (s.drop k) := fun k hk =>
    parseArgSpecLoop_fuel _ _ _ (by rw [List.length_drop]; omega) le_rfl
  conv_lhs => rw [parseArgSpec, show s.length = s.length - 1 + 1 by omega, parseArgSpecLoop]
  simp only [hs, if_false, hdrop 1 le_rfl, hdrop 2 (by omega)]
  split_ifs
  · cases s.idxOf? ';' with
    | none => rfl
    | some endi => simp only [hdrop (endi + 1) (by omega)]
  · rfl
  · rfl

/-- A primitive type is one piece. -/
theorem parseArgSpec_prim (p : PrimType) (rest : LuaString) :
    parseArgSpec (p.char :: rest) = (parseArgSpec rest).map ([p.char] :: ·) := by
  rw [parseArgSpec_round (List.cons_ne_nil _ _)]
  cases p <;> simp [PrimType.char]

/-- An array of a primitive is one piece, and so are the first two brackets of an array of arrays. -/
theorem parseArgSpec_bracket {c : Char} (hc : c ≠ 'L') (rest : LuaString) :
    parseArgSpec ('[' :: c :: rest) = (parseArgSpec rest).map (['[', c] :: ·) := by
  rw [parseArgSpec_round (List.cons_ne_nil _ _)]
  simp [hc]

theorem idxOf?_append_cons {c : Char} {p : LuaString} (hc : c ∉ p) (rest : LuaString) :
    (p ++ c :: rest).idxOf? c = some p.length := by
  have hp : ∀ d ∈ p, (d == c) = false := fun d hd => by simpa using fun h : d = c => hc (h ▸ hd)
  rw [List.idxOf?, List.findIdx?_append, List.findIdx?_eq_none_iff.mpr hp]
  simp [List.findIdx?_cons]

/-- An object or an array of objects is one piece, up to the first semicolon. -/
theorem parseArgSpec_upto_semi {p : LuaString} (hp : ';' ∉ p) (hL : p.take 1 = ['L'] ∨ p.take 2 = ['[', 'L'])
    (rest : LuaString) :
    parseArgSpec (p ++ ';' :: rest) = (parseArgSpec rest).map ((p ++ [';']) :: ·) := by
  have hs : p ++ ';' :: rest ≠ [] := by simp
  have hhead : (p ++ ';' :: rest).take 1 = ['L'] ∨
      ((p ++ ';' :: rest).take 1 = ['['] ∧ ((p ++ ';' :: rest).drop 1).take 1 = ['L']) := by
    rcases p with _ | ⟨a, _ | ⟨b, p⟩⟩
    · simp at hL
    · exact Or.inl (by simpa using hL)
    · simpa using hL
  have hsplit : p ++ ';' :: rest = (p ++ [';']) ++ rest := by simp
  have hlen : (p ++ [';']).length = p.length + 1 := by simp
  rw [parseArgSpec_round hs, if_pos hhead, idxOf?_append_cons hp]
  simp only
  rw [hsplit, ← hlen, List.take_left, List.drop_left]

theorem ClassName.semi_notMem (n : ClassName) : ';' ∉ n.text := fun h => (n.legal.2 _ h).1 rfl

/-- A class type is one piece. -/
theorem parseArgSpec_cls (n : ClassName) (rest : LuaString) :
    parseArgSpec ('L' :: (n.text ++ ';' :: rest)) = (parseArgSpec rest).map (('L' :: (n.text ++ [';'])) :: ·) :=
  parseArgSpec_upto_semi (p := 'L' :: n.text) (by simp [n.semi_notMem]) (Or.inl rfl) rest

/-- An array of a class type is one piece. -/
theorem parseArgSpec_arr_cls (n : ClassName) (rest : LuaString) :
    parseArgSpec ('[' :: 'L' :: (n.text ++ ';' :: rest)) =
      (parseArgSpec rest).map (('[' :: 'L' :: (n.text ++ [';'])) :: ·) :=
  parseArgSpec_upto_semi (p := '[' :: 'L' :: n.text) (by simp [n.semi_notMem]) (Or.inr rfl) rest

/-- `parse_arg_spec` cuts a descriptor off the front into its pieces. -/
theorem parseArgSpec_descriptor_append (t : FieldType) (rest : LuaString) :
    parseArgSpec (t.descriptor ++ rest) = (parseArgSpec rest).map (t.pieces ++ ·) := by
  induction t using FieldType.pieces.induct with
  | case1 t ih =>
    simp only [FieldType.descriptor, FieldType.pieces, List.cons_append]
    rw [parseArgSpec_bracket (by decide), ih, Option.map_map]
    rfl
  | case2 p =>
    have hp : p.char ≠ 'L' := by cases p <;> decide
    simpa [FieldType.descriptor, FieldType.pieces] using parseArgSpec_bracket hp rest
  | case3 n => simpa [FieldType.descriptor, FieldType.pieces] using parseArgSpec_arr_cls n rest
  | case4 p => simpa [FieldType.descriptor, FieldType.pieces] using parseArgSpec_prim p rest
  | case5 n => simpa [FieldType.descriptor, FieldType.pieces] using parseArgSpec_cls n rest

/-- `parse_arg_spec` on the concatenated descriptors of a parameter list terminates with their pieces. -/
theorem parseArgSpec_params (params : List FieldType) :
    parseArgSpec (params.flatMap FieldType.descriptor) = some (params.flatMap FieldType.pieces) := by
  induction params with
  | nil => rfl
  | cons t params ih => rw [List.flatMap_cons, parseArgSpec_descriptor_append, ih]; rfl

theorem flatMap_pieces_of_flat {params : List FieldType} (h : ∀ t ∈ params, t.flat = true) :
    params.flatMap FieldType.pieces = params.map FieldType.descriptor := by
  induction params with
  | nil => rfl
  | cons t params ih =>
    rw [List.flatMap_cons, List.map_cons, FieldType.pieces_of_flat (h t (by simp)),
      ih fun t' ht' => h t' (by simp [ht'])]
    rfl

theorem length_le_length_flatMap_pieces (params : List FieldType) :
    params.length ≤ (params.flatMap FieldType.pieces).length := by
  induction params with
  | nil => simp
  | cons t params ih =>
    have := t.length_pieces_pos
    simp only [List.flatMap_cons, List.length_append, List.length_cons]
    omega

/-- The number of pieces is the number of parameters only when no parameter is an array of arrays. -/
theorem flat_of_length_pieces {params : List FieldType}
    (h : (params.flatMap FieldType.pieces).length = params.length) : ∀ t ∈ params, t.flat = true := by
  induction params with
  | nil => simp
  | cons t params ih =>
    have hp := t.length_pieces_pos
    have hl := length_le_length_flatMap_pieces params
    simp only [List.flatMap_cons, List.length_append, List.length_cons] at h
    intro t' ht'
    rcases List.mem_cons.mp ht' with rfl | ht'
    · by_contra hf
      have := FieldType.one_lt_length_pieces (by simpa using hf)
      omega
    · exact ih (by omega) t' ht'

/-- The loop of `parse_arg_spec` ends on the concatenation of `ds`, with `ds`: every round adds a piece, so that a
result which more fuel does not change is that of a finished loop. -/
def SplitsExactly (ds : List FieldType) : Prop :=
  ∃ n, ∀ m, n ≤ m → parseArgSpecLoop m (ds.flatMap FieldType.descriptor) = some (ds.map FieldType.descriptor)

/-- **Descriptors are split correctly** exactly when none of them is an array of arrays. -/
theorem splitsExactly_iff (ds : List FieldType) : SplitsExactly ds ↔ ∀ t ∈ ds, t.flat = true := by
  have hloop : ∀ m, (ds.flatMap FieldType.descriptor).length ≤ m →
      parseArgSpecLoop m (ds.flatMap FieldType.descriptor) = some (ds.flatMap FieldType.pieces) := by
    intro m hm
    rw [← parseArgSpec_params]
    exact parseArgSpecLoop_fuel _ _ _ hm le_rfl
  constructor
  · rintro ⟨n, hn⟩
    have hsome := hn (max n (ds.flatMap FieldType.descriptor).length) (le_max_left _ _)
    rw [hloop _ (le_max_right _ _)] at hsome
    refine flat_of_length_pieces ?_
    rw [Option.some.inj hsome, List.length_map]
  · intro hflat
    refine ⟨(ds.flatMap FieldType.descriptor).length, fun m hm => ?_⟩
    rw [hloop m hm, flatMap_pieces_of_flat hflat]

/-- `[[I` is split into `[[` and `I`. -/
theorem int2_not_splitsExactly : ¬ SplitsExactly [.arr (.arr (.prim .I))] := by
  rintro ⟨n, hn⟩
  have hsplit := hn (max n 3) (le_max_left _ _)
  rw [parseArgSpecLoop_fuel (max n 3) 3 _ (le_max_right _ _) le_rfl] at hsplit
  exact absurd hsplit (by decide)

/-- A piece that begins an object type and has no semicolon stops `parse_arg_spec` with an error. -/
theorem parseArgSpec_unclosed {u : LuaString} (hu : ';' ∉ u) :
    ∀ k : ℕ, parseArgSpec (List.replicate k '[' ++ 'L' :: u) = none := by
  have hnone : ∀ p : LuaString, ';' ∉ p → p.idxOf? ';' = none := fun p hp =>
    List.idxOf?_eq_none_iff.mpr hp
  intro k
  induction k using Nat.strong_induction_on with
  | _ k ih =>
    match k with
    | 0 =>
      have h0 := hnone ('L' :: u) (by simp [hu])
      rw [List.replicate_zero, List.nil_append, parseArgSpec_round (List.cons_ne_nil _ _)]
      simp [h0]
    | 1 =>
      have h1 := hnone ('[' :: 'L' :: u) (by simp [hu])
      rw [show List.replicate 1 '[' ++ 'L' :: u = '[' :: 'L' :: u from rfl,
        parseArgSpec_round (List.cons_ne_nil _ _)]
      simp [h1]
    | k + 2 =>
      have h2 : List.replicate (k + 2) '[' ++ 'L' :: u = '[' :: '[' :: (List.replicate k '[' ++ 'L' :: u) := rfl
      rw [h2, parseArgSpec_bracket (by decide), ih k (by omega)]
      rfl

/-- A descriptor is brackets, then a primitive or a class. -/
theorem FieldType.descriptor_cases (t : FieldType) :
    ∃ k, (∃ p : PrimType, t.descriptor = List.replicate k '[' ++ [p.char]) ∨
      ∃ n : ClassName, t.descriptor = List.replicate k '[' ++ 'L' :: (n.text ++ [';']) := by
  induction t with
  | prim p => exact ⟨0, Or.inl ⟨p, rfl⟩⟩
  | cls n => exact ⟨0, Or.inr ⟨n, rfl⟩⟩
  | arr t ih =>
    obtain ⟨k, ⟨p, h⟩ | ⟨n, h⟩⟩ := ih
    · exact ⟨k + 1, Or.inl ⟨p, by rw [FieldType.descriptor, h]; rfl⟩⟩
    · exact ⟨k + 1, Or.inr ⟨n, by rw [FieldType.descriptor, h]; rfl⟩⟩

end Parse

end YellowTree
