import YellowTree.Bridge.MethodId

/-!
# YellowTree.Emacs.JavaNames — Java identifiers and qualified names

Names as Java source files have them.  An identifier is a text of letters, digits, `_`, `$` and the bytes of other
characters; none of the characters that the text of a frame or of a signature uses as a separator is among them
(`identChar_ne`).
-/

namespace YellowTree

/-- A byte of an identifier. -/
def identChar (c : Char) : Bool := c.isAlphanum || c = '_' || c = '$' || 128 ≤ c.toNat

structure JavaIdent where
  text : LuaString
  legal : text ≠ [] ∧ ∀ c ∈ text, identChar c = true

/-- Names, with a character behind each. -/
def terminated (sep : Char) (names : List JavaIdent) : LuaString := names.flatMap fun i => i.text ++ [sep]

/-- A class in a package.  The name of a nested class is that of the outer one, a `$` and its own. -/
structure QualifiedName where
  pkg : List JavaIdent
  simple : JavaIdent

namespace QualifiedName

variable (q : QualifiedName)

/-- `Class.getName()`. -/
def text : LuaString := terminated '.' q.pkg ++ q.simple.text

/-- The directory of the package, with a slash at its end. -/
def dir : LuaString := terminated '/' q.pkg

end QualifiedName

theorem identChar_ne {c d : Char} (hc : identChar c = true) (hd : identChar d = false) : c ≠ d := by
  rintro rfl
  rw [hc] at hd
  cases hd

theorem JavaIdent.not_mem (i : JavaIdent) {d : Char} (hd : identChar d = false) : d ∉ i.text :=
  fun hmem => identChar_ne (i.legal.2 d hmem) hd rfl

theorem terminated_cons (sep : Char) (i : JavaIdent) (names : List JavaIdent) :
    terminated sep (i :: names) = i.text ++ sep :: terminated sep names := by
  unfold terminated
  rw [List.flatMap_cons, List.append_assoc]
  rfl

theorem mem_terminated {sep d : Char} {names : List JavaIdent} (hd : d ∈ terminated sep names) :
    identChar d = true ∨ d = sep := by
  obtain ⟨i, -, hi⟩ := List.mem_flatMap.mp hd
  rcases List.mem_append.mp hi with hi | hi
  · exact Or.inl (i.legal.2 d hi)
  · exact Or.inr (List.mem_singleton.mp hi)

/-- A character of a qualified name. -/
theorem QualifiedName.of_mem_text {q : QualifiedName} {c : Char} (hc : c ∈ q.text) : identChar c = true ∨ c = '.' := by
  rcases List.mem_append.mp hc with hc | hc
  · exact mem_terminated hc
  · exact Or.inl (q.simple.legal.2 c hc)

theorem QualifiedName.not_mem {q : QualifiedName} {d : Char} (hd : identChar d = false) (hdot : d ≠ '.') :
    d ∉ q.text := by
  intro hmem
  rcases of_mem_text hmem with hc | hc
  · rw [hd] at hc
    cases hc
  · exact hdot hc

section Map

/-! A function that keeps the characters of identifiers. -/

variable {f : Char → Char} (hid : ∀ c, identChar c = true → f c = c)
include hid

theorem JavaIdent.map_text (i : JavaIdent) : i.text.map f = i.text :=
  (List.map_congr_left fun c hc => hid c (i.legal.2 c hc)).trans (List.map_id _)

theorem map_terminated (sep : Char) (names : List JavaIdent) :
    (terminated sep names).map f = terminated (f sep) names := by
  unfold terminated
  rw [List.map_flatMap]
  refine List.flatMap_congr fun i _ => ?_
  rw [List.map_append, i.map_text hid]
  rfl

/-- The name with slashes for dots. -/
theorem QualifiedName.map_text (hdot : f '.' = '/') (q : QualifiedName) :
    q.text.map f = q.dir ++ q.simple.text := by
  unfold text dir
  rw [List.map_append, map_terminated hid, q.simple.map_text hid, hdot]

end Map

theorem QualifiedName.text_ne_nil (q : QualifiedName) : q.text ≠ [] := by
  intro hnil
  exact q.simple.legal.1 (List.append_eq_nil_iff.mp hnil).2

end YellowTree
