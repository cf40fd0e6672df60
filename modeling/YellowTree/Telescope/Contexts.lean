import YellowTree.Lib.Forest
import YellowTree.Lua.Value

/-!
# YellowTree.Telescope.Contexts — the table of contexts and tests

A test file is a tree of blocks: contexts with further blocks, tests, and `before` and `after` blocks, which set the
field of that name in the entry of the context they stand in, so that the last one counts.  `load_contexts` runs the
file and appends an entry for each context and test, with the number of the context it stands in.

* `loadFiles_eq`: the entries are the contexts and tests of all files in preorder, with the last `before` and `after` of
  each context; a `before` or `after` outside of any context is an error.
* `ancestors_eq`: what `ancestors` finds in the table, sorted, are the contexts around a block, outermost first.
-/

namespace YellowTree

namespace Telescope

variable {Func : Type}

/-! ## Blocks and entries -/

section Model

/-- The blocks of a test file, in order; a test without a function is pending. -/
inductive Blocks (Func : Type) where
  | nil
  | context (name : LuaString) (body rest : Blocks Func)
  | test (name : LuaString) (func : Option Func) (rest : Blocks Func)
  | before (func : Func) (rest : Blocks Func)
  | after (func : Func) (rest : Blocks Func)

/-- An entry of the contexts table, without its `parent`.  `test` is nil, true (for a pending test) or a function. -/
structure Entry (Func : Type) where
  name : LuaString
  context : Bool
  contextName : Option LuaString
  test : Option (Option Func)
  before : Option Func
  after : Option Func

structure ContextItem (Func : Type) extends Entry Func where
  parent : ℕ

def topLevel : LuaString := "top level".toList

def indexNil : LuaError := .message "attempt to index a nil value"

/-- `context_table[current_index].before = func`, or `.after`. -/
def setField (table : List (ContextItem Func)) (currentIndex : ℕ) (f : ContextItem Func → ContextItem Func) :
    Except LuaError (List (ContextItem Func)) :=
  match currentIndex with
  | 0 => .error indexNil
  | i + 1 => if i < table.length then .ok (table.modify i f) else .error indexNil

/-- The blocks run, with `context_block`, `test_block`, `before_block` and `after_block`. -/
def loadBlocks (currentIndex : ℕ) : Blocks Func → List (ContextItem Func) → Except LuaError (List (ContextItem Func))
  | .nil, table => .ok table
  | .context name body rest, table => do
    let table := table ++ [⟨⟨name, true, none, none, none, none⟩, currentIndex⟩]
    let table ← loadBlocks table.length body table
    loadBlocks currentIndex rest table
  | .test name func rest, table => do
    let contextName ← match currentIndex with
      | 0 => .ok topLevel
      | i + 1 => match table[i]? with
        | some item => .ok item.name
        | none => .error indexNil
    loadBlocks currentIndex rest (table ++ [⟨⟨name, false, some contextName, some func, none, none⟩, currentIndex⟩])
  | .before func rest, table => do
    let table ← setField table currentIndex fun item => { item with before := some func }
    loadBlocks currentIndex rest table
  | .after func rest, table => do
    let table ← setField table currentIndex fun item => { item with after := some func }
    loadBlocks currentIndex rest table

/-- `load_contexts` on each file, with one table. -/
def loadFiles : List (Blocks Func) → List (ContextItem Func) → Except LuaError (List (ContextItem Func))
  | [], table => .ok table
  | file :: files, table => do
    let table ← loadBlocks 0 file table
    loadFiles files table

/-- `contexts[i].parent`. -/
def parentOf (table : List (ContextItem Func)) (i : ℕ) : Option ℕ :=
  match i with
  | 0 => none
  | i + 1 => table[i]?.map ContextItem.parent

/-- `ancestors`, which starts from an entry; `none` where it indexes nil. -/
def ancestors (i : ℕ) (table : List (ContextItem Func)) : Option (List ℕ) := Forest.chain (parentOf table) (i + 1) i

end Model

/-! ## What a file means -/

section Meaning

namespace Blocks

/-- The last `before` block that stands directly in the blocks. -/
def lastBefore : Blocks Func → Option Func → Option Func
  | nil, f => f
  | context _ _ rest, f => rest.lastBefore f
  | test _ _ rest, f => rest.lastBefore f
  | before func rest, _ => rest.lastBefore (some func)
  | after _ rest, f => rest.lastBefore f

def lastAfter : Blocks Func → Option Func → Option Func
  | nil, f => f
  | context _ _ rest, f => rest.lastAfter f
  | test _ _ rest, f => rest.lastAfter f
  | before _ rest, f => rest.lastAfter f
  | after func rest, _ => rest.lastAfter (some func)

/-- A `before` or `after` block stands outside of any context. -/
def hooked : Blocks Func → Bool
  | nil => false
  | context _ _ rest => rest.hooked
  | test _ _ rest => rest.hooked
  | before _ _ => true
  | after _ _ => true

/-- The contexts and tests as trees; `contextName` is the name of what they stand in. -/
def forest (contextName : LuaString) : Blocks Func → Forest (Entry Func)
  | nil => .nil
  | context name body rest =>
    .node ⟨name, true, none, none, body.lastBefore none, body.lastAfter none⟩ (body.forest name)
      (rest.forest contextName)
  | test name func rest => .node ⟨name, false, some contextName, some func, none, none⟩ .nil (rest.forest contextName)
  | before _ rest => rest.forest contextName
  | after _ rest => rest.forest contextName

end Blocks

/-- All files. -/
def filesForest : List (Blocks Func) → Forest (Entry Func)
  | [] => .nil
  | file :: files => (file.forest topLevel).append (filesForest files)

/-- The entries of a forest below `p`, the first one at `n + 1`. -/
def items (p n : ℕ) (f : Forest (Entry Func)) : List (ContextItem Func) :=
  List.zipWith ContextItem.mk f.preorder (f.parents p n)

end Meaning

/-! ## Loading -/

section Loading

/-- What the blocks of a context do to its entry. -/
def Blocks.hookItem (b : Blocks Func) (item : ContextItem Func) : ContextItem Func :=
  { item with before := b.lastBefore item.before, after := b.lastAfter item.after }

theorem ok_bind {α β : Type} (a : α) (f : α → Except LuaError β) : (Except.ok a >>= f) = f a := rfl

theorem bind_eq_ok {α β : Type} {x : Except LuaError α} {f : α → Except LuaError β} {b : β} (h : (x >>= f) = .ok b) :
    ∃ a, x = .ok a ∧ f a = .ok b := by
  cases x with
  | ok a => exact ⟨a, rfl, h⟩
  | error e => cases h

theorem modify_append_left {α : Type} (l l' : List α) {i : ℕ} (h : i < l.length) (f : α → α) :
    (l ++ l').modify i f = l.modify i f ++ l' := by
  induction l generalizing i with
  | nil => exact absurd h (Nat.not_lt_zero i)
  | cons a l ih =>
    cases i with
    | zero => rfl
    | succ i =>
      rw [List.cons_append, List.modify_succ_cons, List.modify_succ_cons, List.cons_append, ih (by simpa using h)]

theorem modify_concat {α : Type} (l : List α) (a : α) (f : α → α) : (l ++ [a]).modify l.length f = l ++ [f a] := by
  induction l with
  | nil => rfl
  | cons b l ih => rw [List.cons_append, List.length_cons, List.modify_succ_cons, ih, List.cons_append]

@[simp] theorem length_items (p n : ℕ) (f : Forest (Entry Func)) : (items p n f).length = f.size := by
  rw [items, List.length_zipWith, Forest.length_preorder, Forest.length_parents, Nat.min_self]

theorem items_node (p n : ℕ) (e : Entry Func) (children rest : Forest (Entry Func)) :
    items p n (.node e children rest) =
      ⟨e, p⟩ :: (items (n + 1) (n + 1) children ++ items p (n + 1 + children.size) rest) := by
  rw [items, Forest.preorder, Forest.parents, List.zipWith_cons_cons, List.zipWith_append (by simp)]
  rfl

theorem items_append (p n : ℕ) (f g : Forest (Entry Func)) :
    items p n (f.append g) = items p n f ++ items p (n + f.size) g := by
  rw [items, Forest.preorder_append, Forest.parents_append, List.zipWith_append (by simp)]
  rfl

/-- What the blocks of a context do: they set the fields of its entry, and append theirs. -/
def RunsInContext (b : Blocks Func) : Prop :=
  ∀ (table : List (ContextItem Func)) (i : ℕ) (item : ContextItem Func), table[i]? = some item →
    loadBlocks (i + 1) b table = .ok (table.modify i b.hookItem ++ items (i + 1) table.length (b.forest item.name))

/-- A context block: its entry, with the fields that the body sets, and the entries of the body. -/
theorem RunsInContext.body {b : Blocks Func} (h : RunsInContext b) (table : List (ContextItem Func))
    (name : LuaString) (p : ℕ) :
    loadBlocks (table.length + 1) b (table ++ [⟨⟨name, true, none, none, none, none⟩, p⟩]) =
      .ok (table ++ ⟨⟨name, true, none, none, b.lastBefore none, b.lastAfter none⟩, p⟩ ::
        items (table.length + 1) (table.length + 1) (b.forest name)) := by
  rw [h _ _ _ (List.getElem?_concat_length ..), modify_concat, List.length_append, List.length_singleton,
    List.append_assoc]
  rfl

theorem runsInContext (b : Blocks Func) : RunsInContext b := by
  induction b with
  | nil =>
    intro table i item _
    rw [loadBlocks, show (Blocks.nil : Blocks Func).hookItem = id from rfl, List.modify_id, Blocks.forest]
    exact congrArg _ (List.append_nil table).symm
  | context name body rest ihb ihr =>
    intro table i item hitem
    have hi : i < table.length := (List.getElem?_eq_some_iff.mp hitem).1
    rw [loadBlocks, List.length_append, List.length_singleton, ihb.body, ok_bind,
      ihr _ _ item (by rw [List.getElem?_append_left hi, hitem]), modify_append_left table _ hi, List.length_append,
      List.length_cons, length_items, Blocks.forest, items_node, List.append_assoc, List.cons_append]
    rw [show table.length + ((body.forest name).size + 1) = table.length + 1 + (body.forest name).size by omega]
    rfl
  | test name func rest ih =>
    intro table i item hitem
    have hi : i < table.length := (List.getElem?_eq_some_iff.mp hitem).1
    rw [loadBlocks, hitem]
    dsimp only
    rw [ok_bind, ih _ _ item (by rw [List.getElem?_append_left hi, hitem]), modify_append_left table _ hi,
      List.length_append, List.length_singleton, List.append_assoc, Blocks.forest, items_node]
    rfl
  | before func rest ih =>
    intro table i item hitem
    have hi : i < table.length := (List.getElem?_eq_some_iff.mp hitem).1
    rw [loadBlocks, setField, if_pos hi, ok_bind, ih _ _ _ (by rw [List.getElem?_modify_eq, hitem]; rfl),
      List.modify_modify_eq, List.length_modify]
    rfl
  | after func rest ih =>
    intro table i item hitem
    have hi : i < table.length := (List.getElem?_eq_some_iff.mp hitem).1
    rw [loadBlocks, setField, if_pos hi, ok_bind, ih _ _ _ (by rw [List.getElem?_modify_eq, hitem]; rfl),
      List.modify_modify_eq, List.length_modify]
    rfl

/-- Outside of any context, the blocks append their entries, or one of them is an error. -/
theorem loadBlocks_top (b : Blocks Func) (table : List (ContextItem Func)) :
    loadBlocks 0 b table =
      if b.hooked then .error indexNil else .ok (table ++ items 0 table.length (b.forest topLevel)) := by
  induction b generalizing table with
  | nil => exact (congrArg Except.ok (List.append_nil table)).symm
  | context name body rest ihb ihr =>
    rw [loadBlocks, List.length_append, List.length_singleton, (runsInContext body).body, ok_bind, ihr,
      List.length_append, List.length_cons, length_items, Blocks.forest, items_node, List.append_assoc,
      List.cons_append]
    rw [show table.length + ((body.forest name).size + 1) = table.length + 1 + (body.forest name).size by omega]
    rfl
  | test name func rest ih =>
    rw [loadBlocks]
    dsimp only
    rw [ok_bind, ih, List.length_append, List.length_singleton, List.append_assoc, Blocks.forest, items_node]
    rfl
  | before func rest ih => rfl
  | after func rest ih => rfl

/-- **Loading** files, one after another. -/
theorem loadFiles_eq (files : List (Blocks Func)) (table : List (ContextItem Func)) :
    loadFiles files table =
      if files.any Blocks.hooked then .error indexNil
      else .ok (table ++ items 0 table.length (filesForest files)) := by
  induction files generalizing table with
  | nil => exact (congrArg Except.ok (List.append_nil table)).symm
  | cons file files ih =>
    rw [loadFiles, loadBlocks_top, List.any_cons]
    cases file.hooked with
    | true => rfl
    | false =>
      rw [if_neg Bool.false_ne_true, ok_bind, ih, List.length_append, length_items, Bool.false_or, filesForest,
        items_append, List.append_assoc]

end Loading

/-! ## Ancestors -/

section Ancestors

/-- `contexts[i]`, without its parent. -/
def entryOf (table : List (ContextItem Func)) (i : ℕ) : Option (Entry Func) :=
  match i with
  | 0 => none
  | i + 1 => table[i]?.map ContextItem.toEntry

theorem getElem?_items {p n j x : ℕ} {f : Forest (Entry Func)} {e : Entry Func} (he : f.preorder[j]? = some e)
    (hx : (f.parents p n)[j]? = some x) : (items p n f)[j]? = some ⟨e, x⟩ := by
  rw [items, List.getElem?_zipWith, he, hx]

/-- The table holds the forest. -/
theorem placed_items (f : Forest (Entry Func)) :
    Forest.Placed (parentOf (items 0 0 f)) (entryOf (items 0 0 f)) 0 0 f := by
  constructor
  · intro j x hx
    have hlt : j < f.preorder.length := by
      rw [Forest.length_preorder, ← Forest.length_parents f 0 0]
      exact (List.getElem?_eq_some_iff.mp hx).1
    rw [Nat.zero_add, Nat.add_comm, parentOf, getElem?_items (List.getElem?_eq_getElem hlt) hx]
    rfl
  · intro j e he
    have hlt : j < (f.parents 0 0).length := by
      rw [Forest.length_parents, ← Forest.length_preorder]
      exact (List.getElem?_eq_some_iff.mp he).1
    rw [Nat.zero_add, Nat.add_comm, entryOf, getElem?_items he (List.getElem?_eq_getElem hlt)]
    rfl

/-- **The ancestors of an entry**, sorted, are the contexts around it, outermost first. -/
theorem ancestors_eq (f : Forest (Entry Func)) {i : ℕ} {path : List (Entry Func)} (h : (f.paths [])[i]? = some path) :
    ∃ above, ancestors (i + 1) (items 0 0 f) = some above ∧ parentOf (items 0 0 f) (i + 1) = some (above.headD 0) ∧
      (∀ x ∈ above, x ≠ 0) ∧ above.mergeSort (· ≤ ·) = above.reverse ∧
      above.reverse.map (entryOf (items 0 0 f)) = path.map some := by
  obtain ⟨above, hpath⟩ := (placed_items f).hasPath (Or.inl ⟨rfl, rfl⟩) (Nat.le_refl 0) i path h
  rw [Nat.zero_add, Nat.add_comm] at hpath
  exact ⟨above, hpath.chain_eq (Nat.lt_succ_self _), hpath.parent_eq, hpath.ne_zero_of_mem, hpath.mergeSort,
    hpath.map_label⟩

end Ancestors

end Telescope

end YellowTree
